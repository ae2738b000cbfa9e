import Mathlib.Data.List.Perm.Basic
import Mathlib.Data.List.Induction
import Mathlib.Order.Lattice

/-! Loops over a list whose result does not depend on the order of the list. -/

namespace CdcKafka.OrderFree

variable {α β ε : Type}

variable {f : β → α → Except ε β}

theorem foldlM_eq_foldl {g : β → α → β} {l : List α} (h : ∀ a ∈ l, ∀ b, f b a = .ok (g b a)) (b : β) :
    l.foldlM f b = .ok (l.foldl g b) := by
  induction l generalizing b with
  | nil => rfl
  | cons a l ih =>
    rw [List.foldlM_cons, h a List.mem_cons_self b]
    exact ih (fun c hc => h c (List.mem_cons_of_mem a hc)) (g b a)

theorem foldlM_error {l : List α} {a : α} (hmem : a ∈ l) (h : ∀ b, ∃ e, f b a = .error e) (b : β) :
    ∃ e, l.foldlM f b = .error e := by
  induction l generalizing b with
  | nil => exact absurd hmem List.not_mem_nil
  | cons c l ih =>
    rw [List.foldlM_cons]
    obtain rfl | hmem := List.mem_cons.mp hmem
    · obtain ⟨e, he⟩ := h b
      exact ⟨e, by rw [he]; rfl⟩
    · cases hstep : f b c with
      | error e => exact ⟨e, rfl⟩
      | ok b' => exact ih hmem b'

def agreed [DecidableEq β] (differ : ε) : Option β → List β → Except ε (Option β)
  | first, [] => .ok first
  | none, b :: l => agreed differ (some b) l
  | some a, b :: l => if a = b then agreed differ (some a) l else .error differ

theorem head?_eq_of_perm {l l' : List β} (h : l.Perm l') (same : ∀ a ∈ l, ∀ b ∈ l, a = b) : l.head? = l'.head? := by
  cases l with
  | nil => rw [h.nil_eq]
  | cons a l =>
    cases l' with
    | nil => exact absurd h.symm (List.not_perm_nil_cons a l)
    | cons b l' => exact congrArg some (same a List.mem_cons_self b (h.mem_iff.mpr List.mem_cons_self))

variable [DecidableEq β] {differ : ε}

theorem agreed_some (a : β) (l : List β) :
    agreed differ (some a) l = if ∀ b ∈ l, a = b then .ok (some a) else .error differ := by
  induction l with
  | nil => rw [if_pos fun _ hmem => absurd hmem List.not_mem_nil, agreed]
  | cons b l ih =>
    rw [agreed, ih]
    by_cases hab : a = b
    · rw [if_pos hab]
      exact if_congr (List.forall_mem_cons.trans (and_iff_right hab)).symm rfl rfl
    · rw [if_neg hab, if_neg fun hall => hab (hall b List.mem_cons_self)]

theorem agreed_none (l : List β) :
    agreed differ none l = if ∀ a ∈ l, ∀ b ∈ l, a = b then .ok l.head? else .error differ := by
  cases l with
  | nil => rw [if_pos fun _ hmem => absurd hmem List.not_mem_nil, agreed, List.head?_nil]
  | cons a l =>
    rw [agreed, agreed_some, List.head?_cons]
    refine if_congr ⟨fun hall b hb c hc => ?_, fun hall b hb => ?_⟩ rfl rfl
    · have same : ∀ d ∈ a :: l, a = d := List.forall_mem_cons.mpr ⟨rfl, hall⟩
      exact (same b hb).symm.trans (same c hc)
    · exact hall a List.mem_cons_self b (List.mem_cons_of_mem a hb)

theorem agreed_perm {l l' : List β} (h : l.Perm l') : agreed differ none l = agreed differ none l' := by
  rw [agreed_none, agreed_none]
  by_cases same : ∀ a ∈ l, ∀ b ∈ l, a = b
  · have same' : ∀ a ∈ l', ∀ b ∈ l', a = b := fun a ha b hb => same a (h.mem_iff.mpr ha) b (h.mem_iff.mpr hb)
    rw [if_pos same, if_pos same', head?_eq_of_perm h same]
  · have differs : ¬ ∀ a ∈ l', ∀ b ∈ l', a = b := fun same' =>
      same fun a ha b hb => same' a (h.mem_iff.mp ha) b (h.mem_iff.mp hb)
    rw [if_neg same, if_neg differs]

variable (key : α → Nat)

def keepTop (st : Nat × List α) (a : α) : Nat × List α :=
  if st.1 > key a then st
  else if st.1 < key a then (key a, [a])
  else (st.1, st.2 ++ [a])

def topKey (l : List α) : Nat := l.foldl (fun m a => max m (key a)) 0

variable {key}

theorem topKey_append (l : List α) (a : α) : topKey key (l ++ [a]) = max (topKey key l) (key a) := by
  rw [topKey, List.foldl_append]
  rfl

theorem key_le_topKey {l : List α} : ∀ a ∈ l, key a ≤ topKey key l := by
  induction l using List.reverseRecOn with
  | nil => exact fun _ hmem => absurd hmem List.not_mem_nil
  | append_singleton l a ih =>
    intro b hb
    rw [topKey_append]
    obtain hb | hb := List.mem_append.mp hb
    · exact (ih b hb).trans (le_max_left _ _)
    · rw [List.mem_singleton.mp hb]
      exact le_max_right _ _

theorem topKey_le {l : List α} {n : Nat} (h : ∀ a ∈ l, key a ≤ n) : topKey key l ≤ n := by
  induction l using List.reverseRecOn with
  | nil => exact Nat.zero_le n
  | append_singleton l a ih =>
    rw [topKey_append]
    exact max_le (ih fun b hb => h b (List.mem_append_left _ hb)) (h a (List.mem_append_right l List.mem_cons_self))

theorem topKey_perm {l l' : List α} (h : l.Perm l') : topKey key l = topKey key l' :=
  le_antisymm (topKey_le fun a ha => key_le_topKey a (h.mem_iff.mp ha))
    (topKey_le fun a ha => key_le_topKey a (h.mem_iff.mpr ha))

theorem foldl_keepTop (l : List α) :
    l.foldl (keepTop key) (0, []) = (topKey key l, l.filter fun a => key a = topKey key l) := by
  induction l using List.reverseRecOn with
  | nil => rfl
  | append_singleton l a ih =>
    rw [List.foldl_append, ih, List.foldl_cons, List.foldl_nil, keepTop, topKey_append, List.filter_append]
    by_cases hlt : topKey key l > key a
    · have hne : key a ≠ topKey key l := hlt.ne
      rw [if_pos hlt, max_eq_left hlt.le, List.filter_cons_of_neg (by simpa using hne), List.filter_nil,
        List.append_nil]
    · rw [if_neg hlt, max_eq_right (not_lt.mp hlt), List.filter_cons_of_pos (by simp), List.filter_nil]
      by_cases hgt : topKey key l < key a
      · -- everything kept so far is below the new key
        have below : l.filter (fun b => key b = key a) = [] := by
          refine List.filter_eq_nil_iff.mpr fun b hb => ?_
          have hle : key b ≤ topKey key l := key_le_topKey b hb
          simpa using (hle.trans_lt hgt).ne
        rw [if_pos hgt, below, List.nil_append]
      · have heq : topKey key l = key a := le_antisymm (not_lt.mp hlt) (not_lt.mp hgt)
        rw [if_neg hgt, heq]

end CdcKafka.OrderFree
