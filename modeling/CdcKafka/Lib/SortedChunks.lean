import Mathlib.Data.List.Basic
import Mathlib.Algebra.BigOperators.Group.List.Basic
import Mathlib.Algebra.Group.Action.Defs
import Mathlib.Algebra.Order.Group.Nat
import Mathlib.Data.List.Flatten
import Mathlib.Order.Basic
import Mathlib.Order.Nat

/-! Sorted sequences that are cut into chunks, of which only the last is not full, and the search for a key through the
first keys of the chunks. The rank of a key is how many elements are not behind it. -/

namespace CdcKafka.Lib

def bisect (right : ℕ → Bool) (low high : ℕ) : ℕ :=
  if low < high then
    if right (low + (high - low) / 2) then bisect right (low + (high - low) / 2 + 1) high
    else bisect right low (low + (high - low) / 2)
  else low
termination_by high - low

theorem bisect_spec {right : ℕ → Bool} {low high : ℕ} (hle : low ≤ high)
    (hmono : ∀ i j, i ≤ j → j < high → right j = true → right i = true) :
    bisect right low high ≤ high ∧ (∀ i, low ≤ i → i < bisect right low high → right i = true) ∧
      ∀ i, bisect right low high ≤ i → i < high → right i = false := by
  induction low, high using bisect.induct right with
  | case1 low high hlt hright ih =>
    rw [bisect, if_pos hlt, if_pos hright]
    obtain ⟨hend, hbefore, hbehind⟩ := ih (by omega) hmono
    refine ⟨hend, fun i hi hr => ?_, hbehind⟩
    rcases Nat.lt_or_ge (low + (high - low) / 2) i with hmid | hmid
    · exact hbefore i hmid hr
    · exact hmono i _ hmid (by omega) hright
  | case2 low high hlt hright ih =>
    rw [bisect, if_pos hlt, if_neg hright]
    obtain ⟨hend, hbefore, hbehind⟩ := ih (by omega) (fun i j hij hj => hmono i j hij (by omega))
    refine ⟨by omega, hbefore, fun i hr hi => ?_⟩
    rcases Nat.lt_or_ge i (low + (high - low) / 2) with hmid | hmid
    · exact hbehind i hr hmid
    · exact Bool.eq_false_iff.mpr fun h => hright (hmono _ i hmid hi h)
  | case3 low high hlt =>
    rw [bisect, if_neg hlt]
    exact ⟨hle, fun i hi hr => absurd hr (by omega), fun i hr hi => absurd hr (by omega)⟩

variable {α κ : Type*} [LinearOrder κ] (key : α → κ) (x : κ)

def rank (l : List α) : ℕ := l.countP fun a => key a ≤ x

def Ascending (l : List α) : Prop := l.Pairwise fun a b => key a < key b

variable {key x} {l : List α} {i : ℕ}

theorem rank_append (l₁ l₂ : List α) : rank key x (l₁ ++ l₂) = rank key x l₁ + rank key x l₂ :=
  List.countP_append

theorem rank_le_length : rank key x l ≤ l.length := List.countP_le_length

theorem rank_eq_length (h : ∀ a ∈ l, key a ≤ x) : rank key x l = l.length :=
  List.countP_eq_length.mpr fun a ha => decide_eq_true (h a ha)

theorem rank_eq_zero (h : ∀ a ∈ l, x < key a) : rank key x l = 0 :=
  List.countP_eq_zero.mpr fun a ha => by simpa using h a ha

theorem lt_of_rank_eq_zero (h : rank key x l = 0) : ∀ a ∈ l, x < key a := fun a ha => by
  simpa using List.countP_eq_zero.mp h a ha

theorem rank_map {β : Type*} {key : β → κ} (f : α → β) : rank key x (l.map f) = rank (key ∘ f) x l :=
  List.countP_map

theorem ascending_map {β : Type*} {key : β → κ} (f : α → β) : Ascending key (l.map f) ↔ Ascending (key ∘ f) l :=
  List.pairwise_map

theorem Ascending.lt_rank_iff (h : Ascending key l) (hi : i < l.length) : i < rank key x l ↔ key l[i] ≤ x := by
  induction l generalizing i with
  | nil => exact absurd hi (Nat.not_lt_zero i)
  | cons a l ih =>
    obtain ⟨ha, hl⟩ := List.pairwise_cons.mp h
    by_cases hax : key a ≤ x
    · have hcons : rank key x (a :: l) = rank key x l + 1 := List.countP_cons_of_pos (by simpa using hax)
      rw [hcons]
      cases i with
      | zero => simpa using hax
      | succ i => simpa using ih hl (Nat.lt_of_succ_lt_succ hi)
    · have hzero : rank key x (a :: l) = 0 :=
        rank_eq_zero (List.forall_mem_cons.mpr ⟨not_le.mp hax, fun b hb => (not_le.mp hax).trans (ha b hb)⟩)
      rw [hzero]
      refine ⟨fun hlt => absurd hlt (Nat.not_lt_zero i), fun hle => absurd hle (not_le.mpr ?_)⟩
      exact lt_of_rank_eq_zero hzero _ (List.getElem_mem hi)

theorem Ascending.bisect_eq_rank (h : Ascending key l) {right : ℕ → Bool}
    (hright : ∀ (i : ℕ) (hi : i < l.length), right i = true ↔ key l[i] ≤ x) :
    bisect right 0 l.length = rank key x l := by
  have hmono : ∀ i j, i ≤ j → j < l.length → right j = true → right i = true := by
    intro i j hij hj hr
    have hi : i < l.length := by omega
    rw [hright i hi, ← h.lt_rank_iff hi]
    rw [hright j hj, ← h.lt_rank_iff hj] at hr
    omega
  obtain ⟨hend, hbefore, hbehind⟩ := bisect_spec (Nat.zero_le _) hmono
  have hrank : rank key x l ≤ l.length := rank_le_length
  refine le_antisymm (Nat.le_of_not_lt fun hlt => ?_) (Nat.le_of_not_lt fun hlt => ?_)
  · have hi : rank key x l < l.length := by omega
    have hr := hbefore _ (Nat.zero_le _) hlt
    rw [hright _ hi, ← h.lt_rank_iff hi] at hr
    exact lt_irrefl _ hr
  · have hi : bisect right 0 l.length < l.length := by omega
    have hr := hbehind _ (le_refl _) hi
    rw [h.lt_rank_iff hi, ← hright _ hi, hr] at hlt
    exact Bool.noConfusion hlt

theorem Ascending.mem_iff_bisect (h : Ascending key l) {right : ℕ → Bool}
    (hright : ∀ (i : ℕ) (hi : i < l.length), right i = true ↔ key l[i] < x) :
    (∃ a ∈ l, key a = x) ↔ ∃ hr : bisect right 0 l.length < l.length, key l[bisect right 0 l.length] = x := by
  have hsorted := List.pairwise_iff_getElem.mp h
  have hmono : ∀ i j, i ≤ j → j < l.length → right j = true → right i = true := by
    intro i j hij hj hr
    have hi : i < l.length := by omega
    rw [hright j hj] at hr
    rw [hright i hi]
    rcases Nat.lt_or_eq_of_le hij with hlt | rfl
    · exact (hsorted i j hi hj hlt).trans hr
    · exact hr
  obtain ⟨-, hbefore, hbehind⟩ := bisect_spec (Nat.zero_le _) hmono
  refine ⟨?_, fun ⟨hr, hx⟩ => ⟨_, List.getElem_mem hr, hx⟩⟩
  rintro ⟨a, ha, rfl⟩
  obtain ⟨j, hj, rfl⟩ := List.mem_iff_getElem.mp ha
  have hle : bisect right 0 l.length ≤ j := Nat.le_of_not_lt fun hlt =>
    absurd ((hright j hj).mp (hbefore j (Nat.zero_le _) hlt)) (lt_irrefl _)
  rcases Nat.lt_or_eq_of_le hle with hlt | heq
  · have hr : bisect right 0 l.length < l.length := hlt.trans hj
    have hfalse := hbehind _ (le_refl _) hr
    rw [(hright _ hr).mpr (hsorted _ j hr hj hlt)] at hfalse
    exact Bool.noConfusion hfalse
  · exact ⟨heq ▸ hj, by congr 2⟩

variable [Inhabited α] {cs : List (List α)}

theorem headI_mem {c : List α} (h : c ≠ []) : c.headI ∈ c := by
  cases c with
  | nil => exact absurd rfl h
  | cons a c => exact List.mem_cons_self

theorem Ascending.headI_le {c : List α} (h : Ascending key c) : ∀ a ∈ c, key c.headI ≤ key a := by
  cases c with
  | nil => exact fun a ha => absurd ha List.not_mem_nil
  | cons b c => exact List.forall_mem_cons.mpr ⟨le_refl _, fun a ha => ((List.pairwise_cons.mp h).1 a ha).le⟩

theorem Ascending.heads (h : Ascending key cs.flatten) (hne : ∀ c ∈ cs, c ≠ []) :
    Ascending key (cs.map List.headI) := by
  refine List.pairwise_map.mpr (((List.pairwise_flatten.mp h).2).imp_of_mem fun ha hb hab => ?_)
  exact hab _ (headI_mem (hne _ ha)) _ (headI_mem (hne _ hb))

theorem rank_flatten_eq_zero (h : Ascending key cs.flatten) (hrank : rank key x (cs.map List.headI) = 0) :
    rank key x cs.flatten = 0 := by
  refine rank_eq_zero fun a ha => ?_
  obtain ⟨c, hc, hac⟩ := List.mem_flatten.mp ha
  have hchunk : Ascending key c := (List.pairwise_flatten.mp h).1 c hc
  exact (lt_of_rank_eq_zero hrank _ (List.mem_map_of_mem hc)).trans_le (hchunk.headI_le a hac)

theorem rank_flatten (h : Ascending key cs.flatten) (hne : ∀ c ∈ cs, c ≠ []) {k : ℕ}
    (hrank : rank key x (cs.map List.headI) = k + 1) :
    ∃ before c behind, cs = before ++ c :: behind ∧ before.length = k ∧ key c.headI ≤ x ∧
      (∀ a ∈ before.flatten, key a < key c.headI) ∧ (∀ a ∈ behind.flatten, x < key a) ∧
      rank key x cs.flatten = before.flatten.length + rank key x c := by
  have hheads := h.heads hne
  have hlen : k < cs.length := by
    have := @rank_le_length _ _ _ key x (cs.map List.headI)
    rw [List.length_map] at this
    omega
  have hsplit : cs = cs.take k ++ cs[k] :: cs.drop (k + 1) := by
    rw [List.getElem_cons_drop, List.take_append_drop]
  have hmem : cs[k] ∈ cs := List.getElem_mem hlen
  have hle : key cs[k].headI ≤ x := by
    have := (hheads.lt_rank_iff (x := x) (i := k) (by rwa [List.length_map])).mp (by omega)
    rwa [List.getElem_map] at this
  have hchunks := (List.pairwise_flatten.mp h).2
  rw [hsplit, List.pairwise_append] at hchunks
  have hbefore : ∀ a ∈ (cs.take k).flatten, key a < key cs[k].headI := by
    intro a ha
    obtain ⟨c, hc, hac⟩ := List.mem_flatten.mp ha
    exact hchunks.2.2 c hc _ List.mem_cons_self a hac _ (headI_mem (hne _ hmem))
  have hbehind : ∀ a ∈ (cs.drop (k + 1)).flatten, x < key a := by
    intro a ha
    obtain ⟨c, hc, hac⟩ := List.mem_flatten.mp ha
    obtain ⟨j, hj, rfl⟩ := List.mem_iff_getElem.mp hc
    rw [List.length_drop] at hj
    rw [List.getElem_drop] at hac
    have hj' : k + 1 + j < cs.length := by omega
    have hfar : x < key cs[k + 1 + j].headI := by
      have := (hheads.lt_rank_iff (x := x) (i := k + 1 + j) (by rwa [List.length_map])).not.mp (by omega)
      rwa [List.getElem_map, not_le] at this
    have hchunk : Ascending key cs[k + 1 + j] := (List.pairwise_flatten.mp h).1 _ (List.getElem_mem hj')
    exact hfar.trans_le (hchunk.headI_le a hac)
  refine ⟨cs.take k, cs[k], cs.drop (k + 1), hsplit, List.length_take_of_le hlen.le, hle, hbefore, hbehind, ?_⟩
  conv_lhs => rw [hsplit]
  rw [List.flatten_append, List.flatten_cons, rank_append, rank_append,
    rank_eq_length fun a ha => (hbefore a ha).le.trans hle, rank_eq_zero hbehind, Nat.add_zero]

theorem mem_flatten_iff_of_rank {before behind : List (List α)} {c : List α} (hcs : cs = before ++ c :: behind)
    (hbefore : ∀ a ∈ before.flatten, key a < key c.headI) (hle : key c.headI ≤ x)
    (hbehind : ∀ a ∈ behind.flatten, x < key a) {a : α} (ha : key a = x) :
    a ∈ cs.flatten ↔ a ∈ c := by
  rw [hcs, List.flatten_append, List.flatten_cons, List.mem_append, List.mem_append]
  refine ⟨fun hmem => ?_, fun hmem => Or.inr (Or.inl hmem)⟩
  rcases hmem with hmem | hmem | hmem
  · exact absurd (ha ▸ hbefore a hmem) (not_lt.mpr hle)
  · exact hmem
  · exact absurd (ha ▸ hbehind a hmem) (lt_irrefl _)

structure FullChunks (m : ℕ) (full : List (List α)) (last : List α) : Prop where
  full_length : ∀ c ∈ full, c.length = m
  last_ne : last ≠ []
  last_le : last.length ≤ m

omit [Inhabited α]

variable {m : ℕ} {full : List (List α)} {last : List α} {a : α}

theorem FullChunks.ne_nil (h : FullChunks m full last) : ∀ c ∈ full ++ [last], c ≠ [] := by
  have hm : 0 < m := (List.length_pos_iff.mpr h.last_ne).trans_le h.last_le
  intro c hc
  rcases List.mem_append.mp hc with hc | hc
  · exact List.length_pos_iff.mp (h.full_length c hc ▸ hm)
  · exact List.mem_singleton.mp hc ▸ h.last_ne

theorem FullChunks.grow (h : FullChunks m full last) (hroom : last.length < m) (a : α) : FullChunks m full (last ++ [a]) where
  full_length := h.full_length
  last_ne := List.append_ne_nil_of_right_ne_nil _ (List.cons_ne_nil _ _)
  last_le := by rw [List.length_append, List.length_singleton]; exact hroom

theorem FullChunks.extend (h : FullChunks m full last) (hfull : ¬ last.length < m) (a : α) :
    FullChunks m (full ++ [last]) [a] where
  full_length := by
    refine List.forall_mem_append.mpr ⟨h.full_length, List.forall_mem_singleton.mpr ?_⟩
    exact le_antisymm h.last_le (Nat.le_of_not_lt hfull)
  last_ne := List.cons_ne_nil _ _
  last_le := (List.length_pos_iff.mpr h.last_ne).trans_le h.last_le

theorem FullChunks.length_flatten (h : FullChunks m full last) :
    (full ++ [last]).flatten.length = full.length * m + last.length := by
  have hsum : full.flatten.length = full.length * m := by
    rw [List.length_flatten, List.map_congr_left h.full_length, List.map_const', List.sum_replicate, smul_eq_mul]
  rw [List.flatten_append, List.length_append, hsum, List.flatten_singleton]

end CdcKafka.Lib
