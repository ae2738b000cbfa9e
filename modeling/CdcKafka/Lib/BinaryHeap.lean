import Mathlib.Logic.Equiv.Basic
import Mathlib.Order.Lattice

/-! Binary heaps in an array, least key first: building, replacing and removing the root. -/

namespace CdcKafka.Lib.BinaryHeap

variable {α κ : Type} [LinearOrder κ] (key : α → κ) (size : Nat)

def swapOff (a : Nat → α) (off : Nat) : Nat :=
  if 2 * off + 2 < size ∧ key (a (2 * off + 2)) < key (a (2 * off + 1)) then 2 * off + 2
  else 2 * off + 1

def siftDownFrom : Nat → (Nat → α) → Nat → Nat → α
  | 0, a, _ => a
  | fuel + 1, a, off =>
    let swap := swapOff key size a off
    if size ≤ 2 * off + 1 ∨ key (a off) ≤ key (a swap) then a
    else siftDownFrom fuel (a ∘ Equiv.swap off swap) swap

def siftDown (a : Nat → α) (off : Nat) : Nat → α := siftDownFrom key size size a off

def buildFrom : Nat → (Nat → α) → Nat → α
  | 0, a => a
  | off + 1, a => buildFrom off (siftDown key size a off)

def parentOffset (off : Nat) : Nat := (off - 1) / 2

def build (a : Nat → α) : Nat → α :=
  buildFrom key size (if size = 0 then 0 else parentOffset (size - 1) + 1) a

def replaceFirst (a : Nat → α) (d : α) : Nat → α :=
  if 1 < size then siftDown key size (Function.update a 0 d) 0 else Function.update a 0 d

def removeFirst (a : Nat → α) : Nat → α :=
  if size = 1 then a else siftDown key (size - 1) (Function.update a 0 (a (size - 1))) 0

def HeapFrom (k : Nat) (a : Nat → α) : Prop :=
  ∀ off child, k ≤ off → (child = 2 * off + 1 ∨ child = 2 * off + 2) → child < size → key (a off) ≤ key (a child)

structure HeapExcept (k hole : Nat) (a : Nat → α) : Prop where
  off : ∀ off child, k ≤ off → off ≠ hole → (child = 2 * off + 1 ∨ child = 2 * off + 2) →
    child < size → key (a off) ≤ key (a child)
  across : ∀ off child, k ≤ off → (hole = 2 * off + 1 ∨ hole = 2 * off + 2) →
    (child = 2 * hole + 1 ∨ child = 2 * hole + 2) → child < size → key (a off) ≤ key (a child)

variable {key size} {a : Nat → α} {off k : Nat}

theorem swapOff_spec (key : α → κ) (a : Nat → α) (h : ¬ size ≤ 2 * off + 1) :
    (swapOff key size a off = 2 * off + 1 ∨ swapOff key size a off = 2 * off + 2) ∧ swapOff key size a off < size ∧
      ∀ child, (child = 2 * off + 1 ∨ child = 2 * off + 2) → child < size →
        key (a (swapOff key size a off)) ≤ key (a child) := by
  unfold swapOff
  split
  · next hright =>
    refine ⟨.inr rfl, hright.1, ?_⟩
    rintro child (rfl | rfl) _
    · exact le_of_lt hright.2
    · exact le_refl _
  · next hright =>
    refine ⟨.inl rfl, by omega, ?_⟩
    rintro child (rfl | rfl) hchild
    · exact le_refl _
    · exact le_of_not_gt fun hlt => hright ⟨hchild, hlt⟩

theorem HeapExcept.swap (h : HeapExcept key size k off a) (hk : k ≤ off)
    (hleft : ¬ size ≤ 2 * off + 1) (hlt : key (a (swapOff key size a off)) < key (a off)) :
    HeapExcept key size k (swapOff key size a off) (a ∘ Equiv.swap off (swapOff key size a off)) := by
  obtain ⟨hchild, hsize, hmin⟩ := swapOff_spec key a hleft
  generalize swapOff key size a off = s at *
  have hoff : (a ∘ Equiv.swap off s) off = a s := by simp
  have hs : (a ∘ Equiv.swap off s) s = a off := by simp
  have hother : ∀ i, i ≠ off → i ≠ s → (a ∘ Equiv.swap off s) i = a i := by
    intro i hi hi'
    simp [Equiv.swap_apply_of_ne_of_ne hi hi']
  constructor
  · intro i child hki his hic hcs
    by_cases hio : i = off
    · subst hio
      rw [hoff]
      by_cases hcs' : child = s
      · rw [hcs', hs]
        exact le_of_lt hlt
      · rw [hother child (by omega) hcs']
        exact hmin child hic hcs
    · rw [hother i hio his]
      by_cases hco : child = off
      · -- the parent of the hole gets a child of the hole below it
        rw [hco, hoff]
        exact h.across i s hki (by omega) hchild hsize
      · rw [hother child hco (by omega)]
        exact h.off i child hki hio hic hcs
  · intro i child hki hsi hcs hcsize
    obtain rfl : i = off := by omega
    rw [hoff, hother child (by omega) (by omega)]
    exact h.off s child (by omega) (by omega) hcs hcsize

theorem siftDownFrom_heapFrom {fuel : Nat} (h : HeapExcept key size k off a) (hk : k ≤ off)
    (hfuel : size ≤ off + fuel) : HeapFrom key size k (siftDownFrom key size fuel a off) := by
  induction fuel generalizing a off with
  | zero =>
    intro i child hki hic hcs
    exact h.off i child hki (by omega) hic hcs
  | succ fuel ih =>
    rw [siftDownFrom]
    split
    · next hstop =>
      intro i child hki hic hcs
      by_cases hio : i = off
      · subst hio
        rcases hstop with hnone | hle
        · omega
        · have hleft : ¬ size ≤ 2 * i + 1 := by omega
          obtain ⟨-, -, hmin⟩ := swapOff_spec key a hleft
          exact hle.trans (hmin child hic hcs)
      · exact h.off i child hki hio hic hcs
    · next hgo =>
      rw [not_or] at hgo
      obtain ⟨hchild, -, -⟩ := swapOff_spec key a hgo.1
      exact ih (h.swap hk hgo.1 (not_le.mp hgo.2)) (by omega) (by omega)

theorem siftDown_heapFrom (h : HeapFrom key size (off + 1) a) : HeapFrom key size off (siftDown key size a off) := by
  refine siftDownFrom_heapFrom ⟨?_, ?_⟩ (Nat.le_refl off) (by omega)
  · intro i child hki hio hic hcs
    exact h i child (by omega) hic hcs
  · intro i child hki hhole
    omega

theorem buildFrom_heapFrom (h : HeapFrom key size off a) : HeapFrom key size 0 (buildFrom key size off a) := by
  induction off generalizing a with
  | zero => exact h
  | succ off ih => exact ih (siftDown_heapFrom h)

theorem build_heap : HeapFrom key size 0 (build key size a) := by
  refine buildFrom_heapFrom ?_
  intro i child hki hic hcs
  rw [if_neg (by omega)] at hki
  simp only [parentOffset] at hki
  omega

theorem siftDown_root {key' : α → κ} {b : Nat → α} {n : Nat} (h : HeapFrom key size 0 a)
    (hn : n ≤ size) (hb : ∀ i, 0 < i → i < n → key' (b i) = key (a i)) :
    HeapFrom key' n 0 (siftDown key' n b 0) := by
  refine siftDown_heapFrom ?_
  intro i child hki hic hcs
  rw [hb i (by omega) (by omega), hb child (by omega) hcs]
  exact h i child (by omega) hic (by omega)

theorem replaceFirst_heap {key' : α → κ} {d : α} (h : HeapFrom key size 0 a)
    (hkey : ∀ i, 0 < i → i < size → key' (a i) = key (a i)) :
    HeapFrom key' size 0 (replaceFirst key' size a d) := by
  unfold replaceFirst
  split
  · refine siftDown_root h (Nat.le_refl size) fun i hpos hi => ?_
    rw [Function.update_of_ne (by omega)]
    exact hkey i hpos hi
  · intro i child _ hic hcs
    omega

theorem removeFirst_heap {key' : α → κ} (h : HeapFrom key size 0 a)
    (hkey : ∀ i, 0 < i → i < size → key' (a i) = key (a i)) :
    HeapFrom key' (size - 1) 0 (removeFirst key' size a) := by
  unfold removeFirst
  split
  · intro i child _ hic hcs
    omega
  · refine siftDown_root h (Nat.sub_le size 1) fun i hpos hi => ?_
    rw [Function.update_of_ne (by omega)]
    exact hkey i hpos (by omega)

theorem root_le (h : HeapFrom key size 0 a) : ∀ i, i < size → key (a 0) ≤ key (a i) := by
  intro i
  induction i using Nat.strongRecOn with
  | ind i ih =>
    intro hi
    rcases Nat.eq_zero_or_pos i with rfl | hpos
    · exact le_refl _
    · have hparent := ih ((i - 1) / 2) (by omega) (by omega)
      exact hparent.trans (h ((i - 1) / 2) i (by omega) (by omega) hi)

def Rearranged (size : Nat) (a b : Nat → α) : Prop :=
  ∃ p : Equiv.Perm Nat, (∀ i, i < size ↔ p i < size) ∧ b = a ∘ p

theorem Rearranged.refl (size : Nat) (a : Nat → α) : Rearranged size a a :=
  ⟨Equiv.refl _, fun _ => Iff.rfl, rfl⟩

theorem Rearranged.trans {b c : Nat → α} (hab : Rearranged size a b) (hbc : Rearranged size b c) :
    Rearranged size a c := by
  obtain ⟨p, hp, rfl⟩ := hab
  obtain ⟨q, hq, rfl⟩ := hbc
  exact ⟨q.trans p, fun i => (hq i).trans (hp (q i)), rfl⟩

theorem rearranged_swap {i j : Nat} (hi : i < size) (hj : j < size) : Rearranged size a (a ∘ Equiv.swap i j) := by
  refine ⟨Equiv.swap i j, fun k => ?_, rfl⟩
  by_cases hki : k = i
  · subst hki
    simp [hi, hj]
  · by_cases hkj : k = j
    · subst hkj
      simp [hi, hj]
    · rw [Equiv.swap_apply_of_ne_of_ne hki hkj]

theorem siftDownFrom_rearranged {fuel : Nat} : Rearranged size a (siftDownFrom key size fuel a off) := by
  induction fuel generalizing a off with
  | zero => exact .refl size a
  | succ fuel ih =>
    rw [siftDownFrom]
    split
    · exact .refl size a
    · next hgo =>
      rw [not_or] at hgo
      obtain ⟨-, hswap, -⟩ := swapOff_spec key a hgo.1
      exact (rearranged_swap (by omega) hswap).trans ih

theorem buildFrom_rearranged : Rearranged size a (buildFrom key size off a) := by
  induction off generalizing a with
  | zero => exact .refl size a
  | succ off ih => exact siftDownFrom_rearranged.trans ih

variable {b : Nat → α}

theorem replaceFirst_rearranged (key : α → κ) (size : Nat) (a : Nat → α) :
    Rearranged size a (replaceFirst key size a (a 0)) := by
  unfold replaceFirst
  rw [Function.update_eq_self]
  split
  · exact siftDownFrom_rearranged
  · exact .refl size a

theorem removeFirst_rearranged (key : α → κ) (size : Nat) (a : Nat → α) :
    ∃ f : Nat → Nat, (∀ i, i < size - 1 → 0 < f i ∧ f i < size) ∧
      (∀ i j, i < size - 1 → j < size - 1 → f i = f j → i = j) ∧
      (∀ j, 0 < j → j < size → ∃ i < size - 1, f i = j) ∧
      ∀ i < size - 1, removeFirst key size a i = a (f i) := by
  -- the last node goes to the root, and the rest is a rearrangement
  have hmoved : ∀ i < size - 1, Function.update a 0 (a (size - 1)) i = a (if i = 0 then size - 1 else i) := by
    intro i _
    by_cases h0 : i = 0
    · simp [h0]
    · simp [h0]
  unfold removeFirst
  split
  · next hone =>
    refine ⟨id, ?_, ?_, ?_, ?_⟩
    all_goals intros
    all_goals omega
  · next hone =>
    obtain ⟨p, hp, hsift⟩ : Rearranged (size - 1) (Function.update a 0 (a (size - 1)))
        (siftDown key (size - 1) (Function.update a 0 (a (size - 1))) 0) :=
      siftDownFrom_rearranged
    refine ⟨fun i => if p i = 0 then size - 1 else p i, ?_, ?_, ?_, ?_⟩
    · intro i hi
      have hpi := (hp i).mp hi
      dsimp only
      split <;> omega
    · intro i j hi hj heq
      have hpi := (hp i).mp hi
      have hpj := (hp j).mp hj
      refine p.injective ?_
      dsimp only at heq
      split at heq <;> split at heq <;> omega
    · intro j hpos hj
      by_cases hlast : j = size - 1
      · refine ⟨p.symm 0, (hp _).mpr (by simp; omega), ?_⟩
        simp [hlast]
      · refine ⟨p.symm j, (hp _).mpr (by simp; omega), ?_⟩
        have hne : j ≠ 0 := by omega
        simp [hne]
    · intro i hi
      have hpi := (hp i).mp hi
      rw [hsift, Function.comp_apply, hmoved (p i) hpi]

end CdcKafka.Lib.BinaryHeap
