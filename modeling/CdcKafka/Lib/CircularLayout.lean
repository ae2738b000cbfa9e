import Mathlib.Data.List.Basic

/-! Blocks of different sizes that are laid out one behind the other in a circular buffer,
taken from its head and added behind its tail, without a block being split at the end. -/

namespace CdcKafka.Lib

abbrev Block := Nat × Nat

def Consecutive : Nat → List Block → Nat → Prop
  | a, [], b => a = b
  | a, (off, size) :: l, b => off = a ∧ Consecutive (a + size) l b

namespace Consecutive

variable {a b c : Nat} {l l' : List Block}

theorem append (h : Consecutive a l b) (h' : Consecutive b l' c) : Consecutive a (l ++ l') c := by
  induction l generalizing a with
  | nil =>
    obtain rfl : a = b := h
    exact h'
  | cons x l ih => exact ⟨h.1, ih h.2⟩

theorem push (h : Consecutive a l b) (size : Nat) : Consecutive a (l ++ [(b, size)]) (b + size) :=
  h.append ⟨rfl, rfl⟩

theorem le (h : Consecutive a l b) : a ≤ b := by
  induction l generalizing a with
  | nil => exact Nat.le_of_eq h
  | cons x l ih => exact Nat.le_trans (Nat.le_add_right a x.2) (ih h.2)

theorem between (h : Consecutive a l b) : ∀ x ∈ l, a ≤ x.1 ∧ x.1 + x.2 ≤ b := by
  induction l generalizing a with
  | nil => exact fun x hx => by cases hx
  | cons y l ih =>
    intro x hx
    rcases List.mem_cons.mp hx with rfl | hx
    · exact ⟨Nat.le_of_eq h.1.symm, by rw [h.1]; exact h.2.le⟩
    · obtain ⟨hlo, hhi⟩ := ih h.2 x hx
      exact ⟨Nat.le_trans (Nat.le_add_right a y.2) hlo, hhi⟩

end Consecutive

def Apart (x y : Block) : Prop := x.1 + x.2 ≤ y.1 ∨ y.1 + y.2 ≤ x.1

theorem Consecutive.apart {a b : Nat} {l : List Block} (h : Consecutive a l b) : l.Pairwise Apart := by
  induction l generalizing a with
  | nil => exact List.Pairwise.nil
  | cons x l ih =>
    refine List.Pairwise.cons ?_ (ih h.2)
    intro y hy
    left
    rw [h.1]
    exact (h.2.between y hy).1

/-- The blocks of a buffer of `n` cells, the oldest first. They either follow each other from
the head to the tail, or some of them up to the end and the rest from the start, where the tail
stays below the head. An empty buffer begins at its start. -/
structure Circular (n head tail : Nat) (l : List Block) : Prop where
  empty : l = [] → head = 0
  blocks : Consecutive head l tail ∧ tail ≤ n ∨
    ∃ front back e, l = front ++ back ∧ front ≠ [] ∧ back ≠ [] ∧ Consecutive head front e ∧ e ≤ n ∧
      Consecutive 0 back tail ∧ tail < head

namespace Circular

variable {n head tail : Nat} {l : List Block} {x : Block}

theorem nil (n : Nat) : Circular n 0 0 [] where
  empty := fun _ => rfl
  blocks := .inl ⟨rfl, Nat.zero_le n⟩

theorem straight (h : Circular n head tail l) (hle : head ≤ tail) : Consecutive head l tail ∧ tail ≤ n := by
  rcases h.blocks with hone | ⟨front, back, e, -, -, -, -, -, -, hlt⟩
  · exact hone
  · omega

theorem tail_of_nil (h : Circular n head tail []) : head = tail := by
  have hzero := h.empty rfl
  have hle : head ≤ tail := by
    rw [hzero]
    exact Nat.zero_le tail
  exact (h.straight hle).1

theorem head_eq (h : Circular n head tail (x :: l)) : head = x.1 := by
  rcases h.blocks with ⟨hone, -⟩ | ⟨front, back, e, heq, hfront, -, hc, -, -, -⟩
  · exact hone.1.symm
  · cases front with
    | nil => exact absurd rfl hfront
    | cons y front =>
      obtain ⟨rfl, -⟩ := List.cons.inj heq
      exact hc.1.symm

theorem inside (h : Circular n head tail l) : ∀ y ∈ l, y.1 + y.2 ≤ n := by
  intro y hy
  rcases h.blocks with ⟨hone, hle⟩ | ⟨front, back, e, rfl, -, -, hfront, he, hback, hlt⟩
  · exact Nat.le_trans (hone.between y hy).2 hle
  · have hhead := hfront.le
    rcases List.mem_append.mp hy with hy | hy
    · exact Nat.le_trans (hfront.between y hy).2 he
    · have hend := (hback.between y hy).2
      omega

theorem apart (h : Circular n head tail l) : l.Pairwise Apart := by
  rcases h.blocks with ⟨hone, -⟩ | ⟨front, back, e, rfl, -, -, hfront, -, hback, hlt⟩
  · exact hone.apart
  · refine List.pairwise_append.mpr ⟨hfront.apart, hback.apart, ?_⟩
    intro y hy z hz
    have hlow := (hfront.between y hy).1
    have hhigh := (hback.between z hz).2
    right
    omega

theorem push_end (h : Circular n head tail l) (hle : head ≤ tail) {size : Nat} (hfits : tail + size ≤ n) :
    Circular n head (tail + size) (l ++ [(tail, size)]) where
  empty := fun hnil => by simp at hnil
  blocks := .inl ⟨(h.straight hle).1.push size, hfits⟩

theorem push_start (h : Circular n head tail l) (hle : head ≤ tail) {size : Nat} (hfits : size < head) :
    Circular n head size (l ++ [(0, size)]) where
  empty := fun hnil => by simp at hnil
  blocks := by
    obtain ⟨hone, htail⟩ := h.straight hle
    have hne : l ≠ [] := by
      intro hnil
      have hzero := h.empty hnil
      omega
    have hback : Consecutive 0 [(0, size)] size := ⟨rfl, Nat.zero_add size⟩
    exact .inr ⟨l, [(0, size)], tail, rfl, hne, by simp, hone, htail, hback, hfits⟩

theorem push_between (h : Circular n head tail l) {size : Nat} (hfits : tail + size < head) :
    Circular n head (tail + size) (l ++ [(tail, size)]) where
  empty := fun hnil => by simp at hnil
  blocks := by
    rcases h.blocks with ⟨hone, -⟩ | ⟨front, back, e, rfl, hfront, hback, hf, he, hb, -⟩
    · have hle := hone.le
      omega
    · exact .inr ⟨front, back ++ [(tail, size)], e, List.append_assoc _ _ _, hfront, by simp, hf, he, hb.push size,
        hfits⟩

theorem pop {y : Block} (h : Circular n head tail (x :: y :: l)) : Circular n y.1 tail (y :: l) where
  empty := fun hnil => by cases hnil
  blocks := by
    rcases h.blocks with ⟨hone, hle⟩ | ⟨front, back, e, heq, hfront, hback, hf, he, hb, hlt⟩
    · have hnext := hone.2.1
      rw [hnext]
      exact .inl ⟨⟨hnext, hone.2.2⟩, hle⟩
    · cases front with
      | nil => exact absurd rfl hfront
      | cons z front =>
        obtain ⟨-, hrest⟩ := List.cons.inj heq
        cases front with
        | nil =>
          -- the last block up to the end is gone, and the rest is in one piece
          have hhead := hf.le
          have hback' : y :: l = back := hrest
          rw [← hback'] at hb
          have hzero : y.1 = 0 := hb.1
          rw [hzero]
          exact .inl ⟨⟨hzero, hb.2⟩, by omega⟩
        | cons w front =>
          obtain ⟨rfl, htail⟩ := List.cons.inj hrest
          have hnext : y.1 = head + z.2 := hf.2.1
          rw [hnext]
          exact .inr ⟨y :: front, back, e, by rw [htail]; rfl, by simp, hback, ⟨hnext, hf.2.2⟩, he, hb, by omega⟩

end Circular

end CdcKafka.Lib
