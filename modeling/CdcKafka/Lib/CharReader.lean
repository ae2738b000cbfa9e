import Mathlib.Data.List.Basic

/-! Characters of one or more cells, read off a string that comes in pieces. -/

namespace CdcKafka.Lib

structure CharReader (α : Type) where
  next : List α → Option Nat
  next_pos : ∀ {b : List α} {n : Nat}, next b = some n → 0 < n
  next_le : ∀ {b : List α} {n : Nat}, next b = some n → n ≤ b.length
  next_congr : ∀ {b c : List α} {n : Nat}, next b = some n → n ≤ c.length → c.take n = b.take n → next c = some n

namespace CharReader

variable {α : Type} (r : CharReader α) {b x : List α} {n : Nat}

def whole (b : List α) : Nat :=
  match _h : r.next b with
  | none => 0
  | some n => n + whole (b.drop n)
termination_by b.length
decreasing_by
  have hpos := r.next_pos _h
  have hle := r.next_le _h
  rw [List.length_drop]
  omega

def Complete (b : List α) : Prop := r.whole b = b.length

theorem whole_of_none (h : r.next b = none) : r.whole b = 0 := by
  rw [whole.eq_def]
  split
  · rfl
  · next hsome => exact absurd (h.symm.trans hsome) nofun

theorem whole_of_some (h : r.next b = some n) : r.whole b = n + r.whole (b.drop n) := by
  rw [whole.eq_def]
  split
  · next hnone => exact absurd (hnone.symm.trans h) nofun
  · next m hm =>
    obtain rfl : n = m := Option.some.inj (h.symm.trans hm)
    rfl

theorem next_nil : r.next [] = none := by
  cases h : r.next [] with
  | none => rfl
  | some n => exact absurd (r.next_pos h) (Nat.not_lt.mpr (r.next_le h))

theorem complete_nil : r.Complete [] := r.whole_of_none r.next_nil

theorem whole_le (b : List α) : r.whole b ≤ b.length := by
  fun_induction whole r b with
  | case1 => exact Nat.zero_le _
  | case2 b n h ih =>
    have hle := r.next_le h
    rw [List.length_drop] at ih
    omega

theorem next_append (h : r.next b = some n) : r.next (b ++ x) = some n := by
  have hle := r.next_le h
  refine r.next_congr h ?_ (List.take_append_of_le_length hle)
  rw [List.length_append]
  exact Nat.le_add_right_of_le hle

theorem next_of_append (h : r.next (b ++ x) = some n) (hle : n ≤ b.length) : r.next b = some n :=
  r.next_congr h hle (List.take_append_of_le_length hle).symm

theorem Complete.exists_next {r : CharReader α} (h : r.Complete b) (hne : b ≠ []) : ∃ n, r.next b = some n := by
  cases hnext : r.next b with
  | some n => exact ⟨n, rfl⟩
  | none =>
    have hlen : 0 = b.length := (r.whole_of_none hnext).symm.trans h
    exact absurd (List.eq_nil_of_length_eq_zero hlen.symm) hne

theorem Complete.drop {r : CharReader α} (h : r.Complete b) (hnext : r.next b = some n) : r.Complete (b.drop n) := by
  have hle := r.next_le hnext
  rw [Complete, r.whole_of_some hnext] at h
  rw [Complete, List.length_drop]
  omega

theorem Complete.drop_whole {r : CharReader α} (h : r.Complete (b ++ x)) : r.Complete (b.drop (r.whole b) ++ x) := by
  fun_induction whole r b with
  | case1 => exact h
  | case2 b n hnext ih =>
    have hrest := h.drop (r.next_append hnext)
    rw [List.drop_append_of_le_length (r.next_le hnext)] at hrest
    rw [← List.drop_drop]
    exact ih hrest

theorem Complete.length_lt {r : CharReader α} (h : r.Complete (b ++ x)) (hne : b ≠ []) (hwhole : r.whole b = 0) :
    ∃ n, r.next (b ++ x) = some n ∧ b.length < n := by
  obtain ⟨n, hnext⟩ := h.exists_next fun hnil => hne (List.append_eq_nil_iff.mp hnil).1
  refine ⟨n, hnext, Nat.lt_of_not_le fun hle => ?_⟩
  have hin := r.next_of_append hnext hle
  have hpos := r.next_pos hin
  rw [r.whole_of_some hin] at hwhole
  omega

end CharReader

end CdcKafka.Lib
