import Mathlib.Data.Nat.Digits.Defs

/-! Unsigned numbers as `printf` writes them with `%u` and `%X`, and texts that a separator cuts. -/

namespace CdcKafka.Lib

def digitChar (d : Nat) : Char := Char.ofNat (if d < 10 then 48 + d else 55 + d)

def digitVal (c : Char) : Nat := if c.toNat < 65 then c.toNat - 48 else c.toNat - 55

def printNat (base n : Nat) : List Char :=
  if n = 0 then ['0'] else (Nat.digits base n).reverse.map digitChar

def scanNat (base : Nat) (text : List Char) : Nat := Nat.ofDigits base (text.reverse.map digitVal)

theorem digitVal_digitChar : ∀ d < 16, digitVal (digitChar d) = d := by decide

theorem digitChar_ne_dash : ∀ d < 16, digitChar d ≠ '-' := by decide

variable {base n m : Nat}

theorem scanNat_printNat (hbase : 1 < base) (hle : base ≤ 16) : scanNat base (printNat base n) = n := by
  unfold scanNat printNat
  split
  · next hzero => rw [hzero]; exact Nat.ofDigits_singleton
  · have hvals : ∀ d ∈ Nat.digits base n, (digitVal ∘ digitChar) d = id d := fun d hd =>
      digitVal_digitChar d (Nat.lt_of_lt_of_le (Nat.digits_lt_base hbase hd) hle)
    simp only [← List.map_reverse, List.reverse_reverse, List.map_map]
    rw [List.map_congr_left hvals, List.map_id, Nat.ofDigits_digits]

theorem printNat_injective (hbase : 1 < base) (hle : base ≤ 16) (h : printNat base n = printNat base m) : n = m := by
  rw [← scanNat_printNat hbase hle (n := n), h, scanNat_printNat hbase hle]

theorem dash_notMem_printNat (hbase : 1 < base) (hle : base ≤ 16) : '-' ∉ printNat base n := by
  unfold printNat
  split
  · decide
  · intro hmem
    obtain ⟨d, hd, hchar⟩ := List.mem_map.mp hmem
    have hlt := Nat.digits_lt_base hbase (List.mem_reverse.mp hd)
    exact digitChar_ne_dash d (Nat.lt_of_lt_of_le hlt hle) hchar

theorem split_at_sep {α : Type} {sep : α} {a a' b b' : List α} (ha : sep ∉ a) (ha' : sep ∉ a')
    (h : a ++ sep :: b = a' ++ sep :: b') : a = a' ∧ b = b' := by
  induction a generalizing a' with
  | nil =>
    cases a' with
    | nil => exact ⟨rfl, (List.cons.inj h).2⟩
    | cons x a' => exact absurd (List.cons.inj h).1 (by grind)
  | cons x a ih =>
    cases a' with
    | nil => exact absurd (List.cons.inj h).1 (by grind)
    | cons y a' =>
      obtain ⟨rfl, htail⟩ := List.cons.inj h
      obtain ⟨rfl, rfl⟩ := ih (fun hm => ha (.tail _ hm)) (fun hm => ha' (.tail _ hm)) htail
      exact ⟨rfl, rfl⟩

end CdcKafka.Lib
