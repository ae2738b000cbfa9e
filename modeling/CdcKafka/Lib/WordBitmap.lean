import Mathlib.Algebra.Group.Nat.Defs
import Mathlib.Logic.Function.Basic

/-! Bitmaps in words of 16 bits, the bits of a word numbered from the least significant one. -/

namespace CdcKafka.Lib

def wordBit (k : Nat) : UInt16 := 1 <<< UInt16.ofNat k

def hasBit (data : Nat → UInt16) (i : Nat) : Bool := data (i / 16) &&& wordBit (i % 16) ≠ 0

def setBit (data : Nat → UInt16) (i : Nat) : Nat → UInt16 :=
  Function.update data (i / 16) (data (i / 16) ||| wordBit (i % 16))

def clearBit (data : Nat → UInt16) (i : Nat) : Nat → UInt16 :=
  Function.update data (i / 16) (data (i / 16) &&& ~~~wordBit (i % 16))

variable {data : Nat → UInt16} {i j : Nat}

theorem toNat_wordBit : ∀ k < 16, (wordBit k).toNat = 2 ^ k := by decide

theorem toBitVec_wordBit {k : Nat} (hk : k < 16) : (wordBit k).toBitVec = BitVec.twoPow 16 k := by
  apply BitVec.eq_of_toNat_eq
  rw [BitVec.toNat_twoPow, Nat.mod_eq_of_lt (Nat.pow_lt_pow_right (by decide) hk)]
  exact toNat_wordBit k hk

theorem and_wordBit (w : UInt16) {k : Nat} (hk : k < 16) : w &&& wordBit k ≠ 0 ↔ w.toBitVec.getLsbD k = true := by
  have hone : (BitVec.twoPow 16 k).getLsbD k = true := by
    rw [BitVec.getLsbD_twoPow, decide_eq_true hk, decide_eq_true rfl]
    rfl
  rw [ne_eq, ← UInt16.toBitVec_inj, UInt16.toBitVec_and, toBitVec_wordBit hk, BitVec.and_twoPow]
  split
  · next hbit =>
    refine iff_of_true (fun hzero => ?_) hbit
    rw [hzero] at hone
    have hoff : BitVec.getLsbD (0#16) k = false := BitVec.getLsbD_zero
    exact absurd (hoff.symm.trans hone) (by decide)
  · next hbit => exact iff_of_false (fun hne => hne rfl) hbit

theorem hasBit_iff : hasBit data i = true ↔ (data (i / 16)).toBitVec.getLsbD (i % 16) = true := by
  rw [hasBit, decide_eq_true_iff]
  exact and_wordBit _ (Nat.mod_lt i (by decide))

theorem hasBit_setBit : hasBit (setBit data i) j = true ↔ j = i ∨ hasBit data j = true := by
  have hi : i % 16 < 16 := Nat.mod_lt i (by decide)
  rw [hasBit_iff, hasBit_iff, setBit]
  by_cases hword : j / 16 = i / 16
  · rw [hword, Function.update_self, UInt16.toBitVec_or, toBitVec_wordBit hi, BitVec.getLsbD_or, BitVec.getLsbD_twoPow,
      decide_eq_true hi, Bool.true_and, Bool.or_eq_true, decide_eq_true_iff, or_comm]
    refine or_congr_left ?_
    omega
  · rw [Function.update_of_ne hword]
    exact (or_iff_right fun h => hword (by rw [h])).symm

theorem hasBit_clearBit : hasBit (clearBit data i) j = true ↔ j ≠ i ∧ hasBit data j = true := by
  have hi : i % 16 < 16 := Nat.mod_lt i (by decide)
  have hj : j % 16 < 16 := Nat.mod_lt j (by decide)
  rw [hasBit_iff, hasBit_iff, clearBit]
  by_cases hword : j / 16 = i / 16
  · rw [hword, Function.update_self, UInt16.toBitVec_and, UInt16.toBitVec_not, toBitVec_wordBit hi, BitVec.getLsbD_and,
      BitVec.getLsbD_not, BitVec.getLsbD_twoPow, decide_eq_true hi, decide_eq_true hj, Bool.true_and, Bool.true_and,
      Bool.and_eq_true, Bool.not_eq_true', decide_eq_false_iff_not, and_comm]
    refine and_congr_left fun _ => ?_
    omega
  · rw [Function.update_of_ne hword]
    exact (and_iff_right fun h => hword (by rw [h])).symm

theorem hasBit_zero : hasBit (fun _ => 0) i = false := by
  rw [Bool.eq_false_iff, ne_eq, hasBit_iff]
  have hoff : BitVec.getLsbD (0#16) (i % 16) = false := BitVec.getLsbD_zero
  exact fun h => absurd (hoff.symm.trans h) (by decide)

end CdcKafka.Lib
