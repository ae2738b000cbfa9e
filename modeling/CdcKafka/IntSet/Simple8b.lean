import Mathlib.Data.List.GetD
import CdcKafka.Lib.SortedChunks

/-! The Simple-8b codewords of `integerset.c`: the differences between consecutive integers, packed into the 60 bits below
a selector that tells how many there are and how wide. -/

namespace CdcKafka.IntSet

def SIMPLE8B_MAX_VALUES_PER_CODEWORD : ℕ := 240

structure Simple8bMode where
  bitsPerInt : ℕ
  numInts : ℕ

def simple8bModes : List Simple8bMode :=
  [⟨0, 240⟩, ⟨0, 120⟩, ⟨1, 60⟩, ⟨2, 30⟩, ⟨3, 20⟩, ⟨4, 15⟩, ⟨5, 12⟩, ⟨6, 10⟩, ⟨7, 8⟩, ⟨8, 7⟩, ⟨10, 6⟩, ⟨12, 5⟩,
    ⟨15, 4⟩, ⟨20, 3⟩, ⟨30, 2⟩, ⟨60, 1⟩, ⟨0, 0⟩]

def bitsOf (selector : ℕ) : ℕ := (simple8bModes.getD selector ⟨0, 0⟩).bitsPerInt

def nintsOf (selector : ℕ) : ℕ := (simple8bModes.getD selector ⟨0, 0⟩).numInts

def EMPTY_CODEWORD : UInt64 := 0x0FFFFFFFFFFFFFFF

def bit (bits : ℕ) : UInt64 := 1 <<< UInt64.ofNat bits

theorem nintsOf_le (selector : ℕ) : nintsOf selector ≤ SIMPLE8B_MAX_VALUES_PER_CODEWORD := by
  rcases Nat.lt_or_ge selector 17 with h | h
  · exact (by decide : ∀ s < 17, nintsOf s ≤ SIMPLE8B_MAX_VALUES_PER_CODEWORD) selector h
  · rw [nintsOf, List.getD_eq_default _ _ h]
    exact Nat.zero_le _

theorem nintsOf_sentinel {selector : ℕ} (h : 16 ≤ selector) : nintsOf selector = 0 := by
  rcases Nat.lt_or_ge selector 17 with h' | h'
  · obtain rfl : selector = 16 := by omega
    rfl
  · rw [nintsOf, List.getD_eq_default _ _ h']

theorem bitsOf_mul_nintsOf : ∀ selector < 16, bitsOf selector * nintsOf selector ≤ 60 := by decide

theorem bitsOf_le : ∀ selector < 17, bitsOf selector ≤ 60 := by decide

theorem bitsOf_mono : ∀ selector < 15, bitsOf selector ≤ bitsOf (selector + 1) := by decide

theorem bitsOf_zero : bitsOf 0 = 0 := rfl

def selectMode (ints : List UInt64) (selector : ℕ) (diff lastVal : UInt64) (i : ℕ) : ℕ :=
  if bit (bitsOf selector) ≤ diff then
    if nintsOf (selector + 1) ≤ i then selector + 1
    else selectMode ints (selector + 1) diff lastVal i
  else if nintsOf selector ≤ i + 1 then selector
  else selectMode ints selector (ints.getD (i + 1) 0 - lastVal - 1) (ints.getD (i + 1) 0) (i + 1)
termination_by (16 - selector) + (SIMPLE8B_MAX_VALUES_PER_CODEWORD - i)
decreasing_by
  · have : selector + 1 < 16 := Nat.lt_of_not_le fun h => by
      have := nintsOf_sentinel h
      omega
    omega
  · have := nintsOf_le selector
    omega

def selectorOf (ints : List UInt64) (base : UInt64) : ℕ :=
  selectMode ints 0 (ints.getD 0 0 - base - 1) (ints.getD 0 0) 0

def packDiffs (bits : ℕ) : UInt64 → List UInt64 → UInt64
  | _, [] => 0
  | prev, v :: vs => packDiffs bits v vs <<< UInt64.ofNat bits ||| (v - prev - 1)

def simple8bEncode (ints : List UInt64) (base : UInt64) : UInt64 × ℕ :=
  if nintsOf (selectorOf ints base) = 0 then (EMPTY_CODEWORD, 0)
  else
    ((if 0 < bitsOf (selectorOf ints base) then
        packDiffs (bitsOf (selectorOf ints base)) base (ints.take (nintsOf (selectorOf ints base)))
      else 0) ||| UInt64.ofNat (selectorOf ints base) <<< 60,
      nintsOf (selectorOf ints base))

def mask (bits : ℕ) : UInt64 := bit bits - 1

def decodeLoop (bits : ℕ) : ℕ → UInt64 → UInt64 → List UInt64
  | 0, _, _ => []
  | n + 1, codeword, currValue =>
    (currValue + (1 + (codeword &&& mask bits))) ::
      decodeLoop bits n (codeword >>> UInt64.ofNat bits) (currValue + (1 + (codeword &&& mask bits)))

def selectorIn (codeword : UInt64) : ℕ := (codeword >>> 60).toNat

def simple8bDecode (codeword base : UInt64) : List UInt64 :=
  if codeword = EMPTY_CODEWORD then []
  else decodeLoop (bitsOf (selectorIn codeword)) (nintsOf (selectorIn codeword)) codeword base

def containsLoop (bits : ℕ) (key : UInt64) : ℕ → UInt64 → UInt64 → Bool
  | 0, _, _ => false
  | n + 1, codeword, currValue =>
    if key ≤ currValue + (1 + (codeword &&& mask bits)) then
      decide (currValue + (1 + (codeword &&& mask bits)) = key)
    else containsLoop bits key n (codeword >>> UInt64.ofNat bits) (currValue + (1 + (codeword &&& mask bits)))

def simple8bContains (codeword key base : UInt64) : Bool :=
  if codeword = EMPTY_CODEWORD then false
  else if bitsOf (selectorIn codeword) = 0 then
    decide (key - base ≤ UInt64.ofNat (nintsOf (selectorIn codeword)))
  else containsLoop (bitsOf (selectorIn codeword)) key (nintsOf (selectorIn codeword)) codeword base

end CdcKafka.IntSet
