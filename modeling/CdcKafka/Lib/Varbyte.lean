import CdcKafka.Lib.CString
import Mathlib.Tactic.Ring

/-! Numbers in base 128, the low digits first, where all bytes but the last have their high bit set. -/

namespace CdcKafka.Lib

def encodeVarbyte (val : Nat) : Bytes :=
  if 0x7F < val then UInt8.ofNat (0x80 ||| (val &&& 0x7F)) :: encodeVarbyte (val >>> 7) else [UInt8.ofNat val]
termination_by val
decreasing_by
  rw [Nat.shiftRight_eq_div_pow]
  omega

def decodeVarbyteFrom : Nat → Nat → Nat → Bytes → Option (Nat × Bytes)
  | _, _, _, [] => none
  | 0, shift, val, c :: p => some (val ||| c.toNat <<< shift, p)
  | more + 1, shift, val, c :: p =>
    if c &&& 0x80 = 0 then some (val ||| (c &&& 0x7F).toNat <<< shift, p)
    else decodeVarbyteFrom more (shift + 7) (val ||| (c &&& 0x7F).toNat <<< shift) p

variable {a b val : Nat}

theorem encodeVarbyte_small (h : val < 128) : encodeVarbyte val = [UInt8.ofNat val] := by
  rw [encodeVarbyte, if_neg (by omega)]

theorem encodeVarbyte_large (h : 128 ≤ val) :
    encodeVarbyte val = UInt8.ofNat (128 + val % 128) :: encodeVarbyte (val / 128) := by
  have hlow : val &&& 0x7F = val % 128 := Nat.and_two_pow_sub_one_eq_mod val 7
  have hor : 0x80 ||| val % 128 = 128 + val % 128 :=
    (Nat.two_pow_add_eq_or_of_lt (i := 7) (Nat.mod_lt val (by decide)) 1).symm
  rw [encodeVarbyte, if_pos (by omega), hlow, hor, Nat.shiftRight_eq_div_pow]

theorem length_encodeVarbyte_pos (val : Nat) : 0 < (encodeVarbyte val).length := by
  rw [encodeVarbyte]
  split
  · exact Nat.succ_pos _
  · exact Nat.one_pos

theorem length_encodeVarbyte_le {k : Nat} : (encodeVarbyte val).length ≤ k + 1 ↔ val < 128 ^ (k + 1) := by
  induction k generalizing val with
  | zero =>
    rcases Nat.lt_or_ge val 128 with hsmall | hlarge
    · rw [encodeVarbyte_small hsmall]
      exact iff_of_true (Nat.le_refl 1) hsmall
    · have hpos := length_encodeVarbyte_pos (val / 128)
      rw [encodeVarbyte_large hlarge, List.length_cons]
      exact iff_of_false (by omega) (Nat.not_lt.mpr hlarge)
  | succ k ih =>
    rcases Nat.lt_or_ge val 128 with hsmall | hlarge
    · have hpow : 128 ^ 1 ≤ 128 ^ (k + 1 + 1) := Nat.pow_le_pow_right (by decide) (by omega)
      rw [encodeVarbyte_small hsmall]
      exact iff_of_true (Nat.succ_le_succ (Nat.zero_le _)) (Nat.lt_of_lt_of_le hsmall hpow)
    · rw [encodeVarbyte_large hlarge, List.length_cons, Nat.add_le_add_iff_right, ih, Nat.pow_succ 128 (k + 1),
        Nat.div_lt_iff_lt_mul (by decide)]

theorem length_encodeVarbyte_add (a b : Nat) :
    (encodeVarbyte (a + b)).length ≤ (encodeVarbyte a).length + (encodeVarbyte b).length := by
  obtain ⟨m, hm⟩ : ∃ m, (encodeVarbyte a).length = m + 1 := ⟨_, (Nat.succ_pred (length_encodeVarbyte_pos a).ne').symm⟩
  obtain ⟨n, hn⟩ : ∃ n, (encodeVarbyte b).length = n + 1 := ⟨_, (Nat.succ_pred (length_encodeVarbyte_pos b).ne').symm⟩
  have ha : a < 128 ^ (m + 1) := length_encodeVarbyte_le.mp hm.le
  have hb : b < 128 ^ (n + 1) := length_encodeVarbyte_le.mp hn.le
  have hpow : 128 ^ (m + n + 1 + 1) = 128 ^ (m + 1) * 128 ^ (n + 1) := by ring
  have hsum : a + b < 128 ^ (m + n + 1 + 1) := by
    have htwo (k : Nat) : 2 ≤ 128 ^ (k + 1) := by
      have hone : 0 < 128 ^ k := Nat.pow_pos (by decide)
      rw [Nat.pow_succ]
      omega
    calc a + b < 128 ^ (m + 1) + 128 ^ (n + 1) := Nat.add_lt_add ha hb
      _ ≤ 128 ^ (m + 1) * 128 ^ (n + 1) := Nat.add_le_mul (htwo m) (htwo n)
      _ = 128 ^ (m + n + 1 + 1) := hpow.symm
  have hlength := length_encodeVarbyte_le.mpr hsum
  omega

theorem or_shiftLeft {shift : Nat} (h : a < 2 ^ shift) (b : Nat) : a ||| b <<< shift = a + b * 2 ^ shift := by
  rw [Nat.shiftLeft_eq, Nat.or_comm, Nat.mul_comm b, ← Nat.two_pow_add_eq_or_of_lt h, Nat.add_comm]

theorem continued_byte : ∀ d < 128, UInt8.ofNat (128 + d) &&& 0x80 ≠ 0 ∧ (UInt8.ofNat (128 + d) &&& 0x7F).toNat = d := by
  decide +kernel

theorem last_byte : ∀ d < 128, UInt8.ofNat d &&& 0x80 = 0 ∧ (UInt8.ofNat d &&& 0x7F).toNat = d := by
  decide +kernel

theorem decodeVarbyteFrom_encode {more shift acc : Nat} (hval : val < 128 ^ (more + 1)) (hacc : acc < 2 ^ shift)
    (rest : Bytes) :
    decodeVarbyteFrom more shift acc (encodeVarbyte val ++ rest) = some (acc + val * 2 ^ shift, rest) := by
  induction more generalizing val shift acc with
  | zero =>
    have hsmall : val < 128 := hval
    have hbyte : (UInt8.ofNat val).toNat = val := by
      rw [UInt8.toNat_ofNat']
      exact Nat.mod_eq_of_lt (by omega)
    rw [encodeVarbyte_small hsmall, List.cons_append, List.nil_append, decodeVarbyteFrom, hbyte, or_shiftLeft hacc]
  | succ more ih =>
    rcases Nat.lt_or_ge val 128 with hsmall | hlarge
    · obtain ⟨hend, hbyte⟩ := last_byte val hsmall
      rw [encodeVarbyte_small hsmall, List.cons_append, List.nil_append, decodeVarbyteFrom, if_pos hend, hbyte,
        or_shiftLeft hacc]
    · obtain ⟨hmore, hbyte⟩ := continued_byte (val % 128) (Nat.mod_lt val (by decide))
      have hhigh : val / 128 < 128 ^ (more + 1) := by
        rw [Nat.div_lt_iff_lt_mul (by decide), ← Nat.pow_succ]
        exact hval
      have hpow : 2 ^ (shift + 7) = 128 * 2 ^ shift := by rw [Nat.pow_add, Nat.mul_comm]
      have hdigit : val % 128 < 128 := Nat.mod_lt val (by decide)
      have hacc' : acc + val % 128 * 2 ^ shift < 2 ^ (shift + 7) := by
        have hle : val % 128 * 2 ^ shift ≤ 127 * 2 ^ shift := Nat.mul_le_mul_right _ (Nat.le_of_lt_succ hdigit)
        rw [hpow]
        omega
      have hsplit : acc + val % 128 * 2 ^ shift + val / 128 * 2 ^ (shift + 7) = acc + val * 2 ^ shift := by
        rw [hpow, ← Nat.mul_assoc, Nat.add_assoc, ← Nat.add_mul]
        congr 2
        rw [Nat.mul_comm (val / 128), Nat.add_comm, Nat.div_add_mod]
      rw [encodeVarbyte_large hlarge, List.cons_append, decodeVarbyteFrom, if_neg hmore, hbyte, or_shiftLeft hacc,
        ih hhigh hacc', hsplit]

theorem length_of_decodeVarbyteFrom {more shift acc n : Nat} {p rest : Bytes}
    (h : decodeVarbyteFrom more shift acc p = some (n, rest)) : rest.length < p.length := by
  fun_induction decodeVarbyteFrom more shift acc p with
  | case1 => cases h
  | case2 | case3 =>
    cases h
    exact Nat.lt_succ_self _
  | case4 more shift acc c p hmore ih => exact Nat.lt_succ_of_lt (ih h)

end CdcKafka.Lib
