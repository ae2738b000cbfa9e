import CdcKafka.IntSet.Simple8b

/-! What a codeword holds: the integers that were packed into it, and no others. -/

namespace CdcKafka.IntSet

open Lib

theorem shiftCount {bits : ℕ} (h : bits ≤ 60) : (UInt64.ofNat bits).toNat % 64 = bits := by
  rw [UInt64.toNat_ofNat', Nat.mod_eq_of_lt (by omega : bits < 2 ^ 64), Nat.mod_eq_of_lt (by omega)]

theorem toNat_bit {bits : ℕ} (h : bits ≤ 60) : (bit bits).toNat = 2 ^ bits := by
  have hpow : 2 ^ bits < 2 ^ 64 := Nat.pow_lt_pow_right (by decide) (by omega)
  rw [bit, UInt64.toNat_shiftLeft, shiftCount h, UInt64.toNat_one, Nat.one_shiftLeft, Nat.mod_eq_of_lt hpow]

theorem toNat_and_mask {bits : ℕ} (h : bits ≤ 60) (w : UInt64) : (w &&& mask bits).toNat = w.toNat % 2 ^ bits := by
  have hmask : (mask bits).toNat = 2 ^ bits - 1 := by
    have hone : (1 : UInt64) ≤ bit bits := by
      rw [UInt64.le_iff_toNat_le, toNat_bit h, UInt64.toNat_one]
      exact Nat.one_le_two_pow
    rw [mask, UInt64.toNat_sub_of_le _ _ hone, toNat_bit h, UInt64.toNat_one]
  rw [UInt64.toNat_and, hmask, Nat.and_two_pow_sub_one_eq_mod]

theorem toNat_shiftRight_ofNat {bits : ℕ} (h : bits ≤ 60) (w : UInt64) :
    (w >>> UInt64.ofNat bits).toNat = w.toNat / 2 ^ bits := by
  rw [UInt64.toNat_shiftRight, shiftCount h, Nat.shiftRight_eq_div_pow]

theorem toNat_shiftLeft_or {bits : ℕ} (h : bits ≤ 60) {w d : UInt64} (hw : w.toNat * 2 ^ bits < 2 ^ 64)
    (hd : d.toNat < 2 ^ bits) : (w <<< UInt64.ofNat bits ||| d).toNat = w.toNat * 2 ^ bits + d.toNat := by
  rw [UInt64.toNat_or, UInt64.toNat_shiftLeft, shiftCount h, Nat.shiftLeft_eq, Nat.mod_eq_of_lt hw, ← Nat.shiftLeft_eq, Nat.shiftLeft_add_eq_or_of_lt hd]

def delta (base : UInt64) (ints : List UInt64) (i : ℕ) : UInt64 :=
  ints.getD i 0 - (if i = 0 then base else ints.getD (i - 1) 0) - 1

theorem delta_succ (base v : UInt64) (vs : List UInt64) (i : ℕ) : delta base (v :: vs) (i + 1) = delta v vs i := by
  cases i with
  | zero => rfl
  | succ i => rfl

def Narrow (bits : ℕ) (base : UInt64) (vs : List UInt64) : Prop :=
  ∀ i < vs.length, (delta base vs i).toNat < 2 ^ bits

theorem Narrow.head {bits : ℕ} {base v : UInt64} {vs : List UInt64} (h : Narrow bits base (v :: vs)) :
    (v - base - 1).toNat < 2 ^ bits := h 0 (Nat.zero_lt_succ _)

theorem Narrow.tail {bits : ℕ} {base v : UInt64} {vs : List UInt64} (h : Narrow bits base (v :: vs)) :
    Narrow bits v vs := fun i hi => delta_succ base v vs i ▸ h (i + 1) (Nat.succ_lt_succ hi)

theorem delta_take (base : UInt64) (ints : List UInt64) {n i : ℕ} (hi : i < n) :
    delta base (ints.take n) i = delta base ints i := by
  have hget : ∀ j < n, (ints.take n).getD j 0 = ints.getD j 0 := fun j hj => by
    rw [List.getD_eq_getElem?_getD, List.getElem?_take_of_lt hj, ← List.getD_eq_getElem?_getD]
  rw [delta, delta, hget i hi, hget (i - 1) (by omega)]

theorem selectMode_fits {base : UInt64} {ints : List UInt64} {selector i : ℕ} {diff lastVal : UInt64}
    (hselector : selector < 16) (hi : i < nintsOf selector) (hdiff : diff = delta base ints i)
    (hlast : lastVal = ints.getD i 0) (haccepted : ∀ j < i, (delta base ints j).toNat < 2 ^ bitsOf selector) :
    selectMode ints selector diff lastVal i ≤ 16 ∧ ∀ j < nintsOf (selectMode ints selector diff lastVal i),
        (delta base ints j).toNat < 2 ^ bitsOf (selectMode ints selector diff lastVal i) := by
  have hbits : bitsOf selector ≤ 60 := bitsOf_le selector (by omega)
  have hwider (hnext : selector + 1 < 16) : ∀ j < i, (delta base ints j).toNat < 2 ^ bitsOf (selector + 1) :=
    fun j hj => (haccepted j hj).trans_le (Nat.pow_le_pow_right (by decide) (bitsOf_mono selector (by omega)))
  induction selector, diff, lastVal, i using selectMode.induct ints with
  | case1 selector diff lastVal i hlarge hstop =>
    rw [selectMode, if_pos hlarge, if_pos hstop]
    refine ⟨hselector, fun j hj => ?_⟩
    have hnext : selector + 1 < 16 := Nat.lt_of_not_le fun h => by
      rw [nintsOf_sentinel h] at hj
      exact Nat.not_lt_zero j hj
    exact hwider hnext j (hj.trans_le hstop)
  | case2 selector diff lastVal i hlarge hgo ih =>
    rw [selectMode, if_pos hlarge, if_neg hgo]
    have hnext : selector + 1 < 16 := Nat.lt_of_not_le fun h => hgo (by rw [nintsOf_sentinel h]; exact Nat.zero_le _)
    exact ih hnext (Nat.lt_of_not_le hgo) hdiff hlast (hwider hnext) (bitsOf_le _ (by omega))
      (fun h j hj => (hwider hnext j hj).trans_le (Nat.pow_le_pow_right (by decide) (bitsOf_mono _ (by omega))))
  | case3 selector diff lastVal i hsmall hfull =>
    rw [selectMode, if_neg hsmall, if_pos hfull]
    have hlt : (delta base ints i).toNat < 2 ^ bitsOf selector := by
      rw [UInt64.le_iff_toNat_le, toNat_bit hbits] at hsmall
      rw [← hdiff]
      exact Nat.lt_of_not_le hsmall
    refine ⟨hselector.le, fun j hj => ?_⟩
    rcases Nat.lt_or_eq_of_le (show j ≤ i by omega) with hlt' | rfl
    · exact haccepted j hlt'
    · exact hlt
  | case4 selector diff lastVal i hsmall hgo ih =>
    rw [selectMode, if_neg hsmall, if_neg hgo]
    have hlt : (delta base ints i).toNat < 2 ^ bitsOf selector := by
      rw [UInt64.le_iff_toNat_le, toNat_bit hbits] at hsmall
      rw [← hdiff]
      exact Nat.lt_of_not_le hsmall
    have haccepted' : ∀ j < i + 1, (delta base ints j).toNat < 2 ^ bitsOf selector := by
      intro j hj
      rcases Nat.lt_or_eq_of_le (Nat.le_of_lt_succ hj) with hlt' | rfl
      · exact haccepted j hlt'
      · exact hlt
    refine ih hselector (Nat.lt_of_not_le hgo) ?_ rfl haccepted' hbits fun h j hj => ?_
    · rw [hlast]
      rfl
    · exact (haccepted' j hj).trans_le (Nat.pow_le_pow_right (by decide) (bitsOf_mono selector (by omega)))

theorem selectorOf_fits (base : UInt64) (ints : List UInt64) : selectorOf ints base ≤ 16 ∧
      Narrow (bitsOf (selectorOf ints base)) base (ints.take (nintsOf (selectorOf ints base))) := by
  obtain ⟨hle, hfits⟩ := @selectMode_fits base ints 0 0 (ints.getD 0 0 - base - 1) (ints.getD 0 0) (by decide)
    (by decide) rfl rfl fun j hj => absurd hj (Nat.not_lt_zero j)
  refine ⟨hle, fun i hi => ?_⟩
  have hi' : i < nintsOf (selectorOf ints base) := hi.trans_le (List.length_take_le _ _)
  rw [delta_take base ints hi']
  exact hfits i hi'

theorem packDiffs_lt {bits : ℕ} (hbits : bits ≤ 60) : ∀ {vs : List UInt64} {prev : UInt64},
    Narrow bits prev vs → bits * vs.length ≤ 60 → (packDiffs bits prev vs).toNat < 2 ^ (bits * vs.length) ∧
      ∀ {v : UInt64} {rest : List UInt64}, vs = v :: rest →
        (packDiffs bits prev vs).toNat = (packDiffs bits v rest).toNat * 2 ^ bits + (v - prev - 1).toNat := by
  intro vs
  induction vs with
  | nil => exact fun _ _ => ⟨by rw [packDiffs, List.length_nil, Nat.mul_zero]; decide, fun h => by cases h⟩
  | cons v rest ih =>
    intro prev hnarrow hlen
    rw [List.length_cons, Nat.mul_succ] at hlen
    obtain ⟨hlt, -⟩ := ih hnarrow.tail (by omega)
    have hprod : (packDiffs bits v rest).toNat * 2 ^ bits + 2 ^ bits ≤ 2 ^ (bits * rest.length + bits) := by
      rw [← Nat.succ_mul, Nat.pow_add]
      exact Nat.mul_le_mul_right _ hlt
    have hword : 2 ^ (bits * rest.length + bits) ≤ 2 ^ 60 := Nat.pow_le_pow_right (by decide) hlen
    have hhead := hnarrow.head
    have hpack : (packDiffs bits prev (v :: rest)).toNat =
        (packDiffs bits v rest).toNat * 2 ^ bits + (v - prev - 1).toNat :=
      toNat_shiftLeft_or hbits (by omega) hhead
    refine ⟨?_, fun h => ?_⟩
    · rw [hpack, List.length_cons, Nat.mul_succ]
      omega
    · cases h
      exact hpack

theorem decodeLoop_packDiffs {bits : ℕ} (hbits : bits ≤ 60) (h : ℕ) : ∀ {vs : List UInt64} {codeword prev : UInt64},
    Narrow bits prev vs → bits * vs.length ≤ 60 →
      codeword.toNat = (packDiffs bits prev vs).toNat + h * 2 ^ (bits * vs.length) →
      decodeLoop bits vs.length codeword prev = vs := by
  intro vs
  induction vs with
  | nil => exact fun _ _ _ => rfl
  | cons v rest ih =>
    intro codeword prev hnarrow hlen hword
    rw [(packDiffs_lt hbits hnarrow hlen).2 rfl] at hword
    rw [List.length_cons, Nat.mul_succ] at hlen
    have hsplit : codeword.toNat =
        ((packDiffs bits v rest).toNat + h * 2 ^ (bits * rest.length)) * 2 ^ bits + (v - prev - 1).toNat := by
      rw [hword, List.length_cons, Nat.mul_succ, Nat.pow_add, Nat.add_mul, Nat.mul_assoc, Nat.add_right_comm]
    have hlow : codeword &&& mask bits = v - prev - 1 := by
      apply UInt64.toNat_inj.mp
      rw [toNat_and_mask hbits, hsplit, Nat.mul_add_mod_of_lt hnarrow.head]
    have hhigh : (codeword >>> UInt64.ofNat bits).toNat =
        (packDiffs bits v rest).toNat + h * 2 ^ (bits * rest.length) := by
      rw [toNat_shiftRight_ofNat hbits, hsplit, Nat.mul_comm, Nat.mul_add_div (Nat.two_pow_pos bits),
        Nat.div_eq_of_lt hnarrow.head, Nat.add_zero]
    have hvalue : prev + (1 + (codeword &&& mask bits)) = v := by
      rw [hlow]
      grind
    rw [List.length_cons, decodeLoop, hvalue, ih hnarrow.tail (by omega) hhigh]

theorem packDiffs_zero {base : UInt64} {vs : List UInt64} (h : Narrow 0 base vs) : packDiffs 0 base vs = 0 := by
  have hlt := (packDiffs_lt (Nat.zero_le 60) h (by omega)).1
  apply UInt64.toNat_inj.mp
  rw [Nat.zero_mul, pow_zero, Nat.lt_one_iff] at hlt
  rw [hlt, UInt64.toNat_zero]

theorem codeword_toNat {ints : List UInt64} {base : UInt64} (hlen : SIMPLE8B_MAX_VALUES_PER_CODEWORD ≤ ints.length)
    (hsome : nintsOf (selectorOf ints base) ≠ 0) :
    (simple8bEncode ints base).1.toNat =
      (packDiffs (bitsOf (selectorOf ints base)) base (ints.take (nintsOf (selectorOf ints base)))).toNat +
        selectorOf ints base * 2 ^ 60 ∧
    (packDiffs (bitsOf (selectorOf ints base)) base (ints.take (nintsOf (selectorOf ints base)))).toNat < 2 ^ 60 := by
  obtain ⟨-, hnarrow⟩ := selectorOf_fits base ints
  rw [simple8bEncode, if_neg hsome]
  generalize selectorOf ints base = selector at *
  have hselector : selector < 16 := Nat.lt_of_not_le fun h => hsome (nintsOf_sentinel h)
  have htake : (ints.take (nintsOf selector)).length = nintsOf selector :=
    List.length_take_of_le ((nintsOf_le selector).trans hlen)
  have hroom : bitsOf selector * (ints.take (nintsOf selector)).length ≤ 60 := by
    rw [htake]
    exact bitsOf_mul_nintsOf selector hselector
  have hlt := (packDiffs_lt (bitsOf_le selector (by omega)) hnarrow hroom).1
  have hlt60 : (packDiffs (bitsOf selector) base (ints.take (nintsOf selector))).toNat < 2 ^ 60 :=
    hlt.trans_le (Nat.pow_le_pow_right (by decide) hroom)
  have hif : (if 0 < bitsOf selector then packDiffs (bitsOf selector) base (ints.take (nintsOf selector)) else 0) =
      packDiffs (bitsOf selector) base (ints.take (nintsOf selector)) := by
    split
    · rfl
    · next hzero =>
      rw [Nat.eq_zero_of_not_pos hzero] at hnarrow ⊢
      exact (packDiffs_zero hnarrow).symm
  have hnum : (UInt64.ofNat selector).toNat = selector := by
    rw [UInt64.toNat_ofNat', Nat.mod_eq_of_lt (by omega)]
  refine ⟨?_, hlt60⟩
  dsimp only
  rw [hif, UInt64.or_comm]
  exact (@toNat_shiftLeft_or 60 (by decide) _ _ (by rw [hnum]; omega) hlt60).trans (by rw [hnum, Nat.add_comm])

theorem decode_encode {ints : List UInt64} {base : UInt64} (hlen : SIMPLE8B_MAX_VALUES_PER_CODEWORD ≤ ints.length) :
    simple8bDecode (simple8bEncode ints base).1 base = ints.take (simple8bEncode ints base).2 := by
  by_cases hsome : nintsOf (selectorOf ints base) = 0
  · rw [simple8bEncode, if_pos hsome, simple8bDecode, if_pos rfl, List.take_zero]
  · obtain ⟨hword, hlt⟩ := codeword_toNat hlen hsome
    obtain ⟨-, hnarrow⟩ := selectorOf_fits base ints
    have hnum : (simple8bEncode ints base).2 = nintsOf (selectorOf ints base) := by
      rw [simple8bEncode, if_neg hsome]
    rw [hnum]
    generalize (simple8bEncode ints base).1 = codeword at *
    generalize selectorOf ints base = selector at *
    have hselector : selector < 16 := Nat.lt_of_not_le fun h => hsome (nintsOf_sentinel h)
    have htake : (ints.take (nintsOf selector)).length = nintsOf selector :=
      List.length_take_of_le ((nintsOf_le selector).trans hlen)
    have hroom := bitsOf_mul_nintsOf selector hselector
    have hshift : (codeword >>> 60).toNat = codeword.toNat / 2 ^ 60 := @toNat_shiftRight_ofNat 60 (by decide) codeword
    have hfound : selectorIn codeword = selector := by
      rw [selectorIn, hshift, hword, Nat.add_mul_div_right _ _ (by decide), Nat.div_eq_of_lt hlt, Nat.zero_add]
    -- a codeword without values has the bits of a mode 0 that are unused there
    have hne : codeword ≠ EMPTY_CODEWORD := by
      rintro rfl
      have hzero : selector = 0 := hfound.symm
      subst hzero
      rw [bitsOf_zero] at hword hnarrow
      rw [packDiffs_zero hnarrow] at hword
      exact absurd hword (by decide)
    rw [simple8bDecode, if_neg hne, hfound]
    conv_lhs => rw [← htake]
    refine decodeLoop_packDiffs (bitsOf_le selector (by omega))
      (selector * 2 ^ (60 - bitsOf selector * nintsOf selector)) hnarrow (by rwa [htake]) ?_
    rw [hword, htake, Nat.mul_assoc, ← Nat.pow_add, Nat.sub_add_cancel hroom]

theorem containsLoop_iff {bits : ℕ} {key : UInt64} {n : ℕ} {codeword currValue : UInt64}
    (h : Ascending UInt64.toNat (decodeLoop bits n codeword currValue)) :
    containsLoop bits key n codeword currValue = true ↔ key ∈ decodeLoop bits n codeword currValue := by
  induction n generalizing codeword currValue with
  | zero => exact iff_of_false Bool.false_ne_true List.not_mem_nil
  | succ n ih =>
    rw [decodeLoop] at h ⊢
    rw [containsLoop]
    generalize currValue + (1 + (codeword &&& mask bits)) = v at *
    obtain ⟨hbehind, hrest⟩ := List.pairwise_cons.mp h
    rw [List.mem_cons]
    split
    · next hle =>
      have hnot : key ∉ decodeLoop bits n (codeword >>> UInt64.ofNat bits) v := fun hmem =>
        absurd (hbehind key hmem) (not_lt.mpr (UInt64.le_iff_toNat_le.mp hle))
      rw [decide_eq_true_iff, or_iff_left hnot, eq_comm]
    · next hle =>
      have hne : key ≠ v := fun h => hle (h ▸ UInt64.le_refl _)
      rw [ih hrest, or_iff_right hne]

theorem and_mask_zero (codeword : UInt64) : codeword &&& mask 0 = 0 := by
  apply UInt64.toNat_inj.mp
  rw [toNat_and_mask (Nat.zero_le 60), pow_zero, Nat.mod_one, UInt64.toNat_zero]

theorem mem_run_iff {key : UInt64} {n : ℕ} (hn : n < 2 ^ 64 - 1) {codeword base : UInt64} :
    key ∈ decodeLoop 0 n codeword base ↔ 1 ≤ (key - base).toNat ∧ (key - base).toNat ≤ n := by
  induction n generalizing codeword base with
  | zero => exact iff_of_false List.not_mem_nil (by omega)
  | succ n ih =>
    rw [decodeLoop, and_mask_zero, List.mem_cons, ih (by omega)]
    have hkey := key.toNat_lt
    have hbase := base.toNat_lt
    have hnext : (base + (1 + 0)).toNat = (base.toNat + 1) % 2 ^ 64 := UInt64.toNat_add base 1
    rw [← UInt64.toNat_inj, UInt64.toNat_sub, UInt64.toNat_sub, hnext]
    omega

theorem contains_iff {codeword key base : UInt64} (hkey : key ≠ base)
    (h : Ascending UInt64.toNat (simple8bDecode codeword base)) :
    simple8bContains codeword key base = true ↔ key ∈ simple8bDecode codeword base := by
  rw [simple8bDecode] at h ⊢
  rw [simple8bContains]
  have hn : nintsOf (selectorIn codeword) ≤ 240 := nintsOf_le _
  split
  · exact iff_of_false Bool.false_ne_true List.not_mem_nil
  · next hne =>
    rw [if_neg hne] at h
    split
    · next hzero =>
      have hpos : 1 ≤ (key - base).toNat := Nat.one_le_iff_ne_zero.mpr fun hsub => hkey (by
        have : key - base = 0 := UInt64.toNat_inj.mp hsub
        grind)
      rw [hzero, mem_run_iff (by omega), decide_eq_true_iff, UInt64.le_iff_toNat_le, UInt64.toNat_ofNat',
        Nat.mod_eq_of_lt (by omega), and_iff_right hpos]
    · exact containsLoop_iff h

end CdcKafka.IntSet
