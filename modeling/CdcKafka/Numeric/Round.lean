import CdcKafka.Numeric.Var

/-! Rounding to a number of decimal digits. -/

namespace CdcKafka.Numeric

open Lib

def HALF_NBASE : ℤ := 5000

def roundPowers (di : ℤ) : ℤ := [0, 1000, 100, 10].getD di.toNat 0

def propagateCarry (carry : ℤ) : List ℤ → List ℤ × ℤ
  | [] => ([], carry)
  | d :: ds =>
    let r := propagateCarry carry ds
    if r.2 = 0 then (d :: r.1, 0)
    else if NBASE ≤ r.2 + d then ((r.2 + d - NBASE) :: r.1, 1)
    else ((r.2 + d) :: r.1, 0)

/-- The first `ndigits` digits, of which the last one keeps `di` decimal digits or, for `di = 0`, all. -/
def roundDigits (digits : List ℤ) (ndigits : ℕ) (di : ℤ) : List ℤ × ℤ :=
  if di = 0 then propagateCarry (if HALF_NBASE ≤ digits.getD ndigits 0 then 1 else 0) (digits.take ndigits)
  else
    let pow10 := roundPowers di
    let extra := digits.getD (ndigits - 1) 0 % pow10
    let kept := digits.getD (ndigits - 1) 0 - extra
    if pow10 / 2 ≤ extra then
      if NBASE ≤ pow10 + kept then
        let r := propagateCarry 1 (digits.take (ndigits - 1))
        (r.1 ++ [pow10 + kept - NBASE], r.2)
      else (digits.take (ndigits - 1) ++ [pow10 + kept], 0)
    else (digits.take (ndigits - 1) ++ [kept], 0)

def roundVar (v : NumericVar) (rscale : ℤ) : NumericVar :=
  let di := (v.weight + 1) * DEC_DIGITS + rscale
  if di < 0 then ⟨0, .pos, rscale, []⟩
  else
    let ndigits := ((di + DEC_DIGITS - 1) / DEC_DIGITS).toNat
    if ndigits < v.digits.length ∨ ndigits = v.digits.length ∧ 0 < di % DEC_DIGITS then
      let r := roundDigits v.digits ndigits (di % DEC_DIGITS)
      if r.2 = 0 then { v with dscale := rscale, digits := r.1 }
      else { v with dscale := rscale, digits := r.2 :: r.1, weight := v.weight + 1 }
    else { v with dscale := rscale }

def ScaleFits (x : ℚ) (scale : ℤ) : Prop := ∃ n : ℤ, x * (10 : ℚ) ^ scale = n

theorem nbase_zpow (k : ℤ) : (NBASE : ℚ) ^ k = (10 : ℚ) ^ (4 * k) := by
  have hbase : (NBASE : ℚ) = (10 : ℚ) ^ (4 : ℤ) := by rw [NBASE]; norm_num
  rw [hbase, ← zpow_mul]

theorem nbase_pow (k : ℕ) : NBASE ^ k = (10 : ℤ) ^ (4 * k) := by
  rw [pow_mul]
  rfl

theorem dvd_pval {digits : List ℤ} {weight scale : ℤ} (h : ScaleFits (absAt digits weight) scale) {e : ℕ}
    (he : (weight + 1) * 4 + scale + e = 4 * digits.length) : (10 : ℤ) ^ e ∣ pval NBASE digits := by
  obtain ⟨n, hn⟩ := h
  refine ⟨n, ?_⟩
  have hten : (10 : ℚ) ≠ 0 := by norm_num
  have hexp : 4 * (weight + 1 - digits.length) + scale = -(e : ℤ) := by omega
  rw [absAt, nbase_zpow, mul_assoc, ← zpow_add₀ hten, hexp, zpow_neg, zpow_natCast, mul_inv_eq_iff_eq_mul₀
    (pow_ne_zero _ hten)] at hn
  have hcast : (pval NBASE digits : ℚ) = ((10 ^ e * n : ℤ) : ℚ) := by
    rw [hn]
    push_cast
    ring
  exact_mod_cast hcast

theorem scale_pos {digits : List ℤ} (hdigits : Digits NBASE digits) {weight scale : ℤ}
    (h : ScaleFits (absAt digits weight) scale) (hne : absAt digits weight ≠ 0) : 0 < (weight + 1) * 4 + scale := by
  obtain ⟨n, hn⟩ := h
  have hten : (0 : ℚ) < (10 : ℚ) ^ scale := zpow_pos (by norm_num) _
  have hpos : 0 < absAt digits weight := lt_of_le_of_ne (absAt_nonneg hdigits weight) hne.symm
  have hone : (1 : ℚ) ≤ n := by
    have hnpos : (0 : ℚ) < n := hn ▸ mul_pos hpos hten
    exact_mod_cast (Int.cast_pos.mp hnpos)
  have hlt : absAt digits weight * (10 : ℚ) ^ scale < (10 : ℚ) ^ ((weight + 1) * 4 + scale) := by
    rw [zpow_add₀ (by norm_num : (10 : ℚ) ≠ 0), mul_comm (weight + 1) 4, ← nbase_zpow]
    exact mul_lt_mul_of_pos_right (absAt_lt hdigits weight) hten
  by_contra hle
  have hsmall : (10 : ℚ) ^ ((weight + 1) * 4 + scale) ≤ (10 : ℚ) ^ (0 : ℤ) :=
    zpow_le_zpow_right₀ (by norm_num) (not_lt.mp hle)
  rw [zpow_zero] at hsmall
  linarith

theorem Digits.eq_zeros {b : ℤ} (hb : 0 < b) {ds : List ℤ} (h : Digits b ds) (hzero : pval b ds = 0) :
    ∀ d ∈ ds, d = 0 := by
  induction ds with
  | nil => exact List.forall_mem_nil _
  | cons d ds ih =>
    have hrest : Digits b ds := (List.forall_mem_cons.mp h).2
    by_cases hd : d = 0
    · rw [pval_cons, hd, zero_mul, zero_add] at hzero
      exact List.forall_mem_cons.mpr ⟨hd, ih hrest hzero⟩
    · have hle := h.le_pval hb hd
      rw [hzero] at hle
      exact absurd hle (not_le.mpr (pow_pos hb _))

theorem propagateCarry_zero (ds : List ℤ) : propagateCarry 0 ds = (ds, 0) := by
  induction ds with
  | nil => rfl
  | cons d ds ih => rw [propagateCarry, ih]; exact if_pos rfl

theorem roundPowers_eq {di : ℤ} (h : 0 < di) (h' : di < 4) : roundPowers di = 10 ^ (4 - di).toNat := by
  obtain rfl | rfl | rfl : di = 1 ∨ di = 2 ∨ di = 3 := by omega
  · rfl
  · rfl
  · rfl

theorem roundDigits_exact {digits : List ℤ} (h : Digits NBASE digits) {ndigits e : ℕ} {di : ℤ} (hle : ndigits ≤ digits.length)
    (hdi : 0 ≤ di ∧ di < 4) (hpos : 0 < di → 0 < ndigits) (hcut : di = 0 → ndigits < digits.length)
    (he : (e : ℤ) = 4 * (digits.length - ndigits) + (if di = 0 then 0 else 4 - di))
    (hdvd : (10 : ℤ) ^ e ∣ pval NBASE digits) :
    roundDigits digits ndigits di = (digits.take ndigits, 0) ∧ ∀ d ∈ digits.drop ndigits, d = 0 := by
  have hsplit : pval NBASE digits = pval NBASE (digits.take ndigits) * NBASE ^ (digits.length - ndigits) +
      pval NBASE (digits.drop ndigits) := by
    conv_lhs => rw [← List.take_append_drop ndigits digits, pval_append, List.length_drop]
  have hdrop : Digits NBASE (digits.drop ndigits) := fun d hd => h d (List.mem_of_mem_drop hd)
  obtain ⟨f, hf⟩ : ∃ f : ℕ, (f : ℤ) = if di = 0 then 0 else 4 - di :=
    ⟨(if di = 0 then 0 else 4 - di).toNat, Int.toNat_of_nonneg (by split <;> omega)⟩
  have hef : e = 4 * (digits.length - ndigits) + f := by
    rw [← hf] at he
    omega
  have hrest : pval NBASE (digits.drop ndigits) = 0 := by
    have hlt := hdrop.pval_lt nbase_int_pos
    rw [List.length_drop] at hlt
    refine Int.eq_zero_of_dvd_of_nonneg_of_lt (hdrop.pval_nonneg nbase_int_pos) hlt ?_
    have hbase : NBASE ^ (digits.length - ndigits) ∣ pval NBASE digits := by
      rw [nbase_pow]
      exact (pow_dvd_pow 10 (by omega)).trans hdvd
    rw [hsplit] at hbase
    exact (Int.dvd_add_right (Dvd.intro_left _ rfl)).mp hbase
  have hzeros := Digits.eq_zeros nbase_int_pos hdrop hrest
  refine ⟨?_, hzeros⟩
  rw [roundDigits]
  split
  · next hzero =>
    have hfirst : digits.getD ndigits 0 = 0 := by
      rw [List.getD_eq_getElem _ _ (hcut hzero)]
      exact hzeros _ (List.mem_drop_iff_getElem.mpr ⟨0, by omega, rfl⟩)
    rw [hfirst, if_neg (by decide), propagateCarry_zero]
  · next hne =>
    have hn : 0 < ndigits := hpos (by omega)
    obtain ⟨m, rfl⟩ : ∃ m, ndigits = m + 1 := ⟨ndigits - 1, by omega⟩
    have htake : digits.take (m + 1) = digits.take m ++ [digits.getD m 0] := by
      rw [List.take_add_one, List.getD_eq_getElem _ _ (by omega), List.getElem?_eq_getElem (by omega)]
      rfl
    have hfour : (f : ℤ) = 4 - di := by rw [hf, if_neg hne]
    have hpow : roundPowers di = 10 ^ f := by
      rw [roundPowers_eq (by omega) hdi.2]
      congr 1
      omega
    have hlast : (10 : ℤ) ^ f ∣ digits.getD m 0 := by
      have hfront : (10 : ℤ) ^ f ∣ pval NBASE (digits.take (m + 1)) := by
        rw [hsplit, hrest, add_zero, nbase_pow, hef, pow_add, mul_comm] at hdvd
        exact Int.dvd_of_mul_dvd_mul_right (pow_ne_zero _ (by decide)) hdvd
      rw [htake, pval_append, pval_singleton, List.length_singleton, nbase_pow] at hfront
      refine (Int.dvd_add_right ?_).mp hfront
      exact Dvd.dvd.mul_left (pow_dvd_pow 10 (by omega)) _
    have hextra : digits.getD m 0 % roundPowers di = 0 := by
      rw [hpow]
      exact Int.emod_eq_zero_of_dvd hlast
    have hhalf : ¬ roundPowers di / 2 ≤ 0 := by
      obtain rfl | rfl | rfl : di = 1 ∨ di = 2 ∨ di = 3 := by omega
      · decide
      · decide
      · decide
    rw [Nat.add_sub_cancel]
    dsimp only
    rw [hextra, if_neg hhalf, sub_zero, htake]

theorem roundVar_exact {v : NumericVar} (h : Digits NBASE v.digits) {rscale : ℤ} (hfits : ScaleFits v.abs rscale)
    (hne : v.abs ≠ 0) :
    Digits NBASE (roundVar v rscale).digits ∧ (roundVar v rscale).abs = v.abs ∧ (roundVar v rscale).sign = v.sign ∧
      (roundVar v rscale).dscale = rscale := by
  have hdi := scale_pos h hfits hne
  rw [roundVar]
  rw [DEC_DIGITS]
  dsimp only
  rw [if_neg (by omega)]
  generalize hd : (v.weight + 1) * 4 + rscale = di at hdi
  obtain ⟨n, hn⟩ : ∃ n : ℕ, (di + 4 - 1) / 4 = n := ⟨_, (Int.toNat_of_nonneg (by omega)).symm⟩
  rw [hn, Int.toNat_natCast]
  split
  · next hcut =>
    obtain ⟨e, he⟩ : ∃ e : ℕ, (e : ℤ) = 4 * v.digits.length - di :=
      ⟨(4 * v.digits.length - di).toNat, Int.toNat_of_nonneg (by omega)⟩
    have hdvd : (10 : ℤ) ^ e ∣ pval NBASE v.digits := dvd_pval hfits (by omega)
    obtain ⟨hround, hzeros⟩ := roundDigits_exact h (by omega : n ≤ v.digits.length)
      (⟨by omega, by omega⟩ : 0 ≤ di % 4 ∧ di % 4 < 4) (by omega) (by omega) (by split <;> omega) hdvd
    have htake : Digits NBASE (v.digits.take n) := fun d hd => h d (List.mem_of_mem_take hd)
    rw [hround, if_pos rfl]
    refine ⟨htake, ?_, rfl, rfl⟩
    have hrest : v.digits.drop n = List.replicate (v.digits.drop n).length 0 := List.eq_replicate_of_mem hzeros
    rw [NumericVar.abs, NumericVar.abs]
    conv_rhs => rw [← List.take_append_drop n v.digits, hrest, absAt_append_zeros]
  · exact ⟨h, rfl, rfl, rfl⟩

structure Normalized (v : NumericVar) : Prop where
  stripped : Stripped v
  dscale : 0 ≤ v.dscale
  fits : ScaleFits v.abs v.dscale

theorem Normalized.fraction_le {v : NumericVar} (h : Normalized v) (hne : v.digits ≠ []) :
    4 * (v.digits.length - v.weight - 1) ≤ v.dscale + 3 := by
  by_contra hgt
  obtain ⟨e, he⟩ : ∃ e : ℕ, (e : ℤ) = 4 * (v.digits.length - v.weight - 1) - v.dscale :=
    ⟨(4 * (v.digits.length - v.weight - 1) - v.dscale).toNat, Int.toNat_of_nonneg (by omega)⟩
  have hdvd : (10 : ℤ) ^ e ∣ pval NBASE v.digits := dvd_pval h.fits (by omega)
  have hbase : NBASE ∣ pval NBASE v.digits := by
    have hpow := nbase_pow 1
    rw [pow_one] at hpow
    rw [hpow]
    exact (pow_dvd_pow 10 (by omega)).trans hdvd
  obtain ⟨init, last, hlast⟩ : ∃ init last, v.digits = init ++ [last] :=
    ⟨_, _, (List.dropLast_append_getLast hne).symm⟩
  have hlastne : last ≠ 0 := h.stripped.last last (by rw [hlast, List.getLast?_concat]; rfl)
  have hdigit := h.stripped.digits last (hlast ▸ List.mem_append_right _ (List.mem_singleton_self last))
  rw [hlast, pval_append, pval_singleton, List.length_singleton, pow_one] at hbase
  have hlastdvd : NBASE ∣ last := (Int.dvd_add_right (Dvd.intro_left _ rfl)).mp hbase
  exact hlastne (Int.eq_zero_of_dvd_of_nonneg_of_lt hdigit.1 hdigit.2 hlastdvd)

end CdcKafka.Numeric
