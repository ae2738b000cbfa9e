import CdcKafka.Lib.Positional
import Mathlib.Algebra.Order.Field.Rat
import Mathlib.Algebra.Order.GroupWithZero.Basic
import Mathlib.Algebra.Order.Field.Power
import Mathlib.Data.List.DropRight
import Mathlib.Tactic.FieldSimp
import Mathlib.Tactic.Positivity

/-! The variables of `numeric.c`, their values, and the removal of zero digits. The special values (NaN and the infinities)
do not reach the functions modelled here. -/

namespace CdcKafka.Numeric

open Lib

def NBASE : ℤ := 10000

def DEC_DIGITS : ℤ := 4

inductive NumericSign where
  | pos
  | neg
deriving DecidableEq

structure NumericVar where
  weight : ℤ
  sign : NumericSign
  dscale : ℤ
  digits : List ℤ

namespace NumericVar

def ndigits (v : NumericVar) : ℤ := v.digits.length

end NumericVar

def zeroVar (dscale : ℤ) : NumericVar := ⟨0, .pos, dscale, []⟩

def stripLeading : List ℤ → ℤ → List ℤ × ℤ
  | [], weight => ([], weight)
  | d :: ds, weight => if d = 0 then stripLeading ds (weight - 1) else (d :: ds, weight)

def stripVar (v : NumericVar) : NumericVar :=
  let r := stripLeading v.digits v.weight
  let digits := r.1.rdropWhile (· = 0)
  if digits = [] then { v with sign := .pos, weight := 0, digits := [] }
  else { v with weight := r.2, digits := digits }

def absAt (digits : List ℤ) (weight : ℤ) : ℚ := pval NBASE digits * (NBASE : ℚ) ^ (weight + 1 - digits.length)

def NumericSign.factor : NumericSign → ℚ
  | .pos => 1
  | .neg => -1

def NumericVar.abs (v : NumericVar) : ℚ := absAt v.digits v.weight

def NumericVar.value (v : NumericVar) : ℚ := v.sign.factor * v.abs

theorem nbase_pos : (0 : ℚ) < NBASE := by rw [NBASE]; norm_num

theorem nbase_ne : (NBASE : ℚ) ≠ 0 := nbase_pos.ne'

theorem nbase_int_pos : 0 < NBASE := by decide

theorem absAt_nil (weight : ℤ) : absAt [] weight = 0 := by
  rw [absAt, pval_nil, Int.cast_zero, zero_mul]

theorem absAt_cons (d : ℤ) (ds : List ℤ) (weight : ℤ) :
    absAt (d :: ds) weight = d * (NBASE : ℚ) ^ weight + absAt ds (weight - 1) := by
  have hfirst : (NBASE : ℚ) ^ ds.length * (NBASE : ℚ) ^ (weight + 1 - (ds.length + 1 : ℕ)) = (NBASE : ℚ) ^ weight := by
    rw [← zpow_natCast, ← zpow_add₀ nbase_ne]
    congr 1
    omega
  have hrest : weight + 1 - ((ds.length + 1 : ℕ) : ℤ) = weight - 1 + 1 - ds.length := by omega
  rw [absAt, absAt, pval_cons, List.length_cons, Int.cast_add, add_mul, Int.cast_mul, Int.cast_pow, mul_assoc, hfirst,
    hrest]

theorem absAt_append_zeros (ds : List ℤ) (n : ℕ) (weight : ℤ) :
    absAt (ds ++ List.replicate n 0) weight = absAt ds weight := by
  rw [absAt, absAt, pval_append, pval_replicate_zero, add_zero, List.length_append, List.length_replicate, Int.cast_mul,
    Int.cast_pow, mul_assoc, ← zpow_natCast, ← zpow_add₀ nbase_ne]
  congr 2
  push_cast
  ring

theorem absAt_nonneg {ds : List ℤ} (h : Digits NBASE ds) (weight : ℤ) : 0 ≤ absAt ds weight :=
  mul_nonneg (Int.cast_nonneg (h.pval_nonneg nbase_int_pos)) (zpow_nonneg nbase_pos.le _)

theorem absAt_lt {ds : List ℤ} (h : Digits NBASE ds) (weight : ℤ) : absAt ds weight < (NBASE : ℚ) ^ (weight + 1) := by
  have hlt : (pval NBASE ds : ℚ) < (NBASE : ℚ) ^ ds.length := by
    exact_mod_cast h.pval_lt nbase_int_pos
  calc absAt ds weight < (NBASE : ℚ) ^ ds.length * (NBASE : ℚ) ^ (weight + 1 - ds.length) :=
        mul_lt_mul_of_pos_right hlt (zpow_pos nbase_pos _)
    _ = (NBASE : ℚ) ^ (weight + 1) := by
        rw [← zpow_natCast, ← zpow_add₀ nbase_ne]
        congr 1
        ring

theorem le_absAt {d : ℤ} {ds : List ℤ} (h : Digits NBASE (d :: ds)) (hd : d ≠ 0) (weight : ℤ) :
    (NBASE : ℚ) ^ weight ≤ absAt (d :: ds) weight := by
  obtain ⟨hdigit, hrest⟩ := List.forall_mem_cons.mp h
  have hone : (1 : ℚ) ≤ d := by exact_mod_cast (by omega : 1 ≤ d)
  have hpow : (0 : ℚ) < (NBASE : ℚ) ^ weight := zpow_pos nbase_pos _
  have hmul : 1 * (NBASE : ℚ) ^ weight ≤ d * (NBASE : ℚ) ^ weight := mul_le_mul_of_nonneg_right hone hpow.le
  have hnonneg := absAt_nonneg hrest (weight - 1)
  rw [absAt_cons]
  linarith

structure Stripped (v : NumericVar) : Prop where
  digits : Digits NBASE v.digits
  head : ∀ d ∈ v.digits.head?, d ≠ 0
  last : ∀ d ∈ v.digits.getLast?, d ≠ 0
  zero : v.digits = [] → v.sign = .pos ∧ v.weight = 0

theorem stripLeading_spec {ds : List ℤ} (h : Digits NBASE ds) (weight : ℤ) :
    absAt (stripLeading ds weight).1 (stripLeading ds weight).2 = absAt ds weight ∧
      Digits NBASE (stripLeading ds weight).1 ∧ ∀ d ∈ (stripLeading ds weight).1.head?, d ≠ 0 := by
  induction ds generalizing weight with
  | nil => exact ⟨rfl, h, fun d hd => by cases hd⟩
  | cons d ds ih =>
    rw [stripLeading]
    split
    · next hzero =>
      obtain ⟨hval, hdigits, hhead⟩ := ih (List.forall_mem_cons.mp h).2 (weight - 1)
      refine ⟨?_, hdigits, hhead⟩
      rw [hval, absAt_cons, hzero, Int.cast_zero, zero_mul, zero_add]
    · next hne => exact ⟨rfl, h, fun e he => by cases he; exact hne⟩

theorem rdropWhile_zeros (ds : List ℤ) : ∃ n, ds = ds.rdropWhile (· = 0) ++ List.replicate n 0 := by
  induction ds using List.reverseRecOn with
  | nil => exact ⟨0, rfl⟩
  | append_singleton ds d ih =>
    by_cases hd : d = 0
    · obtain ⟨n, hn⟩ := ih
      refine ⟨n + 1, ?_⟩
      rw [List.rdropWhile_concat_pos _ _ _ (by simpa using hd), List.replicate_succ', ← List.append_assoc, ← hn, hd]
    · refine ⟨0, ?_⟩
      rw [List.rdropWhile_concat_neg _ _ _ (by simpa using hd), List.replicate_zero, List.append_nil]

theorem stripVar_spec {v : NumericVar} (h : Digits NBASE v.digits) :
    Stripped (stripVar v) ∧ (stripVar v).abs = v.abs ∧ (stripVar v).dscale = v.dscale ∧
      (v.abs ≠ 0 → (stripVar v).sign = v.sign) := by
  obtain ⟨hval, hdigits, hhead⟩ := stripLeading_spec h v.weight
  obtain ⟨n, hn⟩ := rdropWhile_zeros (stripLeading v.digits v.weight).1
  have hstripped : absAt ((stripLeading v.digits v.weight).1.rdropWhile (· = 0)) (stripLeading v.digits v.weight).2 =
      absAt v.digits v.weight := by
    rw [← hval]
    conv_rhs => rw [hn, absAt_append_zeros]
  have hsub : Digits NBASE ((stripLeading v.digits v.weight).1.rdropWhile (· = 0)) :=
    fun d hd => hdigits d (hn ▸ List.mem_append_left _ hd)
  rw [stripVar]
  split
  · next hnil =>
    rw [hnil, absAt_nil] at hstripped
    refine ⟨⟨List.forall_mem_nil _, (fun d hd => by cases hd), (fun d hd => by cases hd), fun _ => ⟨rfl, rfl⟩⟩, ?_, rfl,
      fun hne => absurd hstripped.symm hne⟩
    exact (absAt_nil 0).trans hstripped
  · next hne =>
    refine ⟨⟨hsub, ?_, ?_, fun hnil => absurd hnil hne⟩, hstripped, rfl, fun _ => rfl⟩
    · intro d hd
      refine hhead d ?_
      rw [hn, List.head?_append]
      rw [Option.mem_def] at hd ⊢
      rw [hd, Option.some_or]
    · intro d hd
      have hlast := List.rdropWhile_last_not (fun d : ℤ => decide (d = 0)) (stripLeading v.digits v.weight).1 hne
      rw [Option.mem_def, List.getLast?_eq_some_getLast hne, Option.some.injEq] at hd
      rw [hd] at hlast
      simpa using hlast

theorem stripVar_value {v : NumericVar} (h : Digits NBASE v.digits) : (stripVar v).value = v.value := by
  obtain ⟨-, habs, -, hsign⟩ := stripVar_spec h
  rw [NumericVar.value, NumericVar.value, habs]
  by_cases hzero : v.abs = 0
  · rw [hzero, mul_zero, mul_zero]
  · rw [hsign hzero]

theorem absAt_inj {ds es : List ℤ} (hds : Digits NBASE ds) (hes : Digits NBASE es) (hlast : ∀ d ∈ ds.getLast?, d ≠ 0)
    (hlast' : ∀ d ∈ es.getLast?, d ≠ 0) {weight : ℤ} (h : absAt ds weight = absAt es weight) : ds = es := by
  have hne {c : ℤ} {cs : List ℤ} (hcs : Digits NBASE (c :: cs)) (hl : ∀ d ∈ (c :: cs).getLast?, d ≠ 0) (w : ℤ) :
      absAt (c :: cs) w ≠ 0 := by
    induction cs generalizing c w with
    | nil => exact ((zpow_pos nbase_pos w).trans_le (le_absAt hcs (hl c rfl) w)).ne'
    | cons c' cs ih =>
      have hrest : Digits NBASE (c' :: cs) := (List.forall_mem_cons.mp hcs).2
      have hpos : 0 < absAt (c' :: cs) (w - 1) :=
        lt_of_le_of_ne (absAt_nonneg hrest _) (ih hrest (by rwa [List.getLast?_cons_cons] at hl) _).symm
      have hc : (0 : ℚ) ≤ c := Int.cast_nonneg (List.forall_mem_cons.mp hcs).1.1
      rw [absAt_cons]
      exact (add_pos_of_nonneg_of_pos (mul_nonneg hc (zpow_nonneg nbase_pos.le w)) hpos).ne'
  induction ds generalizing es weight with
  | nil =>
    cases es with
    | nil => rfl
    | cons e es =>
      rw [absAt_nil] at h
      exact absurd h.symm (hne hes hlast' weight)
  | cons d ds ih =>
    cases es with
    | nil =>
      rw [absAt_nil] at h
      exact absurd h (hne hds hlast weight)
    | cons e es =>
      obtain ⟨hd, hds'⟩ := List.forall_mem_cons.mp hds
      obtain ⟨he, hes'⟩ := List.forall_mem_cons.mp hes
      have hrest : absAt ds (weight - 1) < (NBASE : ℚ) ^ weight := by
        have := absAt_lt hds' (weight - 1)
        rwa [Int.sub_add_cancel] at this
      have hrest' : absAt es (weight - 1) < (NBASE : ℚ) ^ weight := by
        have := absAt_lt hes' (weight - 1)
        rwa [Int.sub_add_cancel] at this
      have hnonneg := absAt_nonneg hds' (weight - 1)
      have hnonneg' := absAt_nonneg hes' (weight - 1)
      rw [absAt_cons, absAt_cons] at h
      have hpow : (0 : ℚ) < (NBASE : ℚ) ^ weight := zpow_pos nbase_pos _
      obtain rfl : d = e := by
        have hle : (d : ℚ) < e + 1 := by
          refine lt_of_mul_lt_mul_right (?_ : (d : ℚ) * (NBASE : ℚ) ^ weight < (e + 1) * (NBASE : ℚ) ^ weight) hpow.le
          linarith
        have hge : (e : ℚ) < d + 1 := by
          refine lt_of_mul_lt_mul_right (?_ : (e : ℚ) * (NBASE : ℚ) ^ weight < (d + 1) * (NBASE : ℚ) ^ weight) hpow.le
          linarith
        have hle' : d < e + 1 := by exact_mod_cast hle
        have hge' : e < d + 1 := by exact_mod_cast hge
        omega
      have htail {c : ℤ} {cs : List ℤ} (hl : ∀ x ∈ (c :: cs).getLast?, x ≠ 0) : ∀ x ∈ cs.getLast?, x ≠ 0 := by
        cases cs with
        | nil => intro x hx; cases hx
        | cons c' cs => rwa [List.getLast?_cons_cons] at hl
      exact congrArg (d :: ·) (ih hds' hes' (htail hlast) (htail hlast') (add_left_cancel h))

theorem Stripped.abs_eq_zero_iff {v : NumericVar} (h : Stripped v) : v.abs = 0 ↔ v.digits = [] := by
  cases hdigits : v.digits with
  | nil => exact iff_of_true (by rw [NumericVar.abs, hdigits, absAt_nil]) rfl
  | cons d ds =>
    refine iff_of_false ?_ (List.cons_ne_nil d ds)
    have hd : d ≠ 0 := h.head d (by rw [hdigits]; rfl)
    rw [NumericVar.abs, hdigits]
    exact ((zpow_pos nbase_pos _).trans_le (le_absAt (hdigits ▸ h.digits) hd v.weight)).ne'

theorem Stripped.abs_nonneg {v : NumericVar} (h : Stripped v) : 0 ≤ v.abs := absAt_nonneg h.digits v.weight

theorem Stripped.weight_le_of_abs {v1 v2 : NumericVar} (h1 : Stripped v1) (h2 : Stripped v2) (hne : v1.digits ≠ [])
    (h : v1.abs ≤ v2.abs) : v1.weight ≤ v2.weight := by
  obtain ⟨d, ds, hdigits⟩ := List.exists_cons_of_ne_nil hne
  have hd : d ≠ 0 := h1.head d (by rw [hdigits]; rfl)
  have hbelow : (NBASE : ℚ) ^ v1.weight ≤ v1.abs := by
    rw [NumericVar.abs, hdigits]
    exact le_absAt (hdigits ▸ h1.digits) hd v1.weight
  have habove : v2.abs < (NBASE : ℚ) ^ (v2.weight + 1) := absAt_lt h2.digits v2.weight
  have hbase : (1 : ℚ) < NBASE := by rw [NBASE]; norm_num
  exact Int.lt_add_one_iff.mp ((zpow_lt_zpow_iff_right₀ hbase).mp (hbelow.trans_lt (h.trans_lt habove)))

theorem Stripped.eq_of_value {v1 v2 : NumericVar} (h1 : Stripped v1) (h2 : Stripped v2) (hvalue : v1.value = v2.value)
    (hdscale : v1.dscale = v2.dscale) : v1 = v2 := by
  have hsigns : v1.abs = v2.abs ∧ (v1.abs ≠ 0 → v1.sign = v2.sign) := by
    have hnonneg1 := h1.abs_nonneg
    have hnonneg2 := h2.abs_nonneg
    rw [NumericVar.value, NumericVar.value] at hvalue
    cases hs1 : v1.sign <;> cases hs2 : v2.sign <;> simp only [hs1, hs2, NumericSign.factor] at hvalue
    · exact ⟨by linarith, fun _ => rfl⟩
    · exact ⟨by linarith, fun hne => absurd (by linarith) hne⟩
    · exact ⟨by linarith, fun hne => absurd (by linarith) hne⟩
    · exact ⟨by linarith, fun _ => rfl⟩
  obtain ⟨habs, hsign⟩ := hsigns
  obtain ⟨weight1, sign1, dscale1, digits1⟩ := v1
  obtain ⟨weight2, sign2, dscale2, digits2⟩ := v2
  obtain rfl : dscale1 = dscale2 := hdscale
  by_cases hzero : digits1 = []
  · have hzero' : digits2 = [] := h2.abs_eq_zero_iff.mp (habs ▸ h1.abs_eq_zero_iff.mpr hzero)
    obtain ⟨hs1, hw1⟩ := h1.zero hzero
    obtain ⟨hs2, hw2⟩ := h2.zero hzero'
    dsimp only at hzero hzero' hs1 hw1 hs2 hw2
    rw [hzero, hzero', hs1, hw1, hs2, hw2]
  · have hzero' : digits2 ≠ [] := fun hnil => hzero (h1.abs_eq_zero_iff.mp (habs ▸ h2.abs_eq_zero_iff.mpr hnil))
    have hweight : weight1 = weight2 :=
      le_antisymm (h1.weight_le_of_abs h2 hzero habs.le) (h2.weight_le_of_abs h1 hzero' habs.ge)
    have hsame : sign1 = sign2 := hsign fun h => hzero (h1.abs_eq_zero_iff.mp h)
    subst hweight hsame
    obtain rfl : digits1 = digits2 := absAt_inj h1.digits h2.digits h1.last h2.last habs
    rfl

end CdcKafka.Numeric
