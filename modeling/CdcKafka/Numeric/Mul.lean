import CdcKafka.Lib.DigitProducts
import CdcKafka.Numeric.AddSub
import CdcKafka.Numeric.Round

/-! Multiplication of numeric variables: directly for short operands, and in base `NBASE ^ 2` with late carries. -/

namespace CdcKafka.Numeric

open Lib

def MUL_GUARD_DIGITS : ℤ := 2

def NBASE_SQR : ℤ := NBASE ^ 2

def isUint32 (n : ℤ) : Bool := decide (0 ≤ n ∧ n ≤ 4294967295)

def PG_UINT64_MAX : ℤ := 18446744073709551615

def isUint64 (n : ℤ) : Bool := decide (0 ≤ n ∧ n ≤ PG_UINT64_MAX)

def productSign (v1 v2 : NumericVar) : NumericSign := if v1.sign = v2.sign then .pos else .neg

/-- The sums of products in `mul_var_short`, for `var1` with `n1` digits and `var2` with `n2`: the leading ones in the
last `switch`, the ones of the loop, and the last ones before it. -/
def shortTerms (v1 v2 : List ℤ) (n1 n2 : ℕ) : List ℤ :=
  ((List.range (n1 - 1)).map fun t : ℕ => prodsum v1 v2 (t + 1) 0 t) ++
    ((List.range (n2 - n1 + 1)).map fun t : ℕ => prodsum v1 v2 n1 0 (n1 - 1 + t)) ++
    ((List.range (n1 - 1)).map fun t : ℕ => prodsum v1 v2 (n1 - 1 - t) (t + 1) (n2 - 1))

def mulVarShort (var1 var2 : NumericVar) : Option NumericVar :=
  let n1 := var1.digits.length
  let n2 := var2.digits.length
  if 1 ≤ n1 ∧ n1 ≤ 6 ∧ n1 ≤ n2 then
    (carryPass isUint32 (· / NBASE) NBASE (shortTerms var1.digits var2.digits n1 n2)).map fun r =>
      stripVar ⟨var1.weight + var2.weight + 1, productSign var1 var2, var1.dscale + var2.dscale, r.2 :: r.1⟩
  else none

def sqrCarry (newdig : ℤ) : ℤ := if NBASE_SQR ≤ newdig then newdig / NBASE_SQR else 0

def normalizePairs (dig : List ℤ) : Option (List ℤ) := exactPass isUint64 sqrCarry NBASE_SQR dig

def maxdigLimit : ℤ := (PG_UINT64_MAX - PG_UINT64_MAX / NBASE_SQR) / (NBASE_SQR - 1)

/-- The products of one digit pair of `var1` with `var2`, from the index `lead` of `res_ndigitpairs` on. -/
def pairRow (var1digitpair : ℤ) (var2digitpairs : List ℤ) (lead resNdigitpairs : ℕ) : List ℤ :=
  window (var2digitpairs.map (var1digitpair * ·)) lead resNdigitpairs

def addRow (dig row : List ℤ) : Option (List ℤ) :=
  let sums := List.zipWith (· + ·) dig row
  if sums.all isUint64 then some sums else none

def mulRows (var2digitpairs : List ℤ) (resNdigitpairs : ℕ) : List ℤ → ℕ → Option (List ℤ × ℤ)
  | [], _ => none
  | [var1digitpair], lead => some (pairRow var1digitpair var2digitpairs lead resNdigitpairs, var1digitpair)
  | var1digitpair :: rest@(_ :: _), lead => do
    let r ← mulRows var2digitpairs resNdigitpairs rest (lead + 1)
    if var1digitpair = 0 then some r
    else do
      let normalized ←
        if maxdigLimit < r.2 + var1digitpair then (normalizePairs r.1).map fun dig => (dig, 1 + var1digitpair)
        else some (r.1, r.2 + var1digitpair)
      let dig ← addRow normalized.1 (pairRow var1digitpair var2digitpairs lead resNdigitpairs)
      if isUint64 normalized.2 then some (dig, normalized.2) else none

def mulVarLong (var1 var2 : NumericVar) (rscale : ℤ) : Option NumericVar :=
  let n1 := var1.digits.length
  let n2 := var2.digits.length
  let exactNdigitpairs : ℤ := ((n1 + n2) / 2 + 1 : ℕ)
  let pairOffset : ℤ := exactNdigitpairs - ((n1 + 1) / 2 : ℕ) - ((n2 + 1) / 2 : ℕ) + 1
  let resWeight := var1.weight + var2.weight + 1 + 2 * exactNdigitpairs - (n1 + n2 : ℕ) - (n1 % 2 : ℕ) - (n2 % 2 : ℕ)
  let maxdigits := resWeight + 1 + (rscale + DEC_DIGITS - 1).tdiv DEC_DIGITS + MUL_GUARD_DIGITS
  let maxdigitpairs := maxdigits.tdiv 2 + 1
  let resNdigitpairs := min exactNdigitpairs maxdigitpairs
  if resNdigitpairs ≤ pairOffset then some (zeroVar rscale)
  else do
    let used := (resNdigitpairs - pairOffset).toNat
    let r ← mulRows ((pairs NBASE var2.digits).take used) resNdigitpairs.toNat ((pairs NBASE var1.digits).take used)
      pairOffset.toNat
    let dig ← normalizePairs r.1
    some (stripVar (roundVar ⟨resWeight, productSign var1 var2, 0, unpair NBASE dig⟩ rscale))

def mulVar (v1 v2 : NumericVar) (rscale : ℤ) : Option NumericVar :=
  let ordered := if v2.digits.length < v1.digits.length then (v2, v1) else (v1, v2)
  if ordered.1.digits.length = 0 then some (zeroVar rscale)
  else if ordered.1.digits.length ≤ 6 ∧ rscale = ordered.1.dscale + ordered.2.dscale then
    mulVarShort ordered.1 ordered.2
  else mulVarLong ordered.1 ordered.2 rscale

theorem shortTerms_eq {v1 v2 : List ℤ} {n1 n2 : ℕ} (h1 : v1.length = n1) (h2 : v2.length = n2) (hpos : 1 ≤ n1)
    (hle : n1 ≤ n2) :
    shortTerms v1 v2 n1 n2 = (List.range (n1 + n2 - 1)).map fun i : ℕ => convAt v1 v2 i := by
  have hcount : n1 + n2 - 1 = n1 - 1 + (n2 - n1 + 1) + (n1 - 1) := by omega
  rw [shortTerms, hcount, @List.range_add (n1 - 1 + (n2 - n1 + 1)) (n1 - 1), @List.range_add (n1 - 1) (n2 - n1 + 1),
    List.map_append, List.map_append, List.map_map, List.map_map]
  congr 1
  · congr 1
    · refine List.map_congr_left fun t ht => ?_
      obtain ⟨m, hm⟩ : ∃ m, n1 = t + 1 + m := ⟨n1 - (t + 1), by have := List.mem_range.mp ht; omega⟩
      rw [← prodsum_eq_convAt, h1, hm, prodsum_before v1 v2 m 0 (by omega)]
    · refine List.map_congr_left fun t _ => ?_
      have hindex : (n1 : ℤ) - 1 + t = (n1 - 1 + t : ℕ) := by omega
      rw [Function.comp_apply, ← prodsum_eq_convAt, h1, hindex]
  · refine List.map_congr_left fun t ht => ?_
    have ht' := List.mem_range.mp ht
    have hsplit : n1 = t + 1 + (n1 - 1 - t) := by omega
    have hindex : ((n1 - 1 + (n2 - n1 + 1) + t : ℕ) : ℤ) = n2 + t := by omega
    rw [Function.comp_apply, ← prodsum_eq_convAt, h1, hindex]
    conv_rhs => rw [hsplit]
    rw [prodsum_behind v1 v2 (t + 1) (n1 - 1 - t) 0 (by omega), zero_add, Nat.cast_succ]
    congr 1
    ring

theorem shortCarries : Carries isUint32 (· / NBASE) NBASE 0 600000000 0 60000 where
  ok_of n h h' := by rw [isUint32, decide_eq_true_iff]; omega
  digit n h h' := by rw [NBASE]; omega
  carry n h h' := by rw [NBASE]; omega
  carry_zero := by decide

theorem productSign_factor (v1 v2 : NumericVar) : (productSign v1 v2).factor = v1.sign.factor * v2.sign.factor := by
  rw [productSign]
  cases v1.sign <;> cases v2.sign <;> simp [NumericSign.factor]

theorem abs_mul_abs (v1 v2 : NumericVar) : v1.abs * v2.abs = (pval NBASE v1.digits * pval NBASE v2.digits : ℤ) *
      (NBASE : ℚ) ^ (v1.weight + v2.weight + 2 - v1.digits.length - v2.digits.length) := by
  have hpow : (NBASE : ℚ) ^ (v1.weight + v2.weight + 2 - v1.digits.length - v2.digits.length) =
      (NBASE : ℚ) ^ (v1.weight + 1 - v1.digits.length) * (NBASE : ℚ) ^ (v2.weight + 1 - v2.digits.length) := by
    rw [← zpow_add₀ nbase_ne]
    congr 1
    ring
  rw [NumericVar.abs, NumericVar.abs, absAt, absAt, hpow, Int.cast_mul]
  ring

theorem mulVarShort_spec {v1 v2 : NumericVar} (h1 : Digits NBASE v1.digits) (h2 : Digits NBASE v2.digits)
    (hpos : 1 ≤ v1.digits.length) (hsix : v1.digits.length ≤ 6) (hle : v1.digits.length ≤ v2.digits.length) :
    ∃ r, mulVarShort v1 v2 = some r ∧ ResultVar r (v1.value * v2.value) (v1.dscale + v2.dscale) := by
  rw [mulVarShort, if_pos ⟨hpos, hsix, hle⟩, shortTerms_eq rfl rfl hpos hle]
  generalize hn : v1.digits.length + v2.digits.length - 1 = n
  have hn' : v1.digits.length + v2.digits.length = n + 1 := by omega
  have hterms : ∀ t ∈ (List.range n).map fun i : ℕ => convAt v1.digits v2.digits i,
      (0 : ℤ) - 0 ≤ t ∧ t ≤ 600000000 - 60000 := by
    refine List.forall_mem_map.mpr fun i _ => ?_
    rw [← prodsum_eq_convAt]
    obtain ⟨hnonneg, hbound⟩ := prodsum_bounds h1 h2 nbase_int_pos v1.digits.length 0 i
    rw [NBASE] at hbound
    omega
  obtain ⟨ds, c, hpass, hdigits, hlen, hc, -, hval⟩ := carryPass_spec shortCarries hterms
  rw [pval_convAt _ _ hn', List.length_map, List.length_range] at hval
  rw [List.length_map, List.length_range] at hlen
  have hlt : c < NBASE := by
    have hlt1 := h1.pval_lt nbase_int_pos
    have hlt2 := h2.pval_lt nbase_int_pos
    have hprod : pval NBASE v1.digits * pval NBASE v2.digits < NBASE ^ v1.digits.length * NBASE ^ v2.digits.length :=
      mul_lt_mul'' hlt1 hlt2 (h1.pval_nonneg nbase_int_pos) (h2.pval_nonneg nbase_int_pos)
    rw [← pow_add, hn', ← hval, pow_succ'] at hprod
    have hnonneg := hdigits.pval_nonneg nbase_int_pos
    have hmul : c * NBASE ^ n < NBASE * NBASE ^ n := by linarith
    exact lt_of_mul_lt_mul_right hmul (pow_nonneg nbase_int_pos.le n)
  have hall : Digits NBASE (c :: ds) := List.forall_mem_cons.mpr ⟨⟨hc, hlt⟩, hdigits⟩
  have habs : absAt (c :: ds) (v1.weight + v2.weight + 1) = v1.abs * v2.abs := by
    have hexp : v1.weight + v2.weight + 1 + 1 - ((c :: ds).length : ℕ) =
        v1.weight + v2.weight + 2 - v1.digits.length - v2.digits.length := by
      rw [List.length_cons, hlen]
      omega
    rw [abs_mul_abs, absAt, hexp, pval_cons, hlen, add_comm, hval]
  rw [hpass]
  obtain ⟨hstripped, -, hdscale, -⟩ :=
    @stripVar_spec ⟨v1.weight + v2.weight + 1, productSign v1 v2, v1.dscale + v2.dscale, c :: ds⟩ hall
  refine ⟨_, rfl, hstripped, ?_, hdscale⟩
  rw [stripVar_value hall, NumericVar.value, NumericVar.abs, habs, productSign_factor, NumericVar.value, NumericVar.value]
  ring

theorem nbase_sqr_pos : 0 < NBASE_SQR := by decide

theorem sqrCarries : Carries isUint64 sqrCarry NBASE_SQR 0 PG_UINT64_MAX 0 (PG_UINT64_MAX / NBASE_SQR) where
  ok_of n h h' := decide_eq_true ⟨h, h'⟩
  digit n h h' := by
    have hsqr : NBASE_SQR = 100000000 := by decide
    rw [sqrCarry, hsqr]
    split <;> omega
  carry n h h' := by
    have hsqr : NBASE_SQR = 100000000 := by decide
    rw [PG_UINT64_MAX] at h' ⊢
    rw [sqrCarry, hsqr]
    split <;> omega
  carry_zero := by decide

theorem maxdigLimit_spec :
    maxdigLimit * (NBASE_SQR - 1) ≤ PG_UINT64_MAX - PG_UINT64_MAX / NBASE_SQR ∧ NBASE_SQR ≤ maxdigLimit := by decide

structure RowSums (resNdigitpairs : ℕ) (r : List ℤ × ℤ) (x : ℤ) : Prop where
  length : r.1.length = resNdigitpairs
  maxdig : 0 ≤ r.2 ∧ r.2 ≤ maxdigLimit
  entries : ∀ d ∈ r.1, 0 ≤ d ∧ d ≤ r.2 * (NBASE_SQR - 1)
  value : pval NBASE_SQR r.1 = x

theorem RowSums.terms {m : ℕ} {r : List ℤ × ℤ} {x : ℤ} (h : RowSums m r x) :
    ∀ d ∈ r.1, 0 - 0 ≤ d ∧ d ≤ PG_UINT64_MAX - PG_UINT64_MAX / NBASE_SQR := by
  intro d hd
  obtain ⟨hnonneg, hle⟩ := h.entries d hd
  refine ⟨by rwa [sub_zero], hle.trans (le_trans ?_ maxdigLimit_spec.1)⟩
  exact mul_le_mul_of_nonneg_right h.maxdig.2 (by decide)

theorem RowSums.normalize {m : ℕ} {r : List ℤ × ℤ} {x : ℤ} (h : RowSums m r x) (hnonneg : 0 ≤ x)
    (hlt : x < NBASE_SQR ^ m) :
    ∃ dig, normalizePairs r.1 = some dig ∧ Digits NBASE_SQR dig ∧ dig.length = m ∧ pval NBASE_SQR dig = x := by
  rw [← h.value] at hnonneg hlt
  rw [← h.length] at hlt
  obtain ⟨dig, hpass, hdigits, hlen, hval⟩ := exactPass_spec sqrCarries nbase_sqr_pos h.terms hnonneg hlt
  exact ⟨dig, hpass, hdigits, hlen.trans h.length, hval.trans h.value⟩

theorem pairRow_spec {x : ℤ} {p2 : List ℤ} (hx : 0 ≤ x) (h2 : Digits NBASE_SQR p2) {lead trail m : ℕ}
    (hm : lead + p2.length + trail = m) :
    (pairRow x p2 lead m).length = m ∧ (∀ d ∈ pairRow x p2 lead m, 0 ≤ d ∧ d ≤ x * (NBASE_SQR - 1)) ∧
      pval NBASE_SQR (pairRow x p2 lead m) = x * pval NBASE_SQR p2 * NBASE_SQR ^ trail := by
  have hlen : lead + (p2.map (x * ·)).length + trail = m := by rwa [List.length_map]
  refine ⟨length_window _ _ _, ?_, ?_⟩
  · rw [pairRow, window_eq hlen]
    have hzero : (0 : ℤ) ≤ 0 ∧ 0 ≤ x * (NBASE_SQR - 1) := ⟨le_refl _, mul_nonneg hx (by decide)⟩
    refine List.forall_mem_append.mpr ⟨List.forall_mem_append.mpr ⟨?_, List.forall_mem_map.mpr ?_⟩, ?_⟩
    · intro d hd
      rwa [List.eq_of_mem_replicate hd]
    · intro d hd
      obtain ⟨hnonneg, hlt⟩ := h2 d hd
      exact ⟨mul_nonneg hx hnonneg, mul_le_mul_of_nonneg_left (by omega) hx⟩
    · intro d hd
      rwa [List.eq_of_mem_replicate hd]
  · rw [pairRow, pval_window hlen, pval_map_mul]

theorem isUint64_of {n : ℤ} (h : 0 ≤ n) (h' : n ≤ PG_UINT64_MAX - PG_UINT64_MAX / NBASE_SQR) : isUint64 n = true :=
  decide_eq_true ⟨h, h'.trans (sub_le_self _ (by decide))⟩

theorem addRow_spec {m : ℕ} {r : List ℤ × ℤ} {x y : ℤ} {row : List ℤ} {d : ℤ} (h : RowSums m r x) (hd : 0 ≤ d)
    (hfits : r.2 + d ≤ maxdigLimit) (hlen : row.length = m) (hrow : ∀ e ∈ row, 0 ≤ e ∧ e ≤ d * (NBASE_SQR - 1))
    (hval : pval NBASE_SQR row = y) :
    ∃ dig, addRow r.1 row = some dig ∧ RowSums m (dig, r.2 + d) (x + y) := by
  have hsums : RowSums m (List.zipWith (· + ·) r.1 row, r.2 + d) (x + y) := by
    refine ⟨?_, ⟨add_nonneg h.maxdig.1 hd, hfits⟩, ?_, ?_⟩
    · dsimp only
      rw [List.length_zipWith, h.length, hlen, Nat.min_self]
    · intro t ht
      obtain ⟨e, he, e', he', rfl⟩ := mem_zipWith_add ht
      obtain ⟨hnonneg, hle⟩ := h.entries e he
      obtain ⟨hnonneg', hle'⟩ := hrow e' he'
      refine ⟨add_nonneg hnonneg hnonneg', ?_⟩
      rw [add_mul]
      exact add_le_add hle hle'
    · dsimp only
      rw [pval_zipWith_add (h.length.trans hlen.symm), h.value, hval]
  refine ⟨_, ?_, hsums⟩
  have hall : (List.zipWith (· + ·) r.1 row).all isUint64 = true := by
    refine List.all_eq_true.mpr fun t ht => ?_
    obtain ⟨hnonneg, hle⟩ := hsums.terms t ht
    exact isUint64_of (by omega) hle
  rw [addRow]
  exact if_pos hall

theorem mulRows_spec {p1 p2 : List ℤ} (h1 : Digits NBASE_SQR p1) (h2 : Digits NBASE_SQR p2) (hne : p1 ≠ []) {lead m : ℕ}
    (hm : lead + p1.length + p2.length = m + 1) :
    ∃ r, mulRows p2 m p1 lead = some r ∧ RowSums m r (pval NBASE_SQR p1 * pval NBASE_SQR p2) := by
  induction p1 generalizing lead with
  | nil => exact absurd rfl hne
  | cons x rest ih =>
    obtain ⟨hx, hrest'⟩ := List.forall_mem_cons.mp h1
    have hrest : Digits NBASE_SQR rest := hrest'
    rw [List.length_cons] at hm
    have hlimit : x ≤ maxdigLimit := hx.2.le.trans maxdigLimit_spec.2
    obtain ⟨hlen, hentries, hval⟩ := @pairRow_spec x p2 hx.1 h2 lead rest.length m (by omega)
    cases rest with
    | nil =>
      refine ⟨(pairRow x p2 lead m, x), by rw [mulRows], hlen, ⟨hx.1, hlimit⟩, hentries, ?_⟩
      dsimp only
      rw [hval, pval_singleton, List.length_nil, pow_zero, mul_one]
    | cons y ys =>
      have hnext : lead + 1 + (y :: ys).length + p2.length = m + 1 := by omega
      obtain ⟨r, hrows, hsums⟩ := ih hrest (List.cons_ne_nil _ _) hnext
      simp only [mulRows, hrows, Option.bind_eq_bind, Option.bind_some]
      split
      · next hzero =>
        refine ⟨r, rfl, ?_⟩
        rwa [pval_cons, hzero, zero_mul, zero_add]
      · have hnonneg : 0 ≤ pval NBASE_SQR (y :: ys) * pval NBASE_SQR p2 :=
          mul_nonneg (hrest.pval_nonneg nbase_sqr_pos) (h2.pval_nonneg nbase_sqr_pos)
        have hlt : pval NBASE_SQR (y :: ys) * pval NBASE_SQR p2 < NBASE_SQR ^ m := by
          have hprod := mul_lt_mul'' (hrest.pval_lt nbase_sqr_pos) (h2.pval_lt nbase_sqr_pos)
            (hrest.pval_nonneg nbase_sqr_pos) (h2.pval_nonneg nbase_sqr_pos)
          rw [← pow_add] at hprod
          exact hprod.trans_le (pow_le_pow_right₀ (by decide) (by omega))
        have hadded (r' : List ℤ × ℤ) (h' : RowSums m r' (pval NBASE_SQR (y :: ys) * pval NBASE_SQR p2))
            (hfits : r'.2 + x ≤ maxdigLimit) :
            ∃ dig, addRow r'.1 (pairRow x p2 lead m) = some dig ∧
              RowSums m (dig, r'.2 + x) (pval NBASE_SQR (x :: y :: ys) * pval NBASE_SQR p2) := by
          obtain ⟨dig, hadd, hsums'⟩ := addRow_spec h' hx.1 hfits hlen hentries hval
          refine ⟨dig, hadd, ?_⟩
          have hsplit : pval NBASE_SQR (x :: y :: ys) * pval NBASE_SQR p2 = pval NBASE_SQR (y :: ys) * pval NBASE_SQR p2 +
              x * pval NBASE_SQR p2 * NBASE_SQR ^ (y :: ys).length := by
            rw [pval_cons x]
            ring
          rwa [hsplit]
        have huint {n : ℤ} (h0 : 0 ≤ n) (hle : n ≤ maxdigLimit) : isUint64 n = true :=
          decide_eq_true ⟨h0, hle.trans (by decide)⟩
        split
        · -- the sums are normalized first
          obtain ⟨dig, hnormalize, hdigits, hlength, hvalue⟩ := hsums.normalize hnonneg hlt
          have hone : 1 + x ≤ maxdigLimit := by
            have := maxdigLimit_spec.2
            omega
          have hnormal : RowSums m (dig, 1) (pval NBASE_SQR (y :: ys) * pval NBASE_SQR p2) := by
            refine ⟨hlength, (by decide : (0 : ℤ) ≤ 1 ∧ 1 ≤ maxdigLimit), fun d hd => ?_, hvalue⟩
            obtain ⟨h0, hd'⟩ := hdigits d hd
            rw [one_mul]
            exact ⟨h0, by omega⟩
          obtain ⟨dig', hadd, hsums'⟩ := hadded _ hnormal hone
          dsimp only at hadd hsums'
          refine ⟨(dig', 1 + x), ?_, hsums'⟩
          rw [hnormalize, Option.map_some, Option.bind_some, hadd, Option.bind_some]
          exact if_pos (huint (by omega) hone)
        · next hfits =>
          obtain ⟨dig', hadd, hsums'⟩ := hadded r hsums (not_lt.mp hfits)
          refine ⟨(dig', r.2 + x), ?_, hsums'⟩
          rw [hadd, Option.bind_some]
          exact if_pos (huint hsums'.maxdig.1 hsums'.maxdig.2)

theorem scaleFits_mul {x y : ℚ} {d e : ℤ} (hx : ScaleFits x d) (hy : ScaleFits y e) : ScaleFits (x * y) (d + e) := by
  obtain ⟨n, hn⟩ := hx
  obtain ⟨k, hk⟩ := hy
  refine ⟨n * k, ?_⟩
  rw [zpow_add₀ (by norm_num : (10 : ℚ) ≠ 0), Int.cast_mul, ← hn, ← hk]
  ring

theorem mulVarLong_spec {v1 v2 : NumericVar} (h1 : Normalized v1) (h2 : Normalized v2) (hne1 : v1.digits ≠ [])
    (hne2 : v2.digits ≠ []) :
    ∃ r, mulVarLong v1 v2 (v1.dscale + v2.dscale) = some r ∧
      ResultVar r (v1.value * v2.value) (v1.dscale + v2.dscale) := by
  have hpos1 := List.length_pos_iff.mpr hne1
  have hpos2 := List.length_pos_iff.mpr hne2
  have hfrac1 := h1.fraction_le hne1
  have hfrac2 := h2.fraction_le hne2
  have hscale1 := h1.dscale
  have hscale2 := h2.dscale
  obtain ⟨used, hused⟩ : ∃ used : ℕ, used + 1 = (v1.digits.length + 1) / 2 + (v2.digits.length + 1) / 2 :=
    ⟨(v1.digits.length + 1) / 2 + (v2.digits.length + 1) / 2 - 1, by omega⟩
  obtain ⟨offset, hoffset⟩ : ∃ offset : ℕ, offset + used = (v1.digits.length + v2.digits.length) / 2 + 1 :=
    ⟨(v1.digits.length + v2.digits.length) / 2 + 1 - used, by omega⟩
  have hoffset' : (((v1.digits.length + v2.digits.length) / 2 + 1 : ℕ) : ℤ) - ((v1.digits.length + 1) / 2 : ℕ) -
      ((v2.digits.length + 1) / 2 : ℕ) + 1 = offset := by omega
  rw [mulVarLong]
  dsimp only
  rw [hoffset', ← hoffset, DEC_DIGITS, MUL_GUARD_DIGITS]
  generalize hweight : v1.weight + v2.weight + 1 + 2 * ((offset + used : ℕ) : ℤ) -
    (v1.digits.length + v2.digits.length : ℕ) - (v1.digits.length % 2 : ℕ) - (v2.digits.length % 2 : ℕ) = weight
  have hscale : (v1.dscale + v2.dscale + 4 - 1).tdiv 4 = (v1.dscale + v2.dscale + 4 - 1) / 4 :=
    Int.tdiv_eq_ediv_of_nonneg (by omega)
  have hmaxdigits : 2 * ((offset + used : ℕ) : ℤ) - 1 ≤ weight + 1 + (v1.dscale + v2.dscale + 4 - 1) / 4 + 2 := by omega
  rw [hscale]
  generalize weight + 1 + (v1.dscale + v2.dscale + 4 - 1) / 4 + 2 = maxdigits at hmaxdigits
  have hmin : min ((offset + used : ℕ) : ℤ) (maxdigits.tdiv 2 + 1) = (offset + used : ℕ) := by
    rw [Int.tdiv_eq_ediv_of_nonneg (by omega)]
    omega
  have htoNat : (((offset + used : ℕ) : ℤ) - offset).toNat = used := by omega
  rw [hmin, if_neg (by omega), htoNat, Int.toNat_natCast, Int.toNat_natCast,
    List.take_of_length_le (by rw [length_pairs]; omega), List.take_of_length_le (by rw [length_pairs]; omega)]
  have hp1 : Digits NBASE_SQR (pairs NBASE v1.digits) := h1.stripped.digits.pairs nbase_int_pos
  have hp2 : Digits NBASE_SQR (pairs NBASE v2.digits) := h2.stripped.digits.pairs nbase_int_pos
  have hpne : pairs NBASE v1.digits ≠ [] := by
    refine List.length_pos_iff.mp ?_
    rw [length_pairs]
    omega
  have hlen1 := length_pairs NBASE v1.digits
  have hlen2 := length_pairs NBASE v2.digits
  obtain ⟨r, hrows, hsums⟩ := @mulRows_spec _ _ hp1 hp2 hpne offset (offset + used) (by omega)
  have hproduct := mul_lt_mul'' (hp1.pval_lt nbase_sqr_pos) (hp2.pval_lt nbase_sqr_pos)
    (hp1.pval_nonneg nbase_sqr_pos) (hp2.pval_nonneg nbase_sqr_pos)
  rw [← pow_add] at hproduct
  have hlt : pval NBASE_SQR (pairs NBASE v1.digits) * pval NBASE_SQR (pairs NBASE v2.digits) <
      NBASE_SQR ^ (offset + used) := hproduct.trans_le (pow_le_pow_right₀ (by decide) (by omega))
  obtain ⟨dig, hnormalize, hdig, hdiglen, hdigval⟩ := hsums.normalize
    (mul_nonneg (hp1.pval_nonneg nbase_sqr_pos) (hp2.pval_nonneg nbase_sqr_pos)) hlt
  have hdigits : Digits NBASE (unpair NBASE dig) := hdig.unpair nbase_int_pos
  have habs : absAt (unpair NBASE dig) weight = v1.abs * v2.abs := by
    have hval : pval NBASE (unpair NBASE dig) = pval NBASE v1.digits * pval NBASE v2.digits *
        NBASE ^ (v1.digits.length % 2 + v2.digits.length % 2) := by
      rw [pval_unpair, ← NBASE_SQR, hdigval, NBASE_SQR, pval_pairs, pval_pairs, pow_add]
      ring
    have hexp : ((v1.digits.length % 2 + v2.digits.length % 2 : ℕ) : ℤ) + (weight + 1 - ((unpair NBASE dig).length : ℕ)) =
        v1.weight + v2.weight + 2 - v1.digits.length - v2.digits.length := by
      rw [length_unpair, hdiglen]
      omega
    rw [abs_mul_abs, absAt, hval, Int.cast_mul, Int.cast_pow, mul_assoc, ← zpow_natCast, ← zpow_add₀ nbase_ne, hexp]
  have hne : v1.abs * v2.abs ≠ 0 :=
    mul_ne_zero (fun h => hne1 (h1.stripped.abs_eq_zero_iff.mp h)) fun h => hne2 (h2.stripped.abs_eq_zero_iff.mp h)
  obtain ⟨hrounded, hroundabs, hroundsign, hrounddscale⟩ :=
    @roundVar_exact ⟨weight, productSign v1 v2, 0, unpair NBASE dig⟩ hdigits (v1.dscale + v2.dscale)
      (by rw [NumericVar.abs, habs]; exact scaleFits_mul h1.fits h2.fits) (by rw [NumericVar.abs, habs]; exact hne)
  obtain ⟨hstripped, -, hdscale, -⟩ := stripVar_spec hrounded
  rw [hrows, Option.bind_eq_bind, Option.bind_some, hnormalize]
  refine ⟨_, rfl, hstripped, ?_, hdscale.trans hrounddscale⟩
  rw [stripVar_value hrounded, NumericVar.value, hroundabs, hroundsign, NumericVar.abs, habs, productSign_factor,
    NumericVar.value, NumericVar.value]
  ring

theorem mulVar_spec {v1 v2 : NumericVar} (h1 : Normalized v1) (h2 : Normalized v2) :
    ∃ r, mulVar v1 v2 (v1.dscale + v2.dscale) = some r ∧ ResultVar r (v1.value * v2.value) (v1.dscale + v2.dscale) := by
  have hordered {u1 u2 : NumericVar} (h1 : Normalized u1) (h2 : Normalized u2)
      (hle : u1.digits.length ≤ u2.digits.length) {rscale : ℤ} (hrscale : rscale = u1.dscale + u2.dscale) :
      ∃ r, (if u1.digits.length = 0 then some (zeroVar rscale)
        else if u1.digits.length ≤ 6 ∧ rscale = u1.dscale + u2.dscale then mulVarShort u1 u2
        else mulVarLong u1 u2 rscale) = some r ∧ ResultVar r (u1.value * u2.value) rscale := by
    subst hrscale
    split
    · next hzero =>
      refine ⟨_, rfl, ?_⟩
      have habs : u1.abs = 0 := h1.stripped.abs_eq_zero_iff.mpr (List.length_eq_zero_iff.mp hzero)
      rw [NumericVar.value, habs, mul_zero, zero_mul]
      exact result_zero _
    · next hne =>
      split
      · next hshort => exact mulVarShort_spec h1.stripped.digits h2.stripped.digits (by omega) hshort.1 hle
      · exact mulVarLong_spec h1 h2 (List.length_pos_iff.mp (by omega)) (List.length_pos_iff.mp (by omega))
  rw [mulVar]
  split
  · next hlt =>
    rw [mul_comm v1.value]
    exact hordered h2 h1 hlt.le (add_comm _ _)
  · next hge => exact hordered h1 h2 (not_lt.mp hge) rfl

/-- Addition, subtraction and multiplication are exact, and the two ways to multiply agree. -/
theorem arithmetic_exact {v1 v2 : NumericVar} (h1 : Normalized v1) (h2 : Normalized v2) :
    (∃ r, addVar v1 v2 = some r ∧ ResultVar r (v1.value + v2.value) (max v1.dscale v2.dscale)) ∧
      (∃ r, subVar v1 v2 = some r ∧ ResultVar r (v1.value - v2.value) (max v1.dscale v2.dscale)) ∧
      (∃ r, mulVar v1 v2 (v1.dscale + v2.dscale) = some r ∧ ResultVar r (v1.value * v2.value) (v1.dscale + v2.dscale)) ∧
      (1 ≤ v1.digits.length → v1.digits.length ≤ 6 → v1.digits.length ≤ v2.digits.length →
        ∃ r, mulVarShort v1 v2 = some r ∧ mulVarLong v1 v2 (v1.dscale + v2.dscale) = some r) := by
  have hcomparable : Comparable v1 v2 := Or.inr ⟨h1.stripped, h2.stripped⟩
  refine ⟨addVar_spec h1.stripped.digits h2.stripped.digits hcomparable fun hneg _ => h1.stripped.properSign hneg,
    subVar_spec h1.stripped.digits h2.stripped.digits hcomparable fun hneg _ => h1.stripped.properSign hneg,
    mulVar_spec h1 h2, fun hpos hsix hle => ?_⟩
  obtain ⟨r, hshort, hr⟩ := mulVarShort_spec h1.stripped.digits h2.stripped.digits hpos hsix hle
  obtain ⟨r', hlong, hr'⟩ := mulVarLong_spec h1 h2 (List.length_pos_iff.mp hpos) (List.length_pos_iff.mp (by omega))
  obtain rfl : r = r' :=
    hr.stripped.eq_of_value hr'.stripped (hr.value.trans hr'.value.symm) (hr.dscale.trans hr'.dscale.symm)
  exact ⟨r, hshort, hlong⟩

def twelveAndHalf : NumericVar := ⟨0, .pos, 1, [12, 5000]⟩

theorem normalized_twelveAndHalf : Normalized twelveAndHalf where
  stripped := ⟨by unfold Digits; decide, by decide, by decide, by decide⟩
  dscale := by decide
  fits := ⟨125, by rw [NumericVar.abs, twelveAndHalf, absAt, NBASE]; norm_num [pval]⟩

theorem arithmetic_exact_square : (∃ r, addVar twelveAndHalf twelveAndHalf = some r ∧
        ResultVar r (twelveAndHalf.value + twelveAndHalf.value) (max twelveAndHalf.dscale twelveAndHalf.dscale)) ∧
      (∃ r, mulVar twelveAndHalf twelveAndHalf (twelveAndHalf.dscale + twelveAndHalf.dscale) = some r ∧
        ResultVar r (twelveAndHalf.value * twelveAndHalf.value) (twelveAndHalf.dscale + twelveAndHalf.dscale)) ∧
      ∃ r, mulVarShort twelveAndHalf twelveAndHalf = some r ∧
        mulVarLong twelveAndHalf twelveAndHalf (twelveAndHalf.dscale + twelveAndHalf.dscale) = some r := by
  obtain ⟨hadd, -, hmul, hagree⟩ := arithmetic_exact normalized_twelveAndHalf normalized_twelveAndHalf
  exact ⟨hadd, hmul, hagree (by decide) (by decide) (by decide)⟩

end CdcKafka.Numeric
