import CdcKafka.Numeric.Var

/-! Addition and subtraction of numeric variables. -/

namespace CdcKafka.Numeric

open Lib

def isInt (n : ℤ) : Bool := decide (-2147483648 ≤ n ∧ n ≤ 2147483647)

def skipBefore : List ℤ → ℤ → ℤ → Option (List ℤ × ℤ)
  | [], weight, _ => some ([], weight)
  | d :: ds, weight, weight' =>
    if weight' < weight then if d ≠ 0 then none else skipBefore ds (weight - 1) weight' else some (d :: ds, weight)

def cmpRest (ds es : List ℤ) : ℤ :=
  if ds.any (· ≠ 0) then 1 else if es.any (· ≠ 0) then -1 else 0

def cmpDigits : List ℤ → List ℤ → ℤ
  | d :: ds, e :: es => if d - e ≠ 0 then if 0 < d - e then 1 else -1 else cmpDigits ds es
  | ds, es => cmpRest ds es

def cmpAbsCommon (digits1 : List ℤ) (weight1 : ℤ) (digits2 : List ℤ) (weight2 : ℤ) : ℤ :=
  match skipBefore digits1 weight1 weight2 with
  | none => 1
  | some (ds, w1) =>
    match skipBefore digits2 weight2 w1 with
    | none => -1
    | some (es, w2) => if w1 = w2 then cmpDigits ds es else cmpRest ds es

def cmpAbs (v1 v2 : NumericVar) : ℤ := cmpAbsCommon v1.digits v1.weight v2.digits v2.weight

def rscaleOf (v : NumericVar) : ℤ := v.ndigits - v.weight - 1

/-- The number of result digits, and at which index of the result the first digit of an operand stands. -/
def resNdigits (resRscale resWeight : ℤ) : ℕ :=
  if resRscale + resWeight + 1 ≤ 0 then 1 else (resRscale + resWeight + 1).toNat

def leadOf (resRscale resWeight : ℤ) (v : NumericVar) : ℤ := resNdigits resRscale resWeight - 1 - resRscale - v.weight

def addCarry (n : ℤ) : ℤ := if NBASE ≤ n then 1 else 0

def addAbs (v1 v2 : NumericVar) : Option NumericVar :=
  let resWeight := max v1.weight v2.weight + 1
  let resRscale := max (rscaleOf v1) (rscaleOf v2)
  let m := resNdigits resRscale resWeight
  let sums := List.zipWith (· + ·) (window v1.digits (leadOf resRscale resWeight v1) m)
    (window v2.digits (leadOf resRscale resWeight v2) m)
  (exactPass isInt addCarry NBASE sums).map fun digits => stripVar ⟨resWeight, .pos, max v1.dscale v2.dscale, digits⟩

def subBorrow (n : ℤ) : ℤ := if n < 0 then -1 else 0

def subAbs (v1 v2 : NumericVar) : Option NumericVar :=
  let resWeight := v1.weight
  let resRscale := max (rscaleOf v1) (rscaleOf v2)
  let m := resNdigits resRscale resWeight
  let differences := List.zipWith (· + ·) (window v1.digits (leadOf resRscale resWeight v1) m)
    ((window v2.digits (leadOf resRscale resWeight v2) m).map (- ·))
  (exactPass isInt subBorrow NBASE differences).map fun digits =>
    stripVar ⟨resWeight, .pos, max v1.dscale v2.dscale, digits⟩

def withSign (sign : NumericSign) (v : NumericVar) : NumericVar := { v with sign := sign }

/-- The difference of the absolute values, with `sign` where the first is the larger one and with `sign'` where the second
is. -/
def subSigned (v1 v2 : NumericVar) (sign sign' : NumericSign) : Option NumericVar :=
  if cmpAbs v1 v2 = 0 then some (zeroVar (max v1.dscale v2.dscale))
  else if cmpAbs v1 v2 = 1 then (subAbs v1 v2).map (withSign sign)
  else (subAbs v2 v1).map (withSign sign')

def addVar (v1 v2 : NumericVar) : Option NumericVar :=
  match v1.sign, v2.sign with
  | .pos, .pos => (addAbs v1 v2).map (withSign .pos)
  | .pos, .neg => subSigned v1 v2 .pos .neg
  | .neg, .pos => subSigned v1 v2 .neg .pos
  | .neg, .neg => (addAbs v1 v2).map (withSign .neg)

def subVar (v1 v2 : NumericVar) : Option NumericVar :=
  match v1.sign, v2.sign with
  | .pos, .neg => (addAbs v1 v2).map (withSign .pos)
  | .pos, .pos => subSigned v1 v2 .pos .neg
  | .neg, .neg => subSigned v1 v2 .neg .pos
  | .neg, .pos => (addAbs v1 v2).map (withSign .neg)

theorem skipBefore_spec {ds : List ℤ} (h : Digits NBASE ds) (weight weight' : ℤ) :
    (skipBefore ds weight weight' = none → (NBASE : ℚ) ^ (weight' + 1) ≤ absAt ds weight) ∧
      ∀ es w, skipBefore ds weight weight' = some (es, w) →
        Digits NBASE es ∧ absAt es w = absAt ds weight ∧ (w ≤ weight' ∨ es = []) ∧ min weight weight' ≤ w := by
  induction ds generalizing weight with
  | nil =>
    refine ⟨(fun hnone => by cases hnone), fun es w hsome => ?_⟩
    cases hsome
    exact ⟨h, rfl, Or.inr rfl, min_le_left _ _⟩
  | cons d ds ih =>
    rw [skipBefore]
    split
    · next hbefore =>
      split
      · next hne =>
        refine ⟨fun _ => ?_, (fun es w hsome => by cases hsome)⟩
        exact (zpow_le_zpow_right₀ (by rw [NBASE]; norm_num) hbefore).trans (le_absAt h hne weight)
      · next hzero =>
        obtain ⟨hnone, hsome⟩ := ih (List.forall_mem_cons.mp h).2 (weight - 1)
        have hval : absAt (d :: ds) weight = absAt ds (weight - 1) := by
          rw [absAt_cons, not_not.mp hzero, Int.cast_zero, zero_mul, zero_add]
        rw [hval]
        refine ⟨hnone, fun es w hw => ?_⟩
        obtain ⟨hes, habs, hend, hmin⟩ := hsome es w hw
        exact ⟨hes, habs, hend, (by omega : min weight weight' ≤ min (weight - 1) weight').trans hmin⟩
    · next hcommon =>
      refine ⟨(fun hnone => by cases hnone), fun es w hsome => ?_⟩
      cases hsome
      exact ⟨h, rfl, Or.inl (not_lt.mp hcommon), min_le_left _ _⟩

theorem absAt_eq_zero_iff {ds : List ℤ} (h : Digits NBASE ds) (weight : ℤ) :
    absAt ds weight = 0 ↔ ds.any (· ≠ 0) = false := by
  induction ds generalizing weight with
  | nil => exact iff_of_true (absAt_nil weight) rfl
  | cons d ds ih =>
    have hds : Digits NBASE ds := (List.forall_mem_cons.mp h).2
    rw [List.any_cons, Bool.or_eq_false_iff]
    by_cases hd : d = 0
    · rw [absAt_cons, hd, Int.cast_zero, zero_mul, zero_add, ih hds, decide_eq_false_iff_not, not_not]
      exact ⟨fun h => ⟨rfl, h⟩, fun h => h.2⟩
    · have hpos : 0 < absAt (d :: ds) weight := (zpow_pos nbase_pos weight).trans_le (le_absAt h hd weight)
      exact iff_of_false hpos.ne' fun hboth => absurd hboth.1 (by simpa using hd)

structure Compares (r : ℤ) (x y : ℚ) : Prop where
  eq : r = 0 → x = y
  gt : r = 1 → y < x
  lt : r ≠ 0 → r ≠ 1 → x < y

theorem Compares.of_eq {x y : ℚ} (h : x = y) : Compares 0 x y :=
  ⟨fun _ => h, fun h => absurd h (by decide), fun h => absurd rfl h⟩

theorem Compares.of_gt {x y : ℚ} (h : y < x) : Compares 1 x y :=
  ⟨fun h => absurd h (by decide), fun _ => h, fun _ h => absurd rfl h⟩

theorem Compares.of_lt {x y : ℚ} (h : x < y) : Compares (-1) x y :=
  ⟨fun h => absurd h (by decide), fun h => absurd h (by decide), fun _ _ => h⟩

theorem cmpRest_spec {ds es : List ℤ} (hds : Digits NBASE ds) (hes : Digits NBASE es) {w w' : ℤ}
    (h : ds = [] ∨ es = []) : Compares (cmpRest ds es) (absAt ds w) (absAt es w') := by
  have hpos {cs : List ℤ} (hcs : Digits NBASE cs) (v : ℤ) (hany : cs.any (· ≠ 0) = true) : 0 < absAt cs v :=
    lt_of_le_of_ne (absAt_nonneg hcs v) fun hzero => by
      rw [(absAt_eq_zero_iff hcs v).mp hzero.symm] at hany
      exact Bool.noConfusion hany
  rw [cmpRest]
  split
  · next hany =>
    rcases h with rfl | rfl
    · exact absurd hany (by decide)
    · rw [absAt_nil]
      exact .of_gt (hpos hds w hany)
  · next hnone =>
    have hzero : absAt ds w = 0 := (absAt_eq_zero_iff hds w).mpr (Bool.eq_false_iff.mpr hnone)
    rw [hzero]
    split
    · next hany => exact .of_lt (hpos hes w' hany)
    · next hnone' => exact .of_eq ((absAt_eq_zero_iff hes w').mpr (Bool.eq_false_iff.mpr hnone')).symm

theorem lt_of_first {d e : ℤ} {ds es : List ℤ} (hds : Digits NBASE ds) (hes : Digits NBASE es) (w : ℤ) (h : e < d) :
    absAt (e :: es) w < absAt (d :: ds) w := by
  have hpow : (0 : ℚ) < (NBASE : ℚ) ^ w := zpow_pos nbase_pos _
  have hlt : absAt es (w - 1) < (NBASE : ℚ) ^ w := by
    have := absAt_lt hes (w - 1)
    rwa [Int.sub_add_cancel] at this
  have hnonneg := absAt_nonneg hds (w - 1)
  have hstep : (e : ℚ) + 1 ≤ d := by exact_mod_cast h
  have hmul : ((e : ℚ) + 1) * (NBASE : ℚ) ^ w ≤ d * (NBASE : ℚ) ^ w := mul_le_mul_of_nonneg_right hstep hpow.le
  rw [absAt_cons, absAt_cons]
  linarith

theorem cmpDigits_spec {ds es : List ℤ} (hds : Digits NBASE ds) (hes : Digits NBASE es) (w : ℤ) :
    Compares (cmpDigits ds es) (absAt ds w) (absAt es w) := by
  induction ds generalizing es w with
  | nil =>
    cases es with
    | nil => exact cmpRest_spec hds hes (Or.inl rfl)
    | cons e es => exact cmpRest_spec hds hes (Or.inl rfl)
  | cons d ds ih =>
    cases es with
    | nil => exact cmpRest_spec hds hes (Or.inr rfl)
    | cons e es =>
      have hds' : Digits NBASE ds := (List.forall_mem_cons.mp hds).2
      have hes' : Digits NBASE es := (List.forall_mem_cons.mp hes).2
      rw [cmpDigits]
      split
      · split
        · next hgt => exact .of_gt (lt_of_first hds' hes' w (by omega))
        · next hne hle => exact .of_lt (lt_of_first hes' hds' w (by omega))
      · next heq =>
        obtain rfl : d = e := by omega
        obtain ⟨h0, h1, h2⟩ := ih hds' hes' (w - 1)
        rw [absAt_cons, absAt_cons]
        exact ⟨fun h => congrArg _ (h0 h), fun h => add_lt_add_right (h1 h) _, fun h h' => add_lt_add_right (h2 h h') _⟩

theorem cmpAbs_spec {v1 v2 : NumericVar} (h1 : Digits NBASE v1.digits) (h2 : Digits NBASE v2.digits) :
    Compares (cmpAbs v1 v2) v1.abs v2.abs := by
  rw [cmpAbs, cmpAbsCommon, NumericVar.abs, NumericVar.abs]
  obtain ⟨hnone, hsome⟩ := skipBefore_spec h1 v1.weight v2.weight
  split
  · next hfirst => exact .of_gt ((absAt_lt h2 v2.weight).trans_le (hnone hfirst))
  · next ds w1 hfirst =>
    obtain ⟨hds, hval, hweight, -⟩ := hsome ds w1 hfirst
    obtain ⟨hnone', hsome'⟩ := skipBefore_spec h2 v2.weight w1
    rw [← hval]
    split
    · next hsecond => exact .of_lt ((absAt_lt hds w1).trans_le (hnone' hsecond))
    · next es w2 hsecond =>
      obtain ⟨hes, hval', hweight', hmin⟩ := hsome' es w2 hsecond
      rw [← hval']
      split
      · next heq =>
        rw [heq]
        exact cmpDigits_spec hds hes w2
      · next hne =>
        refine cmpRest_spec hds hes ?_
        rcases hweight with hle | hnil
        · exact Or.inr (hweight'.resolve_left fun hle' => hne (by omega))
        · exact Or.inl hnil

theorem addCarries : Carries isInt addCarry NBASE 0 19999 0 1 where
  ok_of n h h' := by rw [isInt, decide_eq_true_iff]; omega
  digit n h h' := by rw [addCarry, NBASE]; split <;> omega
  carry n h h' := by rw [addCarry]; split <;> decide
  carry_zero := by decide

theorem subCarries : Carries isInt subBorrow NBASE (-10000) 9999 (-1) 0 where
  ok_of n h h' := by rw [isInt, decide_eq_true_iff]; omega
  digit n h h' := by rw [subBorrow, NBASE]; split <;> omega
  carry n h h' := by rw [subBorrow]; split <;> decide
  carry_zero := by decide

theorem window_nil (lead : ℤ) (m : ℕ) : window [] lead m = List.replicate m 0 := by
  have hzero : ∀ i : ℕ, digitAt [] ((i : ℤ) - lead) = 0 := fun i => by
    rw [digitAt, if_neg]
    rintro ⟨h, h'⟩
    rw [List.length_nil] at h'
    omega
  rw [window, List.map_congr_left fun i _ => hzero i, List.map_const', List.length_range]

theorem window_abs {v : NumericVar} {m : ℕ} {r : ℤ} (hr : rscaleOf v ≤ r)
    (hlead : 0 ≤ (m : ℤ) - 1 - r - v.weight ∨ v.digits = []) :
    (pval NBASE (window v.digits ((m : ℤ) - 1 - r - v.weight) m) : ℚ) * (NBASE : ℚ) ^ (-r) = v.abs := by
  rw [rscaleOf, NumericVar.ndigits] at hr
  rcases hlead with hlead | hnil
  · obtain ⟨lead, hlead⟩ : ∃ n : ℕ, (m : ℤ) - 1 - r - v.weight = n := ⟨_, (Int.toNat_of_nonneg hlead).symm⟩
    obtain ⟨trail, htrail⟩ : ∃ n : ℕ, r - (v.digits.length - v.weight - 1) = n :=
      ⟨_, (Int.toNat_of_nonneg (by omega)).symm⟩
    have hpow : (NBASE : ℚ) ^ trail * (NBASE : ℚ) ^ (-r) = (NBASE : ℚ) ^ (v.weight + 1 - v.digits.length) := by
      rw [← zpow_natCast, ← zpow_add₀ nbase_ne]
      congr 1
      omega
    rw [hlead, @pval_window NBASE v.digits lead trail m (by omega), NumericVar.abs, absAt, Int.cast_mul, Int.cast_pow,
      mul_assoc, hpow]
  · rw [hnil, window_nil, pval_replicate_zero, NumericVar.abs, hnil, absAt_nil, Int.cast_zero, zero_mul]

theorem exactPass_abs {ok : ℤ → Bool} {q : ℤ → ℤ} {lo hi clo chi : ℤ} (h : Carries ok q NBASE lo hi clo chi)
    {ts : List ℤ} (hts : ∀ t ∈ ts, lo - clo ≤ t ∧ t ≤ hi - chi) {r weight : ℤ}
    (hlen : (ts.length : ℤ) = r + weight + 1) {x : ℚ} (hx : (pval NBASE ts : ℚ) * (NBASE : ℚ) ^ (-r) = x)
    (hnonneg : 0 ≤ x) (hlt : x < (NBASE : ℚ) ^ (weight + 1)) :
    ∃ ds, exactPass ok q NBASE ts = some ds ∧ Digits NBASE ds ∧ absAt ds weight = x := by
  have hpow : (0 : ℚ) < (NBASE : ℚ) ^ (-r) := zpow_pos nbase_pos _
  have hnonneg' : 0 ≤ pval NBASE ts := by
    rw [← hx] at hnonneg
    exact_mod_cast nonneg_of_mul_nonneg_left hnonneg hpow
  have hlt' : pval NBASE ts < NBASE ^ ts.length := by
    have hsplit : (NBASE : ℚ) ^ (weight + 1) = (NBASE : ℚ) ^ ts.length * (NBASE : ℚ) ^ (-r) := by
      rw [← zpow_natCast, ← zpow_add₀ nbase_ne]
      congr 1
      omega
    rw [← hx, hsplit] at hlt
    exact_mod_cast lt_of_mul_lt_mul_right hlt hpow.le
  obtain ⟨ds, hpass, hdigits, hlength, hval⟩ := exactPass_spec h nbase_int_pos hts hnonneg' hlt'
  refine ⟨ds, hpass, hdigits, ?_⟩
  have hexp : weight + 1 - (ds.length : ℤ) = -r := by omega
  rw [absAt, hval, hexp, hx]

theorem resNdigits_pos {r w : ℤ} (h : 0 < r + w + 1) : (resNdigits r w : ℤ) = r + w + 1 := by
  rw [resNdigits, if_neg (by omega), Int.toNat_of_nonneg (by omega)]

theorem window_digits {ds : List ℤ} (h : Digits NBASE ds) (lead : ℤ) (m : ℕ) : Digits NBASE (window ds lead m) := by
  refine List.forall_mem_map.mpr fun i _ => h.digitAt nbase_int_pos _

theorem mem_zipWith_add {ds es : List ℤ} {t : ℤ} (h : t ∈ List.zipWith (· + ·) ds es) :
    ∃ d ∈ ds, ∃ e ∈ es, t = d + e := by
  obtain ⟨i, hi, rfl⟩ := List.mem_iff_getElem.mp h
  rw [List.length_zipWith] at hi
  exact ⟨_, List.getElem_mem (by omega), _, List.getElem_mem (by omega), List.getElem_zipWith⟩

structure ResultAbs (r : NumericVar) (x : ℚ) (dscale : ℤ) : Prop where
  stripped : Stripped r
  abs : r.abs = x
  dscale : r.dscale = dscale

theorem stripVar_result {v : NumericVar} {x : ℚ} (h : Digits NBASE v.digits) (hx : v.abs = x) :
    ResultAbs (stripVar v) x v.dscale := by
  obtain ⟨hstripped, habs, hdscale, -⟩ := stripVar_spec h
  exact ⟨hstripped, habs.trans hx, hdscale⟩

theorem addAbs_spec {v1 v2 : NumericVar} (h1 : Digits NBASE v1.digits) (h2 : Digits NBASE v2.digits) :
    ∃ r, addAbs v1 v2 = some r ∧ ResultAbs r (v1.abs + v2.abs) (max v1.dscale v2.dscale) := by
  rw [addAbs]
  have hr1 : rscaleOf v1 ≤ max (rscaleOf v1) (rscaleOf v2) := le_max_left _ _
  have hr2 : rscaleOf v2 ≤ max (rscaleOf v1) (rscaleOf v2) := le_max_right _ _
  have hw1 : v1.weight < max v1.weight v2.weight + 1 := by omega
  have hw2 : v2.weight < max v1.weight v2.weight + 1 := by omega
  generalize max (rscaleOf v1) (rscaleOf v2) = r at *
  generalize max v1.weight v2.weight + 1 = w at *
  have hcount : 0 < r + w + 1 := by
    rw [rscaleOf, NumericVar.ndigits] at hr1
    omega
  have hm := resNdigits_pos hcount
  rw [leadOf, leadOf]
  generalize resNdigits r w = m at *
  have hval1 := window_abs (v := v1) (m := m) hr1 (Or.inl (by omega))
  have hval2 := window_abs (v := v2) (m := m) hr2 (Or.inl (by omega))
  have hterms : ∀ t ∈ List.zipWith (· + ·) (window v1.digits ((m : ℤ) - 1 - r - v1.weight) m)
      (window v2.digits ((m : ℤ) - 1 - r - v2.weight) m), (0 : ℤ) - 0 ≤ t ∧ t ≤ 19999 - 1 := by
    intro t ht
    obtain ⟨d, hd, e, he, rfl⟩ := mem_zipWith_add ht
    have hd' := window_digits h1 _ _ d hd
    have he' := window_digits h2 _ _ e he
    rw [NBASE] at hd' he'
    omega
  have hlen : (List.zipWith (· + ·) (window v1.digits ((m : ℤ) - 1 - r - v1.weight) m)
      (window v2.digits ((m : ℤ) - 1 - r - v2.weight) m)).length = m := by
    rw [List.length_zipWith, length_window, length_window, Nat.min_self]
  have hsum : (pval NBASE (List.zipWith (· + ·) (window v1.digits ((m : ℤ) - 1 - r - v1.weight) m)
      (window v2.digits ((m : ℤ) - 1 - r - v2.weight) m)) : ℚ) * (NBASE : ℚ) ^ (-r) = v1.abs + v2.abs := by
    rw [pval_zipWith_add (by rw [length_window, length_window]), Int.cast_add, add_mul, hval1, hval2]
  have hlt : v1.abs + v2.abs < (NBASE : ℚ) ^ (w + 1) := by
    have hbase : (1 : ℚ) ≤ NBASE := by rw [NBASE]; norm_num
    have hlt1 := (absAt_lt h1 v1.weight).trans_le (zpow_le_zpow_right₀ hbase (by omega : v1.weight + 1 ≤ w))
    have hlt2 := (absAt_lt h2 v2.weight).trans_le (zpow_le_zpow_right₀ hbase (by omega : v2.weight + 1 ≤ w))
    have hpow : (0 : ℚ) < (NBASE : ℚ) ^ w := zpow_pos nbase_pos _
    have hten : (NBASE : ℚ) = 10000 := by rw [NBASE]; norm_num
    rw [zpow_add_one₀ nbase_ne]
    rw [NumericVar.abs, NumericVar.abs]
    calc _ < (NBASE : ℚ) ^ w + (NBASE : ℚ) ^ w := add_lt_add hlt1 hlt2
      _ ≤ (NBASE : ℚ) ^ w * NBASE := by
        rw [← mul_two]
        exact mul_le_mul_of_nonneg_left (by rw [hten]; norm_num) hpow.le
  obtain ⟨ds, hpass, hdigits, habs⟩ := exactPass_abs addCarries hterms (hlen.symm ▸ hm) hsum
    (add_nonneg (absAt_nonneg h1 _) (absAt_nonneg h2 _)) hlt
  rw [hpass]
  exact ⟨_, rfl, stripVar_result hdigits habs⟩

theorem subAbs_spec {v1 v2 : NumericVar} (h1 : Digits NBASE v1.digits) (h2 : Digits NBASE v2.digits)
    (hlt : v2.abs < v1.abs) (hweight : v2.weight ≤ v1.weight ∨ v2.digits = []) :
    ∃ r, subAbs v1 v2 = some r ∧ ResultAbs r (v1.abs - v2.abs) (max v1.dscale v2.dscale) := by
  rw [subAbs]
  have hr1 : rscaleOf v1 ≤ max (rscaleOf v1) (rscaleOf v2) := le_max_left _ _
  have hr2 : rscaleOf v2 ≤ max (rscaleOf v1) (rscaleOf v2) := le_max_right _ _
  generalize max (rscaleOf v1) (rscaleOf v2) = r at *
  have hsome : v1.digits ≠ [] := by
    intro hnil
    rw [NumericVar.abs, NumericVar.abs, hnil, absAt_nil] at hlt
    exact absurd hlt (not_lt.mpr (absAt_nonneg h2 _))
  have hcount : 0 < r + v1.weight + 1 := by
    have hpos := List.length_pos_iff.mpr hsome
    rw [rscaleOf, NumericVar.ndigits] at hr1
    omega
  have hm := resNdigits_pos hcount
  rw [leadOf, leadOf]
  generalize resNdigits r v1.weight = m at *
  have hval1 := window_abs (v := v1) (m := m) hr1 (Or.inl (by omega))
  have hval2 := window_abs (v := v2) (m := m) hr2 (hweight.imp_left fun hle => by omega)
  generalize hds : window v1.digits ((m : ℤ) - 1 - r - v1.weight) m = ds at *
  generalize hes : window v2.digits ((m : ℤ) - 1 - r - v2.weight) m = es at *
  have hlen1 : ds.length = m := by rw [← hds, length_window]
  have hlen2 : (es.map (- ·)).length = m := by rw [List.length_map, ← hes, length_window]
  have hterms : ∀ t ∈ List.zipWith (· + ·) ds (es.map (- ·)), (-10000 : ℤ) - (-1) ≤ t ∧ t ≤ 9999 - 0 := by
    intro t ht
    obtain ⟨d, hd, e', he', rfl⟩ := mem_zipWith_add ht
    obtain ⟨e, he, rfl⟩ := List.mem_map.mp he'
    have hd' := window_digits h1 _ _ d (hds ▸ hd)
    have he' := window_digits h2 _ _ e (hes ▸ he)
    rw [NBASE] at hd' he'
    omega
  have hlen : (List.zipWith (· + ·) ds (es.map (- ·))).length = m := by
    rw [List.length_zipWith, hlen1, hlen2, Nat.min_self]
  have hsum : (pval NBASE (List.zipWith (· + ·) ds (es.map (- ·))) : ℚ) * (NBASE : ℚ) ^ (-r) = v1.abs - v2.abs := by
    rw [pval_zipWith_add (hlen1.trans hlen2.symm), pval_map_neg, Int.cast_add, Int.cast_neg, add_mul, neg_mul, hval1,
      hval2, sub_eq_add_neg]
  have hbound : v1.abs - v2.abs < (NBASE : ℚ) ^ (v1.weight + 1) := by
    have habove : v1.abs < (NBASE : ℚ) ^ (v1.weight + 1) := absAt_lt h1 v1.weight
    have hbelow : 0 ≤ v2.abs := absAt_nonneg h2 v2.weight
    linarith
  obtain ⟨ds', hpass, hdigits, habs⟩ :=
    exactPass_abs subCarries hterms (hlen.symm ▸ hm) hsum (sub_nonneg.mpr hlt.le) hbound
  rw [hpass]
  exact ⟨_, rfl, stripVar_result hdigits habs⟩

def Comparable (v1 v2 : NumericVar) : Prop := v1.weight = v2.weight ∨ Stripped v1 ∧ Stripped v2

theorem Stripped.weight_le {v1 v2 : NumericVar} (h1 : Digits NBASE v1.digits) (h2 : Stripped v2)
    (hlt : v2.abs < v1.abs) : v2.weight ≤ v1.weight ∨ v2.digits = [] := by
  cases hdigits : v2.digits with
  | nil => exact Or.inr rfl
  | cons d ds =>
    refine Or.inl (le_of_not_gt fun hgt => ?_)
    have hd : d ≠ 0 := h2.head d (by rw [hdigits]; rfl)
    have hbelow : (NBASE : ℚ) ^ v2.weight ≤ v2.abs := by
      rw [NumericVar.abs, hdigits]
      exact le_absAt (hdigits ▸ h2.digits) hd v2.weight
    have habove : v1.abs < (NBASE : ℚ) ^ (v1.weight + 1) := absAt_lt h1 v1.weight
    have hpow : (NBASE : ℚ) ^ (v1.weight + 1) ≤ (NBASE : ℚ) ^ v2.weight :=
      zpow_le_zpow_right₀ (by rw [NBASE]; norm_num) hgt
    linarith

structure ResultVar (r : NumericVar) (x : ℚ) (dscale : ℤ) : Prop where
  stripped : Stripped r
  value : r.value = x
  dscale : r.dscale = dscale

theorem abs_nonneg_var {v : NumericVar} (h : Digits NBASE v.digits) : 0 ≤ v.abs := absAt_nonneg h v.weight

theorem ResultAbs.withSign {r : NumericVar} {x : ℚ} {dscale : ℤ} (h : ResultAbs r x dscale) {sign : NumericSign}
    (hsign : x = 0 → sign = .pos) : ResultVar (withSign sign r) (sign.factor * x) dscale where
  stripped := by
    refine ⟨h.stripped.digits, h.stripped.head, h.stripped.last, fun hnil => ⟨hsign ?_, (h.stripped.zero hnil).2⟩⟩
    have hnil' : r.digits = [] := hnil
    rw [← h.abs, NumericVar.abs, hnil', absAt_nil]
  value := congrArg (sign.factor * ·) h.abs
  dscale := h.dscale

theorem result_zero (dscale : ℤ) : ResultVar (zeroVar dscale) 0 dscale where
  stripped := ⟨List.forall_mem_nil _, (fun d hd => by cases hd), (fun d hd => by cases hd), fun _ => ⟨rfl, rfl⟩⟩
  value := by
    rw [NumericVar.value, NumericVar.abs, zeroVar, absAt_nil, mul_zero]
  dscale := rfl

theorem subSigned_spec {v1 v2 : NumericVar} (h1 : Digits NBASE v1.digits) (h2 : Digits NBASE v2.digits)
    (h : Comparable v1 v2) {sign sign' : NumericSign} (hopposite : sign'.factor = - sign.factor) :
    ∃ r, subSigned v1 v2 sign sign' = some r ∧
      ResultVar r (sign.factor * (v1.abs - v2.abs)) (max v1.dscale v2.dscale) := by
  obtain ⟨heq, hgt, hlt⟩ := cmpAbs_spec h1 h2
  have hweight12 (hless : v2.abs < v1.abs) : v2.weight ≤ v1.weight ∨ v2.digits = [] :=
    h.elim (fun hsame => Or.inl hsame.ge) fun hboth => hboth.2.weight_le h1 hless
  have hweight21 (hless : v1.abs < v2.abs) : v1.weight ≤ v2.weight ∨ v1.digits = [] :=
    h.elim (fun hsame => Or.inl hsame.le) fun hboth => hboth.1.weight_le h2 hless
  rw [subSigned]
  split
  · next hzero =>
    rw [heq hzero, sub_self, mul_zero]
    exact ⟨_, rfl, result_zero _⟩
  · next hne =>
    split
    · next hone =>
      have hless := hgt hone
      obtain ⟨r, hr, hres⟩ := subAbs_spec h1 h2 hless (hweight12 hless)
      refine ⟨_, by rw [hr]; rfl, hres.withSign fun hzero => absurd hzero (sub_pos.mpr hless).ne'⟩
    · next hnot =>
      have hless := hlt hne hnot
      obtain ⟨r, hr, hres⟩ := subAbs_spec h2 h1 hless (hweight21 hless)
      have hflip : sign.factor * (v1.abs - v2.abs) = sign'.factor * (v2.abs - v1.abs) := by
        rw [hopposite]
        ring
      rw [hflip, max_comm]
      exact ⟨_, by rw [hr]; rfl, hres.withSign fun hzero => absurd hzero (sub_pos.mpr hless).ne'⟩

def ProperSign (v : NumericVar) : Prop := v.sign = .neg → v.abs ≠ 0

theorem Stripped.properSign {v : NumericVar} (h : Stripped v) : ProperSign v := by
  intro hneg hzero
  cases hdigits : v.digits with
  | nil =>
    rw [(h.zero hdigits).1] at hneg
    cases hneg
  | cons d ds =>
    have hd : d ≠ 0 := h.head d (by rw [hdigits]; rfl)
    have hbelow := le_absAt (hdigits ▸ h.digits) hd v.weight
    rw [NumericVar.abs, hdigits] at hzero
    rw [hzero] at hbelow
    exact absurd hbelow (not_le.mpr (zpow_pos nbase_pos _))

theorem addSame_spec {v1 v2 : NumericVar} (h1 : Digits NBASE v1.digits) (h2 : Digits NBASE v2.digits)
    {sign : NumericSign} (hsign : sign = .neg → v1.abs ≠ 0) :
    ∃ r, (addAbs v1 v2).map (withSign sign) = some r ∧
      ResultVar r (sign.factor * (v1.abs + v2.abs)) (max v1.dscale v2.dscale) := by
  obtain ⟨r, hr, hres⟩ := addAbs_spec h1 h2
  refine ⟨_, by rw [hr]; rfl, hres.withSign fun hzero => ?_⟩
  have hnonneg1 := abs_nonneg_var h1
  have hnonneg2 := abs_nonneg_var h2
  cases sign with
  | pos => rfl
  | neg => exact absurd (show v1.abs = 0 by linarith) (hsign rfl)

theorem addVar_spec {v1 v2 : NumericVar} (h1 : Digits NBASE v1.digits) (h2 : Digits NBASE v2.digits)
    (h : Comparable v1 v2) (hproper : v1.sign = .neg → v2.sign = .neg → v1.abs ≠ 0) :
    ∃ r, addVar v1 v2 = some r ∧ ResultVar r (v1.value + v2.value) (max v1.dscale v2.dscale) := by
  rw [addVar, NumericVar.value, NumericVar.value]
  cases hs1 : v1.sign <;> cases hs2 : v2.sign <;> dsimp only
  · rw [← mul_add]
    exact addSame_spec h1 h2 fun hneg => by cases hneg
  · rw [show NumericSign.factor .pos * v1.abs + NumericSign.factor .neg * v2.abs =
      NumericSign.factor .pos * (v1.abs - v2.abs) by rw [NumericSign.factor, NumericSign.factor]; ring]
    exact subSigned_spec h1 h2 h rfl
  · rw [show NumericSign.factor .neg * v1.abs + NumericSign.factor .pos * v2.abs =
      NumericSign.factor .neg * (v1.abs - v2.abs) by rw [NumericSign.factor, NumericSign.factor]; ring]
    exact subSigned_spec h1 h2 h (by rw [NumericSign.factor, NumericSign.factor, neg_neg])
  · rw [← mul_add]
    exact addSame_spec h1 h2 fun _ => hproper hs1 hs2

theorem subVar_spec {v1 v2 : NumericVar} (h1 : Digits NBASE v1.digits) (h2 : Digits NBASE v2.digits)
    (h : Comparable v1 v2) (hproper : v1.sign = .neg → v2.sign = .pos → v1.abs ≠ 0) :
    ∃ r, subVar v1 v2 = some r ∧ ResultVar r (v1.value - v2.value) (max v1.dscale v2.dscale) := by
  rw [subVar, NumericVar.value, NumericVar.value]
  cases hs1 : v1.sign <;> cases hs2 : v2.sign <;> dsimp only
  · rw [← mul_sub]
    exact subSigned_spec h1 h2 h rfl
  · rw [show NumericSign.factor .pos * v1.abs - NumericSign.factor .neg * v2.abs =
      NumericSign.factor .pos * (v1.abs + v2.abs) by rw [NumericSign.factor, NumericSign.factor]; ring]
    exact addSame_spec h1 h2 fun hneg => by cases hneg
  · rw [show NumericSign.factor .neg * v1.abs - NumericSign.factor .pos * v2.abs =
      NumericSign.factor .neg * (v1.abs + v2.abs) by rw [NumericSign.factor, NumericSign.factor]; ring]
    exact addSame_spec h1 h2 fun _ => hproper hs1 hs2
  · rw [← mul_sub]
    exact subSigned_spec h1 h2 h (by rw [NumericSign.factor, NumericSign.factor, neg_neg])

end CdcKafka.Numeric
