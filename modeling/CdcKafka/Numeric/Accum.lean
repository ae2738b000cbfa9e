import CdcKafka.Numeric.AddSub

/-! The fast sum accumulator: positive and negative numbers are added digit by digit into two buffers of `int32`, whose
carries are left for later. -/

namespace CdcKafka.Numeric

open Lib

structure NumericSumAccum where
  weight : ℤ
  dscale : ℤ
  numUncarried : ℤ
  haveCarrySpace : Bool
  posDigits : List ℤ
  negDigits : List ℤ

namespace NumericSumAccum

def ndigits (accum : NumericSumAccum) : ℤ := accum.posDigits.length

end NumericSumAccum

def accumZeroed : NumericSumAccum := ⟨0, 0, 0, false, [], []⟩

def accumCarryOf (newdig : ℤ) : ℤ := if NBASE ≤ newdig then newdig.tdiv NBASE else 0

def Reserved (digits : List ℤ) : Prop := digits.head? = some 0

instance (digits : List ℤ) : Decidable (Reserved digits) := inferInstanceAs (Decidable (_ = _))

def usedUp (digits : List ℤ) : Bool := decide (0 < digits.headD 0)

/-- `accum_sum_carry`; no result where its assertion fails or an `int32` overflows. -/
def accumSumCarry (accum : NumericSumAccum) : Option NumericSumAccum :=
  if accum.numUncarried = 0 then some accum
  else if Reserved accum.posDigits ∧ Reserved accum.negDigits then do
    let pos ← carryPass isInt accumCarryOf NBASE accum.posDigits
    let neg ← carryPass isInt accumCarryOf NBASE accum.negDigits
    some { accum with
      numUncarried := 0
      haveCarrySpace := accum.haveCarrySpace && !usedUp pos.1 && !usedUp neg.1
      posDigits := pos.1
      negDigits := neg.1 }
  else none

def newDigits (digits : List ℤ) (weightdiff ndigits : ℤ) : List ℤ :=
  List.replicate weightdiff.toNat 0 ++ digits ++ List.replicate (ndigits - weightdiff - digits.length).toNat 0

def rescaled (accum : NumericSumAccum) (val : NumericVar) : ℤ × ℤ :=
  let left :=
    if accum.weight ≤ val.weight then (val.weight + 1, accum.ndigits + (val.weight + 1 - accum.weight))
    else if accum.haveCarrySpace = false then (accum.weight + 1, accum.ndigits + 1)
    else (accum.weight, accum.ndigits)
  let accumRscale := left.2 - left.1 - 1
  (left.1, if accumRscale < rscaleOf val then left.2 + (rscaleOf val - accumRscale) else left.2)

def accumSumRescale (accum : NumericSumAccum) (val : NumericVar) : NumericSumAccum :=
  let size := rescaled accum val
  let dscale := if accum.dscale < val.dscale then val.dscale else accum.dscale
  if size.2 ≠ accum.ndigits ∨ size.1 ≠ accum.weight then
    { accum with
      weight := size.1
      dscale := dscale
      haveCarrySpace := true
      posDigits := newDigits accum.posDigits (size.1 - accum.weight) size.2
      negDigits := newDigits accum.negDigits (size.1 - accum.weight) size.2 }
  else { accum with dscale := dscale }

def addDigits (digits : List ℤ) (i : ℤ) : List ℤ → Option (List ℤ)
  | [] => some digits
  | d :: ds =>
    if 0 ≤ i ∧ i < digits.length ∧ isInt (digits.getD i.toNat 0 + d) then
      addDigits (digits.set i.toNat (digits.getD i.toNat 0 + d)) (i + 1) ds
    else none

def accumSumPut (accum : NumericSumAccum) (val : NumericVar) : Option NumericSumAccum :=
  let a := accumSumRescale accum val
  match val.sign with
  | .pos => (addDigits a.posDigits (a.weight - val.weight) val.digits).map fun digits =>
      { a with posDigits := digits, numUncarried := a.numUncarried + 1 }
  | .neg => (addDigits a.negDigits (a.weight - val.weight) val.digits).map fun digits =>
      { a with negDigits := digits, numUncarried := a.numUncarried + 1 }

def accumSumAdd (accum : NumericSumAccum) (val : NumericVar) : Option NumericSumAccum := do
  let a ← if accum.numUncarried = NBASE - 1 then accumSumCarry accum else some accum
  accumSumPut a val

def accumSumFinal (accum : NumericSumAccum) : Option (NumericSumAccum × NumericVar) :=
  if accum.ndigits = 0 then some (accum, zeroVar 0)
  else do
    let a ← accumSumCarry accum
    if a.posDigits.all (· < NBASE) ∧ a.negDigits.all (· < NBASE) then
      let result ← addVar ⟨a.weight, .pos, a.dscale, a.posDigits⟩ ⟨a.weight, .neg, a.dscale, a.negDigits⟩
      some (a, stripVar result)
    else none

def accumSumCopy (src : NumericSumAccum) : NumericSumAccum :=
  { accumZeroed with
    posDigits := src.posDigits
    negDigits := src.negDigits
    numUncarried := src.numUncarried
    weight := src.weight
    dscale := src.dscale }

def accumSumCombine (s : ℕ → NumericSumAccum) (accum accum2 : ℕ) : Option (ℕ → NumericSumAccum) := do
  let r ← accumSumFinal (s accum2)
  let s' := Function.update s accum2 r.1
  let a ← accumSumAdd (s' accum) r.2
  some (Function.update s' accum a)

def Pending (n : ℤ) (digits : List ℤ) : Prop := ∀ d ∈ digits, 0 ≤ d ∧ d ≤ 9999 + 9999 * n

theorem Pending.digits {digits : List ℤ} (h : Pending 0 digits) : Digits NBASE digits := fun d hd => by
  obtain ⟨hnonneg, hle⟩ := h d hd
  rw [NBASE]
  omega

theorem Pending.of_digits {digits : List ℤ} (h : Digits NBASE digits) : Pending 0 digits := fun d hd => by
  obtain ⟨hnonneg, hlt⟩ := h d hd
  rw [NBASE] at hlt
  omega

theorem Pending.mono {n m : ℤ} {digits : List ℤ} (h : Pending n digits) (hle : n ≤ m) : Pending m digits := fun d hd => by
  obtain ⟨hnonneg, hdigit⟩ := h d hd
  omega

theorem Pending.zeros {n : ℤ} (hn : 0 ≤ n) (k : ℕ) : Pending n (List.replicate k 0) := fun d hd => by
  rw [List.eq_of_mem_replicate hd]
  omega

theorem Pending.pval_le {n : ℤ} {digits : List ℤ} (h : Pending n digits) :
    pval NBASE digits ≤ (n + 1) * (NBASE ^ digits.length - 1) := by
  induction digits with
  | nil => rw [pval_nil, List.length_nil, pow_zero, sub_self, mul_zero]
  | cons d ds ih =>
    obtain ⟨hd, hds⟩ := List.forall_mem_cons.mp h
    have hrest := ih hds
    have hpow : 0 < NBASE ^ ds.length := pow_pos nbase_int_pos _
    have hmul : d * NBASE ^ ds.length ≤ (9999 + 9999 * n) * NBASE ^ ds.length := mul_le_mul_of_nonneg_right hd.2 hpow.le
    have hbase : NBASE ^ (ds.length + 1) = 10000 * NBASE ^ ds.length := by rw [pow_succ', NBASE]
    rw [pval_cons, List.length_cons, hbase]
    linarith

theorem Pending.pval_nonneg {n : ℤ} {digits : List ℤ} (h : Pending n digits) : 0 ≤ pval NBASE digits := by
  induction digits with
  | nil => exact le_refl _
  | cons d ds ih =>
    obtain ⟨hd, hds⟩ := List.forall_mem_cons.mp h
    rw [pval_cons]
    exact add_nonneg (mul_nonneg hd.1 (pow_nonneg nbase_int_pos.le _)) (ih hds)

theorem Pending.pval_lt {n : ℤ} {digits : List ℤ} (h : Pending n digits) (hn : n ≤ 9999) (hreserved : Reserved digits) :
    pval NBASE digits < NBASE ^ digits.length := by
  cases digits with
  | nil => cases hreserved
  | cons d ds =>
    obtain rfl : d = 0 := Option.some.inj hreserved
    have hrest := (List.forall_mem_cons.mp h).2
    have hle := Pending.pval_le hrest
    have hpow : 0 < NBASE ^ ds.length := pow_pos nbase_int_pos _
    have hmul : (n + 1) * (NBASE ^ ds.length - 1) ≤ 10000 * (NBASE ^ ds.length - 1) :=
      mul_le_mul_of_nonneg_right (by omega) (by omega)
    have hbase : NBASE ^ (ds.length + 1) = 10000 * NBASE ^ ds.length := by rw [pow_succ', NBASE]
    rw [pval_cons, zero_mul, zero_add, List.length_cons, hbase]
    linarith

theorem accumCarries : Carries isInt accumCarryOf NBASE 0 100000000 0 10000 where
  ok_of n h h' := by rw [isInt, decide_eq_true_iff]; omega
  digit n h h' := by
    rw [accumCarryOf, NBASE]
    split
    · rw [Int.tdiv_eq_ediv_of_nonneg h]
      omega
    · omega
  carry n h h' := by
    rw [accumCarryOf, NBASE]
    split
    · rw [Int.tdiv_eq_ediv_of_nonneg h]
      omega
    · decide
  carry_zero := by decide

theorem carry_buffer {n : ℤ} {digits : List ℤ} (h : Pending n digits) (hn : n ≤ 9999) (hreserved : Reserved digits) :
    ∃ ds, carryPass isInt accumCarryOf NBASE digits = some (ds, 0) ∧ Digits NBASE ds ∧ ds.length = digits.length ∧
      pval NBASE ds = pval NBASE digits := by
  have hterms : ∀ d ∈ digits, (0 : ℤ) - 0 ≤ d ∧ d ≤ 100000000 - 10000 := by
    intro d hd
    obtain ⟨hnonneg, hle⟩ := h d hd
    omega
  obtain ⟨ds, c, hpass, hdigits, hlen, -, -, hval⟩ := carryPass_spec accumCarries hterms
  obtain rfl : c = 0 := carry_eq_zero nbase_int_pos hdigits hlen hval h.pval_nonneg (h.pval_lt hn hreserved)
  rw [zero_mul, add_zero] at hval
  exact ⟨ds, hpass, hdigits, hlen, hval⟩

theorem length_newDigits {digits : List ℤ} {weightdiff ndigits : ℤ} (hdiff : 0 ≤ weightdiff)
    (hfit : digits.length + weightdiff ≤ ndigits) : ((newDigits digits weightdiff ndigits).length : ℤ) = ndigits := by
  rw [newDigits, List.length_append, List.length_append, List.length_replicate, List.length_replicate]
  omega

theorem absAt_newDigits (digits : List ℤ) {weightdiff ndigits weight : ℤ} (hdiff : 0 ≤ weightdiff) :
    absAt (newDigits digits weightdiff ndigits) (weight + weightdiff) = absAt digits weight := by
  rw [newDigits, absAt_append_zeros, absAt, absAt, pval_append, pval_replicate_zero, zero_mul, zero_add,
    List.length_append, List.length_replicate]
  congr 2
  omega

theorem Pending.newDigits {n : ℤ} {digits : List ℤ} (h : Pending n digits) (hn : 0 ≤ n) (weightdiff ndigits : ℤ) :
    Pending n (newDigits digits weightdiff ndigits) :=
  List.forall_mem_append.mpr ⟨List.forall_mem_append.mpr ⟨Pending.zeros hn _, h⟩, Pending.zeros hn _⟩

theorem reserved_newDigits {digits : List ℤ} {weightdiff : ℤ} (ndigits : ℤ)
    (h : 0 < weightdiff ∨ weightdiff = 0 ∧ Reserved digits) : Reserved (newDigits digits weightdiff ndigits) := by
  rcases h with hpos | ⟨rfl, hreserved⟩
  · obtain ⟨k, hk⟩ : ∃ k, weightdiff.toNat = k + 1 := ⟨weightdiff.toNat - 1, by omega⟩
    rw [newDigits, hk, List.replicate_succ]
    rfl
  · cases digits with
    | nil => cases hreserved
    | cons d ds => exact hreserved

theorem addDigits_spec {vs : List ℤ} (hvs : Digits NBASE vs) {n : ℤ} (hn : n ≤ 9998) (pre : List ℤ) {post : List ℤ}
    (hpost : Pending n post) (hlen : vs.length ≤ post.length) :
    ∃ post', addDigits (pre ++ post) pre.length vs = some (pre ++ post') ∧ post'.length = post.length ∧
      Pending (n + 1) post' ∧
      pval NBASE post' = pval NBASE post + pval NBASE vs * NBASE ^ (post.length - vs.length) := by
  induction vs generalizing pre post with
  | nil =>
    refine ⟨post, rfl, rfl, hpost.mono (by omega), ?_⟩
    rw [pval_nil, zero_mul, add_zero]
  | cons v vs ih =>
    cases post with
    | nil => exact absurd hlen (Nat.not_succ_le_zero _)
    | cons d post =>
      obtain ⟨hv, hvs'⟩ := List.forall_mem_cons.mp hvs
      obtain ⟨hd, hpost'⟩ := List.forall_mem_cons.mp hpost
      have hlen' : vs.length ≤ post.length := Nat.le_of_succ_le_succ hlen
      obtain ⟨post', hadd, hlength, hpending, hval⟩ := ih hvs' (pre ++ [d + v]) hpost' hlen'
      have hget : (pre ++ d :: post).getD (pre.length : ℤ).toNat 0 = d := by
        rw [Int.toNat_natCast, List.getD_append_right _ _ _ _ (le_refl _), Nat.sub_self]
        rfl
      have hset : (pre ++ d :: post).set (pre.length : ℤ).toNat (d + v) = pre ++ [d + v] ++ post := by
        rw [Int.toNat_natCast, List.set_append_right _ _ (le_refl _), Nat.sub_self, List.append_assoc]
        rfl
      have hint : isInt (d + v) = true := by
        rw [NBASE] at hv
        rw [isInt, decide_eq_true_iff]
        omega
      have hinside : (pre.length : ℤ) < (pre ++ d :: post).length := by
        rw [List.length_append, List.length_cons]
        omega
      have hnext : (pre.length : ℤ) + 1 = (pre ++ [d + v]).length := by
        rw [List.length_append, List.length_singleton, Nat.cast_add, Nat.cast_one]
      refine ⟨(d + v) :: post', ?_, congrArg (· + 1) hlength, List.forall_mem_cons.mpr ⟨?_, hpending⟩, ?_⟩
      · rw [addDigits, hget, if_pos ⟨Int.natCast_nonneg _, hinside, hint⟩, hset, hnext, hadd, List.append_assoc]
        rfl
      · rw [NBASE] at hv
        omega
      · have hsplit : post.length = (post.length - vs.length) + vs.length := (Nat.sub_add_cancel hlen').symm
        rw [pval_cons, pval_cons, pval_cons, hval, hlength, List.length_cons, List.length_cons, Nat.add_sub_add_right]
        conv_lhs => rw [hsplit, pow_add]
        conv_rhs => rw [hsplit, pow_add]
        rw [Nat.add_sub_cancel]
        ring

structure Holds (accum : NumericSumAccum) (x : ℚ) : Prop where
  count : 0 ≤ accum.numUncarried ∧ accum.numUncarried ≤ 9999
  length : accum.negDigits.length = accum.posDigits.length
  pos : Pending accum.numUncarried accum.posDigits
  neg : Pending accum.numUncarried accum.negDigits
  reserved : accum.numUncarried ≠ 0 ∨ accum.haveCarrySpace = true → Reserved accum.posDigits ∧ Reserved accum.negDigits
  value : absAt accum.posDigits accum.weight - absAt accum.negDigits accum.weight = x

theorem holds_zeroed : Holds accumZeroed 0 where
  count := by decide
  length := rfl
  pos := List.forall_mem_nil _
  neg := List.forall_mem_nil _
  reserved := by rintro (h | h) <;> exact absurd h (by decide)
  value := sub_self _

theorem reserved_of_usedUp {digits : List ℤ} (h : Digits NBASE digits) (hne : digits ≠ []) (hused : usedUp digits = false) :
    Reserved digits := by
  cases digits with
  | nil => exact absurd rfl hne
  | cons d ds =>
    rw [usedUp, decide_eq_false_iff_not] at hused
    obtain ⟨hd, -⟩ := (List.forall_mem_cons.mp h).1
    have hle : ¬ 0 < d := hused
    exact congrArg some (by omega)

theorem Reserved.ne_nil {digits : List ℤ} (h : Reserved digits) : digits ≠ [] := by
  rintro rfl
  cases h

theorem absAt_congr {ds es : List ℤ} (hlen : ds.length = es.length) (hval : pval NBASE ds = pval NBASE es) (weight : ℤ) :
    absAt ds weight = absAt es weight := by
  rw [absAt, absAt, hlen, hval]

theorem accumSumCarry_spec {accum : NumericSumAccum} {x : ℚ} (h : Holds accum x) :
    ∃ a, accumSumCarry accum = some a ∧ Holds a x ∧ a.numUncarried = 0 ∧ a.ndigits = accum.ndigits := by
  rw [accumSumCarry]
  split
  · next hzero => exact ⟨accum, rfl, h, hzero, rfl⟩
  · next hne =>
    obtain ⟨hpos, hneg⟩ := h.reserved (Or.inl hne)
    obtain ⟨ps, hps, hpdigits, hplen, hpval⟩ := carry_buffer h.pos h.count.2 hpos
    obtain ⟨ns, hns, hndigits, hnlen, hnval⟩ := carry_buffer h.neg h.count.2 hneg
    rw [if_pos ⟨hpos, hneg⟩, hps, hns]
    refine ⟨_, rfl, ?_, rfl, congrArg Nat.cast hplen⟩
    have hpne : ps ≠ [] := fun hnil => hpos.ne_nil (List.length_eq_zero_iff.mp (by rw [← hplen, hnil, List.length_nil]))
    have hnne : ns ≠ [] := fun hnil => hneg.ne_nil (List.length_eq_zero_iff.mp (by rw [← hnlen, hnil, List.length_nil]))
    refine ⟨⟨le_refl 0, (by decide : (0 : ℤ) ≤ 9999)⟩, ?_, .of_digits hpdigits, .of_digits hndigits, ?_, ?_⟩
    · exact (hnlen.trans h.length).trans hplen.symm
    · rintro (hcount | hspace)
      · exact absurd rfl hcount
      · dsimp only at hspace
        rw [Bool.and_eq_true, Bool.and_eq_true, Bool.not_eq_true', Bool.not_eq_true'] at hspace
        exact ⟨reserved_of_usedUp hpdigits hpne hspace.1.2, reserved_of_usedUp hndigits hnne hspace.2⟩
    · dsimp only
      rw [absAt_congr hplen hpval, absAt_congr hnlen hnval, h.value]

theorem rescaled_spec (accum : NumericSumAccum) (val : NumericVar) : accum.weight ≤ (rescaled accum val).1 ∧
      accum.ndigits + ((rescaled accum val).1 - accum.weight) ≤ (rescaled accum val).2 ∧
      val.weight < (rescaled accum val).1 ∧ rscaleOf val ≤ (rescaled accum val).2 - (rescaled accum val).1 - 1 ∧
      ((rescaled accum val).1 = accum.weight → accum.haveCarrySpace = true) := by
  rw [rescaled]
  generalize rscaleOf val = r
  dsimp only
  split
  · refine ⟨by omega, ?_, by omega, ?_, by omega⟩
    · split <;> omega
    · split <;> omega
  · split
    · refine ⟨by omega, ?_, by omega, ?_, by omega⟩
      · split <;> omega
      · split <;> omega
    · next hspace =>
      refine ⟨by omega, ?_, by omega, ?_, fun _ => by simpa using hspace⟩
      · split <;> omega
      · split <;> omega

structure Rescaled (accum a : NumericSumAccum) (val : NumericVar) : Prop where
  uncarried : a.numUncarried = accum.numUncarried
  weight : val.weight < a.weight
  rscale : rscaleOf val ≤ a.ndigits - a.weight - 1
  reserved : Reserved a.posDigits ∧ Reserved a.negDigits

theorem accumSumRescale_spec {accum : NumericSumAccum} {x : ℚ} (h : Holds accum x) (val : NumericVar) :
    Holds (accumSumRescale accum val) x ∧ Rescaled accum (accumSumRescale accum val) val := by
  obtain ⟨hweight, hfit, hval, hscale, hkept⟩ := rescaled_spec accum val
  rw [accumSumRescale]
  generalize rescaled accum val = size at *
  have hdiff : 0 ≤ size.1 - accum.weight := by omega
  have hfitpos : accum.posDigits.length + (size.1 - accum.weight) ≤ size.2 := hfit
  have hfitneg : accum.negDigits.length + (size.1 - accum.weight) ≤ size.2 := by rwa [h.length]
  have hlenpos := length_newDigits hdiff hfitpos
  have hlenneg := length_newDigits hdiff hfitneg
  have habs (digits : List ℤ) :
      absAt (newDigits digits (size.1 - accum.weight) size.2) size.1 = absAt digits accum.weight := by
    have := @absAt_newDigits digits (size.1 - accum.weight) size.2 accum.weight hdiff
    rwa [add_sub_cancel] at this
  split
  · have hreserved : Reserved (newDigits accum.posDigits (size.1 - accum.weight) size.2) ∧
        Reserved (newDigits accum.negDigits (size.1 - accum.weight) size.2) := by
      rcases Int.lt_or_eq_of_le hdiff with hlt | heq
      · exact ⟨reserved_newDigits _ (Or.inl hlt), reserved_newDigits _ (Or.inl hlt)⟩
      · obtain ⟨hpos, hneg⟩ := h.reserved (Or.inr (hkept (by omega)))
        exact ⟨reserved_newDigits _ (Or.inr ⟨heq.symm, hpos⟩), reserved_newDigits _ (Or.inr ⟨heq.symm, hneg⟩)⟩
    refine ⟨⟨h.count, by exact_mod_cast hlenneg.trans hlenpos.symm, h.pos.newDigits h.count.1 _ _,
      h.neg.newDigits h.count.1 _ _, fun _ => hreserved, ?_⟩, rfl, hval, ?_, hreserved⟩
    · dsimp only
      rw [habs, habs, h.value]
    · rw [NumericSumAccum.ndigits]
      dsimp only
      rwa [hlenpos]
  · next hsame =>
    rw [not_or, not_not, not_not] at hsame
    obtain ⟨hndigits, hweights⟩ := hsame
    refine ⟨⟨h.count, h.length, h.pos, h.neg, h.reserved, h.value⟩, rfl, ?_, ?_, h.reserved (Or.inr (hkept hweights))⟩
    · exact hweights ▸ hval
    · rw [hndigits, hweights] at hscale
      exact hscale

theorem add_buffer {digits : List ℤ} {n weight : ℤ} {val : NumericVar} (h : Pending n digits) (hn : n ≤ 9998)
    (hval : Digits NBASE val.digits) (hweight : val.weight < weight) (hrscale : rscaleOf val ≤ digits.length - weight - 1)
    (hreserved : Reserved digits) :
    ∃ ds, addDigits digits (weight - val.weight) val.digits = some ds ∧ ds.length = digits.length ∧ Pending (n + 1) ds ∧
      Reserved ds ∧ absAt ds weight = absAt digits weight + val.abs := by
  rw [rscaleOf, NumericVar.ndigits] at hrscale
  obtain ⟨i, hi⟩ : ∃ i : ℕ, weight - val.weight = i := ⟨_, (Int.toNat_of_nonneg (by omega)).symm⟩
  have htake : (digits.take i).length = i := List.length_take_of_le (by omega)
  have hlen : val.digits.length ≤ (digits.drop i).length := by rw [List.length_drop]; omega
  obtain ⟨post, hadd, hlength, hpending, hpval⟩ := addDigits_spec hval hn (digits.take i)
    (fun d hd => h d (List.mem_of_mem_drop hd) : Pending n (digits.drop i)) hlen
  rw [List.take_append_drop, htake] at hadd
  have hkeep : (digits.take i ++ post).length = digits.length := by
    rw [List.length_append, hlength, htake, List.length_drop]
    omega
  refine ⟨digits.take i ++ post, by rw [hi, hadd], hkeep, ?_, ?_, ?_⟩
  · refine List.forall_mem_append.mpr ⟨fun d hd => ?_, hpending⟩
    exact h.mono (by omega : n ≤ n + 1) d (List.mem_of_mem_take hd)
  · cases digits with
    | nil => cases hreserved
    | cons d ds =>
      obtain ⟨k, hk⟩ : ∃ k, i = k + 1 := ⟨i - 1, by omega⟩
      rw [hk]
      exact hreserved
  · have hsum : pval NBASE (digits.take i ++ post) =
        pval NBASE digits + pval NBASE val.digits * NBASE ^ (digits.length - i - val.digits.length) := by
      conv_rhs => rw [← List.take_append_drop i digits, pval_append, List.take_append_drop]
      rw [pval_append, hpval, hlength, List.length_drop]
      ring
    have hpow : (NBASE : ℚ) ^ (digits.length - i - val.digits.length) * (NBASE : ℚ) ^ (weight + 1 - digits.length) =
        (NBASE : ℚ) ^ (val.weight + 1 - val.digits.length) := by
      rw [← zpow_natCast, ← zpow_add₀ nbase_ne]
      congr 1
      rw [List.length_drop] at hlen
      omega
    rw [absAt, absAt, hkeep, hsum, Int.cast_add, add_mul, Int.cast_mul, Int.cast_pow, mul_assoc, hpow]
    rfl

theorem accumSumPut_spec {accum : NumericSumAccum} {x : ℚ} (h : Holds accum x) (hcount : accum.numUncarried ≤ 9998)
    {val : NumericVar} (hval : Digits NBASE val.digits) :
    ∃ a, accumSumPut accum val = some a ∧ Holds a (x + val.value) := by
  obtain ⟨hholds, huncarried, hweight, hrscale, hpos, hneg⟩ := accumSumRescale_spec h val
  rw [accumSumPut]
  generalize accumSumRescale accum val = a at *
  rw [← huncarried] at hcount
  have hnonneg := hholds.count.1
  rw [NumericSumAccum.ndigits] at hrscale
  cases hsign : val.sign <;> dsimp only
  · obtain ⟨ds, hadd, hlen, hpending, hreserved, habs⟩ := add_buffer hholds.pos hcount hval hweight hrscale hpos
    rw [hadd]
    refine ⟨_, rfl, ⟨by dsimp only; omega, hholds.length.trans hlen.symm, hpending, hholds.neg.mono ?_,
      fun _ => ⟨hreserved, hneg⟩, ?_⟩⟩
    · exact Int.le_add_one (le_refl _)
    · dsimp only
      rw [habs, NumericVar.value, hsign, NumericSign.factor, one_mul, ← hholds.value]
      ring
  · rw [← hholds.length] at hrscale
    obtain ⟨ds, hadd, hlen, hpending, hreserved, habs⟩ := add_buffer hholds.neg hcount hval hweight hrscale hneg
    rw [hadd]
    refine ⟨_, rfl, ⟨by dsimp only; omega, hlen.trans hholds.length, hholds.pos.mono ?_, hpending,
      fun _ => ⟨hpos, hreserved⟩, ?_⟩⟩
    · exact Int.le_add_one (le_refl _)
    · dsimp only
      rw [habs, NumericVar.value, hsign, NumericSign.factor, neg_one_mul, ← hholds.value]
      ring

theorem accumSumAdd_spec {accum : NumericSumAccum} {x : ℚ} (h : Holds accum x) {val : NumericVar}
    (hval : Digits NBASE val.digits) : ∃ a, accumSumAdd accum val = some a ∧ Holds a (x + val.value) := by
  rw [accumSumAdd]
  have hcount := h.count
  split
  · obtain ⟨a, hcarry, hholds, hzero, -⟩ := accumSumCarry_spec h
    rw [hcarry]
    exact accumSumPut_spec hholds (by rw [hzero]; decide) hval
  · next hne =>
    rw [NBASE] at hne
    exact accumSumPut_spec h (by omega) hval

theorem accumSumFinal_spec {accum : NumericSumAccum} {x : ℚ} (h : Holds accum x) :
    ∃ a r, accumSumFinal accum = some (a, r) ∧ Holds a x ∧ Stripped r ∧ r.value = x := by
  rw [accumSumFinal]
  split
  · next hzero =>
    rw [NumericSumAccum.ndigits] at hzero
    have hpos : accum.posDigits = [] := List.length_eq_zero_iff.mp (by omega)
    have hneg : accum.negDigits = [] := List.length_eq_zero_iff.mp (by rw [h.length]; omega)
    have hx : x = 0 := by rw [← h.value, hpos, hneg, absAt_nil, sub_self]
    exact ⟨accum, _, rfl, h, (result_zero 0).stripped, hx ▸ (result_zero 0).value⟩
  · obtain ⟨a, hcarry, hholds, hzero, -⟩ := accumSumCarry_spec h
    have hpos : Digits NBASE a.posDigits := Pending.digits (hzero ▸ hholds.pos)
    have hneg : Digits NBASE a.negDigits := Pending.digits (hzero ▸ hholds.neg)
    have hall : a.posDigits.all (· < NBASE) ∧ a.negDigits.all (· < NBASE) := by
      rw [List.all_eq_true, List.all_eq_true]
      exact ⟨fun d hd => decide_eq_true (hpos d hd).2, fun d hd => decide_eq_true (hneg d hd).2⟩
    obtain ⟨r, hadd, hresult⟩ := @addVar_spec ⟨a.weight, .pos, a.dscale, a.posDigits⟩
      ⟨a.weight, .neg, a.dscale, a.negDigits⟩ hpos hneg (Or.inl rfl) (fun hsign => by cases hsign)
    obtain ⟨hstripped, -⟩ := stripVar_spec hresult.stripped.digits
    refine ⟨a, stripVar r, ?_, hholds, hstripped, ?_⟩
    · rw [hcarry, Option.bind_eq_bind, Option.bind_some, if_pos hall, hadd]
      rfl
    · rw [stripVar_value hresult.stripped.digits, hresult.value, ← hholds.value, NumericVar.value, NumericVar.value,
        NumericSign.factor, NumericSign.factor, one_mul, neg_one_mul, ← sub_eq_add_neg]
      rfl

inductive AccumCall where
  | add (accum : ℕ) (val : NumericVar)
  | final (accum : ℕ)
  | combine (accum accum2 : ℕ)
  | copy (dst src : ℕ)

def AccumCall.Valid : AccumCall → Prop
  | .add _ val => Digits NBASE val.digits
  | _ => True

def accumCall (s : ℕ → NumericSumAccum) : AccumCall → Option ((ℕ → NumericSumAccum) × List NumericVar)
  | .add accum val => (accumSumAdd (s accum) val).map fun a => (Function.update s accum a, [])
  | .final accum => (accumSumFinal (s accum)).map fun r => (Function.update s accum r.1, [r.2])
  | .combine accum accum2 => (accumSumCombine s accum accum2).map fun s' => (s', [])
  | .copy dst src => some (Function.update s dst (accumSumCopy (s src)), [])

def accumRun (s : ℕ → NumericSumAccum) : List AccumCall → Option ((ℕ → NumericSumAccum) × List NumericVar)
  | [] => some (s, [])
  | call :: calls => do
    let r ← accumCall s call
    let rest ← accumRun r.1 calls
    some (rest.1, r.2 ++ rest.2)

def sumCall (sums : ℕ → ℚ) : AccumCall → (ℕ → ℚ) × List ℚ
  | .add accum val => (Function.update sums accum (sums accum + val.value), [])
  | .final accum => (sums, [sums accum])
  | .combine accum accum2 => (Function.update sums accum (sums accum + sums accum2), [])
  | .copy dst src => (Function.update sums dst (sums src), [])

def sumRun (sums : ℕ → ℚ) : List AccumCall → (ℕ → ℚ) × List ℚ
  | [] => (sums, [])
  | call :: calls =>
    let r := sumCall sums call
    let rest := sumRun r.1 calls
    (rest.1, r.2 ++ rest.2)

def Agree (s : ℕ → NumericSumAccum) (sums : ℕ → ℚ) : Prop := ∀ i, Holds (s i) (sums i)

theorem Agree.update {s : ℕ → NumericSumAccum} {sums : ℕ → ℚ} (h : Agree s sums) (i : ℕ) {a : NumericSumAccum} {x : ℚ}
    (ha : Holds a x) : Agree (Function.update s i a) (Function.update sums i x) := by
  intro j
  by_cases hj : j = i
  · rw [hj, Function.update_self, Function.update_self]
    exact ha
  · rw [Function.update_of_ne hj, Function.update_of_ne hj]
    exact h j

theorem Agree.update_same {s : ℕ → NumericSumAccum} {sums : ℕ → ℚ} (h : Agree s sums) (i : ℕ) {a : NumericSumAccum}
    (ha : Holds a (sums i)) : Agree (Function.update s i a) sums := by
  have := h.update i ha
  rwa [Function.update_eq_self] at this

theorem holds_copy {src : NumericSumAccum} {x : ℚ} (h : Holds src x) : Holds (accumSumCopy src) x where
  count := h.count
  length := h.length
  pos := h.pos
  neg := h.neg
  reserved := by
    rintro (hcount | hspace)
    · exact h.reserved (Or.inl hcount)
    · cases hspace
  value := h.value

def Results (outs : List NumericVar) (xs : List ℚ) : Prop :=
  outs.map NumericVar.value = xs ∧ ∀ r ∈ outs, Stripped r

theorem accumCall_spec {s : ℕ → NumericSumAccum} {sums : ℕ → ℚ} (h : Agree s sums) {call : AccumCall}
    (hvalid : call.Valid) :
    ∃ s' outs, accumCall s call = some (s', outs) ∧ Agree s' (sumCall sums call).1 ∧
      Results outs (sumCall sums call).2 := by
  have hnone : Results [] [] := ⟨rfl, List.forall_mem_nil _⟩
  cases call with
  | add accum val =>
    obtain ⟨a, hadd, hholds⟩ := accumSumAdd_spec (h accum) hvalid
    exact ⟨_, _, by rw [accumCall, hadd]; rfl, h.update accum hholds, hnone⟩
  | final accum =>
    obtain ⟨a, r, hfinal, hholds, hstripped, hvalue⟩ := accumSumFinal_spec (h accum)
    refine ⟨_, [r], by rw [accumCall, hfinal]; rfl, h.update_same accum hholds, congrArg (fun x => [x]) hvalue, ?_⟩
    exact List.forall_mem_singleton.mpr hstripped
  | combine accum accum2 =>
    obtain ⟨a, r, hfinal, hholds, hstripped, hvalue⟩ := accumSumFinal_spec (h accum2)
    have hagree := h.update_same accum2 hholds
    obtain ⟨a', hadd, hholds'⟩ := accumSumAdd_spec (hagree accum) hstripped.digits
    rw [hvalue] at hholds'
    refine ⟨_, _, ?_, hagree.update accum hholds', hnone⟩
    rw [accumCall, accumSumCombine, hfinal, Option.bind_eq_bind, Option.bind_some]
    dsimp only
    rw [hadd]
    rfl
  | copy dst src => exact ⟨_, _, rfl, h.update dst (holds_copy (h src)), hnone⟩

theorem accumRun_spec {s : ℕ → NumericSumAccum} {sums : ℕ → ℚ} (h : Agree s sums) {calls : List AccumCall}
    (hvalid : ∀ call ∈ calls, call.Valid) :
    ∃ s' outs, accumRun s calls = some (s', outs) ∧ Agree s' (sumRun sums calls).1 ∧
      Results outs (sumRun sums calls).2 := by
  induction calls generalizing s sums with
  | nil => exact ⟨s, [], rfl, h, rfl, List.forall_mem_nil _⟩
  | cons call calls ih =>
    obtain ⟨hcall, hcalls⟩ := List.forall_mem_cons.mp hvalid
    obtain ⟨s', outs, hstep, hagree, hvalues, hstripped⟩ := accumCall_spec h hcall
    obtain ⟨s'', rest, hrun, hagree', hvalues', hstripped'⟩ := ih hagree hcalls
    refine ⟨s'', outs ++ rest, ?_, hagree', ?_, List.forall_mem_append.mpr ⟨hstripped, hstripped'⟩⟩
    · rw [accumRun, hstep, Option.bind_eq_bind, Option.bind_some]
      dsimp only
      rw [hrun]
      rfl
    · rw [List.map_append, hvalues, hvalues']
      rfl

/-- What holds of an accumulator between two calls: an `int32` holds every digit, and the digits reserved for carries are
zero where there is something to carry. -/
structure BetweenCalls (accum : NumericSumAccum) : Prop where
  int32 : ∀ d ∈ accum.posDigits ++ accum.negDigits, isInt d = true
  reserved : accum.numUncarried ≠ 0 → Reserved accum.posDigits ∧ Reserved accum.negDigits

theorem Holds.betweenCalls {accum : NumericSumAccum} {x : ℚ} (h : Holds accum x) : BetweenCalls accum where
  int32 d hd := by
    have hcount := h.count
    obtain ⟨hnonneg, hle⟩ := List.forall_mem_append.mpr ⟨h.pos, h.neg⟩ d hd
    rw [isInt, decide_eq_true_iff]
    omega
  reserved hcount := h.reserved (Or.inl hcount)

/-- Every run on zeroed accumulators goes through, without an overflow or a failed assertion, and every result is the sum
of what was added. -/
theorem accum_sum_exact {calls : List AccumCall} (hvalid : ∀ call ∈ calls, call.Valid) :
    ∃ s outs, accumRun (fun _ => accumZeroed) calls = some (s, outs) ∧
      outs.map NumericVar.value = (sumRun (fun _ => 0) calls).2 ∧ (∀ r ∈ outs, Stripped r) ∧
      ∀ i, BetweenCalls (s i) := by
  have hagree : Agree (fun _ => accumZeroed) fun _ => 0 := fun _ => holds_zeroed
  obtain ⟨s, outs, hrun, hagree', hvalues, hstripped⟩ := accumRun_spec hagree hvalid
  exact ⟨s, outs, hrun, hvalues, hstripped, fun i => (hagree' i).betweenCalls⟩

def fiveThousand : NumericVar := ⟨0, .pos, 0, [5000]⟩

theorem accum_sum_exact_twice :
    ∃ s outs, accumRun (fun _ => accumZeroed) [.add 0 fiveThousand, .final 0] = some (s, outs) ∧
      outs.map NumericVar.value = (sumRun (fun _ => 0) [.add 0 fiveThousand, .final 0]).2 ∧ (∀ r ∈ outs, Stripped r) ∧
      ∀ i, BetweenCalls (s i) := by
  refine accum_sum_exact (List.forall_mem_cons.mpr ⟨?_, List.forall_mem_singleton.mpr trivial⟩)
  exact List.forall_mem_singleton.mpr (by decide)

/-- A carry can use up the reserved digit; the next one then starts with that digit, and returns because nothing was added
meanwhile. -/
theorem carry_starts_used_up :
    ∃ s outs, accumRun (fun _ => accumZeroed) [.add 0 fiveThousand, .add 0 fiveThousand, .final 0] = some (s, outs) ∧
      (s 0).ndigits ≠ 0 ∧ (s 0).posDigits = [1, 0] := by
  refine ⟨_, _, rfl, ?_, ?_⟩
  · decide
  · decide

end CdcKafka.Numeric
