import Mathlib.Algebra.Order.Ring.Int
import Mathlib.Data.List.GetD
import Mathlib.Tactic.Linarith
import Mathlib.Tactic.Ring

/-! Numbers as lists of digits with the most significant one first, and passes over them from the right that carry into
the digit before. -/

namespace CdcKafka.Lib

def pval (b : ℤ) : List ℤ → ℤ
  | [] => 0
  | d :: ds => d * b ^ ds.length + pval b ds

variable {b : ℤ}

theorem pval_nil : pval b [] = 0 := rfl

theorem pval_cons (d : ℤ) (ds : List ℤ) : pval b (d :: ds) = d * b ^ ds.length + pval b ds := rfl

theorem pval_append (ds es : List ℤ) : pval b (ds ++ es) = pval b ds * b ^ es.length + pval b es := by
  induction ds with
  | nil => rw [List.nil_append, pval_nil, zero_mul, zero_add]
  | cons d ds ih => rw [List.cons_append, pval_cons, pval_cons, ih, List.length_append, pow_add]; ring

theorem pval_singleton (d : ℤ) : pval b [d] = d := by
  rw [pval_cons, pval_nil, List.length_nil, pow_zero, mul_one, add_zero]

theorem pval_replicate_zero (n : ℕ) : pval b (List.replicate n 0) = 0 := by
  induction n with
  | zero => rfl
  | succ n ih => rw [List.replicate_succ, pval_cons, ih, zero_mul, add_zero]

theorem pval_zipWith_add {ds es : List ℤ} (h : ds.length = es.length) :
    pval b (List.zipWith (· + ·) ds es) = pval b ds + pval b es := by
  induction ds generalizing es with
  | nil =>
    rw [List.length_eq_zero_iff.mp h.symm]
    rfl
  | cons d ds ih =>
    cases es with
    | nil => exact absurd h (Nat.succ_ne_zero _)
    | cons e es =>
      have hlen : ds.length = es.length := Nat.succ.inj h
      have hzip : (List.zipWith (· + ·) ds es).length = es.length := by
        rw [List.length_zipWith, hlen, Nat.min_self]
      rw [List.zipWith_cons_cons, pval_cons, pval_cons, pval_cons, ih hlen, hzip, hlen]
      ring

theorem pval_map_neg (ds : List ℤ) : pval b (ds.map (- ·)) = - pval b ds := by
  induction ds with
  | nil => rfl
  | cons d ds ih =>
    rw [List.map_cons, pval_cons, pval_cons, ih, List.length_map]
    ring

def Digits (b : ℤ) (ds : List ℤ) : Prop := ∀ d ∈ ds, 0 ≤ d ∧ d < b

theorem Digits.pval_nonneg {ds : List ℤ} (h : Digits b ds) (hb : 0 < b) : 0 ≤ pval b ds := by
  induction ds with
  | nil => exact le_refl _
  | cons d ds ih =>
    obtain ⟨hd, hds⟩ := List.forall_mem_cons.mp h
    rw [pval_cons]
    exact add_nonneg (mul_nonneg hd.1 (pow_nonneg hb.le _)) (ih hds)

theorem Digits.pval_lt {ds : List ℤ} (h : Digits b ds) (hb : 0 < b) : pval b ds < b ^ ds.length := by
  induction ds with
  | nil => rw [pval_nil, List.length_nil, pow_zero]; exact Int.one_pos
  | cons d ds ih =>
    obtain ⟨hd, hds⟩ := List.forall_mem_cons.mp h
    have hpow : 0 < b ^ ds.length := pow_pos hb _
    have hlt := ih hds
    have hmul : d * b ^ ds.length ≤ (b - 1) * b ^ ds.length := mul_le_mul_of_nonneg_right (by omega) hpow.le
    rw [pval_cons, List.length_cons, pow_succ]
    linarith

theorem Digits.le_pval {d : ℤ} {ds : List ℤ} (h : Digits b (d :: ds)) (hb : 0 < b) (hd : d ≠ 0) :
    b ^ ds.length ≤ pval b (d :: ds) := by
  obtain ⟨hd', hrest⟩ := List.forall_mem_cons.mp h
  have hds : Digits b ds := hrest
  have hpow : 0 < b ^ ds.length := pow_pos hb _
  have hone : 1 ≤ d := by omega
  have hmul : 1 * b ^ ds.length ≤ d * b ^ ds.length := mul_le_mul_of_nonneg_right hone hpow.le
  have hnonneg := hds.pval_nonneg hb
  rw [pval_cons]
  linarith

/-- A pass from the right: to each term the carry of the one behind it is added, of the sum `n` the carry `q n` is taken
away, and every sum has to be in range. -/
def carryPass (ok : ℤ → Bool) (q : ℤ → ℤ) (b : ℤ) : List ℤ → Option (List ℤ × ℤ)
  | [] => some ([], 0)
  | t :: ts =>
    (carryPass ok q b ts).bind fun r =>
      if ok (t + r.2) then some ((t + r.2 - q (t + r.2) * b) :: r.1, q (t + r.2)) else none

/-- What is asked of a carry, for sums between `lo` and `hi`, so that it stays between `clo` and `chi`. -/
structure Carries (ok : ℤ → Bool) (q : ℤ → ℤ) (b lo hi clo chi : ℤ) : Prop where
  ok_of : ∀ n, lo ≤ n → n ≤ hi → ok n = true
  digit : ∀ n, lo ≤ n → n ≤ hi → 0 ≤ n - q n * b ∧ n - q n * b < b
  carry : ∀ n, lo ≤ n → n ≤ hi → clo ≤ q n ∧ q n ≤ chi
  carry_zero : clo ≤ 0 ∧ 0 ≤ chi

theorem carryPass_spec {ok : ℤ → Bool} {q : ℤ → ℤ} {lo hi clo chi : ℤ} (h : Carries ok q b lo hi clo chi)
    {ts : List ℤ} (hts : ∀ t ∈ ts, lo - clo ≤ t ∧ t ≤ hi - chi) :
    ∃ ds c, carryPass ok q b ts = some (ds, c) ∧ Digits b ds ∧ ds.length = ts.length ∧ clo ≤ c ∧ c ≤ chi ∧
      pval b ds + c * b ^ ts.length = pval b ts := by
  induction ts with
  | nil => exact ⟨[], 0, rfl, List.forall_mem_nil _, rfl, h.carry_zero.1, h.carry_zero.2, by rw [zero_mul, add_zero]⟩
  | cons t ts ih =>
    obtain ⟨ht, hts⟩ := List.forall_mem_cons.mp hts
    obtain ⟨ds, c, hpass, hdigits, hlen, hclo, hchi, hval⟩ := ih hts
    have hlo : lo ≤ t + c := by omega
    have hhi : t + c ≤ hi := by omega
    obtain ⟨hclo', hchi'⟩ := h.carry _ hlo hhi
    refine ⟨(t + c - q (t + c) * b) :: ds, q (t + c), ?_, List.forall_mem_cons.mpr ⟨h.digit _ hlo hhi, hdigits⟩,
      congrArg (· + 1) hlen, hclo', hchi', ?_⟩
    · rw [carryPass, hpass, Option.bind_some, if_pos (h.ok_of _ hlo hhi)]
    · rw [pval_cons, pval_cons, hlen, ← hval, List.length_cons, pow_succ]
      ring

theorem carry_eq_zero {ds : List ℤ} {c v : ℤ} {n : ℕ} (hb : 0 < b) (hdigits : Digits b ds) (hlen : ds.length = n)
    (hval : pval b ds + c * b ^ n = v) (hnonneg : 0 ≤ v) (hlt : v < b ^ n) : c = 0 := by
  have hpos := hdigits.pval_nonneg hb
  have hless := hdigits.pval_lt hb
  rw [hlen] at hless
  have hpow : 0 < b ^ n := pow_pos hb n
  by_contra hne
  rcases lt_or_gt_of_ne hne with hneg | hgt
  · have : c * b ^ n ≤ -1 * b ^ n := mul_le_mul_of_nonneg_right (by omega) hpow.le
    linarith
  · have : 1 * b ^ n ≤ c * b ^ n := mul_le_mul_of_nonneg_right (by omega) hpow.le
    linarith

def exactPass (ok : ℤ → Bool) (q : ℤ → ℤ) (b : ℤ) (ts : List ℤ) : Option (List ℤ) :=
  (carryPass ok q b ts).bind fun r => if r.2 = 0 then some r.1 else none

theorem exactPass_spec {ok : ℤ → Bool} {q : ℤ → ℤ} {lo hi clo chi : ℤ} (h : Carries ok q b lo hi clo chi) (hb : 0 < b)
    {ts : List ℤ} (hts : ∀ t ∈ ts, lo - clo ≤ t ∧ t ≤ hi - chi) (hnonneg : 0 ≤ pval b ts) (hlt : pval b ts < b ^ ts.length) :
    ∃ ds, exactPass ok q b ts = some ds ∧ Digits b ds ∧ ds.length = ts.length ∧ pval b ds = pval b ts := by
  obtain ⟨ds, c, hpass, hdigits, hlen, -, -, hval⟩ := carryPass_spec h hts
  obtain rfl : c = 0 := carry_eq_zero hb hdigits hlen hval hnonneg hlt
  rw [zero_mul, add_zero] at hval
  exact ⟨ds, by rw [exactPass, hpass]; rfl, hdigits, hlen, hval⟩

def digitAt (ds : List ℤ) (i : ℤ) : ℤ := if 0 ≤ i ∧ i < ds.length then ds.getD i.toNat 0 else 0

def window (ds : List ℤ) (lead : ℤ) (m : ℕ) : List ℤ :=
  (List.range m).map fun i : ℕ => digitAt ds (i - lead)

theorem window_eq {ds : List ℤ} {lead trail m : ℕ} (hm : lead + ds.length + trail = m) :
    window ds lead m = List.replicate lead 0 ++ ds ++ List.replicate trail 0 := by
  apply List.ext_getElem
  · rw [window, List.length_map, List.length_range, List.length_append, List.length_append, List.length_replicate,
      List.length_replicate, hm]
  · intro i hi _
    rw [window, List.length_map, List.length_range] at hi
    simp only [window, List.getElem_map, List.getElem_range, digitAt]
    rcases Nat.lt_or_ge i lead with hlead | hlead
    · have hnot : ¬ (0 ≤ (i : ℤ) - lead ∧ (i : ℤ) - lead < ds.length) := by omega
      have hfirst : i < (List.replicate lead (0 : ℤ)).length := by rwa [List.length_replicate]
      have hleft : i < (List.replicate lead (0 : ℤ) ++ ds).length := by rw [List.length_append]; omega
      rw [if_neg hnot, List.getElem_append_left hleft, List.getElem_append_left hfirst, List.getElem_replicate]
    · rcases Nat.lt_or_ge i (lead + ds.length) with hmid | hmid
      · have hin : 0 ≤ (i : ℤ) - lead ∧ (i : ℤ) - lead < ds.length := by omega
        have hnat : ((i : ℤ) - lead).toNat = i - lead := by omega
        have hlen : (List.replicate lead (0 : ℤ)).length = lead := List.length_replicate
        rw [if_pos hin, hnat, List.getElem_append_left (by rw [List.length_append, hlen]; exact hmid),
          List.getElem_append_right (by rw [hlen]; exact hlead), List.getD_eq_getElem _ _ (by omega)]
        simp only [hlen]
      · have hnot : ¬ (0 ≤ (i : ℤ) - lead ∧ (i : ℤ) - lead < ds.length) := by omega
        have hlen : (List.replicate lead (0 : ℤ) ++ ds).length = lead + ds.length := by
          rw [List.length_append, List.length_replicate]
        rw [if_neg hnot, List.getElem_append_right (by rw [hlen]; exact hmid), List.getElem_replicate]

theorem pval_window {ds : List ℤ} {lead trail m : ℕ} (hm : lead + ds.length + trail = m) :
    pval b (window ds lead m) = pval b ds * b ^ trail := by
  rw [window_eq hm, pval_append, pval_append, pval_replicate_zero, pval_replicate_zero, List.length_replicate, zero_mul,
    zero_add, add_zero]

theorem length_window (ds : List ℤ) (lead : ℤ) (m : ℕ) : (window ds lead m).length = m := by
  rw [window, List.length_map, List.length_range]

theorem Digits.digitAt {ds : List ℤ} (h : Digits b ds) (hb : 0 < b) (i : ℤ) : 0 ≤ digitAt ds i ∧ digitAt ds i < b := by
  rw [Lib.digitAt]
  split
  · next hin =>
    rw [List.getD_eq_getElem _ _ (by omega)]
    exact h _ (List.getElem_mem _)
  · exact ⟨le_refl _, hb⟩

end CdcKafka.Lib
