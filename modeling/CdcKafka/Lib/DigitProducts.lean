import CdcKafka.Lib.Positional

/-! Products of numbers given by digits: the sums of products that make one digit each, rows of products with an offset,
and pairs of digits. -/

namespace CdcKafka.Lib

variable {b : ℤ}

theorem pval_map_mul (x : ℤ) (ds : List ℤ) : pval b (ds.map (x * ·)) = x * pval b ds := by
  induction ds with
  | nil => rw [List.map_nil, pval_nil, mul_zero]
  | cons d ds ih =>
    rw [List.map_cons, pval_cons, pval_cons, ih, List.length_map]
    ring

theorem digitAt_neg (ds : List ℤ) {i : ℤ} (h : i < 0) : digitAt ds i = 0 := if_neg fun hin => by omega

theorem digitAt_ge (ds : List ℤ) {i : ℤ} (h : (ds.length : ℤ) ≤ i) : digitAt ds i = 0 := if_neg fun hin => by omega

theorem digitAt_cons_zero (d : ℤ) (ds : List ℤ) : digitAt (d :: ds) 0 = d := by
  rw [digitAt, if_pos ⟨le_refl _, by rw [List.length_cons]; omega⟩]
  rfl

theorem digitAt_cons_succ (d : ℤ) (ds : List ℤ) {i : ℤ} (h : 0 ≤ i) : digitAt (d :: ds) (i + 1) = digitAt ds i := by
  obtain ⟨n, rfl⟩ := Int.eq_ofNat_of_zero_le h
  have hnat : ((n : ℤ) + 1).toNat = n + 1 := by omega
  rw [digitAt, digitAt, hnat, List.getD_cons_succ, Int.toNat_natCast, List.length_cons]
  exact if_congr (by omega) rfl rfl

def prodsum (v1 v2 : List ℤ) : ℕ → ℤ → ℤ → ℤ
  | 0, _, _ => 0
  | k + 1, i1, i2 => prodsum v1 v2 k i1 i2 + digitAt v1 (i1 + k) * digitAt v2 (i2 - k)

def convAt : List ℤ → List ℤ → ℤ → ℤ
  | [], _, _ => 0
  | d :: ds, v2, s => d * digitAt v2 s + convAt ds v2 (s - 1)

theorem prodsum_cons (d : ℤ) (ds v2 : List ℤ) (k : ℕ) (s : ℤ) :
    prodsum (d :: ds) v2 (k + 1) 0 s = d * digitAt v2 s + prodsum ds v2 k 0 (s - 1) := by
  induction k with
  | zero => rw [prodsum, prodsum, prodsum, Nat.cast_zero, zero_add, add_zero, add_zero, sub_zero, digitAt_cons_zero]
  | succ k ih =>
    rw [prodsum, ih, prodsum, add_assoc, zero_add, zero_add, Nat.cast_succ, digitAt_cons_succ d ds (Int.natCast_nonneg k)]
    congr 4
    ring

theorem prodsum_eq_convAt (v1 v2 : List ℤ) (s : ℤ) : prodsum v1 v2 v1.length 0 s = convAt v1 v2 s := by
  induction v1 generalizing s with
  | nil => rfl
  | cons d ds ih => rw [List.length_cons, prodsum_cons, ih, convAt]

theorem prodsum_before (v1 v2 : List ℤ) {k : ℕ} (m : ℕ) (i1 : ℤ) {i2 : ℤ} (h : i2 < k) :
    prodsum v1 v2 (k + m) i1 i2 = prodsum v1 v2 k i1 i2 := by
  induction m with
  | zero => rfl
  | succ m ih => rw [Nat.add_succ, prodsum, ih, digitAt_neg v2 (by omega), mul_zero, add_zero]

theorem prodsum_split (v1 v2 : List ℤ) (k j : ℕ) (i1 i2 : ℤ) :
    prodsum v1 v2 (k + j) i1 i2 = prodsum v1 v2 k i1 i2 + prodsum v1 v2 j (i1 + k) (i2 - k) := by
  induction j with
  | zero => rw [Nat.add_zero, prodsum, add_zero]
  | succ j ih =>
    rw [Nat.add_succ, prodsum, ih, prodsum, add_assoc, Nat.cast_add]
    congr 4
    · ring
    · ring

theorem prodsum_behind (v1 v2 : List ℤ) (k j : ℕ) (i1 : ℤ) {i2 : ℤ} (h : (v2.length : ℤ) + k ≤ i2 + 1) :
    prodsum v1 v2 (k + j) i1 i2 = prodsum v1 v2 j (i1 + k) (i2 - k) := by
  have hzero : ∀ l : ℕ, l ≤ k → prodsum v1 v2 l i1 i2 = 0 := by
    intro l hl
    induction l with
    | zero => rfl
    | succ l ih => rw [prodsum, ih (by omega), digitAt_ge v2 (by omega), mul_zero, add_zero]
  rw [prodsum_split, hzero k (le_refl _), zero_add]

theorem prodsum_bounds {v1 v2 : List ℤ} (h1 : Digits b v1) (h2 : Digits b v2) (hb : 0 < b) (k : ℕ) (i1 i2 : ℤ) :
    0 ≤ prodsum v1 v2 k i1 i2 ∧ prodsum v1 v2 k i1 i2 ≤ k * ((b - 1) * (b - 1)) := by
  induction k with
  | zero => exact ⟨le_refl _, by rw [prodsum, Nat.cast_zero, zero_mul]⟩
  | succ k ih =>
    have hx := h1.digitAt hb (i1 + k)
    have hy := h2.digitAt hb (i2 - k)
    have hle : digitAt v1 (i1 + k) * digitAt v2 (i2 - k) ≤ (b - 1) * (b - 1) :=
      mul_le_mul (by omega) (by omega) hy.1 (by omega)
    have hnonneg : 0 ≤ digitAt v1 (i1 + k) * digitAt v2 (i2 - k) := mul_nonneg hx.1 hy.1
    rw [prodsum, Nat.cast_succ, add_mul, one_mul]
    exact ⟨add_nonneg ih.1 hnonneg, add_le_add ih.2 hle⟩

theorem pval_map_add {α : Type} (f g : α → ℤ) (l : List α) :
    pval b (l.map fun i => f i + g i) = pval b (l.map f) + pval b (l.map g) := by
  induction l with
  | nil => rfl
  | cons a l ih =>
    rw [List.map_cons, List.map_cons, List.map_cons, pval_cons, pval_cons, pval_cons, ih, List.length_map,
      List.length_map, List.length_map]
    ring

theorem pval_convAt_lead (v1 v2 : List ℤ) {lead trail m : ℕ} (hm : lead + v1.length + v2.length + trail = m + 1) :
    pval b ((List.range m).map fun i : ℕ => convAt v1 v2 (i - lead)) = pval b v1 * pval b v2 * b ^ trail := by
  induction v1 generalizing lead trail with
  | nil =>
    have hzero : (List.range m).map (fun i : ℕ => convAt [] v2 (i - lead)) = List.replicate m 0 := by
      have hconst : (fun i : ℕ => convAt [] v2 (i - lead)) = fun _ => 0 := funext fun i => rfl
      rw [hconst, List.map_const', List.length_range]
    rw [hzero, pval_replicate_zero, pval_nil, zero_mul, zero_mul]
  | cons d ds ih =>
    rw [List.length_cons] at hm
    have hfirst : pval b ((List.range m).map fun i : ℕ => d * digitAt v2 (i - lead)) =
        d * (pval b v2 * b ^ (ds.length + trail)) := by
      have hwindow : (List.range m).map (fun i : ℕ => d * digitAt v2 (i - lead)) = (window v2 lead m).map (d * ·) := by
        rw [window, List.map_map]
        rfl
      rw [hwindow, pval_map_mul, @pval_window b v2 lead (ds.length + trail) m (by omega)]
    have hrest := @ih (lead + 1) trail (by omega)
    have hshift : (List.range m).map (fun i : ℕ => convAt ds v2 (i - lead - 1)) =
        (List.range m).map fun i : ℕ => convAt ds v2 (i - (lead + 1 : ℕ)) := by
      refine List.map_congr_left fun i _ => congrArg (convAt ds v2) ?_
      rw [Nat.cast_succ]
      ring
    have hsplit : (fun i : ℕ => convAt (d :: ds) v2 (i - lead)) =
        fun i : ℕ => d * digitAt v2 (i - lead) + convAt ds v2 (i - lead - 1) := rfl
    rw [hsplit, pval_map_add, hfirst, hshift, hrest, pval_cons, pow_add]
    ring

theorem pval_convAt (v1 v2 : List ℤ) {m : ℕ} (hm : v1.length + v2.length = m + 1) :
    pval b ((List.range m).map fun i : ℕ => convAt v1 v2 i) = pval b v1 * pval b v2 := by
  have := @pval_convAt_lead b v1 v2 0 0 m (by omega)
  simp only [Nat.cast_zero, sub_zero, pow_zero, mul_one] at this
  exact this

def pairs (b : ℤ) : List ℤ → List ℤ
  | [] => []
  | [d] => [d * b]
  | d :: e :: ds => (d * b + e) :: pairs b ds

theorem length_pairs (b : ℤ) (ds : List ℤ) : (pairs b ds).length = (ds.length + 1) / 2 := by
  fun_induction pairs b ds with
  | case1 => rfl
  | case2 d => exact (Nat.div_self (by decide : 0 < 2)).symm
  | case3 d e ds ih =>
    rw [List.length_cons, ih, List.length_cons, List.length_cons]
    omega

theorem pval_pairs (b : ℤ) (ds : List ℤ) : pval (b ^ 2) (pairs b ds) = pval b ds * b ^ (ds.length % 2) := by
  fun_induction pairs b ds with
  | case1 => rw [pval_nil, pval_nil, zero_mul]
  | case2 d => rw [pval_singleton, pval_singleton, List.length_singleton, Nat.mod_eq_of_lt (by decide), pow_one]
  | case3 d e ds ih =>
    have hpow : (b ^ 2) ^ ((ds.length + 1) / 2) = b ^ ds.length * b ^ (ds.length % 2) := by
      rw [← pow_mul, ← pow_add]
      congr 1
      omega
    have hparity : (ds.length + 1 + 1) % 2 = ds.length % 2 := by omega
    rw [pval_cons, ih, length_pairs, hpow, pval_cons, pval_cons, List.length_cons, List.length_cons, List.length_cons,
      hparity, pow_succ]
    ring

theorem Digits.pairs {ds : List ℤ} (h : Digits b ds) (hb : 0 < b) : Digits (b ^ 2) (pairs b ds) := by
  have hpair {d e : ℤ} (hd : 0 ≤ d ∧ d < b) (he : 0 ≤ e ∧ e < b) : 0 ≤ d * b + e ∧ d * b + e < b ^ 2 := by
    have hmul : d * b ≤ (b - 1) * b := mul_le_mul_of_nonneg_right (by omega) hb.le
    refine ⟨add_nonneg (mul_nonneg hd.1 hb.le) he.1, ?_⟩
    rw [pow_two]
    linarith
  fun_induction Lib.pairs b ds with
  | case1 => exact List.forall_mem_nil _
  | case2 d =>
    refine List.forall_mem_singleton.mpr ?_
    have := hpair (h d (List.mem_singleton_self d)) (⟨le_refl 0, hb⟩ : (0 : ℤ) ≤ 0 ∧ 0 < b)
    rwa [add_zero] at this
  | case3 d e ds ih =>
    obtain ⟨hd, hrest⟩ := List.forall_mem_cons.mp h
    obtain ⟨he, hds⟩ := List.forall_mem_cons.mp hrest
    exact List.forall_mem_cons.mpr ⟨hpair hd he, ih hds⟩

def unpair (b : ℤ) (ps : List ℤ) : List ℤ := ps.flatMap fun p => [p / b, p % b]

theorem length_unpair (b : ℤ) (ps : List ℤ) : (unpair b ps).length = 2 * ps.length := by
  induction ps with
  | nil => rfl
  | cons p ps ih =>
    rw [unpair, List.flatMap_cons, List.length_append, ← unpair, ih, List.length_cons (a := p), Nat.mul_succ, Nat.add_comm]
    rfl

theorem pval_unpair (b : ℤ) (ps : List ℤ) : pval b (unpair b ps) = pval (b ^ 2) ps := by
  induction ps with
  | nil => rfl
  | cons p ps ih =>
    have hp : p = p / b * b + p % b := by
      rw [mul_comm]
      exact (Int.mul_ediv_add_emod p b).symm
    have hpow : b ^ (2 * ps.length) = (b ^ 2) ^ ps.length := pow_mul b 2 ps.length
    rw [unpair, List.flatMap_cons, pval_append, ← unpair, ih, length_unpair, hpow, pval_cons, pval_singleton,
      List.length_singleton, pow_one, ← hp, pval_cons]

theorem Digits.unpair {ps : List ℤ} (h : Digits (b ^ 2) ps) (hb : 0 < b) : Digits b (unpair b ps) := by
  refine List.forall_mem_flatMap.mpr fun p hp => ?_
  obtain ⟨hnonneg, hlt⟩ := h p hp
  refine List.forall_mem_cons.mpr ⟨⟨Int.ediv_nonneg hnonneg hb.le, ?_⟩, List.forall_mem_singleton.mpr
    ⟨Int.emod_nonneg _ hb.ne', Int.emod_lt_of_pos _ hb⟩⟩
  rw [pow_two] at hlt
  exact Int.ediv_lt_of_lt_mul hb hlt

end CdcKafka.Lib
