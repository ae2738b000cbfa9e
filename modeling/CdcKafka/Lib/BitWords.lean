import Mathlib.Data.List.Basic
import Mathlib.Data.Nat.Bitwise
import Mathlib.Data.Nat.Count

/-! Lists of words as sets of numbers: bit `i % w` of word `i / w` says whether `i` is in the set. -/

namespace CdcKafka.Lib.BitWords

variable {w : Nat} {x : BitVec w} {xs ys : List (BitVec w)} {i : Nat}

def value : List (BitVec w) → Nat
  | [] => 0
  | x :: xs => 2 ^ w * value xs + x.toNat

theorem testBit_value_cons :
    (value (x :: xs)).testBit i = if i < w then x.getLsbD i else (value xs).testBit (i - w) := by
  rw [value, Nat.testBit_two_pow_mul_add _ x.isLt]
  rfl

theorem testBit_value (hw : 0 < w) : (value xs).testBit i = (xs.getD (i / w) 0).getLsbD (i % w) := by
  induction xs generalizing i with
  | nil =>
    rw [value, Nat.zero_testBit, List.getD_nil]
    exact (BitVec.getLsbD_zero).symm
  | cons x xs ih =>
    rw [testBit_value_cons]
    split
    · next hi => rw [Nat.div_eq_of_lt hi, Nat.mod_eq_of_lt hi, List.getD_cons_zero]
    · next hi =>
      have hwi : w ≤ i := Nat.le_of_not_lt hi
      rw [ih, Nat.div_eq_sub_div hw hwi, List.getD_cons_succ, Nat.mod_eq_sub_mod hwi]

theorem value_lt : value xs < 2 ^ (w * xs.length) := by
  induction xs with
  | nil => exact Nat.one_pos
  | cons x xs ih =>
    have hx := x.isLt
    calc value (x :: xs) < 2 ^ w * (value xs + 1) := by rw [value, Nat.mul_add, Nat.mul_one]; omega
      _ ≤ 2 ^ w * 2 ^ (w * xs.length) := Nat.mul_le_mul_left _ ih
      _ = 2 ^ (w * (x :: xs).length) := by rw [← pow_add, List.length_cons, Nat.mul_succ, Nat.add_comm]

theorem lt_of_testBit (h : (value xs).testBit i = true) : i < w * xs.length := by
  by_contra hi
  rw [Nat.testBit_lt_two_pow (value_lt.trans_le (Nat.pow_le_pow_right Nat.two_pos (Nat.le_of_not_lt hi)))] at h
  cases h

theorem value_cons_eq_zero : value (x :: xs) = 0 ↔ x = 0 ∧ value xs = 0 := by
  have hpos := Nat.two_pow_pos w
  rw [value, Nat.add_eq_zero_iff, Nat.mul_eq_zero, or_iff_right hpos.ne', and_comm]
  exact and_congr_left fun _ => BitVec.toNat_inj (y := 0#w)

theorem value_injective (hlen : xs.length = ys.length) (hv : value xs = value ys) : xs = ys := by
  induction xs generalizing ys with
  | nil => exact (List.length_eq_zero_iff.mp hlen.symm).symm
  | cons x xs ih =>
    cases ys with
    | nil => cases hlen
    | cons y ys =>
      have hx := congrArg (· % 2 ^ w) hv
      have hrest := congrArg (· / 2 ^ w) hv
      simp only [value, Nat.mul_add_mod, Nat.mod_eq_of_lt x.isLt, Nat.mod_eq_of_lt y.isLt] at hx
      simp only [value, Nat.mul_add_div (Nat.two_pow_pos w), Nat.div_eq_of_lt x.isLt, Nat.div_eq_of_lt y.isLt,
        Nat.add_zero] at hrest
      rw [BitVec.eq_of_toNat_eq hx, ih (Nat.succ_injective hlen) hrest]

theorem exists_testBit (hw : 0 < w) {n : Nat} (hn : xs.getD n 0 ≠ 0) :
    ∃ i, i / w = n ∧ (value xs).testBit i = true := by
  have hbit : ∃ k, k < w ∧ (xs.getD n 0).getLsbD k = true := by
    by_contra hnone
    refine hn (BitVec.eq_of_getLsbD_eq fun k hk => ?_)
    rw [BitVec.ofNat_eq_ofNat, BitVec.getLsbD_zero]
    exact Bool.eq_false_iff.mpr fun h => hnone ⟨k, hk, h⟩
  obtain ⟨k, hk, hbit⟩ := hbit
  have hdiv : (w * n + k) / w = n := by rw [Nat.mul_add_div hw, Nat.div_eq_of_lt hk, Nat.add_zero]
  refine ⟨w * n + k, hdiv, ?_⟩
  rw [testBit_value hw, hdiv, Nat.mul_add_mod, Nat.mod_eq_of_lt hk, hbit]

theorem getLastD_ne_zero (hw : 0 < w) :
    xs.getLastD 0 ≠ 0 ↔ ∃ i, (value xs).testBit i = true ∧ w * xs.length ≤ i + w := by
  have hlast : xs.getLastD 0 = xs.getD (xs.length - 1) 0 := by
    rw [List.getLastD_eq_getLast?, List.getLast?_eq_getElem?, List.getD_eq_getElem?_getD]
  rw [hlast]
  constructor
  · intro hne
    obtain ⟨i, hi, hbit⟩ := exists_testBit hw hne
    refine ⟨i, hbit, ?_⟩
    calc w * xs.length ≤ w * (i / w + 1) := Nat.mul_le_mul_left w (by omega)
      _ ≤ i + w := by rw [Nat.mul_succ]; exact Nat.add_le_add_right (Nat.mul_div_le i w) w
  · rintro ⟨i, hbit, hlen⟩ hzero
    have hi : i / w = xs.length - 1 := by
      have hlt := lt_of_testBit hbit
      have hpos : 0 < xs.length := Nat.pos_of_mul_pos_left (Nat.zero_lt_of_lt hlt)
      refine Nat.le_antisymm (Nat.le_sub_one_of_lt (Nat.div_lt_of_lt_mul hlt)) ?_
      rw [Nat.le_div_iff_mul_le hw, Nat.sub_mul, Nat.mul_comm, Nat.one_mul]
      omega
    rw [testBit_value hw, hi, hzero] at hbit
    rw [BitVec.ofNat_eq_ofNat, BitVec.getLsbD_zero] at hbit
    cases hbit

theorem value_zeros {n : Nat} : value (List.replicate n (0 : BitVec w)) = 0 := by
  induction n with
  | zero => rfl
  | succ n ih => exact value_cons_eq_zero.mpr ⟨rfl, ih⟩

theorem value_append_zeros {n : Nat} : value (xs ++ List.replicate n 0) = value xs := by
  induction xs with
  | nil => exact value_zeros
  | cons x xs ih => rw [List.cons_append, value, value, ih]

theorem lt_iff_testBit {m n : Nat} :
    m < n ↔ ∃ i, n.testBit i = true ∧ m.testBit i = false ∧ ∀ j, i < j → (m.testBit j = n.testBit j) := by
  constructor
  · intro h
    obtain ⟨i, hi, htop⟩ := Nat.exists_most_significant_bit (mt Nat.xor_eq_zero_iff.mp h.ne)
    have heq : ∀ j, i < j → m.testBit j = n.testBit j := fun j hj => by
      have hxor := htop j hj
      rw [Nat.testBit_xor] at hxor
      exact bne_eq_false_iff_eq.mp hxor
    rw [Nat.testBit_xor] at hi
    cases hm : m.testBit i with
    | false =>
      rw [hm, Bool.false_xor] at hi
      exact ⟨i, hi, hm, heq⟩
    | true =>
      rw [hm, Bool.true_xor, Bool.not_eq_true'] at hi
      exact absurd (Nat.lt_of_testBit i hi hm fun j hj => (heq j hj).symm) h.not_gt
  · rintro ⟨i, hn, hm, heq⟩
    exact Nat.lt_of_testBit i hm hn heq

variable {op : BitVec w → BitVec w → BitVec w} {f : Bool → Bool → Bool}

def update (op : BitVec w → BitVec w → BitVec w) : List (BitVec w) → List (BitVec w) → List (BitVec w)
  | x :: xs, y :: ys => op x y :: update op xs ys
  | xs, _ => xs

theorem length_update : (update op xs ys).length = xs.length := by
  induction xs, ys using update.induct with
  | case1 x xs y ys ih => rw [update, List.length_cons, List.length_cons, ih]
  | case2 xs ys h => rw [update.eq_2 _ _ _ h]

theorem testBit_update (hop : ∀ x y i, i < w → (op x y).getLsbD i = f (x.getLsbD i) (y.getLsbD i))
    (hf : ∀ b, f b false = b) (hlen : ys.length ≤ xs.length) :
    (value (update op xs ys)).testBit i = f ((value xs).testBit i) ((value ys).testBit i) := by
  induction xs generalizing ys i with
  | nil =>
    obtain rfl := List.length_eq_zero_iff.mp (Nat.le_zero.mp hlen)
    rw [update, value, Nat.zero_testBit, hf]
    exact fun _ _ _ _ h => by cases h
  | cons x xs ih =>
    cases ys with
    | nil =>
      rw [update, value, Nat.zero_testBit, hf]
      exact fun _ _ _ _ _ h => by cases h
    | cons y ys =>
      rw [update, testBit_value_cons, testBit_value_cons, testBit_value_cons]
      split
      · next hi => exact hop x y i hi
      · exact ih (Nat.le_of_succ_le_succ hlen)

theorem testBit_zipWith (hop : ∀ x y i, i < w → (op x y).getLsbD i = f (x.getLsbD i) (y.getLsbD i))
    (hf : ∀ b, f false b = false) (hlen : xs.length ≤ ys.length ∨ ∀ b, f b false = false) :
    (value (xs.zipWith op ys)).testBit i = f ((value xs).testBit i) ((value ys).testBit i) := by
  induction xs generalizing ys i with
  | nil => rw [List.zipWith_nil_left, value, Nat.zero_testBit, hf]
  | cons x xs ih =>
    cases ys with
    | nil =>
      rw [List.zipWith_nil_right, value, Nat.zero_testBit]
      exact (hlen.resolve_left (Nat.not_succ_le_zero _) _).symm
    | cons y ys =>
      rw [List.zipWith_cons_cons, testBit_value_cons, testBit_value_cons, testBit_value_cons]
      split
      · next hi => exact hop x y i hi
      · exact ih (hlen.imp_left Nat.le_of_succ_le_succ)

theorem toNat_cpop_eq_count : x.cpop.toNat = Nat.count (fun i => x.getLsbD i = true) w := by
  have hcount : ∀ n, x.cpopNatRec n 0 = Nat.count (fun i => x.getLsbD i = true) n := by
    intro n
    induction n with
    | zero => rfl
    | succ n ih =>
      rw [BitVec.cpopNatRec_succ, BitVec.cpopNatRec_add, ih, Nat.count_succ]
      cases x.getLsbD n <;> simp
  rw [BitVec.toNat_cpop, hcount]

theorem count_value_low {n : Nat} (hn : n ≤ w) :
    Nat.count (fun i => (value (x :: xs)).testBit i = true) n = Nat.count (fun i => x.getLsbD i = true) n := by
  refine le_antisymm (Nat.count_mono_left fun i hi => ?_) (Nat.count_mono_left fun i hi => ?_)
  · rw [testBit_value_cons, if_pos (hi.trans_le hn)]
    exact id
  · rw [testBit_value_cons, if_pos (hi.trans_le hn)]
    exact id

theorem count_value_cons {n : Nat} : Nat.count (fun i => (value (x :: xs)).testBit i = true) (w + n) =
      x.cpop.toNat + Nat.count (fun i => (value xs).testBit i = true) n := by
  rw [Nat.count_add, count_value_low le_rfl, toNat_cpop_eq_count]
  congr 2
  funext i
  rw [testBit_value_cons, if_neg (Nat.not_lt.mpr (Nat.le_add_right w i)), Nat.add_sub_cancel_left]

end CdcKafka.Lib.BitWords
