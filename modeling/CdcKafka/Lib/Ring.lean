import Mathlib.Data.List.Basic
import Mathlib.Data.Nat.ModEq

/-! A byte stream seen through a ring: position `p` of the stream lives in cell `p % N`, and the ring holds a window of it. -/

namespace CdcKafka.Lib

variable {α : Type}

def alignUp (a n : Nat) : Nat := (n + (a - 1)) / a * a

theorem dvd_alignUp (a n : Nat) : a ∣ alignUp a n := Dvd.intro_left _ rfl

theorem le_alignUp {a : Nat} (ha : 0 < a) (n : Nat) : n ≤ alignUp a n := by
  have hdiv := Nat.div_add_mod (n + (a - 1)) a
  have hmod := Nat.mod_lt (n + (a - 1)) ha
  have hcomm : a * ((n + (a - 1)) / a) = (n + (a - 1)) / a * a := Nat.mul_comm _ _
  unfold alignUp
  omega

theorem alignUp_eq_self {a n : Nat} (ha : 0 < a) (h : a ∣ n) : alignUp a n = n := by
  obtain ⟨k, rfl⟩ := h
  have hlt : a - 1 < a := by omega
  have hdiv : (a * k + (a - 1)) / a = k := by
    rw [Nat.mul_add_div ha, Nat.div_eq_of_lt hlt, Nat.add_zero]
  rw [alignUp, hdiv, Nat.mul_comm]

@[simp] theorem alignUp_zero {a : Nat} (ha : 0 < a) : alignUp a 0 = 0 :=
  alignUp_eq_self ha (dvd_zero a)

theorem alignUp_mono (a : Nat) {m n : Nat} (h : m ≤ n) : alignUp a m ≤ alignUp a n :=
  Nat.mul_le_mul_right a (Nat.div_le_div_right (Nat.add_le_add_right h _))

theorem alignUp_le {a m n : Nat} (ha : 0 < a) (hn : a ∣ n) (h : m ≤ n) : alignUp a m ≤ n := by
  have hmono := alignUp_mono a h
  rwa [alignUp_eq_self ha hn] at hmono

theorem alignUp_add {a m : Nat} (ha : 0 < a) (hm : a ∣ m) (n : Nat) : alignUp a (m + n) = m + alignUp a n := by
  obtain ⟨k, rfl⟩ := hm
  have hassoc : a * k + n + (a - 1) = a * k + (n + (a - 1)) := by omega
  rw [alignUp, alignUp, hassoc, Nat.mul_add_div ha, Nat.add_mul, Nat.mul_comm k a]

/-- `d` stands at position `p` of the stream `F`. -/
def Stands (F : List (Option α)) (p : Nat) (d : List α) : Prop :=
  ∀ i b, d[i]? = some b → F[p + i]? = some (some b)

theorem Stands.drop {F : List (Option α)} {p : Nat} {d : List α} (h : Stands F p d) (k : Nat) :
    Stands F (p + k) (d.drop k) := by
  intro i b hb
  rw [List.getElem?_drop] at hb
  have hF := h (k + i) b hb
  rwa [← Nat.add_assoc] at hF

theorem Stands.take {F : List (Option α)} {p : Nat} {d : List α} (h : Stands F p d) (k : Nat) :
    Stands F p (d.take k) := by
  intro i b hb
  refine h i b ?_
  rw [List.getElem?_take] at hb
  split at hb
  · exact hb
  · cases hb

theorem Stands.mono {F F' : List (Option α)} {p : Nat} {d : List α} (h : Stands F p d)
    (hF : F <+: F') : Stands F' p d := by
  obtain ⟨tail, rfl⟩ := hF
  intro i b hb
  have hold := h i b hb
  have hlt : p + i < F.length := (List.getElem?_eq_some_iff.mp hold).1
  rw [List.getElem?_append_left hlt]
  exact hold

theorem stands_append (pre post : List (Option α)) (d : List α) :
    Stands (pre ++ (d.map some ++ post)) pre.length d := by
  intro i b hb
  have hlt : i < d.length := (List.getElem?_eq_some_iff.mp hb).1
  rw [List.getElem?_append_right (Nat.le_add_right _ _), Nat.add_sub_cancel_left,
    List.getElem?_append_left (by rw [List.length_map]; exact hlt), List.getElem?_map, hb]
  rfl

/-- `d` stands at `p` and padding follows it up to the next multiple of `a`. -/
structure Segment (a : Nat) (F : List (Option α)) (p : Nat) (d : List α) : Prop where
  stands : Stands F p d
  pad : ∀ i, d.length ≤ i → i < alignUp a d.length → F[p + i]? = some none

theorem Segment.mono {a : Nat} {F F' : List (Option α)} {p : Nat} {d : List α}
    (h : Segment a F p d) (hF : F <+: F') : Segment a F' p d where
  stands := h.stands.mono hF
  pad := by
    intro i hle hlt
    obtain ⟨tail, rfl⟩ := hF
    have hold := h.pad i hle hlt
    have hin : p + i < F.length := (List.getElem?_eq_some_iff.mp hold).1
    rw [List.getElem?_append_left hin]
    exact hold

def padded (a : Nat) (d : List α) : List (Option α) :=
  d.map some ++ List.replicate (alignUp a d.length - d.length) none

theorem length_padded {a : Nat} (ha : 0 < a) (d : List α) : (padded a d).length = alignUp a d.length := by
  have hle := le_alignUp ha d.length
  rw [padded, List.length_append, List.length_map, List.length_replicate]
  omega

theorem segment_padded {a : Nat} (ha : 0 < a) (pre post : List (Option α)) (d : List α) :
    Segment a (pre ++ (padded a d ++ post)) pre.length d where
  stands := by
    rw [padded, List.append_assoc]
    exact stands_append pre _ d
  pad := by
    intro i hle hlt
    have hin : i < (padded a d).length := by rwa [length_padded ha]
    rw [List.getElem?_append_right (Nat.le_add_right _ _), Nat.add_sub_cancel_left,
      List.getElem?_append_left hin, padded,
      List.getElem?_append_right (by rwa [List.length_map]), List.length_map,
      List.getElem?_replicate_of_lt (by omega)]

def Window (N p off n : Nat) : Prop := ∀ i, i < n → (p + i) % N = off + i

theorem window_mod {N p n : Nat} (h : p % N + n ≤ N) : Window N p (p % N) n := by
  intro i hi
  rw [Nat.add_mod_of_add_mod_lt, Nat.mod_eq_of_lt (show i < N by omega)]
  rw [Nat.mod_eq_of_lt (show i < N by omega)]
  omega

theorem Window.shift {N p off n : Nat} (h : Window N p off n) (k : Nat) : Window N (p + k) (off + k) (n - k) := by
  intro i hi
  have hcell := h (k + i) (by omega)
  rwa [← Nat.add_assoc, ← Nat.add_assoc] at hcell

theorem Window.mono {N p off n m : Nat} (h : Window N p off n) (hm : m ≤ n) : Window N p off m :=
  fun i hi => h i (Nat.lt_of_lt_of_le hi hm)

def put (r : Nat → α) (off : Nat) (d : List α) : Nat → α := fun c =>
  if off ≤ c then (d[c - off]?).getD (r c) else r c

def get (r : Nat → α) (off n : Nat) : List α := (List.range n).map fun i => r (off + i)

@[simp] theorem length_get (r : Nat → α) (off n : Nat) : (get r off n).length = n := by
  rw [get, List.length_map, List.length_range]

@[simp] theorem get_zero (r : Nat → α) (off : Nat) : get r off 0 = [] := rfl

theorem put_inside {r : Nat → α} {off i : Nat} {d : List α} {b : α} (h : d[i]? = some b) :
    put r off d (off + i) = b := by
  rw [put, if_pos (Nat.le_add_right _ _), Nat.add_sub_cancel_left, h]
  rfl

theorem put_outside {r : Nat → α} {off c : Nat} {d : List α} (h : ∀ i, i < d.length → c ≠ off + i) :
    put r off d c = r c := by
  unfold put
  split
  · have hlen : d.length ≤ c - off := by
      by_contra hlt
      exact h (c - off) (by omega) (by omega)
    rw [List.getElem?_eq_none hlen]
    rfl
  · rfl

theorem get_put (r : Nat → α) (off n : Nat) (d : List α) :
    get (put r (off + n) d) off (n + d.length) = get r off n ++ d := by
  refine List.ext_getElem? fun i => ?_
  by_cases hi : i < n + d.length
  · have hcell : (get (put r (off + n) d) off (n + d.length))[i]? = some (put r (off + n) d (off + i)) := by
      simp [get, hi]
    rw [hcell]
    by_cases hn : i < n
    · rw [List.getElem?_append_left (by rwa [length_get]), put_outside (by omega)]
      simp [get, hn]
    · obtain ⟨j, rfl⟩ := Nat.exists_eq_add_of_le (show n ≤ i by omega)
      have hj : j < d.length := by omega
      rw [List.getElem?_append_right (by rw [length_get]; omega), length_get,
        Nat.add_sub_cancel_left, ← Nat.add_assoc, put_inside (List.getElem?_eq_getElem hj),
        List.getElem?_eq_getElem hj]
  · rw [List.getElem?_eq_none (by rw [length_get]; omega),
      List.getElem?_eq_none (by rw [List.length_append, length_get]; omega)]

theorem put_nil (r : Nat → α) (off : Nat) : put r off [] = r := by
  funext c
  exact put_outside fun i hi => absurd hi (Nat.not_lt_zero i)

theorem put_put (r : Nat → α) (off : Nat) (a b : List α) :
    put (put r off a) (off + a.length) b = put r off (a ++ b) := by
  funext c
  by_cases hoff : off ≤ c
  · obtain ⟨i, rfl⟩ := Nat.exists_eq_add_of_le hoff
    rw [put, put, put, if_pos hoff, if_pos hoff, Nat.add_sub_cancel_left]
    by_cases hi : a.length ≤ i
    · rw [if_pos (by omega), List.getElem?_append_right hi, List.getElem?_eq_none hi,
        show off + i - (off + a.length) = i - a.length by omega]
      rfl
    · rw [if_neg (by omega), List.getElem?_append_left (by omega)]
  · rw [put, put, put, if_neg hoff, if_neg hoff, if_neg (by omega)]

theorem get_add (r : Nat → α) (off m n : Nat) : get r off (m + n) = get r off m ++ get r (off + m) n := by
  rw [get, List.range_add, List.map_append, List.map_map]
  simp only [get, Function.comp_def, Nat.add_assoc]

theorem get_put_outside {r : Nat → α} {off lo n : Nat} {d : List α} (h : lo + n ≤ off ∨ off + d.length ≤ lo) :
    get (put r off d) lo n = get r lo n := by
  apply List.map_congr_left
  intro i hi
  have hlt := List.mem_range.mp hi
  exact put_outside (by omega)

def Holds (N : Nat) (r : Nat → α) (F : List (Option α)) (lo hi : Nat) : Prop :=
  ∀ p, lo ≤ p → p < hi → ∀ b, F[p]? = some (some b) → r (p % N) = b

theorem Holds.mono {N : Nat} {r : Nat → α} {F : List (Option α)} {lo lo' hi : Nat}
    (h : Holds N r F lo hi) (hlo : lo ≤ lo') : Holds N r F lo' hi :=
  fun p hp => h p (Nat.le_trans hlo hp)

theorem Holds.extend {N : Nat} {r : Nat → α} {F F' : List (Option α)} {lo hi : Nat}
    (h : Holds N r F lo hi) (hF : F <+: F') (hhi : hi ≤ F.length) : Holds N r F' lo hi := by
  obtain ⟨tail, rfl⟩ := hF
  intro p hlo hp b hb
  rw [List.getElem?_append_left (by omega)] at hb
  exact h p hlo hp b hb

theorem Holds.read {N : Nat} {r : Nat → α} {F : List (Option α)} {lo hi p off : Nat} {d : List α}
    (h : Holds N r F lo hi) (hlo : lo ≤ p) (hhi : p + d.length ≤ hi)
    (hwin : Window N p off d.length) (hF : Stands F p d) : get r off d.length = d := by
  refine List.ext_getElem? fun i => ?_
  by_cases hi' : i < d.length
  · have hd : d[i]? = some d[i] := List.getElem?_eq_getElem hi'
    have hcell : r ((p + i) % N) = d[i] := h (p + i) (by omega) (by omega) _ (hF i _ hd)
    rw [hwin i hi'] at hcell
    rw [hd, ← hcell]
    simp [get, hi']
  · rw [List.getElem?_eq_none (by rw [length_get]; omega), List.getElem?_eq_none (by omega)]

theorem Holds.write {N : Nat} {r : Nat → α} {F : List (Option α)} {lo hi off k : Nat} {d : List α}
    (h : Holds N r F lo hi) (hF : Stands F hi d) (hwin : Window N hi off d.length)
    (hroom : hi + d.length ≤ lo + N)
    (hpad : ∀ i b, d.length ≤ i → i < k → F[hi + i]? ≠ some (some b)) :
    Holds N (put r off d) F lo (hi + k) := by
  intro p hlo hp b hb
  by_cases hold : p < hi
  · -- an older position: its cell is none of those overwritten
    rw [put_outside]
    · exact h p hlo hold b hb
    · intro i hi' heq
      rw [← hwin i hi'] at heq
      have hmod : p ≡ hi + i [MOD N] := heq
      have hdvd : N ∣ hi + i - p := (Nat.modEq_iff_dvd' (by omega)).mp hmod
      have hle : N ≤ hi + i - p := Nat.le_of_dvd (by omega) hdvd
      omega
  · obtain ⟨i, rfl⟩ := Nat.exists_eq_add_of_le (show hi ≤ p by omega)
    by_cases hin : i < d.length
    · have hd : d[i]? = some d[i] := List.getElem?_eq_getElem hin
      have hFi := hF i _ hd
      rw [hb] at hFi
      obtain rfl : b = d[i] := by simpa using hFi
      rw [hwin i hin]
      exact put_inside hd
    · exact absurd hb (hpad i b (by omega) (by omega))

theorem Holds.read_segment {N a : Nat} {r : Nat → α} {F : List (Option α)} {lo hi p k n off : Nat}
    {d : List α} (h : Holds N r F lo hi) (seg : Segment a F p d) (hlo : lo ≤ p + k)
    (hhi : p + k + n ≤ hi) (hn : k + n ≤ d.length) (hwin : Window N (p + k) off n) :
    get r off n = (d.drop k).take n := by
  have hlen : ((d.drop k).take n).length = n := by
    rw [List.length_take, List.length_drop]
    omega
  have hread : get r off ((d.drop k).take n).length = (d.drop k).take n :=
    h.read hlo (by omega) (by rwa [hlen]) ((seg.stands.drop k).take n)
  rwa [hlen] at hread

theorem Holds.write_segment {N a : Nat} {r : Nat → α} {F : List (Option α)} {lo p k n off : Nat}
    {d : List α} (ha : 0 < a) (h : Holds N r F lo (p + k)) (seg : Segment a F p d) (hk : a ∣ k)
    (hn : k + n ≤ d.length) (hend : a ∣ n ∨ k + n = d.length) (hwin : Window N (p + k) off n)
    (hroom : p + k + n ≤ lo + N) :
    Holds N (put r off ((d.drop k).take n)) F lo (p + k + alignUp a n) := by
  have hlen : ((d.drop k).take n).length = n := by
    rw [List.length_take, List.length_drop]
    omega
  refine h.write ((seg.stands.drop k).take n) (by rwa [hlen]) (by omega) ?_
  intro i b hi hlt
  rw [hlen] at hi
  rcases hend with hdvd | hend
  · rw [alignUp_eq_self ha hdvd] at hlt
    omega
  · have halign : alignUp a d.length = k + alignUp a n := by rw [← hend, alignUp_add ha hk]
    have hpad := seg.pad (k + i) (by omega) (by omega)
    rw [← Nat.add_assoc] at hpad
    simp [hpad]

end CdcKafka.Lib
