import Mathlib.Data.List.GetD
import Mathlib.Tactic.Ring

/-! Writing into a flat array at any offset, the gap before the offset filled with a default
entry, and flat arrays that are cut into segments of one length. -/

namespace CdcKafka.Lib

variable {α : Type} (z : α)

/-- Writes `bs` over `data` from `off` on. Writing nothing leaves even a short array alone. -/
def pwrite (data : List α) (off : Nat) (bs : List α) : List α :=
  if bs.length = 0 then data
  else data.take off ++ List.replicate (off - data.length) z ++ bs ++ data.drop (off + bs.length)

@[simp] theorem pwrite_nil (data : List α) (off : Nat) : pwrite z data off [] = data := rfl

theorem length_pwrite (data : List α) (off : Nat) {bs : List α} (hbs : bs ≠ []) :
    (pwrite z data off bs).length = max data.length (off + bs.length) := by
  have hpos : 0 < bs.length := List.length_pos_iff.mpr hbs
  simp only [pwrite, hpos.ne', if_false, List.length_append, List.length_take, List.length_replicate, List.length_drop]
  omega

theorem getElem?_pwrite (data : List α) (off : Nat) {bs : List α} (hbs : bs ≠ []) (i : Nat) :
    (pwrite z data off bs)[i]? = if i < off then (if i < data.length then data[i]? else some z)
      else if i < off + bs.length then bs[i - off]? else data[i]? := by
  have hpos : 0 < bs.length := List.length_pos_iff.mpr hbs
  simp only [pwrite, hpos.ne', if_false]
  by_cases hi : i < off
  · rw [if_pos hi, List.getElem?_append_left (by simp; omega), List.getElem?_append_left (by simp; omega)]
    by_cases hlen : i < data.length
    · rw [if_pos hlen, List.getElem?_append_left (by simp; omega), List.getElem?_take_of_lt hi]
    · rw [if_neg hlen, List.getElem?_append_right (by simp; omega), List.getElem?_replicate]
      rw [if_pos (by simp; omega)]
  · rw [if_neg hi]
    have hfront : (data.take off ++ List.replicate (off - data.length) z).length = off := by
      simp; omega
    by_cases hin : i < off + bs.length
    · rw [if_pos hin, List.getElem?_append_left (by rw [List.length_append, hfront]; omega),
        List.getElem?_append_right (by omega), hfront]
    · rw [if_neg hin, List.getElem?_append_right (by rw [List.length_append, hfront]; omega),
        List.length_append, hfront, List.getElem?_drop]
      congr 1
      omega

theorem pwrite_append (data : List α) (off : Nat) (a b : List α) :
    pwrite z data off (a ++ b) = pwrite z (pwrite z data off a) (off + a.length) b := by
  by_cases ha : a = []
  · simp [ha]
  by_cases hb : b = []
  · simp [hb]
  have hab : a ++ b ≠ [] := by simp [ha]
  apply List.ext_getElem?
  intro i
  rw [getElem?_pwrite z _ _ hab, getElem?_pwrite z _ _ hb, getElem?_pwrite z _ _ ha,
    length_pwrite z _ _ ha, List.getElem?_append, List.length_append]
  grind

theorem pwrite_take_drop (data : List α) (off : Nat) {bs : List α} {n : Nat} (hn : n ≤ bs.length) :
    pwrite z (pwrite z data off (bs.take n)) (off + n) (bs.drop n) = pwrite z data off bs := by
  have hlen : (bs.take n).length = n := List.length_take_of_le hn
  have happ := pwrite_append z data off (bs.take n) (bs.drop n)
  rw [List.take_append_drop, hlen] at happ
  exact happ.symm

theorem pwrite_pwrite (data : List α) (off : Nat) {buf : List α} {pos : Nat} (hpos : pos ≤ buf.length) (bs : List α) :
    pwrite z data off (pwrite z buf pos bs) = pwrite z (pwrite z data off buf) (off + pos) bs := by
  by_cases hbs : bs = []
  · simp [hbs]
  have hne : pwrite z buf pos bs ≠ [] := by
    apply List.ne_nil_of_length_pos
    rw [length_pwrite z _ _ hbs]
    have := List.length_pos_iff.mpr hbs
    omega
  by_cases hbuf : buf = []
  · subst hbuf
    obtain rfl : pos = 0 := by simpa using hpos
    simp [pwrite, hbs]
  apply List.ext_getElem?
  intro i
  rw [getElem?_pwrite z _ _ hne, getElem?_pwrite z _ _ hbs, getElem?_pwrite z _ _ hbs,
    getElem?_pwrite z _ _ hbuf, length_pwrite z _ _ hbs, length_pwrite z _ _ hbuf]
  grind

theorem pwrite_append_left {a : List α} {off : Nat} {bs : List α} (h : off + bs.length ≤ a.length)
    (b : List α) : pwrite z (a ++ b) off bs = pwrite z a off bs ++ b := by
  by_cases hbs : bs = []
  · simp [hbs]
  apply List.ext_getElem?
  intro i
  rw [getElem?_pwrite z _ _ hbs, List.getElem?_append, List.getElem?_append, getElem?_pwrite z _ _ hbs,
    length_pwrite z _ _ hbs, List.length_append]
  grind

theorem pwrite_append_right (a b : List α) (off : Nat) (bs : List α) :
    pwrite z (a ++ b) (a.length + off) bs = a ++ pwrite z b off bs := by
  by_cases hbs : bs = []
  · simp [hbs]
  apply List.ext_getElem?
  intro i
  rw [getElem?_pwrite z _ _ hbs, List.getElem?_append, List.getElem?_append, getElem?_pwrite z _ _ hbs,
    List.length_append]
  grind

theorem pwrite_of_prefix {data : List α} {off : Nat} {bs : List α} (h : bs <+: data.drop off) :
    pwrite z data off bs = data := by
  by_cases hbs : bs = []
  · simp [hbs]
  have hlen : bs.length ≤ data.length - off := by simpa using h.length_le
  have hpos : 0 < bs.length := List.length_pos_iff.mpr hbs
  apply List.ext_getElem?
  intro i
  rw [getElem?_pwrite z _ _ hbs]
  obtain ⟨rest, hrest⟩ := h
  have hin : ∀ j < bs.length, bs[j]? = data[off + j]? := by
    intro j hj
    rw [← List.getElem?_drop, ← hrest, List.getElem?_append_left hj]
  by_cases hi : i < off
  · rw [if_pos hi, if_pos (by omega)]
  · rw [if_neg hi]
    by_cases hlt : i < off + bs.length
    · rw [if_pos hlt, hin _ (by omega)]
      congr 1
      omega
    · rw [if_neg hlt]

theorem pwrite_end (data bs : List α) : pwrite z data data.length bs = data ++ bs := by
  by_cases hbs : bs = []
  · simp [hbs]
  · simp [pwrite, hbs]

variable {M : Nat} {segs : List (List α)} {k : Nat}

def Filled (M : Nat) (segs : List (List α)) : Prop := ∀ s ∈ segs.dropLast, s.length = M

theorem flatten_split (segs : List (List α)) (k : Nat) :
    segs.flatten = (segs.take k).flatten ++ (segs.getD k [] ++ (segs.drop (k + 1)).flatten) := by
  by_cases hk : k < segs.length
  · rw [← List.flatten_cons, List.getD_eq_getElem _ _ hk, ← List.drop_eq_getElem_cons hk, ← List.flatten_append,
      List.take_append_drop]
  · rw [List.getD_eq_default _ _ (by omega), List.take_of_length_le (by omega), List.drop_eq_nil_of_le (by omega)]
    simp

theorem Filled.length_getD (h : Filled M segs) (hk : k + 1 < segs.length) : (segs.getD k []).length = M := by
  apply h
  rw [List.getD_eq_getElem _ _ (by omega), List.mem_iff_getElem]
  exact ⟨k, by simp; omega, by simp⟩

theorem Filled.length_take (h : Filled M segs) (hk : k < segs.length) : (segs.take k).flatten.length = k * M := by
  induction k with
  | zero => simp
  | succ k ih =>
    have hlen := h.length_getD hk
    rw [List.getD_eq_getElem _ _ (by omega)] at hlen
    rw [List.take_succ_eq_append_getElem (by omega), List.flatten_append, List.length_append, ih (by omega)]
    simp [hlen]
    ring

theorem Filled.drop_flatten (h : Filled M segs) (hk : k < segs.length) (o : Nat) : segs.flatten.drop (k * M + o) =
      (segs.getD k []).drop o ++ (segs.drop (k + 1)).flatten.drop (o - (segs.getD k []).length) := by
  rw [flatten_split segs k, ← h.length_take hk, List.drop_length_add_append, List.drop_append]

theorem Filled.length_flatten (h : Filled M segs) (hne : segs ≠ []) :
    segs.flatten.length = (segs.length - 1) * M + (segs.getD (segs.length - 1) []).length := by
  have hpos : 0 < segs.length := List.length_pos_iff.mpr hne
  rw [flatten_split segs (segs.length - 1), List.length_append, h.length_take (by omega),
    List.drop_eq_nil_of_le (by omega)]
  simp

theorem Filled.set (h : Filled M segs) {s : List α} (hs : k + 1 < segs.length → s.length = M) :
    Filled M (segs.set k s) := by
  intro t ht
  rw [List.dropLast_eq_take, List.length_set, List.mem_take_iff_getElem] at ht
  obtain ⟨i, hi, rfl⟩ := ht
  rw [List.length_set] at hi
  rw [List.getElem_set]
  split
  · exact hs (by omega)
  · have := h.length_getD (k := i) (by omega)
    rwa [List.getD_eq_getElem _ _ (by omega)] at this

theorem Filled.concat (h : Filled M segs) (hlast : (segs.getD (segs.length - 1) []).length = M) (s : List α) :
    Filled M (segs ++ [s]) := by
  intro t ht
  rw [List.dropLast_concat] at ht
  obtain ⟨i, hi, rfl⟩ := List.mem_iff_getElem.mp ht
  by_cases hlt : i + 1 < segs.length
  · have := h.length_getD hlt
    rwa [List.getD_eq_getElem _ _ hi] at this
  · obtain rfl : i = segs.length - 1 := by omega
    rwa [List.getD_eq_getElem _ _ hi] at hlast

theorem Filled.flatten_pwrite (h : Filled M segs) (hk : k < segs.length) {o : Nat} {bs : List α}
    (hfit : k + 1 < segs.length → o + bs.length ≤ M) :
    (segs.set k (pwrite z (segs.getD k []) o bs)).flatten = pwrite z segs.flatten (k * M + o) bs := by
  rw [flatten_split segs k, flatten_split (segs.set k _) k, ← h.length_take hk, pwrite_append_right]
  rw [List.take_set_of_le (le_refl k), List.drop_set_of_lt (Nat.lt_succ_self k)]
  congr 1
  rw [List.getD_eq_getElem _ _ (by simpa using hk), List.getElem_set_self]
  by_cases hlast : k + 1 < segs.length
  · rw [pwrite_append_left]
    rw [h.length_getD hlast]
    exact hfit hlast
  · rw [List.drop_eq_nil_of_le (by omega)]
    simp

end CdcKafka.Lib
