import Mathlib.Data.List.Basic

/-! Texts spelled by literals and by references to what was spelled before, as the dictionary
coders write them, and the copy that resolves a reference by doubling its region. -/

namespace CdcKafka.Lib

variable {α : Type*} {text : List α} {p q off len : Nat}

inductive Item (α : Type*)
  | literal (a : α)
  /-- `len` symbols, from `off` symbols back. -/
  | back (off len : Nat)

/-- The last `off` symbols are copied until `len` are there. As long as source and destination
would overlap only the source is copied, which doubles it. -/
def copyBack (off len : Nat) (out : List α) : List α :=
  if off < len ∧ 0 < off then
    copyBack (off + off) (len - off) (out ++ (out.drop (out.length - off)).take off)
  else out ++ (out.drop (out.length - off)).take len
termination_by len

theorem length_copyBack {out : List α} (hpos : 0 < off) (hoff : off ≤ out.length) :
    (copyBack off len out).length = out.length + len := by
  induction len using Nat.strongRecOn generalizing off out with
  | ind len ih =>
    have hslice {n : Nat} (hn : n ≤ off) : ((out.drop (out.length - off)).take n).length = n := by
      rw [List.length_take, List.length_drop]
      omega
    rw [copyBack]
    by_cases hmore : off < len
    · have hlen : (out ++ (out.drop (out.length - off)).take off).length = out.length + off := by
        rw [List.length_append, hslice (Nat.le_refl off)]
      rw [if_pos ⟨hmore, hpos⟩, ih (len - off) (by omega) (by omega) (by omega), hlen]
      omega
    · rw [if_neg fun hmore' => hmore hmore'.1, List.length_append, hslice (Nat.not_lt.mp hmore)]

def Repeats (text : List α) (p off len : Nat) : Prop := ∀ k < len, text[p + k]? = text[p - off + k]?

theorem take_drop_of_repeats (h : Repeats text p off len) (hoff : off ≤ p) (hp : p ≤ text.length) {n : Nat}
    (hn : n ≤ len) (hno : n ≤ off) : ((text.take p).drop (p - off)).take n = (text.drop p).take n := by
  apply List.ext_getElem?
  intro k
  by_cases hk : k < n
  · have hkp : p - off + k < p := by omega
    rw [List.getElem?_take_of_lt hk, List.getElem?_take_of_lt hk, List.getElem?_drop, List.getElem?_drop,
      List.getElem?_take_of_lt hkp]
    exact (h k (Nat.lt_of_lt_of_le hk hn)).symm
  · rw [List.getElem?_take_eq_none (Nat.not_lt.mp hk), List.getElem?_take_eq_none (Nat.not_lt.mp hk)]

theorem take_append_take_drop (text : List α) (p n : Nat) :
    text.take p ++ (text.drop p).take n = text.take (p + n) := by
  rw [List.take_add]

theorem length_take_of_le (hp : p ≤ text.length) : (text.take p).length = p := by
  rw [List.length_take, Nat.min_eq_left hp]

theorem copyBack_take (h : Repeats text p off len) (hpos : 0 < off) (hoff : off ≤ p) (hlen : p + len ≤ text.length) :
    copyBack off len (text.take p) = text.take (p + len) := by
  induction len using Nat.strongRecOn generalizing p off with
  | ind len ih =>
    have hp : p ≤ text.length := by omega
    rw [copyBack, length_take_of_le hp]
    by_cases hmore : off < len
    · have hslice := take_drop_of_repeats h hoff hp (Nat.le_of_lt hmore) (Nat.le_refl off)
      -- what is left repeats what was just copied, and what is before that
      have hrest : Repeats text (p + off) (off + off) (len - off) := by
        intro k hk
        have hfar := h (off + k) (by omega)
        have hnear := h k (by omega)
        have hback : p + off - (off + off) + k = p - off + k := by omega
        have hmid : p - off + (off + k) = p + k := by omega
        rw [hmid] at hfar
        rw [hback, Nat.add_assoc, hfar, hnear]
      rw [if_pos ⟨hmore, hpos⟩, hslice, take_append_take_drop]
      have hstep := ih (len - off) (by omega) hrest (by omega) (by omega) (by omega)
      rw [hstep]
      congr 1
      omega
    · have hslice := take_drop_of_repeats h hoff hp (Nat.le_refl len) (Nat.not_lt.mp hmore)
      rw [if_neg fun hmore' => hmore hmore'.1, hslice, take_append_take_drop]

def Spells (text : List α) : Nat → List (Item α) → Nat → Prop
  | p, [], q => p = q
  | p, .literal a :: items, q => text[p]? = some a ∧ Spells text (p + 1) items q
  | p, .back off len :: items, q =>
    0 < off ∧ off ≤ p ∧ p + len ≤ text.length ∧ Repeats text p off len ∧ Spells text (p + len) items q

theorem Spells.append {items items' : List (Item α)} {r : Nat} (h : Spells text p items q)
    (h' : Spells text q items' r) : Spells text p (items ++ items') r := by
  induction items generalizing p with
  | nil =>
    obtain rfl : p = q := h
    exact h'
  | cons item items ih =>
    cases item with
    | literal a => exact ⟨h.1, ih h.2⟩
    | back off len => exact ⟨h.1, h.2.1, h.2.2.1, h.2.2.2.1, ih h.2.2.2.2⟩

theorem Spells.of_append {items items' : List (Item α)} {r : Nat} (h : Spells text p (items ++ items') r) :
    ∃ q, Spells text p items q ∧ Spells text q items' r := by
  induction items generalizing p with
  | nil => exact ⟨p, rfl, h⟩
  | cons item items ih =>
    cases item with
    | literal a =>
      obtain ⟨q, hitems, hitems'⟩ := ih h.2
      exact ⟨q, ⟨h.1, hitems⟩, hitems'⟩
    | back off len =>
      obtain ⟨q, hitems, hitems'⟩ := ih h.2.2.2.2
      exact ⟨q, ⟨h.1, h.2.1, h.2.2.1, h.2.2.2.1, hitems⟩, hitems'⟩

end CdcKafka.Lib
