import Mathlib.Data.List.Nodup

/-! Lists as numbered tables that grow at the end and are changed in place. -/

namespace CdcKafka.Table

variable {α β : Type} {P Q : Nat → α → Prop} {l : List α} {i : Nat} {a b : α}

def Entries (P : Nat → α → Prop) (l : List α) : Prop := ∀ i a, l[i]? = some a → P i a

theorem entries_nil : Entries P ([] : List α) := fun i _ h => by
  rw [List.getElem?_nil] at h
  cases h

theorem Entries.mono (h : Entries P l) (hPQ : ∀ i a, l[i]? = some a → P i a → Q i a) : Entries Q l :=
  fun i a ha => hPQ i a ha (h i a ha)

theorem getElem?_set_of_some (h : l[i]? = some b) (j : Nat) : (l.set i a)[j]? = if i = j then some a else l[j]? := by
  obtain ⟨hlt, -⟩ := List.getElem?_eq_some_iff.mp h
  rw [List.getElem?_set]
  exact ite_congr rfl (fun _ => if_pos hlt) fun _ => rfl

theorem getElem?_set_same (h : l[i]? = some b) : (l.set i a)[i]? = some a := by
  rw [getElem?_set_of_some h, if_pos rfl]

theorem getElem?_set_other {j : Nat} (h : l[i]? = some b) (hne : i ≠ j) : (l.set i a)[j]? = l[j]? := by
  rw [getElem?_set_of_some h, if_neg hne]

theorem Entries.set (h : Entries P l) (hb : l[i]? = some b) (ha : P i a) : Entries P (l.set i a) := by
  intro j c hc
  rw [getElem?_set_of_some hb] at hc
  split at hc
  · next heq =>
    obtain rfl := heq
    obtain rfl := Option.some.inj hc
    exact ha
  · exact h j c hc

theorem getElem?_append_of_some (h : l[i]? = some b) (a : α) : (l ++ [a])[i]? = some b := by
  obtain ⟨hlt, -⟩ := List.getElem?_eq_some_iff.mp h
  rw [List.getElem?_append_left hlt, h]

theorem Entries.append (h : Entries P l) (ha : P l.length a) : Entries P (l ++ [a]) := by
  intro j c hc
  obtain hlt | hge := Nat.lt_or_ge j l.length
  · rw [List.getElem?_append_left hlt] at hc
    exact h j c hc
  · rw [List.getElem?_append_right hge] at hc
    obtain ⟨hj, rfl⟩ := List.getElem?_eq_some_iff.mp hc
    obtain rfl : j = l.length := by
      rw [List.length_singleton] at hj
      omega
    simpa using ha

theorem map_set_of_key {key : α → β} (hb : l[i]? = some b) (hkey : key a = key b) :
    (l.set i a).map key = l.map key := by
  rw [List.map_set, hkey]
  refine List.ext_getElem? fun j => ?_
  have hmap : (l.map key)[i]? = some (key b) := by rw [List.getElem?_map, hb, Option.map_some]
  rw [getElem?_set_of_some hmap]
  split
  · next heq => rw [← heq, hmap]
  · rfl

theorem eq_of_key {key : α → β} {j : Nat} (hnodup : (l.map key).Nodup) (ha : l[i]? = some a) (hb : l[j]? = some b)
    (hkey : key a = key b) : i = j := by
  obtain ⟨hlt, -⟩ := List.getElem?_eq_some_iff.mp ha
  refine (List.getElem?_inj (by rwa [List.length_map]) hnodup).mp ?_
  rw [List.getElem?_map, List.getElem?_map, ha, hb, Option.map_some, Option.map_some, hkey]

theorem nodup_map_append {key : α → β} (hnodup : (l.map key).Nodup) (hnew : Entries (fun _ b => key b ≠ key a) l) :
    ((l ++ [a]).map key).Nodup := by
  rw [List.map_append, List.map_singleton, List.nodup_append]
  refine ⟨hnodup, List.nodup_singleton _, fun k hk k' hk' heq => ?_⟩
  obtain ⟨b, hmem, rfl⟩ := List.mem_map.mp hk
  obtain ⟨i, hi⟩ := List.mem_iff_getElem?.mp hmem
  rw [List.mem_singleton.mp hk'] at heq
  exact hnew i b hi heq

variable {p : α → Bool}

theorem countP_set_le (hb : l[i]? = some b) (hp : p a = true → p b = true) : (l.set i a).countP p ≤ l.countP p := by
  obtain ⟨hlt, hget⟩ := List.getElem?_eq_some_iff.mp hb
  rw [List.countP_set hlt, hget]
  have hpos : p b = true → 0 < l.countP p := fun hpb => List.countP_pos_iff.mpr ⟨b, List.mem_of_getElem? hb, hpb⟩
  by_cases hpb : p b = true
  · have hone := hpos hpb
    rw [if_pos hpb]
    split <;> omega
  · rw [if_neg hpb, if_neg fun hpa => hpb (hp hpa)]
    exact Nat.le_refl _

theorem countP_set_le_succ (hb : l[i]? = some b) : (l.set i a).countP p ≤ l.countP p + 1 := by
  obtain ⟨hlt, -⟩ := List.getElem?_eq_some_iff.mp hb
  rw [List.countP_set hlt]
  split <;> split <;> omega

end CdcKafka.Table
