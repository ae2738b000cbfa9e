import Mathlib.Data.List.Basic
import Mathlib.Data.List.Nodup

/-! Lists that hold exactly the members of a predicate, in increasing order of a key. -/

namespace CdcKafka.Lib

variable {α : Type}

structure Registry (P : α → Prop) (key : α → Nat) (l : List α) : Prop where
  mem_iff : ∀ x, x ∈ l ↔ P x
  sorted : l.Pairwise fun a b => key a < key b

namespace Registry

variable {P P' : α → Prop} {key key' : α → Nat} {l : List α}

theorem nodup (h : Registry P key l) : l.Nodup := by
  apply h.sorted.imp
  intro a b hab heq
  rw [heq] at hab
  exact Nat.lt_irrefl _ hab

theorem congr (h : Registry P key l) (hP : ∀ x, P' x ↔ P x) (hkey : ∀ x, P x → key' x = key x) :
    Registry P' key' l where
  mem_iff x := (h.mem_iff x).trans (hP x).symm
  sorted := by
    apply h.sorted.imp_of_mem
    intro a b ha hb hab
    rw [hkey a ((h.mem_iff a).mp ha), hkey b ((h.mem_iff b).mp hb)]
    exact hab

theorem concat (h : Registry P key l) {a : α} (hP : ∀ x, P' x ↔ P x ∨ x = a)
    (hkey : ∀ x, P x → key' x = key x) (hgt : ∀ x, P x → key x < key' a) : Registry P' key' (l ++ [a]) where
  mem_iff x := by
    rw [List.mem_append, List.mem_singleton, h.mem_iff, hP]
  sorted := by
    rw [List.pairwise_append]
    refine ⟨(h.congr (fun _ => Iff.rfl) hkey).sorted, List.pairwise_singleton _ _, ?_⟩
    intro x hx b hb
    obtain rfl : b = a := by simpa using hb
    have hPx := (h.mem_iff x).mp hx
    rw [hkey x hPx]
    exact hgt x hPx

variable [DecidableEq α]

theorem erase (h : Registry P key l) {a : α} (hP : ∀ x, P' x ↔ P x ∧ x ≠ a)
    (hkey : ∀ x, P' x → key' x = key x) : Registry P' key' (l.erase a) where
  mem_iff x := by
    rw [h.nodup.mem_erase_iff, h.mem_iff, hP, and_comm]
  sorted := by
    have hsub : (l.erase a).Pairwise fun a b => key a < key b := h.sorted.sublist List.erase_sublist
    apply hsub.imp_of_mem
    intro x y hx hy hxy
    have hmem : ∀ z ∈ l.erase a, P' z := by
      intro z hz
      obtain ⟨hne, hz⟩ := h.nodup.mem_erase_iff.mp hz
      exact (hP z).mpr ⟨(h.mem_iff z).mp hz, hne⟩
    rw [hkey x (hmem x hx), hkey y (hmem y hy)]
    exact hxy

theorem replace (h : Registry P key l) (old new : α) (hold : P old) (hnew : ¬ P new)
    (hP : ∀ x, P' x ↔ (P x ∧ x ≠ old) ∨ x = new) (hkey : ∀ x, P x → x ≠ old → key' x = key x)
    (hkeyNew : key' new = key old) : Registry P' key' (l.map fun x => if x = old then new else x) where
  mem_iff x := by
    rw [List.mem_map, hP]
    constructor
    · rintro ⟨y, hy, rfl⟩
      split
      · exact Or.inr rfl
      · rename_i hne
        exact Or.inl ⟨(h.mem_iff y).mp hy, hne⟩
    · rintro (⟨hx, hne⟩ | rfl)
      · exact ⟨x, (h.mem_iff x).mpr hx, by simp [hne]⟩
      · exact ⟨old, (h.mem_iff old).mpr hold, by simp⟩
  sorted := by
    rw [List.pairwise_map]
    apply h.sorted.imp_of_mem
    intro a b ha hb hab
    -- the replaced entry keeps its key
    have hk : ∀ c ∈ l, key' (if c = old then new else c) = key c := by
      intro c hc
      split
      · rename_i heq
        rw [hkeyNew, heq]
      · rename_i hne
        exact hkey c ((h.mem_iff c).mp hc) hne
    rw [hk a ha, hk b hb]
    exact hab

end Registry

end CdcKafka.Lib
