import Mathlib.Algebra.Ring.Nat
import Mathlib.Data.List.Basic
import Mathlib.Data.List.Nodup
import Mathlib.Logic.Function.Basic
import Mathlib.Order.Lattice

/-! Merging any number of sorted sequences: what is left of each, and a least head taken at every step. -/

namespace CdcKafka.Lib

variable {ι α κ : Type} [DecidableEq ι]

section Merge

variable [LinearOrder κ] (key : α → κ)

inductive Merged : (ι → List α) → List α → Prop
  | done {rest : ι → List α} (h : ∀ i, rest i = []) : Merged rest []
  | step {rest : ι → List α} {i : ι} {a : α} {l out : List α} (hi : rest i = a :: l)
      (hleast : ∀ j b, (rest j).head? = some b → key a ≤ key b)
      (htail : Merged (Function.update rest i l) out) : Merged rest (a :: out)

variable {key} {rest : ι → List α} {out : List α}

theorem Merged.mem_rest (h : Merged key rest out) : ∀ a ∈ out, ∃ i, a ∈ rest i := by
  induction h with
  | done => simp
  | @step rest i a l out hi hleast htail ih =>
    intro b hb
    rcases List.mem_cons.mp hb with rfl | hb
    · exact ⟨i, by simp [hi]⟩
    · obtain ⟨j, hj⟩ := ih b hb
      by_cases hji : j = i
      · subst hji
        rw [Function.update_self] at hj
        exact ⟨j, by simp [hi, hj]⟩
      · rw [Function.update_of_ne hji] at hj
        exact ⟨j, hj⟩

omit [DecidableEq ι] in
theorem least_of_sorted {a : α} (hsorted : ∀ i, (rest i).Pairwise fun a b => key a ≤ key b)
    (hleast : ∀ j b, (rest j).head? = some b → key a ≤ key b) :
    ∀ j, ∀ b ∈ rest j, key a ≤ key b := by
  intro j b hb
  cases hj : rest j with
  | nil => simp [hj] at hb
  | cons c l =>
    have hac := hleast j c (by simp [hj])
    rw [hj] at hb
    rcases List.mem_cons.mp hb with rfl | hb
    · exact hac
    · have hcl := hsorted j
      rw [hj] at hcl
      exact hac.trans ((List.pairwise_cons.mp hcl).1 b hb)

theorem sorted_update {i : ι} {a : α} {l : List α} (hi : rest i = a :: l)
    (hsorted : ∀ j, (rest j).Pairwise fun a b => key a ≤ key b) :
    ∀ j, (Function.update rest i l j).Pairwise fun a b => key a ≤ key b := by
  intro j
  by_cases hji : j = i
  · subst hji
    rw [Function.update_self]
    have hj := hsorted j
    rw [hi] at hj
    exact (List.pairwise_cons.mp hj).2
  · rw [Function.update_of_ne hji]
    exact hsorted j

theorem Merged.sorted (h : Merged key rest out) (hsorted : ∀ i, (rest i).Pairwise fun a b => key a ≤ key b) :
    out.Pairwise fun a b => key a ≤ key b := by
  induction h with
  | done => exact .nil
  | @step rest i a l out hi hleast htail ih =>
    refine List.pairwise_cons.mpr ⟨fun b hb => ?_, ih (sorted_update hi hsorted)⟩
    -- everything still to come is in one of the sequences
    obtain ⟨j, hj⟩ := (Merged.step hi hleast htail).mem_rest b (by simp [hb])
    exact least_of_sorted hsorted hleast j b hj

theorem Merged.filter_eq (h : Merged key rest out) {source : α → ι}
    (hsource : ∀ i, ∀ a ∈ rest i, source a = i) (i : ι) :
    (out.filter fun a => source a = i) = rest i := by
  induction h with
  | done h => simp [h]
  | @step rest j a l out hj hleast htail ih =>
    have ha : source a = j := hsource j a (by simp [hj])
    have hsource' : ∀ i, ∀ b ∈ Function.update rest j l i, source b = i := by
      intro k b hb
      by_cases hkj : k = j
      · subst hkj
        rw [Function.update_self] at hb
        exact hsource k b (by simp [hj, hb])
      · rw [Function.update_of_ne hkj] at hb
        exact hsource k b hb
    have htail := ih hsource'
    by_cases hij : i = j
    · subst hij
      rw [Function.update_self] at htail
      simp [ha, htail, hj]
    · rw [Function.update_of_ne hij] at htail
      have hne : j ≠ i := fun heq => hij heq.symm
      simp [ha, hne, htail]

theorem sum_length_update {xs : List ι} {i : ι} {a : α} {l : List α} (hnodup : xs.Nodup)
    (hmem : i ∈ xs) (hi : rest i = a :: l) :
    (xs.map fun j => (Function.update rest i l j).length).sum + 1 = (xs.map fun j => (rest j).length).sum := by
  induction xs with
  | nil => simp at hmem
  | cons x xs ih =>
    obtain ⟨hx, hxs⟩ := List.nodup_cons.mp hnodup
    by_cases hxi : x = i
    · subst hxi
      have hsame : (xs.map fun j => (Function.update rest x l j).length) = xs.map fun j => (rest j).length := by
        apply List.map_congr_left
        intro j hj
        have hjx : j ≠ x := fun heq => hx (heq ▸ hj)
        rw [Function.update_of_ne hjx]
      simp [hsame, hi]
      omega
    · have hmem' : i ∈ xs := by
        rcases List.mem_cons.mp hmem with heq | hmem'
        · exact (hxi heq.symm).elim
        · exact hmem'
      have hrest := ih hxs hmem'
      simp only [List.map_cons, List.sum_cons, Function.update_of_ne hxi]
      omega

end Merge

section Same

variable [PartialOrder κ] (key : α → κ) (cls : α → ι)

theorem eq_of_filter_eq {l l' : List α} (hl : l.Pairwise fun a b => key a ≤ key b)
    (hl' : l'.Pairwise fun a b => key a ≤ key b)
    (hcls : ∀ i, (l.filter fun a => cls a = i) = l'.filter fun a => cls a = i)
    (hkey : ∀ a ∈ l, ∀ b ∈ l, key a = key b → cls a = cls b) : l = l' := by
  have hmem : ∀ {m m' : List α}, (∀ i, (m.filter fun a => cls a = i) =
      m'.filter fun a => cls a = i) → ∀ a ∈ m, a ∈ m' := by
    intro m m' h a ha
    have ha' : a ∈ m.filter fun b => cls b = cls a := by simpa using ha
    rw [h] at ha'
    exact (List.mem_filter.mp ha').1
  induction l generalizing l' with
  | nil =>
    cases l' with
    | nil => rfl
    | cons b l' =>
      have hb := hmem (fun i => (hcls i).symm) b (by simp)
      simp at hb
  | cons a l ih =>
    cases l' with
    | nil =>
      have ha := hmem hcls a (by simp)
      simp at ha
    | cons b l' =>
      obtain ⟨ha, htl⟩ := List.pairwise_cons.mp hl
      obtain ⟨hb, htl'⟩ := List.pairwise_cons.mp hl'
      have hbl := hmem (fun i => (hcls i).symm) b (by simp)
      have hal' := hmem hcls a (by simp)
      -- each of the two heads is least, and so they are of one class
      have hab : key a ≤ key b := by
        rcases List.mem_cons.mp hbl with rfl | hbl
        · exact le_refl _
        · exact ha b hbl
      have hba : key b ≤ key a := by
        rcases List.mem_cons.mp hal' with rfl | hal'
        · exact le_refl _
        · exact hb a hal'
      have hsame : cls a = cls b := hkey a (by simp) b hbl (le_antisymm hab hba)
      have hhead := hcls (cls b)
      simp only [List.filter_cons, hsame, decide_true, if_true, List.cons.injEq] at hhead
      obtain ⟨rfl, -⟩ := hhead
      rw [ih htl htl' (fun i => ?_) fun c hc d hd => hkey c (by simp [hc]) d (by simp [hd])]
      have htail := hcls i
      by_cases hi : cls a = i
      · simpa [hi] using htail
      · simpa [hi] using htail

end Same

section Classes

variable {cls : α → Nat} {l : List α}

theorem filter_lt_succ (h : l.Pairwise fun a b => cls a ≤ cls b) (n : Nat) : (l.filter fun a => cls a < n + 1) =
      (l.filter fun a => cls a < n) ++ l.filter fun a => cls a = n := by
  induction l with
  | nil => rfl
  | cons a l ih =>
    obtain ⟨hle, hl⟩ := List.pairwise_cons.mp h
    by_cases hlt : cls a < n
    · have hne : cls a ≠ n := by omega
      have hlt' : cls a < n + 1 := by omega
      rw [List.filter_cons_of_pos (by simpa using hlt'), List.filter_cons_of_pos (by simpa using hlt),
        List.filter_cons_of_neg (by simpa using hne), ih hl, List.cons_append]
    · -- nothing after `a` is below `n`
      have hnone : (l.filter fun b => cls b < n) = [] := by
        apply List.filter_eq_nil_iff.mpr
        intro b hb
        have := hle b hb
        simp
        omega
      have ih := ih hl
      rw [hnone, List.nil_append] at ih
      by_cases heq : cls a = n
      · have hlt' : cls a < n + 1 := by omega
        rw [List.filter_cons_of_pos (by simpa using hlt'), List.filter_cons_of_neg (by simpa using hlt),
          List.filter_cons_of_pos (by simpa using heq), hnone, ih, List.nil_append]
      · have hlt' : ¬ cls a < n + 1 := by omega
        rw [List.filter_cons_of_neg (by simpa using hlt'), List.filter_cons_of_neg (by simpa using hlt),
          List.filter_cons_of_neg (by simpa using heq), hnone, ih, List.nil_append]

theorem flatMap_filter_range (h : l.Pairwise fun a b => cls a ≤ cls b) (n : Nat) :
    ((List.range n).flatMap fun c => l.filter fun a => cls a = c) = l.filter fun a => cls a < n := by
  induction n with
  | zero => simp
  | succ n ih =>
    rw [List.range_succ, List.flatMap_append, ih, filter_lt_succ h]
    simp

end Classes

end CdcKafka.Lib
