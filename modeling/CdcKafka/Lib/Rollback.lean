import Mathlib.Data.List.Induction
import Mathlib.Data.List.TakeWhile

/-! Logs that are rolled back by cutting them off: an abort removes everything since the first change
of the aborted subtransaction. -/

namespace CdcKafka.Lib

variable {σ ρ : Type} [DecidableEq σ]

def beforeSub (l : List (σ × ρ)) (sub : σ) : List (σ × ρ) := l.takeWhile fun p => p.1 ≠ sub

def sinceSub (l : List (σ × ρ)) (sub : σ) : List (σ × ρ) := l.dropWhile fun p => p.1 ≠ sub

theorem beforeSub_append_sinceSub (l : List (σ × ρ)) (sub : σ) :
    beforeSub l sub ++ sinceSub l sub = l := List.takeWhile_append_dropWhile

theorem isPrefix_beforeSub (l : List (σ × ρ)) (sub : σ) : beforeSub l sub <+: l :=
  List.takeWhile_prefix _

theorem ne_of_mem_beforeSub {l : List (σ × ρ)} {sub : σ} {p : σ × ρ} (h : p ∈ beforeSub l sub) : p.1 ≠ sub := by
  have hp := List.mem_takeWhile_imp h
  simpa using hp

theorem beforeSub_of_not_mem {l : List (σ × ρ)} {sub : σ} (h : ∀ p ∈ l, p.1 ≠ sub) : beforeSub l sub = l :=
  List.takeWhile_eq_self_iff.mpr fun p hp => by simpa using h p hp

theorem beforeSub_append_of_mem {l : List (σ × ρ)} {sub : σ} (h : ∃ p ∈ l, p.1 = sub)
    (l' : List (σ × ρ)) : beforeSub (l ++ l') sub = beforeSub l sub := by
  obtain ⟨p, hp, hsub⟩ := h
  unfold beforeSub
  rw [List.takeWhile_append]
  split
  next hall =>
    have hself := List.takeWhile_eq_self_iff.mp (List.IsPrefix.eq_of_length (List.takeWhile_prefix _) hall)
    exact absurd hsub (by simpa using hself p hp)
  next => rfl

theorem sinceSub_subset {l l' : List (σ × ρ)} (h : l.Sublist l') (sub : σ) : sinceSub l sub ⊆ sinceSub l' sub := by
  unfold sinceSub
  induction h with
  | slnil => exact fun _ h => h
  | cons a hsub ih =>
    rw [List.dropWhile_cons]
    split
    · exact ih
    · exact fun p hp => List.mem_cons_of_mem a (hsub.subset ((List.dropWhile_sublist _).subset hp))
  | cons_cons a hsub ih =>
    rw [List.dropWhile_cons, List.dropWhile_cons]
    split
    · exact ih
    · exact (hsub.cons_cons a).subset

inductive LogEvent (σ ρ : Type)
  | change (sub : σ) (record : ρ)
  | abort (sub : σ)
deriving DecidableEq

def changesOf (evs : List (LogEvent σ ρ)) : List (σ × ρ) :=
  evs.filterMap fun
    | .change sub record => some (sub, record)
    | .abort _ => none

def abortsOf (evs : List (LogEvent σ ρ)) : List σ :=
  evs.filterMap fun
    | .change _ _ => none
    | .abort sub => some sub

def logStep (l : List (σ × ρ)) : LogEvent σ ρ → List (σ × ρ)
  | .change sub record => l ++ [(sub, record)]
  | .abort sub => beforeSub l sub

def surviving (evs : List (LogEvent σ ρ)) : List (σ × ρ) :=
  (changesOf evs).filter fun p => p.1 ∉ abortsOf evs

def WellNested (evs : List (LogEvent σ ρ)) : Prop :=
  ∀ before sub after, evs = before ++ .abort sub :: after →
    (∀ p ∈ sinceSub (changesOf before) sub, p.1 ∈ abortsOf evs) ∧ ∀ p ∈ changesOf after, p.1 ≠ sub

omit [DecidableEq σ] in
theorem changesOf_append (evs evs' : List (LogEvent σ ρ)) :
    changesOf (evs ++ evs') = changesOf evs ++ changesOf evs' := List.filterMap_append

omit [DecidableEq σ] in
theorem abortsOf_append (evs evs' : List (LogEvent σ ρ)) :
    abortsOf (evs ++ evs') = abortsOf evs ++ abortsOf evs' := List.filterMap_append

omit [DecidableEq σ] in
theorem mem_abortsOf {evs : List (LogEvent σ ρ)} {sub : σ} : sub ∈ abortsOf evs ↔ LogEvent.abort sub ∈ evs := by
  unfold abortsOf
  rw [List.mem_filterMap]
  constructor
  · rintro ⟨e, he, h⟩
    cases e with
    | change s r => cases h
    | abort s =>
      obtain rfl := Option.some.inj h
      exact he
  · exact fun h => ⟨_, h, rfl⟩

def nestedAt (evs : List (LogEvent σ ρ)) (i : Nat) : Bool :=
  match evs[i]? with
  | some (.abort sub) =>
    (sinceSub (changesOf (evs.take i)) sub).all (fun p => p.1 ∈ abortsOf evs) &&
      (changesOf (evs.drop (i + 1))).all fun p => p.1 ≠ sub
  | _ => true

theorem wellNested_iff {evs : List (LogEvent σ ρ)} : WellNested evs ↔ ∀ i < evs.length, nestedAt evs i = true := by
  constructor
  · intro h i hi
    unfold nestedAt
    split
    next sub hget =>
      have hsplit : evs = evs.take i ++ .abort sub :: evs.drop (i + 1) := by
        obtain ⟨hlt, hi'⟩ := List.getElem?_eq_some_iff.mp hget
        conv_lhs => rw [← List.take_append_drop i evs, List.drop_eq_getElem_cons hlt, hi']
      obtain ⟨hbefore, hafter⟩ := h _ _ _ hsplit
      simp only [Bool.and_eq_true, List.all_eq_true, decide_eq_true_eq]
      exact ⟨hbefore, hafter⟩
    next => rfl
  · rintro h before sub after rfl
    have hi := h before.length (by simp)
    have hdrop : (before ++ LogEvent.abort sub :: after).drop (before.length + 1) = after := by
      simp
    unfold nestedAt at hi
    rw [List.getElem?_append_right (Nat.le_refl _), Nat.sub_self, List.getElem?_cons_zero, List.take_left, hdrop] at hi
    simp only [Bool.and_eq_true, List.all_eq_true, decide_eq_true_eq] at hi
    exact hi

instance (evs : List (LogEvent σ ρ)) : Decidable (WellNested evs) :=
  decidable_of_iff _ wellNested_iff.symm

structure CutOff (evs done : List (LogEvent σ ρ)) (l : List (σ × ρ)) : Prop where
  sublist : l.Sublist (changesOf done)
  kept : l.filter (fun p => p.1 ∉ abortsOf evs) = (changesOf done).filter fun p => p.1 ∉ abortsOf evs
  alive : ∀ p ∈ l, p.1 ∉ abortsOf done

theorem CutOff.change {evs done after : List (LogEvent σ ρ)} {l : List (σ × ρ)} {sub : σ}
    {record : ρ} (hnested : WellNested evs) (hevs : evs = done ++ .change sub record :: after)
    (h : CutOff evs done l) :
    CutOff evs (done ++ [.change sub record]) (l ++ [(sub, record)]) where
  sublist := by
    rw [changesOf_append]
    exact h.sublist.append (List.Sublist.refl _)
  kept := by
    rw [changesOf_append, List.filter_append, List.filter_append, h.kept]
    rfl
  alive := by
    have hnew : abortsOf (done ++ [LogEvent.change sub record]) = abortsOf done := by
      rw [abortsOf_append]
      exact List.append_nil _
    rw [hnew]
    intro p hp
    rcases List.mem_append.mp hp with hp | hp
    · exact h.alive p hp
    · obtain rfl := List.mem_singleton.mp hp
      intro habort
      -- an earlier abort of `sub` would forbid this change
      obtain ⟨b, a, rfl⟩ := List.append_of_mem (mem_abortsOf.mp habort)
      have hlater := (hnested b sub (a ++ .change sub record :: after) (by simp [hevs])).2
      refine hlater (sub, record) ?_ rfl
      rw [changesOf_append]
      exact List.mem_append_right _ List.mem_cons_self

theorem CutOff.abort {evs done after : List (LogEvent σ ρ)} {l : List (σ × ρ)} {sub : σ}
    (hnested : WellNested evs) (hevs : evs = done ++ .abort sub :: after)
    (h : CutOff evs done l) : CutOff evs (done ++ [.abort sub]) (beforeSub l sub) := by
  have hchanges : changesOf (done ++ [LogEvent.abort sub]) = changesOf done := by
    rw [changesOf_append]
    exact List.append_nil _
  have hcut : (sinceSub l sub).filter (fun p => p.1 ∉ abortsOf evs) = [] := by
    refine List.filter_eq_nil_iff.mpr fun p hp => ?_
    have haborted := (hnested done sub after hevs).1 p (sinceSub_subset h.sublist sub hp)
    simpa using haborted
  refine ⟨?_, ?_, ?_⟩
  · rw [hchanges]
    exact (isPrefix_beforeSub l sub).sublist.trans h.sublist
  · rw [hchanges, ← h.kept]
    conv_rhs => rw [← beforeSub_append_sinceSub l sub]
    rw [List.filter_append, hcut, List.append_nil]
  · intro p hp
    rw [abortsOf_append]
    intro hmem
    rcases List.mem_append.mp hmem with hmem | hmem
    · exact h.alive p ((isPrefix_beforeSub l sub).subset hp) hmem
    · exact ne_of_mem_beforeSub hp (List.mem_singleton.mp hmem)

theorem foldl_logStep_eq_surviving {evs : List (LogEvent σ ρ)} (hnested : WellNested evs) :
    evs.foldl logStep [] = surviving evs := by
  have hcut : ∀ done after, evs = done ++ after → CutOff evs done (done.foldl logStep []) := by
    intro done
    induction done using List.reverseRecOn with
    | nil => exact fun _ _ => ⟨List.Sublist.refl _, rfl, fun _ h => nomatch h⟩
    | append_singleton done e ih =>
      intro after hevs
      have hevs' : evs = done ++ e :: after := by simpa using hevs
      have hdone := ih _ hevs'
      rw [List.foldl_append]
      cases e with
      | change sub record => exact hdone.change hnested hevs'
      | abort sub => exact hdone.abort hnested hevs'
  have hall := hcut evs [] (List.append_nil evs).symm
  have hself : (evs.foldl logStep []).filter (fun p => p.1 ∉ abortsOf evs) = evs.foldl logStep [] :=
    List.filter_eq_self.mpr fun p hp => by simpa using hall.alive p hp
  rw [← hself, hall.kept]
  rfl

def LogEvent.kept (keep : ρ → Bool) : LogEvent σ ρ → Bool
  | .change _ record => keep record
  | .abort _ => true

omit [DecidableEq σ] in
theorem abortsOf_filter_kept (keep : ρ → Bool) (evs : List (LogEvent σ ρ)) :
    abortsOf (evs.filter (LogEvent.kept keep)) = abortsOf evs := by
  induction evs with
  | nil => rfl
  | cons e evs ih =>
    cases e with
    | abort sub => exact congrArg (sub :: ·) ih
    | change sub record =>
      rw [List.filter_cons]
      split <;> exact ih

omit [DecidableEq σ] in
theorem changesOf_filter_kept (keep : ρ → Bool) (evs : List (LogEvent σ ρ)) :
    changesOf (evs.filter (LogEvent.kept keep)) = (changesOf evs).filter fun p => keep p.2 := by
  induction evs with
  | nil => rfl
  | cons e evs ih =>
    cases e with
    | abort sub => exact ih
    | change sub record =>
      have hchanges : changesOf (LogEvent.change sub record :: evs) = (sub, record) :: changesOf evs := rfl
      rw [List.filter_cons, hchanges, List.filter_cons]
      show changesOf (if keep record then _ else _) = if keep record then _ else _
      split
      · exact congrArg ((sub, record) :: ·) ih
      · exact ih

theorem surviving_filter_kept (keep : ρ → Bool) (evs : List (LogEvent σ ρ)) :
    surviving (evs.filter (LogEvent.kept keep)) = (surviving evs).filter fun p => keep p.2 := by
  unfold surviving
  rw [abortsOf_filter_kept, changesOf_filter_kept, List.filter_filter, List.filter_filter]
  refine List.filter_congr fun p _ => ?_
  rw [Bool.and_comm]

theorem WellNested.filter_kept {evs : List (LogEvent σ ρ)} (h : WellNested evs)
    (keep : ρ → Bool) : WellNested (evs.filter (LogEvent.kept keep)) := by
  intro before sub after hevs
  obtain ⟨before', rest, rfl, hbefore, hrest⟩ := List.filter_eq_append_iff.mp hevs
  obtain ⟨skipped, after', hrest', hskipped, -, hafter⟩ := List.filter_eq_cons_iff.mp hrest
  subst hrest'
  obtain ⟨hsince, hlater⟩ := h (before' ++ skipped) sub after' (by simp)
  constructor
  · intro p hp
    rw [abortsOf_filter_kept]
    refine hsince p ?_
    have hsub : (changesOf before).Sublist (changesOf (before' ++ skipped)) := by
      rw [← hbefore, changesOf_filter_kept, changesOf_append]
      exact List.filter_sublist.trans (List.sublist_append_left _ _)
    exact sinceSub_subset hsub sub hp
  · intro p hp
    rw [← hafter, changesOf_filter_kept] at hp
    exact hlater p (List.mem_filter.mp hp).1

end CdcKafka.Lib
