import CdcKafka.Slot.Save

/-! When a clean slot is a saved slot. -/

namespace CdcKafka.Slot.Save

open CdcKafka.Lib

variable {α : Type} {s t : State α} {p q : Proc} {cp : PersistentData α}

/-- While the slot is clean, the file holds the data as it was when the slot was last marked dirty
or as it was later, and the positions that were last saved are those of the file. -/
def CleanIsSaved (s : State α) : Prop :=
  s.dirty = false → s.stateFile ∈ s.sinceMarked ∧ s.lastSavedConfirmedFlush = s.stateFile.confirmedFlush ∧
    s.lastSavedRestartLsn = s.stateFile.restartLsn

/-- What goes wrong is excluded: a first section of `SaveSlotToPath` that clears a mark set for a
change the other process did not copy, and a rename that finds the slot clean, since the other
process has finished in between, and brings other positions. -/
def Allowed (s : State α) : Event α → Prop
  | .check p => s.justDirtied = true → ∀ cp, (s.pc p.other).copy = some cp → cp ∈ s.sinceMarked
  | .rename p true => s.dirty = false → ∀ cp, s.pc p = .closed cp →
      s.lastSavedConfirmedFlush = cp.confirmedFlush ∧ s.lastSavedRestartLsn = cp.restartLsn
  | _ => True

def Pc.InLock : Pc α → Prop
  | .outside | .waiting => False
  | _ => True

structure Inv (s : State α) : Prop where
  exclusive : ∀ p, (s.pc p).InLock → s.ioInProgressLock = some p
  current : s.data ∈ s.sinceMarked
  copied : ∀ p cp, (s.pc p).copy = some cp → s.justDirtied = false ∨ s.dirty = false → cp ∈ s.sinceMarked
  renamed : ∀ p cp, s.pc p = .renamed cp → s.stateFile = cp
  clean : CleanIsSaved s

theorem inLock_of_copy {pc : Pc α} (h : pc.copy = some cp) : pc.InLock := by
  cases pc with
  | outside => cases h
  | waiting => cases h
  | locked => trivial
  | opened => trivial
  | copied cp => trivial
  | written cp => trivial
  | synced cp => trivial
  | closed cp => trivial
  | renamed cp => trivial

theorem Proc.eq_other (h : p ≠ q) : q = p.other := by
  cases p <;> cases q <;> first | rfl | exact absurd rfl h

namespace Inv

theorem eq_of_inLock (h : Inv s) (hp : (s.pc p).InLock) (hq : (s.pc q).InLock) : p = q :=
  Option.some.inj ((h.exclusive p hp).symm.trans (h.exclusive q hq))

theorem goTo (h : Inv s) {pc : Pc α} (hlock : pc.InLock → s.ioInProgressLock = some p)
    (hcopy : ∀ cp, pc.copy = some cp → s.justDirtied = false ∨ s.dirty = false → cp ∈ s.sinceMarked)
    (hrenamed : ∀ cp, pc = .renamed cp → s.stateFile = cp) : Inv (s.goTo p pc) where
  exclusive q hq := by
    by_cases heq : q = p
    · subst heq
      simp only [State.goTo, Function.update_self] at hq
      exact hlock hq
    · simp only [State.goTo, Function.update_of_ne heq] at hq
      exact h.exclusive q hq
  current := h.current
  copied q cp hq := by
    by_cases heq : q = p
    · subst heq
      simp only [State.goTo, Function.update_self] at hq
      exact hcopy cp hq
    · simp only [State.goTo, Function.update_of_ne heq] at hq
      exact h.copied q cp hq
  renamed q cp hq := by
    by_cases heq : q = p
    · subst heq
      simp only [State.goTo, Function.update_self] at hq
      exact hrenamed cp hq
    · simp only [State.goTo, Function.update_of_ne heq] at hq
      exact h.renamed q cp hq
  clean := h.clean

theorem advance (h : Inv s) {pc : Pc α} (hp : (s.pc p).copy = some cp) (hcopy : pc.copy = some cp)
    (hrenamed : ∀ cp, pc ≠ .renamed cp) : Inv (s.goTo p pc) := by
  refine h.goTo (fun _ => h.exclusive p (inLock_of_copy hp)) (fun c hc => ?_) fun c hc => absurd hc (hrenamed c)
  obtain rfl : cp = c := Option.some.inj (hcopy.symm.trans hc)
  exact h.copied p cp hp

theorem unlock (h : Inv s) (hout : ∀ q, ¬ (s.pc q).InLock) : Inv { s with ioInProgressLock := none } :=
  ⟨fun q hq => absurd hq (hout q), h.current, h.copied, h.renamed, h.clean⟩

theorem not_inLock_outside (h : Inv s) (hp : (s.pc p).InLock) (q : Proc) : ¬ ((s.goTo p .outside).pc q).InLock := by
  intro hq
  by_cases heq : q = p
  · subst heq
    simp only [State.goTo, Function.update_self] at hq
    exact hq
  · simp only [State.goTo, Function.update_of_ne heq] at hq
    exact heq (h.eq_of_inLock hq hp)

theorem fail (h : Inv s) (hp : (s.pc p).InLock) : Inv (s.fail p) := by
  have hgo : Inv (s.goTo p .outside) := h.goTo False.elim (fun _ hc => (by cases hc)) fun _ hc => (by cases hc)
  exact hgo.unlock (h.not_inLock_outside hp)

theorem change (h : Inv s) (f : PersistentData α → PersistentData α) :
    Inv { s with data := f s.data, sinceMarked := s.sinceMarked ++ [f s.data] } where
  exclusive := h.exclusive
  current := List.mem_append_right _ (List.mem_singleton_self _)
  copied p cp hp hflag := List.mem_append_left _ (h.copied p cp hp hflag)
  renamed := h.renamed
  clean hdirty := ⟨List.mem_append_left _ (h.clean hdirty).1, (h.clean hdirty).2⟩

theorem mark (h : Inv s) : Inv s.mark where
  exclusive := h.exclusive
  current := List.mem_singleton_self _
  copied p cp _ hflag := by
    rcases hflag with hflag | hflag
    · cases hflag
    · cases hflag
  renamed := h.renamed
  clean hdirty := by cases hdirty

theorem clear (h : Inv s) (hp : s.pc p = .outside) (hallowed : Allowed s (.check p)) :
    Inv { s with justDirtied := false } where
  exclusive := h.exclusive
  current := h.current
  copied q cp hq _ := by
    have hne : p ≠ q := by
      rintro rfl
      have hnone : (s.pc p).copy = some cp := hq
      rw [hp] at hnone
      cases hnone
    by_cases hflag : s.justDirtied = true
    · exact hallowed hflag cp (Proc.eq_other hne ▸ hq)
    · exact h.copied q cp hq (.inl (Bool.eq_false_iff.mpr hflag))
  renamed := h.renamed
  clean := h.clean

theorem check (h : Inv s) (hp : s.pc p = .outside) (hallowed : Allowed s (.check p)) : Inv (s.check p) := by
  have hclear := h.clear hp hallowed
  rw [State.check]
  split
  · exact hclear.goTo False.elim (fun _ hc => (by cases hc)) fun _ hc => (by cases hc)
  · exact hclear

theorem rename (h : Inv s) (hp : s.pc p = .closed cp) (ok : Bool) (hallowed : Allowed s (.rename p ok)) :
    Inv (s.rename p cp ok) := by
  have hcopy : (s.pc p).copy = some cp := by rw [hp]; rfl
  cases ok with
  | false => exact h.fail (inLock_of_copy hcopy)
  | true =>
    have hfile : Inv { s with stateFile := cp, tmpExists := false } := by
      refine ⟨h.exclusive, h.current, h.copied, fun q c hq => ?_, fun hdirty => ?_⟩
      · -- nobody else has the lock
        have hqlock : (s.pc q).InLock := by
          replace hq : s.pc q = .renamed c := hq
          rw [hq]
          trivial
        have heq := h.eq_of_inLock hqlock (inLock_of_copy hcopy)
        subst heq
        cases hp.symm.trans hq
      · exact ⟨h.copied p cp hcopy (.inr hdirty), hallowed hdirty cp hp⟩
    refine hfile.goTo (fun _ => h.exclusive p (inLock_of_copy hcopy)) (fun c hc => ?_) fun c hc => ?_
    · obtain rfl : cp = c := Option.some.inj hc
      exact h.copied p cp hcopy
    · exact Pc.renamed.inj hc

theorem finish (h : Inv s) (hp : s.pc p = .renamed cp) : Inv (s.finish p cp) := by
  have hcopy : (s.pc p).copy = some cp := by rw [hp]; rfl
  have hout := h.not_inLock_outside (inLock_of_copy hcopy)
  refine ⟨fun q hq => absurd hq (hout q), h.current, fun q c hq => absurd (inLock_of_copy hq) (hout q),
    fun q c hq => ?_, fun hdirty => ?_⟩
  · have hq' : ((s.goTo p .outside).pc q).InLock := by
      replace hq : (s.goTo p .outside).pc q = .renamed c := hq
      rw [hq]
      trivial
    exact absurd hq' (hout q)
  · have hfile : s.stateFile = cp := h.renamed p cp hp
    have hflag : s.justDirtied = false ∨ s.dirty = false := by
      cases hjust : s.justDirtied with
      | false => exact .inl rfl
      | true =>
        simp only [State.finish, hjust, if_true] at hdirty
        exact .inr hdirty
    have hmem : s.stateFile ∈ s.sinceMarked := hfile ▸ h.copied p cp hcopy hflag
    exact ⟨hmem, congrArg PersistentData.confirmedFlush hfile.symm, congrArg PersistentData.restartLsn hfile.symm⟩

theorem step {e : Event α} (h : Inv s) (hallowed : Allowed s e) (hstep : Save.step s e = some t) : Inv t := by
  cases e with
  | change f =>
    simp only [Save.step] at hstep
    split at hstep
    · cases hstep
      exact h.change f
    · cases hstep
  | markDirty =>
    simp only [Save.step] at hstep
    split at hstep
    · cases hstep
      exact h.mark
    · cases hstep
  | shutdownMark =>
    simp only [Save.step] at hstep
    split at hstep
    · cases hstep
      split
      · exact h.mark
      · exact h
    · cases hstep
  | check p =>
    simp only [Save.step] at hstep
    split at hstep
    · next hp =>
      cases hstep
      exact h.check hp hallowed
    · cases hstep
  | lock p =>
    simp only [Save.step] at hstep
    split at hstep
    · next hp hlock =>
      cases hstep
      have hnone : ∀ q, ¬ (s.pc q).InLock := fun q hq => by
        have hheld := h.exclusive q hq
        rw [hlock] at hheld
        cases hheld
      have htaken : Inv { s with ioInProgressLock := some p } :=
        ⟨fun q hq => absurd hq (hnone q), h.current, h.copied, h.renamed, h.clean⟩
      exact htaken.goTo (fun _ => rfl) (fun _ hc => (by cases hc)) fun _ hc => (by cases hc)
    · cases hstep
  | openTmp p ok =>
    simp only [Save.step] at hstep
    split at hstep
    · next hp =>
      cases hstep
      have hin : (s.pc p).InLock := by rw [hp]; trivial
      rw [State.openTmp]
      split
      · exact h.fail hin
      · have htmp : Inv { s with tmpExists := true } := ⟨h.exclusive, h.current, h.copied, h.renamed, h.clean⟩
        exact htmp.goTo (fun _ => h.exclusive p hin) (fun _ hc => (by cases hc)) fun _ hc => (by cases hc)
    · cases hstep
  | copy p =>
    simp only [Save.step] at hstep
    split at hstep
    · next hp =>
      cases hstep
      have hin : (s.pc p).InLock := by rw [hp]; trivial
      refine h.goTo (fun _ => h.exclusive p hin) (fun c hc _ => ?_) fun _ hc => (by cases hc)
      obtain rfl : s.data = c := Option.some.inj hc
      exact h.current
    · cases hstep
  | write p ok =>
    simp only [Save.step] at hstep
    split at hstep
    · next cp hp =>
      cases hstep
      have hcopy : (s.pc p).copy = some cp := by rw [hp]; rfl
      cases ok with
      | true => exact h.advance hcopy rfl fun _ hc => (by cases hc)
      | false => exact h.fail (inLock_of_copy hcopy)
    · cases hstep
  | sync p ok =>
    simp only [Save.step] at hstep
    split at hstep
    · next cp hp =>
      cases hstep
      have hcopy : (s.pc p).copy = some cp := by rw [hp]; rfl
      cases ok with
      | true => exact h.advance hcopy rfl fun _ hc => (by cases hc)
      | false => exact h.fail (inLock_of_copy hcopy)
    · cases hstep
  | close p ok =>
    simp only [Save.step] at hstep
    split at hstep
    · next cp hp =>
      cases hstep
      have hcopy : (s.pc p).copy = some cp := by rw [hp]; rfl
      cases ok with
      | true => exact h.advance hcopy rfl fun _ hc => (by cases hc)
      | false => exact h.fail (inLock_of_copy hcopy)
    · cases hstep
  | rename p ok =>
    simp only [Save.step] at hstep
    split at hstep
    · next cp hp =>
      cases hstep
      exact h.rename hp ok hallowed
    · cases hstep
  | finish p =>
    simp only [Save.step] at hstep
    split at hstep
    · next cp hp =>
      cases hstep
      exact h.finish hp
    · cases hstep

end Inv

theorem inv_created (d : PersistentData α) : Inv (created d) where
  exclusive p hp := hp.elim
  current := List.mem_singleton_self d
  copied p cp hp := by cases hp
  renamed p cp hp := by cases hp
  clean _ := ⟨List.mem_singleton_self d, rfl, rfl⟩

/-- In every run in which no mark of an uncopied change is cleared, and no file with other
positions is renamed over that of a clean slot, a clean slot is a saved slot. -/
theorem clean_is_saved (d : PersistentData α) (es : List (Event α)) (s : State α)
    (h : Steps (fun s e t => Allowed s e ∧ step s e = some t) (created d) es s) : CleanIsSaved s :=
  (h.invariant (P := Inv) (fun hs hstep => hs.step hstep.1 hstep.2) (inv_created d)).clean

def blank : PersistentData Unit := ⟨1, 0, false, 0, ()⟩

def advanceTo (lsn : UInt64) : List (Event Unit) := [.change fun d => { d with restartLsn := lsn }, .markDirty]

theorem clean_is_saved_one_save :
    ∃ s : State Unit, s.dirty = false ∧ s.stateFile ∈ s.sinceMarked ∧ s.stateFile.restartLsn = 1 := by
  have hrun : ∃ s, s.dirty = false ∧ s.stateFile.restartLsn = 1 ∧
      Steps (fun s e t => Allowed s e ∧ step s e = some t) (created blank)
        (advanceTo 1 ++ ([.check .owner, .lock .owner, .openTmp .owner true, .copy .owner, .write .owner true,
          .sync .owner true, .close .owner true, .rename .owner true, .finish .owner] : List (Event Unit))) s := by
    refine ⟨_, rfl, rfl, .cons ⟨trivial, rfl⟩ (.cons ⟨trivial, rfl⟩ (.cons ⟨?_, rfl⟩ (.cons ⟨trivial, rfl⟩
      (.cons ⟨trivial, rfl⟩ (.cons ⟨trivial, rfl⟩ (.cons ⟨trivial, rfl⟩ (.cons ⟨trivial, rfl⟩ (.cons ⟨trivial, rfl⟩
      (.cons ⟨?_, rfl⟩ (.cons ⟨trivial, rfl⟩ (.nil _)))))))))))⟩
    · exact fun _ cp hcp => by cases hcp
    · exact fun hdirty => by cases hdirty
  obtain ⟨s, hdirty, hlsn, hsteps⟩ := hrun
  exact ⟨s, hdirty, (clean_is_saved blank _ s hsteps hdirty).1, hlsn⟩

/-- The checkpointer has copied the first position when the owner marks the slot dirty for the
second; the owner clears the mark before it waits for the lock, the checkpointer finds none and
declares the slot clean, and then the owner cannot open its file. -/
theorem lost_mark : ∃ s : State Unit, Steps (fun s e t => step s e = some t) (created blank)
      (advanceTo 1 ++ [.check .checkpointer, .lock .checkpointer, .openTmp .checkpointer true, .copy .checkpointer] ++
        advanceTo 2 ++ [.check .owner, .write .checkpointer true, .sync .checkpointer true, .close .checkpointer true,
          .rename .checkpointer true, .finish .checkpointer, .lock .owner, .openTmp .owner false]) s ∧
      s.data.restartLsn = 2 ∧ s.stateFile.restartLsn = 1 ∧ ¬ CleanIsSaved s := by
  refine ⟨_, steps_of_foldlM rfl, rfl, rfl, fun h => ?_⟩
  exact absurd (h rfl).1 (by decide)

end CdcKafka.Slot.Save
