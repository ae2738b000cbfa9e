import CdcKafka.Slot.Wal

/-! The WAL that a slot needs, and what each step of its owner and of the checkpointer keeps of
the slot. -/

namespace CdcKafka.Slot.Wal

variable {sv : Server} {s t : State} {sl tl : ReplicationSlot} {i : Nat} {c lsn : UInt64}
  {safe safe' : UInt64 → Prop} {startRedo : UInt64} {k k' : Checkpoint}

def State.Kept (sv : Server) (s : State) (lsn : UInt64) : Prop := ∀ n ∈ s.removed, n < sv.segOf lsn

def Counts (d : Data) : Prop := d.invalidated = false ∧ d.rest = .persistent ∧ d.restartLsn ≠ 0

/-- The WAL that a slot needs is there: from its position in memory, and from the one in its
file. While the position is being reserved it may be gone, but then the loop is not left. -/
structure Retained (sv : Server) (s : State) (sl : ReplicationSlot) : Prop where
  memory : sl.data.invalidated = false → sl.data.restartLsn ≠ 0 → sl.reserve = .outside → s.Kept sv sl.data.restartLsn
  reserving : sl.data.restartLsn ≠ 0 → sl.reserve ≠ .outside →
    s.Kept sv sl.data.restartLsn ∨ sv.segOf sl.data.restartLsn ≤ s.lastRemovedSegNo
  file : Counts sl.save.stateFile → s.Kept sv sl.save.stateFile.restartLsn

def WalRetained (sv : Server) (s : State) : Prop := ∀ i sl, s.slots i = some sl → Retained sv s sl

def Checkpoint.cut (i : Nat) : Checkpoint → Option UInt64
  | .invalidating c j _ => if i < j then some c else none
  | .removing c | .removingFile c _ => some c
  | _ => none

structure NotBefore (sv : Server) (sl : ReplicationSlot) (c : UInt64) : Prop where
  memory : sl.data.invalidated = false → sl.data.restartLsn ≠ 0 → sl.reserve = .outside → c ≤ sv.segOf sl.data.restartLsn
  file : Counts sl.save.stateFile → c ≤ sv.segOf sl.save.stateFile.restartLsn

/-- What goes wrong is excluded: a reservation that ends while a checkpoint that is past the slot
is to remove its segment, a test that leaves a slot alone whose file has an older position than
the memory (or none of whose positions is looked at, in binary upgrade), and a horizon that is
beyond a position when it is calculated again. -/
def Allowed (sv : Server) (s : State) : Event → Prop
  | .checkRemoved i => ∀ sl c, s.slots i = some sl → s.checkpointer.cut i = some c →
      s.lastRemovedSegNo < sv.segOf sl.data.restartLsn → c ≤ sv.segOf sl.data.restartLsn
  | .test idle => ∀ c i inv sl, s.checkpointer = .invalidating c i inv → s.slots i = some sl →
      sl.possiblyObsolete sv c idle = none →
      (Counts sl.save.stateFile → c ≤ sv.segOf sl.save.stateFile.restartLsn) ∧ (sv.isBinaryUpgrade → NotBefore sv sl c)
  | .keepLogSeg g unsummarized => s.checkpointer = .recalculating → ∀ i sl, s.slots i = some sl →
      NotBefore sv sl (s.horizon sv g unsummarized)
  | _ => True

def FromFirst (sv : Server) (lsn : UInt64) : Prop := lsn = 0 ∨ sv.walSegmentSize ≤ lsn

structure Reserving (sl : ReplicationSlot) (startRedo : UInt64) : Prop where
  held : sl.activePid = some .backend
  since : sl.data.restartLsn = 0 ∨ startRedo ≤ sl.data.restartLsn
  clean : sl.save.dirty = false
  file : sl.save.stateFile.restartLsn = 0
  outside : ∀ p, sl.save.pc p = .outside
  confirmed : ¬ sl.save.lastSavedConfirmedFlush < sl.data.confirmedFlush

def Checkpoint.heldSlot : Checkpoint → Option Nat
  | .invalidated _ i | .flushing _ i | .flushed _ i => some i
  | _ => none

/-- Slot `i` while the checkpointer is at `k`; `safe` are the positions whose WAL is there and
stays. -/
structure SlotInv (sv : Server) (safe : UInt64 → Prop) (startRedo : UInt64) (k : Checkpoint) (i : Nat)
    (sl : ReplicationSlot) : Prop where
  memory : sl.data.invalidated = false → sl.data.restartLsn ≠ 0 → sl.reserve = .outside → safe sl.data.restartLsn
  loop : sl.reserve ≠ .outside → Reserving sl startRedo
  read : ∀ lsn, sl.reserve = .read lsn → startRedo ≤ lsn
  file : Counts sl.save.stateFile → safe sl.save.stateFile.restartLsn
  copies : ∀ p cp, (sl.save.pc p).copy = some cp → Counts cp → safe cp.restartLsn
  owned : ∀ cp, (sl.save.pc .owner).copy = some cp → cp = sl.data
  unowned : sl.activePid ≠ some .backend → sl.save.pc .owner = .outside
  saving : sl.save.pc .checkpointer ≠ .outside → k.savingSlot = some i
  held : k.heldSlot = some i → sl.activePid = some .checkpointer
  dataFirst : FromFirst sv sl.data.restartLsn
  fileFirst : FromFirst sv sl.save.stateFile.restartLsn
  savedFirst : FromFirst sv sl.save.lastSavedRestartLsn
  copiesFirst : ∀ p cp, (sl.save.pc p).copy = some cp → FromFirst sv cp.restartLsn

structure Saved (s t : Save.State Persistency) (p : Save.Proc) : Prop where
  data : t.data = s.data
  other : ∀ q, q ≠ p → t.pc q = s.pc q
  copy : ∀ cp, (t.pc p).copy = some cp → (s.pc p).copy = some cp ∨ cp = s.data
  file : t.stateFile = s.stateFile ∨ (s.pc p).copy = some t.stateFile
  lastSaved : t.lastSavedRestartLsn = s.lastSavedRestartLsn ∨
    ∃ cp, (s.pc p).copy = some cp ∧ t.lastSavedRestartLsn = cp.restartLsn

namespace Saved

variable {s t : Save.State Persistency} {p : Save.Proc}

theorem goTo (s : Save.State Persistency) (p : Save.Proc) {pc : Save.Pc Persistency}
    (hpc : ∀ cp, pc.copy = some cp → (s.pc p).copy = some cp ∨ cp = s.data) : Saved s (s.goTo p pc) p where
  data := rfl
  other q hq := Function.update_of_ne hq _ _
  copy cp hcp := by
    simp only [Save.State.goTo, Function.update_self] at hcp
    exact hpc cp hcp
  file := .inl rfl
  lastSaved := .inl rfl

theorem fail (s : Save.State Persistency) (p : Save.Proc) : Saved s (s.fail p) p := by
  have hgo : Saved s (s.goTo p .outside) p := goTo s p fun _ hcp => (by cases hcp)
  exact ⟨hgo.data, hgo.other, hgo.copy, hgo.file, hgo.lastSaved⟩

theorem advance {pc : Save.Pc Persistency} (hpc : pc.copy = (s.pc p).copy) : Saved s (s.goTo p pc) p :=
  goTo s p fun _ hcp => .inl (hpc ▸ hcp)

theorem rename {cp : Data} (hp : s.pc p = .closed cp) (ok : Bool) : Saved s (s.rename p cp ok) p := by
  cases ok with
  | false => exact fail s p
  | true =>
    have hgo : Saved s (s.goTo p (.renamed cp)) p := advance (by rw [hp]; rfl)
    exact ⟨hgo.data, hgo.other, hgo.copy, .inr (by rw [hp]; rfl), hgo.lastSaved⟩

theorem finish {cp : Data} (hp : s.pc p = .renamed cp) : Saved s (s.finish p cp) p := by
  have hgo : Saved s (s.goTo p .outside) p := goTo s p fun _ hcp => (by cases hcp)
  exact ⟨hgo.data, hgo.other, hgo.copy, hgo.file, .inr ⟨cp, by rw [hp]; rfl, rfl⟩⟩

theorem check (s : Save.State Persistency) (p : Save.Proc) : Saved s (s.check p) p := by
  rw [Save.State.check]
  split
  · have hgo : Saved s (s.goTo p .waiting) p := goTo s p fun _ hcp => (by cases hcp)
    exact ⟨hgo.data, hgo.other, hgo.copy, hgo.file, hgo.lastSaved⟩
  · exact ⟨rfl, fun _ _ => rfl, fun _ hcp => .inl hcp, .inl rfl, .inl rfl⟩

theorem openTmp (s : Save.State Persistency) (p : Save.Proc) (ok : Bool) : Saved s (s.openTmp p ok) p := by
  rw [Save.State.openTmp]
  split
  · exact fail s p
  · have hgo : Saved s (s.goTo p .opened) p := goTo s p fun _ hcp => (by cases hcp)
    exact ⟨hgo.data, hgo.other, hgo.copy, hgo.file, hgo.lastSaved⟩

theorem of_step {op : SaveOp} (h : Save.step s (op.event p) = some t) : Saved s t p := by
  cases op with
  | check =>
    simp only [SaveOp.event, Save.step] at h
    split at h
    · cases h
      exact check s p
    · cases h
  | lock =>
    simp only [SaveOp.event, Save.step] at h
    split at h
    · cases h
      have hgo : Saved s (s.goTo p .locked) p := goTo s p fun _ hcp => (by cases hcp)
      exact ⟨hgo.data, hgo.other, hgo.copy, hgo.file, hgo.lastSaved⟩
    · cases h
  | openTmp ok =>
    simp only [SaveOp.event, Save.step] at h
    split at h
    · cases h
      exact openTmp s p ok
    · cases h
  | copy =>
    simp only [SaveOp.event, Save.step] at h
    split at h
    · cases h
      exact goTo s p fun _ hcp => .inr (Option.some.inj hcp).symm
    · cases h
  | write ok =>
    simp only [SaveOp.event, Save.step] at h
    split at h
    · next cp hp =>
      cases h
      cases ok with
      | true => exact advance (by rw [hp]; rfl)
      | false => exact fail s p
    · cases h
  | sync ok =>
    simp only [SaveOp.event, Save.step] at h
    split at h
    · next cp hp =>
      cases h
      cases ok with
      | true => exact advance (by rw [hp]; rfl)
      | false => exact fail s p
    · cases h
  | close ok =>
    simp only [SaveOp.event, Save.step] at h
    split at h
    · next cp hp =>
      cases h
      cases ok with
      | true => exact advance (by rw [hp]; rfl)
      | false => exact fail s p
    · cases h
  | rename ok =>
    simp only [SaveOp.event, Save.step] at h
    split at h
    · next cp hp =>
      cases h
      exact rename hp ok
    · cases h
  | finish =>
    simp only [SaveOp.event, Save.step] at h
    split at h
    · next cp hp =>
      cases h
      exact finish hp
    · cases h

theorem eq_of_clean {op : SaveOp} (hp : s.pc p = .outside) (hclean : s.dirty = false)
    (h : Save.step s (op.event p) = some t) : t = { s with justDirtied := false } := by
  cases op with
  | check =>
    simp only [SaveOp.event, Save.step, hp] at h
    have hcheck : s.check p = { s with justDirtied := false } := by
      rw [Save.State.check, if_neg (by rw [hclean]; decide)]
    exact (Option.some.inj h).symm.trans hcheck
  | lock => simp [SaveOp.event, Save.step, hp] at h
  | openTmp ok => simp [SaveOp.event, Save.step, hp] at h
  | copy => simp [SaveOp.event, Save.step, hp] at h
  | write ok => simp [SaveOp.event, Save.step, hp] at h
  | sync ok => simp [SaveOp.event, Save.step, hp] at h
  | close ok => simp [SaveOp.event, Save.step, hp] at h
  | rename ok => simp [SaveOp.event, Save.step, hp] at h
  | finish => simp [SaveOp.event, Save.step, hp] at h

end Saved

theorem saveStep_change {f : Data → Data} (h : sl.saveStep (.change f) = some tl) : sl.save.pc .owner = .outside ∧
      tl = { sl with save := { sl.save with
        data := f sl.save.data, sinceMarked := sl.save.sinceMarked ++ [f sl.save.data] } } := by
  simp only [ReplicationSlot.saveStep, Save.step] at h
  split at h
  · next hpc => exact ⟨hpc, (Option.some.inj h).symm⟩
  · cases h

theorem saveStep_op {e : Save.Event Persistency} (h : sl.saveStep e = some tl) :
    ∃ u, Save.step sl.save e = some u ∧ tl = { sl with save := u } := by
  obtain ⟨u, hu, rfl⟩ := Option.map_eq_some_iff.mp h
  exact ⟨u, hu, rfl⟩

theorem saveStep_markDirty (hstep : sl.saveStep .markDirty = some tl) : tl = { sl with save := sl.save.mark } := by
  obtain ⟨u, hu, rfl⟩ := saveStep_op hstep
  simp only [Save.step] at hu
  split at hu
  · cases hu
    rfl
  · cases hu

theorem outside_of_not_saves {p : Save.Proc} (h : sl.Saves p = false) : sl.save.pc p = .outside := by
  rw [ReplicationSlot.Saves] at h
  split at h
  · next hpc => exact hpc
  · cases h

namespace SlotInv

theorem imp (h : SlotInv sv safe startRedo k i sl)
    (hmemory : sl.data.invalidated = false → sl.data.restartLsn ≠ 0 → sl.reserve = .outside →
      safe sl.data.restartLsn → safe' sl.data.restartLsn)
    (hfile : Counts sl.save.stateFile → safe sl.save.stateFile.restartLsn → safe' sl.save.stateFile.restartLsn)
    (hcopies : ∀ p cp, (sl.save.pc p).copy = some cp → Counts cp → safe cp.restartLsn → safe' cp.restartLsn)
    (hsaving : sl.save.pc .checkpointer ≠ .outside → k.savingSlot = some i → k'.savingSlot = some i)
    (hheld : k'.heldSlot = some i → sl.activePid = some .checkpointer) : SlotInv sv safe' startRedo k' i sl :=
  { h with
    memory := fun hvalid hne hout => hmemory hvalid hne hout (h.memory hvalid hne hout)
    file := fun hcounts => hfile hcounts (h.file hcounts)
    copies := fun p cp hcp hcounts => hcopies p cp hcp hcounts (h.copies p cp hcp hcounts)
    saving := fun hpc => hsaving hpc (h.saving hpc)
    held := hheld }

theorem outside_of_copy (h : SlotInv sv safe startRedo k i sl) {p : Save.Proc} {cp : Data}
    (hcp : (sl.save.pc p).copy = some cp) : sl.reserve = .outside := by
  by_contra hne
  rw [(h.loop hne).outside p] at hcp
  cases hcp

theorem not_held (h : SlotInv sv safe startRedo k i sl) (hne : sl.reserve ≠ .outside) : k.heldSlot ≠ some i := by
  intro hk
  have hheld := (h.loop hne).held
  rw [h.held hk] at hheld
  cases hheld

theorem saved (h : SlotInv sv safe startRedo k i sl) (hout : sl.reserve = .outside) {p : Save.Proc}
    {u : Save.State Persistency} (hsaved : Saved sl.save u p)
    (howner : p = .owner → sl.activePid = some .backend)
    (hsaving : u.pc .checkpointer ≠ .outside → k'.savingSlot = some i)
    (hheld : k'.heldSlot = some i → k.heldSlot = some i) :
    SlotInv sv safe startRedo k' i { sl with save := u } where
  memory hvalid hne _ := by
    simp only [ReplicationSlot.data, hsaved.data] at hvalid hne ⊢
    exact h.memory hvalid hne hout
  loop hne := absurd hout hne
  read := h.read
  file hcounts := by
    rcases hsaved.file with heq | hcopy
    · simp only [heq] at hcounts ⊢
      exact h.file hcounts
    · exact h.copies p _ hcopy hcounts
  copies q cp hcp hcounts := by
    by_cases hq : q = p
    · subst hq
      rcases hsaved.copy cp hcp with hold | hdata
      · exact h.copies q cp hold hcounts
      · subst hdata
        exact h.memory hcounts.1 hcounts.2.2 hout
    · replace hcp : (u.pc q).copy = some cp := hcp
      rw [hsaved.other q hq] at hcp
      exact h.copies q cp hcp hcounts
  owned cp hcp := by
    simp only [ReplicationSlot.data, hsaved.data]
    by_cases hq : Save.Proc.owner = p
    · subst hq
      exact (hsaved.copy cp hcp).elim (h.owned cp) id
    · replace hcp : (u.pc .owner).copy = some cp := hcp
      rw [hsaved.other _ hq] at hcp
      exact h.owned cp hcp
  unowned hnot := by
    have hq : Save.Proc.owner ≠ p := fun heq => hnot (howner heq.symm)
    exact (hsaved.other _ hq).trans (h.unowned hnot)
  saving := hsaving
  held hk := h.held (hheld hk)
  dataFirst := by
    simp only [ReplicationSlot.data, hsaved.data]
    exact h.dataFirst
  fileFirst := by
    rcases hsaved.file with heq | hcopy
    · simp only [heq]
      exact h.fileFirst
    · exact h.copiesFirst p _ hcopy
  savedFirst := by
    rcases hsaved.lastSaved with heq | ⟨cp, hcopy, heq⟩
    · simp only [heq]
      exact h.savedFirst
    · simp only [heq]
      exact h.copiesFirst p cp hcopy
  copiesFirst q cp hcp := by
    by_cases hq : q = p
    · subst hq
      rcases hsaved.copy cp hcp with hold | hdata
      · exact h.copiesFirst q cp hold
      · subst hdata
        exact h.dataFirst
    · replace hcp : (u.pc q).copy = some cp := hcp
      rw [hsaved.other q hq] at hcp
      exact h.copiesFirst q cp hcp

theorem change (h : SlotInv sv safe startRedo k i sl) (hpc : sl.save.pc .owner = .outside) {d : Data} {r : Reserve}
    {marked : List Data}
    (hmemory : d.invalidated = false → d.restartLsn ≠ 0 → r = .outside → safe d.restartLsn)
    (hloop : r ≠ .outside → Reserving { sl with save := { sl.save with data := d } } startRedo)
    (hread : ∀ lsn, r = .read lsn → startRedo ≤ lsn) (hfirst : FromFirst sv d.restartLsn) :
    SlotInv sv safe startRedo k i
      { sl with save := { sl.save with data := d, sinceMarked := marked }, reserve := r } where
  memory := hmemory
  loop hne := ⟨(hloop hne).held, (hloop hne).since, (hloop hne).clean, (hloop hne).file, (hloop hne).outside,
    (hloop hne).confirmed⟩
  read := hread
  file := h.file
  copies := h.copies
  owned cp hcp := by
    replace hcp : (sl.save.pc .owner).copy = some cp := hcp
    rw [hpc] at hcp
    cases hcp
  unowned := h.unowned
  saving := h.saving
  held := h.held
  dataFirst := hfirst
  fileFirst := h.fileFirst
  savedFirst := h.savedFirst
  copiesFirst := h.copiesFirst

theorem mark (h : SlotInv sv safe startRedo k i sl) (hout : sl.reserve = .outside)
    (hsaving : k.savingSlot = some i → k'.savingSlot = some i) (hheld : k'.heldSlot = some i → k.heldSlot = some i) :
    SlotInv sv safe startRedo k' i { sl with save := sl.save.mark } where
  memory := h.memory
  loop hne := absurd hout hne
  read := h.read
  file := h.file
  copies := h.copies
  owned := h.owned
  unowned := h.unowned
  saving hpc := hsaving (h.saving hpc)
  held hk := h.held (hheld hk)
  dataFirst := h.dataFirst
  fileFirst := h.fileFirst
  savedFirst := h.savedFirst
  copiesFirst := h.copiesFirst

theorem clear (h : SlotInv sv safe startRedo k i sl) (hsaving : k.savingSlot = some i → k'.savingSlot = some i)
    (hheld : k'.heldSlot = some i → k.heldSlot = some i) :
    SlotInv sv safe startRedo k' i { sl with save := { sl.save with justDirtied := false } } where
  memory := h.memory
  loop hne :=
    have hloop := h.loop hne
    ⟨hloop.held, hloop.since, hloop.clean, hloop.file, hloop.outside, hloop.confirmed⟩
  read := h.read
  file := h.file
  copies := h.copies
  owned := h.owned
  unowned := h.unowned
  saving hpc := hsaving (h.saving hpc)
  held hk := h.held (hheld hk)
  dataFirst := h.dataFirst
  fileFirst := h.fileFirst
  savedFirst := h.savedFirst
  copiesFirst := h.copiesFirst

theorem goOn (h : SlotInv sv safe startRedo k i sl) (hne : sl.reserve ≠ .outside) {r : Reserve}
    (hmemory : sl.data.restartLsn ≠ 0 → r = .outside → safe sl.data.restartLsn)
    (hread : ∀ lsn, r = .read lsn → startRedo ≤ lsn) :
    SlotInv sv safe startRedo k i { sl with reserve := r } where
  memory _ := hmemory
  loop _ :=
    have hloop := h.loop hne
    ⟨hloop.held, hloop.since, hloop.clean, hloop.file, hloop.outside, hloop.confirmed⟩
  read := hread
  file := h.file
  copies := h.copies
  owned := h.owned
  unowned := h.unowned
  saving := h.saving
  held := h.held
  dataFirst := h.dataFirst
  fileFirst := h.fileFirst
  savedFirst := h.savedFirst
  copiesFirst := h.copiesFirst

theorem handOver (h : SlotInv sv safe startRedo k i sl) {a : Option Holder} (hout : sl.reserve = .outside)
    (hpc : sl.save.pc .owner = .outside) (hheld : k'.heldSlot ≠ some i)
    (hsaving : k.savingSlot = some i → k'.savingSlot = some i) :
    SlotInv sv safe startRedo k' i { sl with activePid := a } where
  memory := h.memory
  loop hne := absurd hout hne
  read := h.read
  file := h.file
  copies := h.copies
  owned := h.owned
  unowned _ := hpc
  saving hsaves := hsaving (h.saving hsaves)
  held hk := absurd hk hheld
  dataFirst := h.dataFirst
  fileFirst := h.fileFirst
  savedFirst := h.savedFirst
  copiesFirst := h.copiesFirst

theorem invalidate (h : SlotInv sv safe startRedo k i sl) (hfree : sl.activePid = none)
    (hsaving : k.savingSlot = some i → k'.savingSlot = some i) (cause : Cause) :
    SlotInv sv safe startRedo k' i (sl.invalidate cause) := by
  have hnot : sl.activePid ≠ some .backend := by
    rw [hfree]
    exact nofun
  have hout : sl.reserve = .outside := by
    by_contra hne
    exact hnot (h.loop hne).held
  have hpc : sl.save.pc .owner = .outside := h.unowned hnot
  have hcopy : ∀ cp, ¬ (sl.save.pc .owner).copy = some cp := fun cp hcp => by
    rw [hpc] at hcp
    cases hcp
  cases cause with
  | walRemoved =>
    exact ⟨fun hvalid => (by cases hvalid), fun hne => absurd hout hne, h.read, h.file, h.copies,
      fun cp hcp => absurd hcp (hcopy cp), fun _ => hpc, fun hsaves => hsaving (h.saving hsaves), fun _ => rfl,
      .inl rfl, h.fileFirst, .inl rfl, h.copiesFirst⟩
  | idleTimeout =>
    exact ⟨fun hvalid => (by cases hvalid), fun hne => absurd hout hne, h.read, h.file, h.copies,
      fun cp hcp => absurd hcp (hcopy cp), fun _ => hpc, fun hsaves => hsaving (h.saving hsaves), fun _ => rfl,
      h.dataFirst, h.fileFirst, h.savedFirst, h.copiesFirst⟩

/-! Steps of the owner. -/

theorem readPosition (h : SlotInv sv safe startRedo k i sl) {redo : UInt64} (hredo : startRedo ≤ redo)
    (hstep : sl.readPosition redo lsn = some tl) : SlotInv sv safe startRedo k i tl := by
  rw [ReplicationSlot.readPosition] at hstep
  split at hstep
  · next hread =>
    cases hstep
    have hne : sl.reserve ≠ .outside := by
      rw [hread.1]
      exact nofun
    refine h.goOn hne (fun _ hr => (by cases hr)) fun x hx => ?_
    cases hx
    exact UInt64.le_trans hredo hread.2.1
  · cases hstep

theorem storePosition (h : SlotInv sv safe startRedo k i sl) (hfirst : sv.walSegmentSize ≤ startRedo)
    (hstep : sl.storePosition = some tl) : SlotInv sv safe startRedo k i tl := by
  rw [ReplicationSlot.storePosition] at hstep
  split at hstep
  · next x hx =>
    obtain ⟨ul, hul, rfl⟩ := Option.map_eq_some_iff.mp hstep
    obtain ⟨hpc, rfl⟩ := saveStep_change hul
    have hne : sl.reserve ≠ .outside := by
      rw [hx]
      exact nofun
    have hloop := h.loop hne
    have hsince : startRedo ≤ x := h.read x hx
    exact h.change hpc (fun _ _ hr => (by cases hr))
      (fun _ => ⟨hloop.held, .inr hsince, hloop.clean, hloop.file, hloop.outside, hloop.confirmed⟩)
      (fun _ hr => (by cases hr)) (.inr (UInt64.le_trans hfirst hsince))
  · cases hstep

theorem computed (h : SlotInv sv safe startRedo k i sl) (hstored : sl.reserve = .stored) :
    SlotInv sv safe startRedo k i { sl with reserve := .computed } := by
  have hne : sl.reserve ≠ .outside := by
    rw [hstored]
    exact nofun
  exact h.goOn hne (fun _ hr => (by cases hr)) fun _ hr => (by cases hr)

theorem checkRemoved (h : SlotInv sv safe startRedo k i sl) {lastRemovedSegNo : UInt64}
    (hsafe : sl.reserve ≠ .outside → sl.data.restartLsn ≠ 0 → lastRemovedSegNo < sv.segOf sl.data.restartLsn →
      safe sl.data.restartLsn)
    (hstep : sl.checkRemoved sv lastRemovedSegNo = some tl) : SlotInv sv safe startRedo k i tl := by
  rw [ReplicationSlot.checkRemoved] at hstep
  split at hstep
  · next hcomputed =>
    cases hstep
    have hne : sl.reserve ≠ .outside := by
      rw [hcomputed]
      exact nofun
    by_cases hkept : lastRemovedSegNo < sv.segOf sl.data.restartLsn
    · rw [if_pos hkept]
      exact h.goOn hne (fun hlsn _ => hsafe hne hlsn hkept) fun _ hr => (by cases hr)
    · rw [if_neg hkept]
      exact h.goOn hne (fun _ hr => (by cases hr)) fun _ hr => (by cases hr)
  · cases hstep

theorem acquire (h : SlotInv sv safe startRedo k i sl) (hstep : sl.acquire = some tl) :
    SlotInv sv safe startRedo k i tl := by
  rw [ReplicationSlot.acquire] at hstep
  split at hstep
  · next hfree =>
    cases hstep
    have hnot : sl.activePid ≠ some .backend := by
      rw [hfree]
      exact nofun
    have hout : sl.reserve = .outside := by
      by_contra hne
      exact hnot (h.loop hne).held
    refine h.handOver hout (h.unowned hnot) (fun hk => ?_) id
    rw [h.held hk] at hfree
    cases hfree
  · cases hstep

theorem not_held_of_backend (h : SlotInv sv safe startRedo k i sl) (hbackend : sl.activePid = some .backend) :
    k.heldSlot ≠ some i := by
  intro hk
  rw [h.held hk] at hbackend
  cases hbackend

theorem release (h : SlotInv sv safe startRedo k i sl) (hstep : sl.release = some tl) :
    SlotInv sv safe startRedo k i tl := by
  rw [ReplicationSlot.release] at hstep
  split at hstep
  · next hrelease =>
    cases hstep
    exact h.handOver hrelease.1.2 (outside_of_not_saves hrelease.2.1) (h.not_held_of_backend hrelease.1.1) id
  · cases hstep

theorem changeOwned (h : SlotInv sv safe startRedo k i sl) (hmono : ∀ {a b}, a ≤ b → safe a → safe b)
    (howned : sl.Owned) {f : Data → Data} (hinvalidated : (f sl.data).invalidated = sl.data.invalidated)
    (hlsn : (f sl.data).restartLsn = sl.data.restartLsn ∨
      sl.data.restartLsn ≠ 0 ∧ sl.data.restartLsn ≤ (f sl.data).restartLsn)
    (hstep : sl.saveStep (.change f) = some tl) : SlotInv sv safe startRedo k i tl := by
  obtain ⟨hpc, rfl⟩ := saveStep_change hstep
  refine h.change hpc (fun hvalid hne _ => ?_) (fun hne => absurd howned.2 hne) h.read ?_
  · have hvalid' : sl.data.invalidated = false := hinvalidated ▸ hvalid
    rcases hlsn with heq | hle
    · have hne' : sl.data.restartLsn ≠ 0 := heq ▸ hne
      exact heq ▸ h.memory hvalid' hne' howned.2
    · exact hmono hle.2 (h.memory hvalid' hle.1 howned.2)
  · rcases hlsn with heq | hle
    · exact heq ▸ h.dataFirst
    · exact .inr (UInt64.le_trans (h.dataFirst.resolve_left hle.1) hle.2)

theorem advance (h : SlotInv sv safe startRedo k i sl) (hmono : ∀ {a b}, a ≤ b → safe a → safe b)
    (hstep : sl.advance lsn = some tl) : SlotInv sv safe startRedo k i tl := by
  rw [ReplicationSlot.advance] at hstep
  split at hstep
  · next hadvance => exact h.changeOwned hmono hadvance.1 rfl (.inr hadvance.2) hstep
  · cases hstep

theorem confirm (h : SlotInv sv safe startRedo k i sl) (hmono : ∀ {a b}, a ≤ b → safe a → safe b)
    (hstep : sl.confirm lsn = some tl) : SlotInv sv safe startRedo k i tl := by
  rw [ReplicationSlot.confirm] at hstep
  split at hstep
  · next howned => exact h.changeOwned hmono howned rfl (.inl rfl) hstep
  · cases hstep

theorem persist (h : SlotInv sv safe startRedo k i sl) (hmono : ∀ {a b}, a ≤ b → safe a → safe b)
    (hstep : sl.persist = some tl) : SlotInv sv safe startRedo k i tl := by
  rw [ReplicationSlot.persist] at hstep
  split at hstep
  · next howned => exact h.changeOwned hmono howned rfl (.inl rfl) hstep
  · cases hstep

theorem markDirty (h : SlotInv sv safe startRedo k i sl) (hstep : sl.markDirty = some tl) :
    SlotInv sv safe startRedo k i tl := by
  rw [ReplicationSlot.markDirty] at hstep
  split at hstep
  · next howned =>
    obtain rfl := saveStep_markDirty hstep
    exact h.mark howned.2 id id
  · cases hstep

theorem saveOwn (h : SlotInv sv safe startRedo k i sl) {op : SaveOp} (hstep : sl.saveOwn op = some tl) :
    SlotInv sv safe startRedo k i tl := by
  rw [ReplicationSlot.saveOwn] at hstep
  split at hstep
  · next howned =>
    obtain ⟨u, hu, rfl⟩ := saveStep_op hstep
    have hsaved : Saved sl.save u .owner := .of_step hu
    have hother : u.pc .checkpointer = sl.save.pc .checkpointer := hsaved.other _ nofun
    exact h.saved howned.2 hsaved (fun _ => howned.1) (fun hpc => h.saving (hother ▸ hpc)) id
  · cases hstep

end SlotInv

theorem slotInv_create (database : Nat) (persistency : Persistency) (reserve : Bool) (hheld : k.heldSlot ≠ some i) :
    SlotInv sv safe startRedo k i (.create database persistency reserve) where
  memory _ hne _ := absurd rfl hne
  loop _ := ⟨rfl, .inl rfl, rfl, rfl, fun _ => rfl, UInt64.lt_irrefl _⟩
  read lsn hread := by
    cases reserve with
    | false => cases hread
    | true => cases hread
  file hcounts := absurd rfl hcounts.2.2
  copies p cp hcp := by cases hcp
  owned cp hcp := by cases hcp
  unowned _ := rfl
  saving hpc := absurd rfl hpc
  held hk := absurd hk hheld
  dataFirst := .inl rfl
  fileFirst := .inl rfl
  savedFirst := .inl rfl
  copiesFirst p cp hcp := by cases hcp

theorem SlotInv.restore (h : SlotInv sv safe startRedo k i sl) (htl : sl.restore = some tl) {redo : UInt64} :
    SlotInv sv safe redo .idle i tl := by
  rw [ReplicationSlot.restore] at htl
  split at htl
  · next hpersistent =>
    cases htl
    exact ⟨fun hvalid hne _ => h.file ⟨hvalid, hpersistent, hne⟩, fun hne => absurd rfl hne, fun _ hr => (by cases hr),
      h.file, fun _ _ hcp => (by cases hcp), fun _ hcp => (by cases hcp), fun _ => rfl, fun hpc => absurd rfl hpc,
      fun hk => (by cases hk), h.fileFirst, h.fileFirst, h.fileFirst, fun _ _ hcp => (by cases hcp)⟩
  · cases htl

end CdcKafka.Slot.Wal
