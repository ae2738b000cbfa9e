import CdcKafka.Lib.Steps

/-! The synchronization state of one table: the row of `pg_subscription_rel`, the shared memory of the table's
synchronization worker and the list the leader caches, each written at its own time. -/

namespace CdcKafka.SyncState
open CdcKafka.Lib

inductive SubRelState
  | unknown | init | datasync | finishedcopy | syncwait | catchup | syncdone | ready
deriving DecidableEq

def SubRelState.rank : SubRelState → Nat
  | .unknown => 0
  | .init => 1
  | .datasync => 2
  | .finishedcopy => 3
  | .syncwait => 4
  | .catchup => 5
  | .syncdone => 6
  | .ready => 7

def SubRelState.resumable : SubRelState → Bool
  | .init | .datasync | .finishedcopy => true
  | _ => false

def SubRelState.persisted (state : SubRelState) : Bool :=
  state.resumable || state = .syncdone || state = .ready

structure RelState where
  state : SubRelState
  lsn : Nat
deriving DecidableEq

/-- Where a synchronization worker is. `rel` tells whether it has the table opened for the
copy: it is a null pointer in a worker that found the copy done. -/
inductive SyncPc
  | starting
  | fetched (relstate : RelState)
  | beginCopy
  | marking
  | copying
  | copyTableDone (originStartpos : Nat) (rel : Bool)
  | waiting (rel : Bool)
  | applying
  | updating
  | committing
  | releasing
  | finishing
deriving DecidableEq

structure SyncWorker where
  /-- `relstate` and `relstate_lsn`, in shared memory. -/
  relstate : RelState
  pc : SyncPc
deriving DecidableEq

def SyncWorker.ownsOrigin (w : SyncWorker) : Bool :=
  match w.pc with
  | .copyTableDone .. | .waiting _ | .applying | .updating | .committing | .releasing => true
  | _ => false

inductive LeaderPc
  | idle | processing | readying | waiting
deriving DecidableEq

structure Leader where
  /-- The table's entry in `table_states_not_ready`. -/
  rstate : Option RelState
  tableStatesValid : Bool
  pc : LeaderPc
deriving DecidableEq

structure State where
  catalog : RelState
  worker : Option SyncWorker
  leader : Option Leader
  /-- The LSN of the last CATCHUP that a leader set. -/
  target : Nat
  /-- The LSN of the last SYNCDONE that a worker set. -/
  done : Nat
deriving DecidableEq

def State.init (catalog : RelState) : State where
  catalog := catalog
  worker := none
  leader := none
  target := 0
  done := catalog.lsn

def State.current (s : State) : SubRelState :=
  match s.worker with
  | none => s.catalog.state
  | some w => if s.catalog.state.rank < w.relstate.state.rank then w.relstate.state
      else s.catalog.state

def enter (relstate : RelState) (progress : Nat) : Option SyncPc :=
  match relstate.state with
  | .syncdone | .ready | .unknown => some .finishing
  | .finishedcopy => some (.copyTableDone progress false)
  | .init | .datasync => some .beginCopy
  | .syncwait | .catchup => none

inductive SyncEvent
  | getSubscriptionRelState
  /-- `progress` is what the replication origin has got to. -/
  | enter (progress : Nat)
  | setDatasync
  | persistDatasync
  | persistFinishedcopy (originStartpos : Nat)
  | setSyncwait
  | leaveWait
  | processSyncingTables (currentLsn : Nat)
  | updateSubscriptionRelState
  | commit
  | sessionReset
  | exit
deriving DecidableEq

def syncStep (s : State) (w : SyncWorker) : SyncEvent → Option State
  | .getSubscriptionRelState =>
    match w.pc with
    | .starting => some { s with worker := some { w with pc := .fetched s.catalog } }
    | _ => none
  | .enter progress =>
    match w.pc with
    | .fetched relstate =>
      (enter relstate progress).map fun pc => { s with worker := some { relstate, pc } }
    | _ => none
  | .setDatasync =>
    match w.pc with
    | .beginCopy => some { s with worker := some { relstate := ⟨.datasync, 0⟩, pc := .marking } }
    | _ => none
  | .persistDatasync =>
    match w.pc with
    | .marking => some { s with catalog := w.relstate, worker := some { w with pc := .copying } }
    | _ => none
  | .persistFinishedcopy originStartpos =>
    match w.pc with
    | .copying =>
      some { s with
        catalog := ⟨.finishedcopy, w.relstate.lsn⟩
        worker := some { w with pc := .copyTableDone originStartpos true } }
    | _ => none
  | .setSyncwait =>
    match w.pc with
    | .copyTableDone originStartpos rel =>
      some { s with worker := some { relstate := ⟨.syncwait, originStartpos⟩, pc := .waiting rel } }
    | _ => none
  | .leaveWait =>
    match w.pc with
    | .waiting rel =>
      if w.relstate.state = .catchup ∨ s.leader = none then
        -- `rel->rd_rel` through a null pointer takes every process of the server down
        if rel then some { s with worker := some { w with pc := .applying } }
        else some { s with worker := none, leader := none }
      else none
    | _ => none
  | .processSyncingTables currentLsn =>
    match w.pc with
    | .applying =>
      if w.relstate.state = .catchup ∧ w.relstate.lsn ≤ currentLsn then
        some { s with
          worker := some { relstate := ⟨.syncdone, currentLsn⟩, pc := .updating }
          done := currentLsn }
      else some s
    | _ => none
  | .updateSubscriptionRelState =>
    match w.pc with
    | .updating => some { s with worker := some { w with pc := .committing } }
    | _ => none
  | .commit =>
    match w.pc with
    | .committing => some { s with catalog := w.relstate, worker := some { w with pc := .releasing } }
    | _ => none
  | .sessionReset =>
    match w.pc with
    | .releasing => some { s with worker := some { w with pc := .finishing } }
    | _ => none
  | .exit => some { s with worker := none }

inductive LeaderEvent
  | acceptInvalidationMessages
  | fetchTableStates
  /-- `launch`: there is a free slot, and the last start was long enough ago. -/
  | visit (currentLsn : Nat) (launch : Bool)
  | markReady
  | stopWaiting
  | exit
deriving DecidableEq

def logicalrepWorkerLaunch : SyncWorker where
  relstate := ⟨.unknown, 0⟩
  pc := .starting

def notReady (catalog : RelState) : Option RelState :=
  if catalog.state = .ready then none else some catalog

def visit (s : State) (l : Leader) (currentLsn : Nat) (launch : Bool) : State :=
  match l.rstate with
  | none => { s with leader := some { l with pc := .idle } }
  | some rstate =>
    if rstate.state = .syncdone then
      if rstate.lsn ≤ currentLsn then
        { s with leader := some { l with rstate := some ⟨.ready, currentLsn⟩, pc := .readying } }
      else { s with leader := some { l with pc := .idle } }
    else
      match s.worker with
      | some w =>
        if w.relstate.state = .syncwait then
          let target := max w.relstate.lsn currentLsn
          { s with
            worker := some { w with relstate := ⟨.catchup, target⟩ }
            leader := some { l with rstate := some w.relstate, pc := .waiting }
            target }
        else { s with leader := some { l with rstate := some w.relstate, pc := .idle } }
      | none =>
        { s with
          worker := if launch then some logicalrepWorkerLaunch else none
          leader := some { l with pc := .idle } }

def leaderStep (s : State) (l : Leader) : LeaderEvent → Option State
  | .acceptInvalidationMessages => some { s with leader := some { l with tableStatesValid := false } }
  | .fetchTableStates =>
    match l.pc with
    | .idle =>
      let rstate := if l.tableStatesValid then l.rstate else notReady s.catalog
      some { s with leader := some { rstate, tableStatesValid := true, pc := .processing } }
    | _ => none
  | .visit currentLsn launch =>
    match l.pc with
    | .processing => some (visit s l currentLsn launch)
    | _ => none
  | .markReady =>
    match l.pc, l.rstate with
    | .readying, some rstate =>
      -- dropping the origin waits for its owner
      if s.worker.any SyncWorker.ownsOrigin then none
      else some { s with
        catalog := rstate
        leader := some { l with tableStatesValid := false, pc := .idle } }
    | _, _ => none
  | .stopWaiting =>
    match l.pc with
    | .waiting =>
      if s.catalog.state = .syncdone ∨ s.worker = none then
        some { s with leader := some { l with pc := .idle } }
      else none
    | _ => none
  | .exit => some { s with leader := none }

inductive Event
  | sync (ev : SyncEvent)
  | leader (ev : LeaderEvent)
  | leaderStart
  | crash
deriving DecidableEq

def State.step (s : State) : Event → Option State
  | .sync ev => s.worker.bind fun w => syncStep s w ev
  | .leader ev => s.leader.bind fun l => leaderStep s l ev
  | .leaderStart =>
    if s.leader = none then
      some { s with leader := some { rstate := none, tableStatesValid := false, pc := .idle } }
    else none
  | .crash => some { s with worker := none, leader := none }

def Step (s : State) (ev : Event) (t : State) : Prop := s.step ev = some t

def FallsBack (s t : State) : Prop :=
  t.worker = none ∧ t.catalog = s.catalog ∧ t.catalog.state.resumable = true

inductive Moves (s t : State) : Prop
  | stays (h : t.current = s.current)
  | forward (h : t.current.rank = s.current.rank + 1) (hcatchup : t.current.rank ≤ 5)
  | syncdone (lsn : Nat) (hs : s.current = .catchup) (ht : t.current = .syncdone)
      (hlsn : ∃ pc, t.worker = some ⟨⟨.syncdone, lsn⟩, pc⟩) (htarget : s.target ≤ lsn)
  | ready (lsn : Nat) (hs : s.current = .syncdone ∨ s.current = .finishedcopy)
      (hl : ∃ l, s.leader = some l ∧ l.pc = .readying) (ht : t.current = .ready)
      (hlsn : t.catalog = ⟨.ready, lsn⟩) (hdone : s.done ≤ lsn)
  | fallsBack (h : FallsBack s t)

def Seen (s : State) (relstate : RelState) : Prop :=
  relstate = s.catalog ∨ s.catalog.state = .ready ∧
      (relstate.state = .ready ∨ relstate.state = .syncdone ∧ relstate.lsn = s.done)

def SyncWorker.Inv (s : State) (w : SyncWorker) : Prop :=
  match w.pc with
  | .starting => w.relstate.state = .unknown
  | .fetched relstate => w.relstate.state = .unknown ∧ Seen s relstate
  | .beginCopy =>
    w.relstate = s.catalog ∧ (s.catalog.state = .init ∨ s.catalog.state = .datasync)
  | .marking =>
    w.relstate.state = .datasync ∧ (s.catalog.state = .init ∨ s.catalog.state = .datasync)
  | .copying => w.relstate.state = .datasync ∧ s.catalog.state = .datasync
  | .copyTableDone .. =>
    w.relstate.state.rank ≤ 3 ∧ s.catalog.state = .finishedcopy
  | .waiting _ | .applying =>
    (w.relstate.state = .syncwait ∨ w.relstate = ⟨.catchup, s.target⟩) ∧ s.catalog.state = .finishedcopy
  | .updating | .committing =>
    w.relstate = ⟨.syncdone, s.done⟩ ∧ s.target ≤ s.done ∧ s.catalog.state = .finishedcopy
  | .releasing => w.relstate = ⟨.syncdone, s.done⟩ ∧ s.catalog = ⟨.syncdone, s.done⟩
  | .finishing => Seen s w.relstate

def DoneSeen (s : State) : Prop :=
  s.catalog.state = .syncdone ∨ s.catalog.state = .ready ∨ s.catalog.state = .finishedcopy ∧
      ∀ w, s.worker = some w → w.pc = .updating ∨ w.pc = .committing

structure Leader.Inv (s : State) (l : Leader) : Prop where
  cached : ∀ rstate, l.rstate = some rstate → rstate.state = .syncdone → rstate.lsn = s.done ∧ DoneSeen s
  readying : l.pc = .readying → ∃ lsn, l.rstate = some ⟨.ready, lsn⟩ ∧ s.done ≤ lsn ∧ DoneSeen s

structure State.Inv (s : State) : Prop where
  persisted : s.catalog.state.persisted = true
  syncdone : s.catalog.state = .syncdone → s.catalog.lsn = s.done
  worker : ∀ w, s.worker = some w → w.Inv s
  leader : ∀ l, s.leader = some l → l.Inv s

theorem inv_init {catalog : RelState} (h : catalog.state.persisted = true) : (State.init catalog).Inv where
  persisted := h
  syncdone := fun _ => rfl
  worker := by rintro _ ⟨⟩
  leader := by rintro _ ⟨⟩

variable {s t : State} {w : SyncWorker} {l : Leader}

theorem current_worker (hw : s.worker = some w) (h : s.catalog.state.rank < w.relstate.state.rank) :
    s.current = w.relstate.state := by
  simp [State.current, hw, h]

theorem current_catalog (hw : s.worker = some w)
    (h : w.relstate.state.rank ≤ s.catalog.state.rank) : s.current = s.catalog.state := by
  have hnot : ¬ s.catalog.state.rank < w.relstate.state.rank := by omega
  simp [State.current, hw, hnot]

theorem current_none (hw : s.worker = none) : s.current = s.catalog.state := by
  simp [State.current, hw]

theorem catalog_le_current (s : State) : s.catalog.state.rank ≤ s.current.rank := by
  cases hw : s.worker with
  | none => simp [current_none hw]
  | some w =>
    rcases Nat.lt_or_ge s.catalog.state.rank w.relstate.state.rank with hlt | hge
    · rw [current_worker hw hlt]
      exact Nat.le_of_lt hlt
    · simp [current_catalog hw hge]

theorem Leader.Inv.congr (h : l.Inv s) (hd : DoneSeen s → DoneSeen t ∧ t.done = s.done) : l.Inv t where
  cached rstate hr hstate := by
    obtain ⟨hlsn, hseen⟩ := h.cached rstate hr hstate
    obtain ⟨hseen', hdone⟩ := hd hseen
    exact ⟨by rw [hlsn, hdone], hseen'⟩
  readying hpc := by
    obtain ⟨lsn, hr, hle, hseen⟩ := h.readying hpc
    obtain ⟨hseen', hdone⟩ := hd hseen
    exact ⟨lsn, hr, by omega, hseen'⟩

theorem not_doneSeen (hw : s.worker = some w) (hcat : s.catalog.state.resumable = true)
    (hup : w.pc ≠ .updating) (hcommit : w.pc ≠ .committing) : ¬ DoneSeen s := by
  rintro (hdone | hdone | ⟨-, hpc⟩)
  · simp [hdone, SubRelState.resumable] at hcat
  · simp [hdone, SubRelState.resumable] at hcat
  · rcases hpc w hw with h | h
    · exact hup h
    · exact hcommit h

theorem DoneSeen.setWorker {w' : SyncWorker} (h : DoneSeen s) (hw : s.worker = some w)
    (hpc : w.pc = .updating ∨ w.pc = .committing → w'.pc = .updating ∨ w'.pc = .committing) :
    DoneSeen { s with worker := some w' } := by
  rcases h with h | h | ⟨hcat, h⟩
  · exact .inl h
  · exact .inr (.inl h)
  · refine .inr (.inr ⟨hcat, fun v hv => ?_⟩)
    obtain rfl : w' = v := Option.some.inj hv
    exact hpc (h w hw)

theorem State.Inv.setWorker {w' : SyncWorker} (h : s.Inv) (hw : s.worker = some w)
    (hpc : w.pc = .updating ∨ w.pc = .committing → w'.pc = .updating ∨ w'.pc = .committing)
    (hinv : w'.Inv s) : State.Inv { s with worker := some w' } where
  persisted := h.persisted
  syncdone := h.syncdone
  worker v hv := by
    obtain rfl : w' = v := Option.some.inj hv
    exact hinv
  leader l hl := (h.leader l hl).congr fun hseen => ⟨hseen.setWorker hw hpc, rfl⟩

theorem State.Inv.dropWorker (h : s.Inv) : State.Inv { s with worker := none } where
  persisted := h.persisted
  syncdone := h.syncdone
  worker := by rintro _ ⟨⟩
  leader l hl := (h.leader l hl).congr fun hseen => by
    refine ⟨?_, rfl⟩
    rcases hseen with h | h | ⟨h, -⟩
    · exact .inl h
    · exact .inr (.inl h)
    · exact .inr (.inr ⟨h, (by rintro _ ⟨⟩)⟩)

theorem State.Inv.dropLeader (h : s.Inv) : State.Inv { s with leader := none } :=
  { h with leader := (by rintro _ ⟨⟩) }

theorem State.Inv.setCatalog {w' : SyncWorker} {catalog : RelState} {done : Nat} (h : s.Inv)
    (hseen : ¬ DoneSeen s) (hpersisted : catalog.state.persisted = true)
    (hsyncdone : catalog.state ≠ .syncdone)
    (hinv : w'.Inv { s with catalog, done }) :
    State.Inv { s with catalog, done, worker := some w' } where
  persisted := hpersisted
  syncdone hc := (hsyncdone hc).elim
  worker v hv := by
    obtain rfl : w' = v := Option.some.inj hv
    exact hinv
  leader l hl := (h.leader l hl).congr fun hs => (hseen hs).elim

theorem seen_of_catalog (h : s.Inv) {relstate : RelState} (hseen : Seen s relstate) :
    relstate.state.persisted = true ∧ relstate.state.rank ≤ s.catalog.state.rank := by
  rcases hseen with rfl | ⟨hcat, hstate | ⟨hstate, -⟩⟩
  · exact ⟨h.persisted, Nat.le_refl _⟩
  · rw [hstate, hcat]
    exact ⟨rfl, by decide⟩
  · rw [hstate, hcat]
    exact ⟨rfl, by decide⟩

theorem SyncWorker.Inv.rank_le (h : s.Inv) (hw : s.worker = some w) (hcat : ¬ s.catalog.state.resumable = true) :
    w.relstate.state.rank ≤ s.catalog.state.rank := by
  have hinv := h.worker w hw
  unfold SyncWorker.Inv at hinv
  split at hinv
  · simp [hinv, SubRelState.rank]
  · simp [hinv.1, SubRelState.rank]
  · simp [hinv.1]
  · rcases hinv.2 with hc | hc <;> simp [hc, SubRelState.resumable] at hcat
  · simp [hinv.2, SubRelState.resumable] at hcat
  · simp [hinv.2, SubRelState.resumable] at hcat
  · simp [hinv.2, SubRelState.resumable] at hcat
  · simp [hinv.2, SubRelState.resumable] at hcat
  · simp [hinv.2.2, SubRelState.resumable] at hcat
  · simp [hinv.2.2, SubRelState.resumable] at hcat
  · simp [hinv.1, hinv.2]
  · exact (seen_of_catalog h hinv).2

theorem moves_drop (h : s.Inv) (ht : t.worker = none) (hcatalog : t.catalog = s.catalog) : Moves s t := by
  by_cases hcat : s.catalog.state.resumable = true
  · exact .fallsBack ⟨ht, hcatalog, by rw [hcatalog]; exact hcat⟩
  · refine .stays ?_
    rw [current_none ht, hcatalog]
    cases hw : s.worker with
    | none => rw [current_none hw]
    | some w => rw [current_catalog hw (SyncWorker.Inv.rank_le h hw hcat)]

theorem moves_stays {w' : SyncWorker} (hw : s.worker = some w) (ht : t.worker = some w')
    (hrel : w'.relstate = w.relstate) (hcatalog : t.catalog = s.catalog) : Moves s t :=
  .stays (by simp [State.current, hw, ht, hrel, hcatalog])

theorem syncStep_spec {ev : SyncEvent} (h : s.Inv) (hw : s.worker = some w)
    (hs : syncStep s w ev = some t) : t.Inv ∧ Moves s t := by
  have hinv := h.worker w hw
  cases ev with
  | getSubscriptionRelState =>
    simp only [syncStep] at hs
    split at hs
    · next hpc =>
      cases hs
      simp only [SyncWorker.Inv, hpc] at hinv
      exact ⟨h.setWorker hw (by simp [hpc]) ⟨hinv, .inl rfl⟩, moves_stays hw rfl rfl rfl⟩
    · cases hs
  | enter progress =>
    simp only [syncStep] at hs
    split at hs
    · next relstate hpc =>
      simp only [SyncWorker.Inv, hpc] at hinv
      obtain ⟨hunknown, hseen⟩ := hinv
      obtain ⟨hpersisted, hrank⟩ := seen_of_catalog h hseen
      obtain ⟨pc, henter, rfl⟩ := Option.map_eq_some_iff.mp hs
      refine ⟨h.setWorker hw (by simp [hpc]) ?_, .stays ?_⟩
      · -- the worker goes where the catalog's state sends it
        unfold enter at henter
        split at henter
        · next hstate => cases henter; exact hseen
        · next hstate => cases henter; exact hseen
        · next hstate => cases henter; exact hseen
        · next hstate =>
          cases henter
          rcases hseen with rfl | ⟨-, hdone⟩
          · exact ⟨by simp [hstate, SubRelState.rank], hstate⟩
          · simp [hstate] at hdone
        · next hstate =>
          cases henter
          rcases hseen with rfl | ⟨-, hdone⟩
          · exact ⟨rfl, .inl hstate⟩
          · simp [hstate] at hdone
        · next hstate =>
          cases henter
          rcases hseen with rfl | ⟨-, hdone⟩
          · exact ⟨rfl, .inr hstate⟩
          · simp [hstate] at hdone
        · cases henter
        · cases henter
      · have hold : w.relstate.state.rank ≤ s.catalog.state.rank := by
          simp [hunknown, SubRelState.rank]
        rw [current_catalog hw hold]
        exact current_catalog rfl hrank
    · cases hs
  | setDatasync =>
    simp only [syncStep] at hs
    split at hs
    · next hpc =>
      cases hs
      simp only [SyncWorker.Inv, hpc] at hinv
      obtain ⟨hrel, hcat⟩ := hinv
      refine ⟨h.setWorker hw (by simp [hpc]) ⟨rfl, hcat⟩, ?_⟩
      rcases hcat with hcat | hcat
      · exact .forward (by simp [State.current, hw, hrel, hcat, SubRelState.rank])
          (by simp [State.current, hcat, SubRelState.rank])
      · exact .stays (by simp [State.current, hw, hrel, hcat])
    · cases hs
  | persistDatasync =>
    simp only [syncStep] at hs
    split at hs
    · next hpc =>
      cases hs
      simp only [SyncWorker.Inv, hpc] at hinv
      obtain ⟨hrel, hcat⟩ := hinv
      have hseen : ¬ DoneSeen s := by
        apply not_doneSeen hw _ (by simp [hpc]) (by simp [hpc])
        rcases hcat with hcat | hcat <;> simp [hcat, SubRelState.resumable]
      refine ⟨h.setCatalog hseen (by simp [hrel, SubRelState.persisted, SubRelState.resumable])
        (by simp [hrel]) ⟨hrel, hrel⟩, .stays ?_⟩
      rcases hcat with hcat | hcat <;> simp [State.current, hw, hrel, hcat, SubRelState.rank]
    · cases hs
  | persistFinishedcopy originStartpos =>
    simp only [syncStep] at hs
    split at hs
    · next hpc =>
      cases hs
      simp only [SyncWorker.Inv, hpc] at hinv
      obtain ⟨hrel, hcat⟩ := hinv
      have hseen : ¬ DoneSeen s :=
        not_doneSeen hw (by simp [hcat, SubRelState.resumable]) (by simp [hpc]) (by simp [hpc])
      refine ⟨h.setCatalog hseen rfl (by simp) ⟨by simp [hrel, SubRelState.rank], rfl⟩, .forward ?_ ?_⟩
      · simp [State.current, hw, hrel, hcat, SubRelState.rank]
      · simp [State.current, hrel, SubRelState.rank]
    · cases hs
  | setSyncwait =>
    simp only [syncStep] at hs
    split at hs
    · next originStartpos rel hpc =>
      cases hs
      simp only [SyncWorker.Inv, hpc] at hinv
      obtain ⟨hrel, hcat⟩ := hinv
      have hold : s.current = .finishedcopy := by
        rw [current_catalog hw (by simpa [hcat, SubRelState.rank] using hrel), hcat]
      refine ⟨h.setWorker hw (by simp [hpc]) ⟨.inl rfl, hcat⟩, .forward ?_ ?_⟩
      · rw [hold]
        simp [State.current, hcat, SubRelState.rank]
      · simp [State.current, hcat, SubRelState.rank]
    · cases hs
  | leaveWait =>
    simp only [syncStep] at hs
    split at hs
    · next rel hpc =>
      simp only [SyncWorker.Inv, hpc] at hinv
      split at hs
      · split at hs
        · cases hs
          exact ⟨h.setWorker hw (by simp [hpc]) hinv, moves_stays hw rfl rfl rfl⟩
        · cases hs
          exact ⟨h.dropWorker.dropLeader, moves_drop h rfl rfl⟩
      · cases hs
    · cases hs
  | processSyncingTables currentLsn =>
    simp only [syncStep] at hs
    split at hs
    · next hpc =>
      simp only [SyncWorker.Inv, hpc] at hinv
      obtain ⟨hrel, hcat⟩ := hinv
      split at hs
      · next hreached =>
        cases hs
        obtain ⟨hcatchup, hle⟩ := hreached
        -- the target is the one that the leader set
        have htarget : w.relstate = ⟨.catchup, s.target⟩ := by
          rcases hrel with hwait | hrel
          · simp [hwait] at hcatchup
          · exact hrel
        rw [htarget] at hle
        have hseen : ¬ DoneSeen s :=
          not_doneSeen hw (by simp [hcat, SubRelState.resumable]) (by simp [hpc]) (by simp [hpc])
        refine ⟨?_, .syncdone currentLsn ?_ ?_ ⟨.updating, rfl⟩ hle⟩
        · exact h.setCatalog hseen h.persisted (by simp [hcat]) ⟨rfl, hle, hcat⟩
        · simp [State.current, hw, htarget, hcat, SubRelState.rank]
        · simp [State.current, hcat, SubRelState.rank]
      · cases hs
        exact ⟨h, .stays rfl⟩
    · cases hs
  | updateSubscriptionRelState =>
    simp only [syncStep] at hs
    split at hs
    · next hpc =>
      cases hs
      simp only [SyncWorker.Inv, hpc] at hinv
      exact ⟨h.setWorker hw (fun _ => .inr rfl) hinv, moves_stays hw rfl rfl rfl⟩
    · cases hs
  | commit =>
    simp only [syncStep] at hs
    split at hs
    · next hpc =>
      cases hs
      simp only [SyncWorker.Inv, hpc] at hinv
      obtain ⟨hrel, -, hcat⟩ := hinv
      refine ⟨⟨by rw [hrel]; rfl, fun _ => by rw [hrel], ?_, ?_⟩, .stays ?_⟩
      · intro v hv
        cases hv
        exact ⟨hrel, hrel⟩
      · intro l hl
        exact (h.leader l hl).congr fun _ => ⟨.inl (by rw [hrel]), rfl⟩
      · simp [State.current, hw, hrel, hcat, SubRelState.rank]
    · cases hs
  | sessionReset =>
    simp only [syncStep] at hs
    split at hs
    · next hpc =>
      cases hs
      simp only [SyncWorker.Inv, hpc] at hinv
      exact ⟨h.setWorker hw (by simp [hpc]) (.inl (by rw [hinv.1, hinv.2])), moves_stays hw rfl rfl rfl⟩
    · cases hs
  | exit =>
    cases hs
    exact ⟨h.dropWorker, moves_drop h rfl rfl⟩

theorem State.Inv.setLeader {l' : Leader} (h : s.Inv) (hinv : l'.Inv s) : State.Inv { s with leader := some l' } where
  persisted := h.persisted
  syncdone := h.syncdone
  worker := h.worker
  leader v hv := by
    obtain rfl : l' = v := Option.some.inj hv
    exact ⟨hinv.cached, hinv.readying⟩

theorem doneSeen_of_relstate (h : s.Inv) (hw : s.worker = some w)
    (hstate : w.relstate.state = .syncdone) : w.relstate.lsn = s.done ∧ DoneSeen s := by
  have hinv := h.worker w hw
  unfold SyncWorker.Inv at hinv
  split at hinv
  · simp [hstate] at hinv
  · simp [hstate] at hinv
  · obtain ⟨hrel, hcat⟩ := hinv
    rw [hrel] at hstate
    simp [hstate] at hcat
  · simp [hstate] at hinv
  · simp [hstate] at hinv
  · simp [hstate, SubRelState.rank] at hinv
  · rcases hinv.1 with hrel | hrel <;> simp [hrel] at hstate
  · rcases hinv.1 with hrel | hrel <;> simp [hrel] at hstate
  · next hpc =>
    refine ⟨by rw [hinv.1], .inr (.inr ⟨hinv.2.2, fun v hv => .inl ?_⟩)⟩
    obtain rfl : w = v := Option.some.inj (hw.symm.trans hv)
    exact hpc
  · next hpc =>
    refine ⟨by rw [hinv.1], .inr (.inr ⟨hinv.2.2, fun v hv => .inr ?_⟩)⟩
    obtain rfl : w = v := Option.some.inj (hw.symm.trans hv)
    exact hpc
  · exact ⟨by rw [hinv.1], .inl (by rw [hinv.2])⟩
  · rcases hinv with hrel | ⟨hcat, hready | ⟨-, hlsn⟩⟩
    · rw [hrel] at hstate ⊢
      exact ⟨h.syncdone hstate, .inl hstate⟩
    · simp [hstate] at hready
    · exact ⟨hlsn, .inr (.inl hcat)⟩

theorem waiting_of_syncwait (h : s.Inv) (hw : s.worker = some w) (hstate : w.relstate.state = .syncwait) :
    s.catalog.state = .finishedcopy ∧ (w.pc = .applying ∨ ∃ rel, w.pc = .waiting rel) := by
  have hinv := h.worker w hw
  unfold SyncWorker.Inv at hinv
  split at hinv
  · simp [hstate] at hinv
  · simp [hstate] at hinv
  · obtain ⟨hrel, hcat⟩ := hinv
    rw [hrel] at hstate
    simp [hstate] at hcat
  · simp [hstate] at hinv
  · simp [hstate] at hinv
  · simp [hstate, SubRelState.rank] at hinv
  · next rel hpc => exact ⟨hinv.2, .inr ⟨rel, hpc⟩⟩
  · next hpc => exact ⟨hinv.2, .inl hpc⟩
  · simp [hinv.1] at hstate
  · simp [hinv.1] at hstate
  · simp [hinv.1] at hstate
  · obtain ⟨hpersisted, -⟩ := seen_of_catalog h hinv
    simp [hstate, SubRelState.persisted, SubRelState.resumable] at hpersisted

theorem SyncWorker.Inv.catchup (h : s.Inv) (hw : s.worker = some w)
    (hstate : w.relstate.state = .syncwait) (target : Nat) :
    SyncWorker.Inv { s with target } { w with relstate := ⟨.catchup, target⟩ } := by
  obtain ⟨hcat, hpc | ⟨rel, hpc⟩⟩ := waiting_of_syncwait h hw hstate
  · simpa [SyncWorker.Inv, hpc] using hcat
  · simpa [SyncWorker.Inv, hpc] using hcat

theorem visit_spec {currentLsn : Nat} {launch : Bool} (h : s.Inv) (hl : s.leader = some l) :
    (visit s l currentLsn launch).Inv ∧ Moves s (visit s l currentLsn launch) := by
  have hlinv := h.leader l hl
  unfold visit
  split
  · exact ⟨h.setLeader ⟨hlinv.cached, (by rintro ⟨⟩)⟩, .stays rfl⟩
  · next rstate hr =>
    split
    · next hdone =>
      obtain ⟨hlsn, hseen⟩ := hlinv.cached rstate hr hdone
      split
      · next hle =>
        refine ⟨h.setLeader ⟨?_, fun _ => ⟨currentLsn, rfl, by omega, hseen⟩⟩, .stays rfl⟩
        rintro _ ⟨⟩ hstate
        cases hstate
      · exact ⟨h.setLeader ⟨hlinv.cached, (by rintro ⟨⟩)⟩, .stays rfl⟩
    · next hdone =>
      split
      · next w hw =>
        split
        · next hwait =>
          obtain ⟨hcat, hwpc⟩ := waiting_of_syncwait h hw hwait
          refine ⟨⟨h.persisted, h.syncdone, ?_, ?_⟩, .forward ?_ ?_⟩
          · rintro _ ⟨⟩
            exact SyncWorker.Inv.catchup h hw hwait _
          · rintro _ ⟨⟩
            refine ⟨?_, (by rintro ⟨⟩)⟩
            rintro _ ⟨⟩ hstate
            simp [hwait] at hstate
          · simp [State.current, hw, hwait, hcat, SubRelState.rank]
          · simp [State.current, hcat, SubRelState.rank]
        · next hwait =>
          refine ⟨h.setLeader ⟨?_, (by rintro ⟨⟩)⟩, .stays rfl⟩
          rintro _ ⟨⟩ hstate
          exact doneSeen_of_relstate h hw hstate
      · next hw =>
        have hcached : ∀ r, l.rstate = some r → r.state ≠ .syncdone := by
          intro r hr' hstate
          obtain rfl : rstate = r := Option.some.inj (hr.symm.trans hr')
          exact hdone hstate
        cases launch with
        | false =>
          refine ⟨⟨h.persisted, h.syncdone, (by rintro _ ⟨⟩), ?_⟩, .stays (by simp [State.current, hw])⟩
          rintro _ ⟨⟩
          exact ⟨fun r hr' hstate => (hcached r hr' hstate).elim, (by rintro ⟨⟩)⟩
        | true =>
          refine ⟨⟨h.persisted, h.syncdone, ?_, ?_⟩, .stays ?_⟩
          · rintro _ ⟨⟩
            exact rfl
          · rintro _ ⟨⟩
            exact ⟨fun r hr' hstate => (hcached r hr' hstate).elim, (by rintro ⟨⟩)⟩
          · simp [State.current, hw, logicalrepWorkerLaunch, SubRelState.rank]

theorem SyncWorker.Inv.markReady {lsn : Nat} (h : s.Inv) (hw : s.worker = some w)
    (hseen : DoneSeen s) (hfree : w.ownsOrigin = false) :
    SyncWorker.Inv { s with catalog := ⟨.ready, lsn⟩ } w := by
  have hinv := h.worker w hw
  have hread : ∀ relstate, Seen s relstate → Seen { s with catalog := ⟨.ready, lsn⟩ } relstate := by
    rintro relstate (rfl | ⟨hcat, hstate⟩)
    · rcases hseen with hdone | hready | ⟨-, hpc⟩
      · exact .inr ⟨rfl, .inr ⟨hdone, h.syncdone hdone⟩⟩
      · exact .inr ⟨rfl, .inl hready⟩
      · rcases hpc w hw with hpc | hpc <;> simp [SyncWorker.ownsOrigin, hpc] at hfree
    · exact .inr ⟨rfl, hstate⟩
  have hnot : ¬ s.catalog.state.resumable = true := by
    rintro hcat
    rcases hseen with hdone | hready | ⟨-, hpc⟩
    · simp [hdone, SubRelState.resumable] at hcat
    · simp [hready, SubRelState.resumable] at hcat
    · rcases hpc w hw with hpc | hpc <;> simp [SyncWorker.ownsOrigin, hpc] at hfree
  unfold SyncWorker.Inv at hinv ⊢
  cases hpc : w.pc with
  | starting => simpa [hpc] using hinv
  | fetched relstate =>
    simp only [hpc] at hinv ⊢
    exact ⟨hinv.1, hread _ hinv.2⟩
  | beginCopy | marking =>
    simp only [hpc] at hinv
    rcases hinv.2 with hcat | hcat <;> simp [hcat, SubRelState.resumable] at hnot
  | copying =>
    simp only [hpc] at hinv
    simp [hinv.2, SubRelState.resumable] at hnot
  | finishing =>
    simp only [hpc] at hinv ⊢
    exact hread _ hinv
  | copyTableDone _ _ | waiting _ | applying | updating | committing | releasing =>
    simp [SyncWorker.ownsOrigin, hpc] at hfree

theorem current_ready (h : s.catalog.state = .ready) : s.current = .ready := by
  have hrank : ∀ state : SubRelState, state.rank ≤ 7 := by
    intro state
    cases state <;> decide
  cases hw : s.worker with
  | none => rw [current_none hw, h]
  | some w => rw [current_catalog hw (by rw [h]; exact hrank _), h]

theorem current_of_doneSeen (h : s.Inv) (hseen : DoneSeen s) (hfree : ∀ w, s.worker = some w → w.ownsOrigin = false) :
    s.current = .syncdone ∨ s.current = .ready ∨ s.current = .finishedcopy ∧ s.catalog.state = .finishedcopy := by
  rcases hseen with hdone | hready | ⟨hcat, hpc⟩
  · refine .inl ?_
    cases hw : s.worker with
    | none => rw [current_none hw, hdone]
    | some w =>
      have hrank := SyncWorker.Inv.rank_le h hw (by simp [hdone, SubRelState.resumable])
      rw [current_catalog hw hrank, hdone]
  · exact .inr (.inl (current_ready hready))
  · refine .inr (.inr ⟨?_, hcat⟩)
    cases hw : s.worker with
    | none => rw [current_none hw, hcat]
    | some w =>
      have hfree := hfree w hw
      rcases hpc w hw with hpc | hpc <;> simp [SyncWorker.ownsOrigin, hpc] at hfree

theorem leaderStep_spec {ev : LeaderEvent} (h : s.Inv) (hl : s.leader = some l)
    (hs : leaderStep s l ev = some t) : t.Inv ∧ Moves s t := by
  have hlinv := h.leader l hl
  cases ev with
  | acceptInvalidationMessages =>
    cases hs
    exact ⟨h.setLeader ⟨hlinv.cached, hlinv.readying⟩, .stays rfl⟩
  | fetchTableStates =>
    simp only [leaderStep] at hs
    split at hs
    · cases hs
      refine ⟨h.setLeader ⟨?_, (by rintro ⟨⟩)⟩, .stays rfl⟩
      intro rstate hr hstate
      simp only [notReady] at hr
      split at hr
      · exact hlinv.cached rstate hr hstate
      · split at hr
        · cases hr
        · obtain rfl := Option.some.inj hr
          exact ⟨h.syncdone hstate, .inl hstate⟩
    · cases hs
  | visit currentLsn launch =>
    simp only [leaderStep] at hs
    split at hs
    · cases hs
      exact visit_spec h hl
    · cases hs
  | markReady =>
    simp only [leaderStep] at hs
    split at hs
    · next rstate hpc hr =>
      split at hs
      · cases hs
      · next hfree =>
        cases hs
        obtain ⟨lsn, hr', hle, hseen⟩ := hlinv.readying hpc
        obtain rfl : rstate = ⟨.ready, lsn⟩ := Option.some.inj (hr.symm.trans hr')
        have hworker : ∀ w, s.worker = some w → w.ownsOrigin = false := by
          intro w hw
          simpa [hw] using hfree
        refine ⟨⟨rfl, (by rintro ⟨⟩), fun w hw => ?_, ?_⟩, ?_⟩
        · exact SyncWorker.Inv.markReady h hw hseen (hworker w hw)
        · rintro _ ⟨⟩
          refine ⟨fun r hr' hstate => ?_, (by rintro ⟨⟩)⟩
          obtain rfl := Option.some.inj (hr.symm.trans hr')
          cases hstate
        · rcases current_of_doneSeen h hseen hworker with hcur | hcur | ⟨hcur, -⟩
          · exact .ready lsn (.inl hcur) ⟨l, hl, hpc⟩ (current_ready rfl) rfl hle
          · exact .stays (by rw [hcur]; exact current_ready rfl)
          · exact .ready lsn (.inr hcur) ⟨l, hl, hpc⟩ (current_ready rfl) rfl hle
    · cases hs
  | stopWaiting =>
    simp only [leaderStep] at hs
    split at hs
    · split at hs
      · cases hs
        exact ⟨h.setLeader ⟨hlinv.cached, (by rintro ⟨⟩)⟩, .stays rfl⟩
      · cases hs
    · cases hs
  | exit =>
    cases hs
    exact ⟨h.dropLeader, .stays rfl⟩

theorem step_spec {ev : Event} (h : s.Inv) (hs : Step s ev t) : t.Inv ∧ Moves s t := by
  cases ev with
  | sync ev =>
    obtain ⟨w, hw, hstep⟩ := Option.bind_eq_some_iff.mp hs
    exact syncStep_spec h hw hstep
  | leader ev =>
    obtain ⟨l, hl, hstep⟩ := Option.bind_eq_some_iff.mp hs
    exact leaderStep_spec h hl hstep
  | leaderStart =>
    simp only [Step, State.step] at hs
    split at hs
    · cases hs
      exact ⟨h.setLeader ⟨(by intros; contradiction), (by intros; contradiction)⟩, .stays rfl⟩
    · cases hs
  | crash =>
    cases hs
    exact ⟨h.dropWorker.dropLeader, moves_drop h rfl rfl⟩

def SyncWorker.catchingUp (w : SyncWorker) : Bool :=
  w.relstate.state = .catchup || w.pc = .updating || w.pc = .committing

structure State.Attended (s : State) : Prop where
  launched : s.leader = none → s.worker = none
  waits : ∀ w, s.worker = some w → w.catchingUp = true → ∃ l, s.leader = some l ∧ l.pc = .waiting
  cached : ∀ l, s.leader = some l → (∃ rstate, l.rstate = some rstate ∧ rstate.state = .syncdone) ∨ l.pc = .readying →
      s.catalog.state = .syncdone ∨ s.catalog.state = .ready

theorem attended_init (catalog : RelState) : (State.init catalog).Attended where
  launched := fun _ => rfl
  waits := by rintro _ ⟨⟩
  cached := by rintro _ ⟨⟩

theorem catalog_of_catchingUp (h : s.Inv) (hw : s.worker = some w) (hc : w.catchingUp = true) :
    s.catalog.state = .finishedcopy := by
  have hinv := h.worker w hw
  unfold SyncWorker.Inv at hinv
  split at hinv
  · next hpc => simp [SyncWorker.catchingUp, hpc, hinv] at hc
  · next hpc => simp [SyncWorker.catchingUp, hpc, hinv.1] at hc
  · next hpc =>
    rcases hinv.2 with hcat | hcat <;> simp [SyncWorker.catchingUp, hpc, hinv.1, hcat] at hc
  · next hpc => simp [SyncWorker.catchingUp, hpc, hinv.1] at hc
  · next hpc => simp [SyncWorker.catchingUp, hpc, hinv.1] at hc
  · exact hinv.2
  · exact hinv.2
  · exact hinv.2
  · exact hinv.2.2
  · exact hinv.2.2
  · next hpc => simp [SyncWorker.catchingUp, hpc, hinv.1] at hc
  · next hpc =>
    obtain ⟨hpersisted, -⟩ := seen_of_catalog h hinv
    have hstate : w.relstate.state = .catchup := by simpa [SyncWorker.catchingUp, hpc] using hc
    simp [hstate, SubRelState.persisted, SubRelState.resumable] at hpersisted

theorem syncStep_attended {ev : SyncEvent} (h : s.Inv) (hw : s.worker = some w) (hs : syncStep s w ev = some t) :
    (t.leader = s.leader ∨ t.leader = none ∧ t.worker = none) ∧
      (∀ w', t.worker = some w' → w'.catchingUp = true → w.catchingUp = true) ∧
      (s.catalog.state = .syncdone ∨ s.catalog.state = .ready → t.catalog = s.catalog) := by
  have hinv := h.worker w hw
  cases ev with
  | enter progress =>
    simp only [syncStep] at hs
    split at hs
    · next relstate hpc =>
      simp only [SyncWorker.Inv, hpc] at hinv
      obtain ⟨hpersisted, -⟩ := seen_of_catalog h hinv.2
      obtain ⟨pc, henter, rfl⟩ := Option.map_eq_some_iff.mp hs
      refine ⟨.inl rfl, ?_, fun _ => rfl⟩
      rintro _ ⟨⟩ hcatching
      unfold enter at henter
      split at henter <;> cases henter <;> simp_all [SyncWorker.catchingUp]
    · cases hs
  | processSyncingTables currentLsn =>
    simp only [syncStep] at hs
    split at hs
    · split at hs
      · next hreached =>
        cases hs
        exact ⟨.inl rfl, fun _ _ _ => by simp [SyncWorker.catchingUp, hreached.1], fun _ => rfl⟩
      · cases hs
        refine ⟨.inl rfl, fun w' hw' hc => ?_, fun _ => rfl⟩
        obtain rfl : w = w' := Option.some.inj (hw.symm.trans hw')
        exact hc
    · cases hs
  | leaveWait =>
    simp only [syncStep] at hs
    split at hs
    · split at hs
      · split at hs
        · cases hs
          refine ⟨.inl rfl, ?_, fun _ => rfl⟩
          rintro _ ⟨⟩ hcatching
          simp_all [SyncWorker.catchingUp]
        · cases hs
          exact ⟨.inr ⟨rfl, rfl⟩, (by rintro _ ⟨⟩), fun _ => rfl⟩
      · cases hs
    · cases hs
  | exit =>
    cases hs
    exact ⟨.inl rfl, (by rintro _ ⟨⟩), fun _ => rfl⟩
  | _ =>
    simp only [syncStep] at hs
    split at hs
    · next hpc =>
      cases hs
      simp only [SyncWorker.Inv, hpc] at hinv
      refine ⟨.inl rfl, ?_, fun hdone => ?_⟩
      · rintro _ ⟨⟩ hcatching
        simp_all [SyncWorker.catchingUp]
      · rcases hdone with hdone | hdone <;> simp_all
    · cases hs

theorem State.Attended.sync {ev : SyncEvent} (h : s.Inv) (ha : s.Attended)
    (hw : s.worker = some w) (hs : syncStep s w ev = some t) : t.Attended := by
  obtain ⟨hleader, hcatching, hcatalog⟩ := syncStep_attended h hw hs
  rcases hleader with hleader | ⟨hleader, hworker⟩
  · refine ⟨fun hnone => ?_, fun w' hw' hc => ?_, fun l hl hcached => ?_⟩
    · have hgone := ha.launched (hleader ▸ hnone)
      rw [hw] at hgone
      cases hgone
    · rw [hleader]
      exact ha.waits w hw (hcatching w' hw' hc)
    · rw [hleader] at hl
      have hdone := ha.cached l hl hcached
      rw [hcatalog hdone]
      exact hdone
  · refine ⟨fun _ => hworker, fun w' hw' => ?_, fun l hl => ?_⟩
    · rw [hworker] at hw'
      cases hw'
    · rw [hleader] at hl
      cases hl

theorem State.Attended.not_catchingUp (ha : s.Attended) (hl : s.leader = some l)
    (hpc : l.pc ≠ .waiting) : ∀ w, s.worker = some w → ¬ w.catchingUp = true := by
  intro w hw hc
  obtain ⟨l', hl', hwaits⟩ := ha.waits w hw hc
  obtain rfl : l = l' := Option.some.inj (hl.symm.trans hl')
  exact hpc hwaits

theorem attended_setLeader {l' : Leader} (hnot : ∀ w, s.worker = some w → ¬ w.catchingUp = true)
    (hcached : (∃ rstate, l'.rstate = some rstate ∧ rstate.state = .syncdone) ∨
      l'.pc = .readying → s.catalog.state = .syncdone ∨ s.catalog.state = .ready) :
    State.Attended { s with leader := some l' } where
  launched := by rintro ⟨⟩
  waits w hw hc := (hnot w hw hc).elim
  cached l hl := by
    obtain rfl : l' = l := Option.some.inj hl
    exact hcached

theorem State.Attended.visit {currentLsn : Nat} {launch : Bool} (h : s.Inv) (ha : s.Attended)
    (hl : s.leader = some l) (hpc : l.pc = .processing) :
    (visit s l currentLsn launch).Attended := by
  have hnot := ha.not_catchingUp hl (by simp [hpc])
  unfold SyncState.visit
  split
  · next hr => exact attended_setLeader hnot (by simp [hr])
  · next rstate hr =>
    split
    · next hdone =>
      have hcat := ha.cached l hl (.inl ⟨rstate, hr, hdone⟩)
      split
      · exact attended_setLeader hnot fun _ => hcat
      · exact attended_setLeader hnot fun _ => hcat
    · next hdone =>
      split
      · next w hw =>
        split
        · next hwait =>
          refine ⟨(by rintro ⟨⟩), fun _ _ _ => ⟨_, rfl, rfl⟩, ?_⟩
          rintro _ ⟨⟩ hcached
          simp [hwait] at hcached
        · refine attended_setLeader hnot fun hcached => ?_
          have hstate : w.relstate.state = .syncdone := by simpa using hcached
          rcases (doneSeen_of_relstate h hw hstate).2 with hcat | hcat | ⟨-, hupdate⟩
          · exact .inl hcat
          · exact .inr hcat
          · -- the worker would be catching up still
            refine (hnot w hw ?_).elim
            rcases hupdate w hw with hup | hup <;> simp [SyncWorker.catchingUp, hup]
      · refine ⟨(by rintro ⟨⟩), fun w hw hc => ?_, ?_⟩
        · cases launch with
          | false => cases hw
          | true =>
            cases hw
            simp [SyncWorker.catchingUp, logicalrepWorkerLaunch] at hc
        · rintro _ ⟨⟩ hcached
          simp [hr, hdone] at hcached

theorem State.Attended.leader {ev : LeaderEvent} (h : s.Inv) (ha : s.Attended)
    (hl : s.leader = some l) (hs : leaderStep s l ev = some t) (hexit : ev ≠ .exit) :
    t.Attended := by
  cases ev with
  | acceptInvalidationMessages =>
    cases hs
    refine ⟨(by rintro ⟨⟩), fun w hw hc => ?_, ?_⟩
    · obtain ⟨l', hl', hwaits⟩ := ha.waits w hw hc
      obtain rfl : l = l' := Option.some.inj (hl.symm.trans hl')
      exact ⟨_, rfl, hwaits⟩
    · rintro _ ⟨⟩ hcached
      exact ha.cached l hl hcached
  | fetchTableStates =>
    simp only [leaderStep] at hs
    split at hs
    · next hpc =>
      cases hs
      refine attended_setLeader (ha.not_catchingUp hl (by simp [hpc])) ?_
      rintro (⟨rstate, hr, hstate⟩ | hready)
      · simp only [notReady] at hr
        split at hr
        · exact ha.cached l hl (.inl ⟨rstate, hr, hstate⟩)
        · split at hr
          · cases hr
          · obtain rfl := Option.some.inj hr
            exact .inl hstate
      · cases hready
    · cases hs
  | visit currentLsn launch =>
    simp only [leaderStep] at hs
    split at hs
    · next hpc =>
      cases hs
      exact ha.visit h hl hpc
    · cases hs
  | markReady =>
    simp only [leaderStep] at hs
    split at hs
    · next rstate hpc hr =>
      split at hs
      · cases hs
      · cases hs
        obtain ⟨lsn, hr', -, -⟩ := (h.leader l hl).readying hpc
        obtain rfl : rstate = ⟨.ready, lsn⟩ := Option.some.inj (hr.symm.trans hr')
        have hnot := ha.not_catchingUp hl (by simp [hpc])
        exact ⟨(by rintro ⟨⟩), fun w hw hc => (hnot w hw hc).elim, fun _ _ _ => .inr rfl⟩
    · cases hs
  | stopWaiting =>
    simp only [leaderStep] at hs
    split at hs
    · split at hs
      · next hended =>
        cases hs
        refine attended_setLeader (fun w hw hc => ?_) fun hcached => ?_
        · rcases hended with hdone | hnone
          · simp [catalog_of_catchingUp h hw hc] at hdone
          · rw [hw] at hnone
            cases hnone
        · exact ha.cached l hl (.inl (by simpa using hcached))
      · cases hs
    · cases hs
  | exit => exact (hexit rfl).elim

theorem State.Attended.step {ev : Event} (h : s.Inv) (ha : s.Attended) (hs : Step s ev t)
    (hexit : ev ≠ .leader .exit) : t.Attended := by
  cases ev with
  | sync ev =>
    obtain ⟨w, hw, hstep⟩ := Option.bind_eq_some_iff.mp hs
    exact ha.sync h hw hstep
  | leader ev =>
    obtain ⟨l, hl, hstep⟩ := Option.bind_eq_some_iff.mp hs
    exact ha.leader h hl hstep fun hev => hexit (by rw [hev])
  | leaderStart =>
    simp only [Step, State.step] at hs
    split at hs
    · next hnone =>
      cases hs
      refine attended_setLeader (fun w hw => ?_) (by simp)
      rw [ha.launched hnone] at hw
      cases hw
    · cases hs
  | crash =>
    cases hs
    exact ⟨fun _ => rfl, (by rintro _ ⟨⟩), (by rintro _ ⟨⟩)⟩

theorem ready_of_attended {ev : Event} (h : s.Inv) (ha : s.Attended) (hs : Step s ev t)
    (ht : t.current = .ready) : s.current = .ready ∨ s.current = .syncdone := by
  obtain ⟨-, hmoves⟩ := step_spec h hs
  cases hmoves with
  | stays hcur => exact .inl (hcur ▸ ht)
  | forward _ hle => simp [ht, SubRelState.rank] at hle
  | syncdone _ _ hdone => simp [ht] at hdone
  | fallsBack hback =>
    obtain ⟨hnone, -, hcat⟩ := hback
    rw [current_none hnone] at ht
    simp [ht, SubRelState.resumable] at hcat
  | ready lsn hcur hreadying =>
    obtain ⟨l, hl, hpc⟩ := hreadying
    rcases hcur with hcur | hcur
    · exact .inr hcur
    · have hle := catalog_le_current s
      rcases ha.cached l hl (.inr hpc) with hcat | hcat <;> simp [hcur, hcat, SubRelState.rank] at hle

theorem inv_of_steps {catalog : RelState} (hc : catalog.state.persisted = true) {es : List Event}
    (hrun : Steps Step (State.init catalog) es s) : s.Inv :=
  hrun.invariant (P := State.Inv) (fun h hs => (step_spec h hs).1) (inv_init hc)

theorem attended_of_steps {catalog : RelState} (hc : catalog.state.persisted = true)
    {es : List Event} (hrun : Steps Step (State.init catalog) es s)
    (hexit : Event.leader .exit ∉ es) : s.Attended := by
  have key : ∀ {r u : State} {es : List Event}, Steps Step r es u → Event.leader .exit ∉ es →
      r.Inv → r.Attended → u.Attended := by
    intro r u es hsteps
    induction hsteps with
    | nil => exact fun _ _ ha => ha
    | cons hstep _ ih =>
      intro hnot h ha
      refine ih (fun hmem => hnot (List.mem_cons_of_mem _ hmem)) (step_spec h hstep).1 ?_
      exact ha.step h hstep fun hev => hnot (by simp [hev])
  exact key hrun hexit (inv_init hc) (attended_init catalog)

/-- Every step of every run, whatever the catalog was at its start, keeps the state of the table,
moves it on to the next one, or brings it back to the catalog's when the worker is gone; SYNCDONE
is entered at or past the target that the leader set, and READY at or past the LSN of SYNCDONE.
READY follows SYNCDONE directly unless a leader has been restarted on its own. -/
theorem moves_of_steps {catalog : RelState} (hc : catalog.state.persisted = true)
    {es : List Event} {ev : Event} (hrun : Steps Step (State.init catalog) es s)
    (hs : Step s ev t) :
    Moves s t ∧ (Event.leader .exit ∉ es → t.current = .ready → s.current = .ready ∨ s.current = .syncdone) := by
  have hinv := inv_of_steps hc hrun
  refine ⟨(step_spec hinv hs).2, fun hexit ht => ?_⟩
  exact ready_of_attended hinv (attended_of_steps hc hrun hexit) hs ht

def syncEvents : List Event :=
  [.leaderStart, .leader .fetchTableStates, .leader (.visit 8 true),
    .sync .getSubscriptionRelState, .sync (.enter 0), .sync .setDatasync, .sync .persistDatasync,
    .sync (.persistFinishedcopy 10), .sync .setSyncwait,
    .leader .fetchTableStates, .leader (.visit 8 false), .sync .leaveWait,
    .sync (.processSyncingTables 12), .sync .updateSubscriptionRelState, .sync .commit,
    .sync .sessionReset, .sync .exit, .leader .stopWaiting, .leader .acceptInvalidationMessages,
    .leader .fetchTableStates, .leader (.visit 12 false)]

def stateAfter (catalog : RelState) (es : List Event) : State :=
  (es.foldlM State.step (State.init catalog)).getD (State.init catalog)

theorem moves_of_steps_syncEvents : ∃ t, Step (stateAfter ⟨.init, 0⟩ syncEvents) (.leader .markReady) t ∧
      Moves (stateAfter ⟨.init, 0⟩ syncEvents) t ∧ t.catalog = ⟨.ready, 12⟩ ∧
      ((stateAfter ⟨.init, 0⟩ syncEvents).current = .ready ∨
        (stateAfter ⟨.init, 0⟩ syncEvents).current = .syncdone) := by
  have hrun : Steps Step (State.init ⟨.init, 0⟩) syncEvents (stateAfter ⟨.init, 0⟩ syncEvents) :=
    steps_of_foldlM (by decide)
  have hstep : Step (stateAfter ⟨.init, 0⟩ syncEvents) (.leader .markReady)
      (stateAfter ⟨.init, 0⟩ (syncEvents ++ [.leader .markReady])) := by
    unfold Step
    decide
  obtain ⟨hmoves, hready⟩ := moves_of_steps rfl hrun hstep
  exact ⟨_, hstep, hmoves, by decide, hready (by decide) (by decide)⟩

end CdcKafka.SyncState
