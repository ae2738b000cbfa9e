import CdcKafka.Slot.Save

/-! The WAL that replication slots hold back: `ReplicationSlotReserveWal`,
`ReplicationSlotsComputeRequiredLSN`, `CheckPointReplicationSlots` and
`InvalidateObsoleteReplicationSlots` of `slot.c`, `KeepLogSeg` and the removal of segments of
`xlog.c`. Every section under a lock is a step of its own, and slots are saved as in
`SaveSlotToPath`. -/

namespace CdcKafka.Slot.Wal

open CdcKafka.Slot

inductive Persistency
  | persistent
  | ephemeral
  | temporary
deriving DecidableEq

abbrev Data := Save.PersistentData Persistency

structure Server where
  walSegmentSize : UInt64
  maxReplicationSlots : Nat
  isBinaryUpgrade : Bool
  /-- `IsValidWalSegSize`: a megabyte at least. -/
  valid : 0x100000 ≤ walSegmentSize

structure Settings where
  maxSlotWalKeepSizeMb : Option UInt64
  walKeepSizeMb : UInt64

namespace Server

def segOf (sv : Server) (lsn : UInt64) : UInt64 := lsn / sv.walSegmentSize

def startOf (sv : Server) (segno : UInt64) : UInt64 := segno * sv.walSegmentSize

def convertToXSegs (sv : Server) (mb : UInt64) : UInt64 := mb / (sv.walSegmentSize / 0x100000)

def limitSlots (sv : Server) (g : Settings) (currSegNo segno : UInt64) : UInt64 :=
  match g.maxSlotWalKeepSizeMb with
  | none => segno
  | some mb =>
    if sv.isBinaryUpgrade then segno
    else if sv.convertToXSegs mb < currSegNo - segno then currSegNo - sv.convertToXSegs mb
    else segno

def keptBySlots (sv : Server) (g : Settings) (keep recptr : UInt64) : UInt64 :=
  if keep ≠ 0 ∧ keep < recptr then sv.limitSlots g (sv.segOf recptr) (sv.segOf keep)
  else sv.segOf recptr

def keptForSummaries (sv : Server) (keep segno : UInt64) : UInt64 :=
  if keep ≠ 0 ∧ sv.segOf keep < segno then sv.segOf keep else segno

def keptBySize (sv : Server) (g : Settings) (currSegNo segno : UInt64) : UInt64 :=
  if 0 < g.walKeepSizeMb ∧ currSegNo - segno < sv.convertToXSegs g.walKeepSizeMb then
    if currSegNo ≤ sv.convertToXSegs g.walKeepSizeMb then 1
    else currSegNo - sv.convertToXSegs g.walKeepSizeMb
  else segno

def keepLogSeg (sv : Server) (g : Settings) (minimum unsummarized recptr logSegNo : UInt64) : UInt64 :=
  let segno := sv.keptBySize g (sv.segOf recptr)
    (sv.keptForSummaries unsummarized (sv.keptBySlots g minimum recptr))
  if segno < logSegNo then segno else logSegNo

end Server

inductive Holder
  | backend
  | checkpointer
deriving DecidableEq

inductive Reserve
  | outside
  | looping
  | read (lsn : UInt64)
  /-- It is in `restart_lsn`. -/
  | stored
  | computed
deriving DecidableEq

structure ReplicationSlot where
  save : Save.State Persistency
  activePid : Option Holder
  reserve : Reserve

inductive Proc
  | owner (i : Nat)
  | checkpointer
  | other (k : Nat)
deriving DecidableEq

inductive Scan
  /-- It comes to the slot `next`, under the control lock. -/
  | looking (next : Nat) (minRequired : UInt64)
  | looked (minRequired : UInt64)

inductive Checkpoint
  | idle
  /-- `CheckPointReplicationSlots` comes to the slot `i`. -/
  | visiting (i : Nat) (updated : Bool)
  | saving (i : Nat) (updated : Bool)
  /-- All slots are saved; the required LSN is computed anew where `updated`. -/
  | saved (updated : Bool)
  /-- The control file has the new redo pointer. -/
  | written
  /-- `InvalidateObsoleteReplicationSlots` comes to the slot `i`, under the control lock. -/
  | invalidating (oldestSegno : UInt64) (i : Nat) (invalidated : Bool)
  /-- The owner of slot `i` was signalled; its `restart_lsn` as it was then. -/
  | waiting (oldestSegno : UInt64) (i : Nat) (initialRestartLsn : UInt64) (invalidated : Bool)
  /-- Slot `i` is invalidated in memory. -/
  | invalidated (oldestSegno : UInt64) (i : Nat)
  | flushing (oldestSegno : UInt64) (i : Nat)
  | flushed (oldestSegno : UInt64) (i : Nat)
  /-- Slots were invalidated: the required LSN is computed, -/
  | recomputing
  /-- and `KeepLogSeg` is called again. -/
  | recalculating
  /-- `RemoveOldXlogFiles` of the segments before `oldestSegno`. -/
  | removing (oldestSegno : UInt64)
  | removingFile (oldestSegno : UInt64) (segno : UInt64)

structure State where
  slots : Nat → Option ReplicationSlot
  replicationSlotMinLsn : UInt64
  lastRemovedSegNo : UInt64
  redoRecPtr : UInt64
  controlRedo : UInt64
  startRedo : UInt64
  recptr : UInt64
  /-- The number of readers that hold `ReplicationSlotControlLock`. -/
  controlReaders : Nat
  scans : Proc → Option Scan
  checkpointer : Checkpoint
  removed : List UInt64

def started (redo : UInt64) : State where
  slots _ := none
  replicationSlotMinLsn := 0
  lastRemovedSegNo := 0
  redoRecPtr := redo
  controlRedo := redo
  startRedo := redo
  recptr := redo
  controlReaders := 0
  scans _ := none
  checkpointer := .idle
  removed := []

inductive SaveOp
  | check
  | lock
  | openTmp (ok : Bool)
  | copy
  | write (ok : Bool)
  | sync (ok : Bool)
  | close (ok : Bool)
  | rename (ok : Bool)
  | finish

def SaveOp.event (p : Save.Proc) : SaveOp → Save.Event Persistency
  | .check => .check p
  | .lock => .lock p
  | .openTmp ok => .openTmp p ok
  | .copy => .copy p
  | .write ok => .write p ok
  | .sync ok => .sync p ok
  | .close ok => .close p ok
  | .rename ok => .rename p ok
  | .finish => .finish p

inductive Event
  /-- `ReplicationSlotCreate`, and whether WAL is reserved at once. -/
  | create (i : Nat) (database : Nat) (persistency : Persistency) (reserve : Bool)
  | readPosition (i : Nat) (lsn : UInt64)
  | storePosition (i : Nat)
  | checkRemoved (i : Nat)
  | acquire (i : Nat)
  | release (i : Nat)
  | drop (i : Nat)
  | advance (i : Nat) (lsn : UInt64)
  | confirm (i : Nat) (lsn : UInt64)
  | persist (i : Nat)
  | markDirty (i : Nat)
  | save (p : Save.Proc) (i : Nat) (op : SaveOp)
  | computeStart (p : Proc)
  | computeLook (p : Proc)
  | computeUnlock (p : Proc)
  | computeSet (p : Proc)
  | checkpoint (redo : UInt64)
  | visit (shutdown : Bool)
  | endVisits
  | writeControl (recptr : UInt64)
  | keepLogSeg (g : Settings) (unsummarized : UInt64)
  | test (idle : Bool)
  | wake
  | markInvalidated
  | releaseInvalidated
  | endPass
  | updateLastRemoved (segno : UInt64)
  | removeFile
  | endRemoval
  | crash

namespace ReplicationSlot

def data (sl : ReplicationSlot) : Data := sl.save.data

def create (database : Nat) (persistency : Persistency) (reserve : Bool) : ReplicationSlot where
  save := Save.created ⟨database, 0, false, 0, persistency⟩
  activePid := some .backend
  reserve := if reserve then .looping else .outside

def restore (sl : ReplicationSlot) : Option ReplicationSlot :=
  if sl.save.stateFile.rest = .persistent then some ⟨Save.created sl.save.stateFile, none, .outside⟩ else none

def Owned (sl : ReplicationSlot) : Prop := sl.activePid = some .backend ∧ sl.reserve = .outside

instance (sl : ReplicationSlot) : Decidable sl.Owned := inferInstanceAs (Decidable (_ ∧ _))

def saveStep (sl : ReplicationSlot) (e : Save.Event Persistency) : Option ReplicationSlot :=
  (Save.step sl.save e).map fun t => { sl with save := t }

def readPosition (redo lsn : UInt64) (sl : ReplicationSlot) : Option ReplicationSlot :=
  if sl.reserve = .looping ∧ redo ≤ lsn ∧ (sl.data.database = 0 → lsn = redo) then
    some { sl with reserve := .read lsn }
  else none

def storePosition (sl : ReplicationSlot) : Option ReplicationSlot :=
  match sl.reserve with
  | .read lsn =>
    (sl.saveStep (.change fun d => { d with restartLsn := lsn })).map fun t => { t with reserve := .stored }
  | _ => none

def checkRemoved (sv : Server) (lastRemovedSegNo : UInt64) (sl : ReplicationSlot) : Option ReplicationSlot :=
  if sl.reserve = .computed then
    some { sl with reserve := if lastRemovedSegNo < sv.segOf sl.data.restartLsn then .outside else .looping }
  else none

def acquire (sl : ReplicationSlot) : Option ReplicationSlot :=
  if sl.activePid = none then some { sl with activePid := some .backend } else none

def Saves (sl : ReplicationSlot) (p : Save.Proc) : Bool :=
  match sl.save.pc p with
  | .outside => false
  | _ => true

/-- An ephemeral slot is dropped instead. -/
def release (sl : ReplicationSlot) : Option ReplicationSlot :=
  if sl.Owned ∧ sl.Saves .owner = false ∧ sl.data.rest ≠ .ephemeral then some { sl with activePid := none }
  else none

def advance (lsn : UInt64) (sl : ReplicationSlot) : Option ReplicationSlot :=
  if sl.Owned ∧ sl.data.restartLsn ≠ 0 ∧ sl.data.restartLsn ≤ lsn then
    sl.saveStep (.change fun d => { d with restartLsn := lsn })
  else none

def confirm (lsn : UInt64) (sl : ReplicationSlot) : Option ReplicationSlot :=
  if sl.Owned then sl.saveStep (.change fun d => { d with confirmedFlush := lsn }) else none

def persist (sl : ReplicationSlot) : Option ReplicationSlot :=
  if sl.Owned then sl.saveStep (.change fun d => { d with rest := .persistent }) else none

def markDirty (sl : ReplicationSlot) : Option ReplicationSlot := if sl.Owned then sl.saveStep .markDirty else none

def saveOwn (op : SaveOp) (sl : ReplicationSlot) : Option ReplicationSlot :=
  if sl.Owned then sl.saveStep (op.event .owner) else none

def requiredLsn (sl : ReplicationSlot) : UInt64 :=
  if sl.data.invalidated then 0
  else if sl.data.rest = .persistent ∧ sl.save.lastSavedRestartLsn ≠ 0 ∧
      sl.save.lastSavedRestartLsn < sl.data.restartLsn then sl.save.lastSavedRestartLsn
  else sl.data.restartLsn

end ReplicationSlot

def lower (minRequired lsn : UInt64) : UInt64 :=
  if lsn ≠ 0 ∧ (minRequired = 0 ∨ lsn < minRequired) then lsn else minRequired

def lowerFor (minRequired : UInt64) : Option ReplicationSlot → UInt64
  | none => minRequired
  | some sl => lower minRequired sl.requiredLsn

inductive Cause
  | walRemoved
  | idleTimeout
deriving DecidableEq

/-- `DetermineSlotInvalidationCause`, for the causes that a checkpoint looks for; `idle` is what
the clock says of a slot that has been inactive. -/
def determineSlotInvalidationCause (sl : ReplicationSlot) (oldestLsn initialRestartLsn : UInt64) (idle : Bool) :
    Option Cause :=
  if initialRestartLsn ≠ 0 ∧ initialRestartLsn < oldestLsn then some .walRemoved
  else if idle ∧ sl.data.restartLsn ≠ 0 ∧ sl.activePid = none then some .idleTimeout
  else none

namespace ReplicationSlot

def possiblyObsolete (sv : Server) (sl : ReplicationSlot) (oldestSegno : UInt64) (idle : Bool) : Option Cause :=
  if sl.data.database ≠ 0 ∧ sv.isBinaryUpgrade then none
  else if sl.data.invalidated then none
  else determineSlotInvalidationCause sl (sv.startOf oldestSegno) sl.data.restartLsn idle

def invalidate (cause : Cause) (sl : ReplicationSlot) : ReplicationSlot where
  save :=
    match cause with
    | .walRemoved => { sl.save with
        data := { sl.save.data with invalidated := true, restartLsn := 0 }
        lastSavedRestartLsn := 0 }
    | .idleTimeout => { sl.save with data := { sl.save.data with invalidated := true } }
  activePid := some .checkpointer
  reserve := sl.reserve

end ReplicationSlot

namespace Checkpoint

/-- After one more operation of `SaveSlotToPath`: a failure is logged by
`CheckPointReplicationSlots`, and ends the checkpoint where an invalidation is flushed. -/
def afterSave (k : Checkpoint) (op : SaveOp) (saves : Bool) : Checkpoint :=
  match k, op with
  | .saving i u, _ => if saves then .saving i u else .visiting (i + 1) u
  | .flushing c i, .finish => if saves then .flushing c i else .flushed c i
  | .flushing c i, _ => if saves then .flushing c i else .idle
  | k, _ => k

def savingSlot : Checkpoint → Option Nat
  | .saving i _ | .flushing _ i => some i
  | _ => none

def allocationLocked : Checkpoint → Bool
  | .visiting _ _ | .saving _ _ => true
  | _ => false

end Checkpoint

namespace State

def setSlot (s : State) (i : Nat) (sl : Option ReplicationSlot) : State :=
  { s with slots := Function.update s.slots i sl }

def onSlot (s : State) (i : Nat) (f : ReplicationSlot → Option ReplicationSlot) : Option State :=
  (s.slots i).bind fun sl => (f sl).map fun t => s.setSlot i (some t)

def MayAllocate (s : State) : Prop := s.controlReaders = 0 ∧ s.checkpointer.allocationLocked = false

instance (s : State) : Decidable s.MayAllocate := inferInstanceAs (Decidable (_ ∧ _))

def create (sv : Server) (s : State) (i : Nat) (sl : ReplicationSlot) : Option State :=
  if i < sv.maxReplicationSlots ∧ s.MayAllocate ∧ (s.slots i).isNone then some (s.setSlot i (some sl)) else none

def drop (s : State) (i : Nat) : Option State :=
  match s.slots i with
  | some sl =>
    if s.MayAllocate ∧ sl.Owned ∧ sl.Saves .owner = false ∧ sl.Saves .checkpointer = false then
      some (s.setSlot i none)
    else none
  | none => none

/-! The computation of the required LSN. -/

def mayCompute (s : State) : Proc → Bool
  | .owner i =>
    match s.slots i with
    | some sl => sl.activePid = some .backend ∧ (sl.reserve = .outside ∨ sl.reserve = .stored)
    | none => false
  | .checkpointer =>
    match s.checkpointer with
    | .saved true | .recomputing => true
    | _ => false
  | .other _ => true

def setScan (s : State) (p : Proc) (sc : Option Scan) : State := { s with scans := Function.update s.scans p sc }

def computeStart (s : State) (p : Proc) : Option State :=
  if s.mayCompute p ∧ (s.scans p).isNone then
    some { s.setScan p (some (.looking 0 0)) with controlReaders := s.controlReaders + 1 }
  else none

def computeLook (sv : Server) (s : State) (p : Proc) : Option State :=
  match s.scans p with
  | some (.looking next minRequired) =>
    if next < sv.maxReplicationSlots then
      some (s.setScan p (some (.looking (next + 1) (lowerFor minRequired (s.slots next)))))
    else none
  | _ => none

def computeUnlock (sv : Server) (s : State) (p : Proc) : Option State :=
  match s.scans p with
  | some (.looking next minRequired) =>
    if next < sv.maxReplicationSlots then none
    else some { s.setScan p (some (.looked minRequired)) with controlReaders := s.controlReaders - 1 }
  | _ => none

def computed (s : State) : Proc → State
  | .owner i =>
    match s.slots i with
    | some sl => if sl.reserve = .stored then s.setSlot i (some { sl with reserve := .computed }) else s
    | none => s
  | .checkpointer =>
    match s.checkpointer with
    | .saved _ => { s with checkpointer := .saved false }
    | .recomputing => { s with checkpointer := .recalculating }
    | _ => s
  | .other _ => s

def computeSet (s : State) (p : Proc) : Option State :=
  match s.scans p with
  | some (.looked minRequired) => some ({ s.setScan p none with replicationSlotMinLsn := minRequired }.computed p)
  | _ => none

/-! The checkpointer. -/

def goTo (s : State) (k : Checkpoint) : State := { s with checkpointer := k }

def saveByCheckpointer (s : State) (i : Nat) (op : SaveOp) : Option State :=
  if s.checkpointer.savingSlot = some i then
    match s.slots i with
    | some sl => (sl.saveStep (op.event .checkpointer)).map fun t =>
        (s.setSlot i (some t)).goTo (s.checkpointer.afterSave op (t.Saves .checkpointer))
    | none => none
  else none

def visit (sv : Server) (s : State) (shutdown : Bool) : Option State :=
  match s.checkpointer with
  | .visiting i updated =>
    if i < sv.maxReplicationSlots then
      match s.slots i with
      | none => some (s.goTo (.visiting (i + 1) updated))
      | some sl => (if shutdown then sl.saveStep .shutdownMark else some sl).map fun t =>
          (s.setSlot i (some t)).goTo (.saving i (updated || sl.save.lastSavedRestartLsn != sl.data.restartLsn))
    else none
  | _ => none

def endVisits (sv : Server) (s : State) : Option State :=
  match s.checkpointer with
  | .visiting i updated => if i < sv.maxReplicationSlots then none else some (s.goTo (.saved updated))
  | _ => none

def writeControl (s : State) (recptr : UInt64) : Option State :=
  match s.checkpointer with
  | .saved false =>
    if s.redoRecPtr ≤ recptr then some { s.goTo .written with controlRedo := s.redoRecPtr, recptr := recptr }
    else none
  | _ => none

def horizon (sv : Server) (s : State) (g : Settings) (unsummarized : UInt64) : UInt64 :=
  sv.keepLogSeg g s.replicationSlotMinLsn unsummarized s.recptr (sv.segOf s.redoRecPtr)

def keepLogSeg (sv : Server) (s : State) (g : Settings) (unsummarized : UInt64) : Option State :=
  if unsummarized = 0 ∨ sv.walSegmentSize ≤ unsummarized then
    match s.checkpointer with
    | .written =>
      some { s.goTo (.invalidating (s.horizon sv g unsummarized) 0 false) with
        controlReaders := s.controlReaders + 1 }
    | .recalculating => some (s.goTo (.removing (s.horizon sv g unsummarized)))
    | _ => none
  else none

def test (sv : Server) (s : State) (idle : Bool) : Option State :=
  match s.checkpointer with
  | .invalidating c i inv =>
    if i < sv.maxReplicationSlots then
      match s.slots i with
      | none => some (s.goTo (.invalidating c (i + 1) inv))
      | some sl =>
        match sl.possiblyObsolete sv c idle with
        | none => some (s.goTo (.invalidating c (i + 1) inv))
        | some cause =>
          if sl.activePid = none then
            some { (s.setSlot i (some (sl.invalidate cause))).goTo (.invalidated c i) with
              controlReaders := s.controlReaders - 1 }
          else
            some { s.goTo (.waiting c i sl.data.restartLsn inv) with controlReaders := s.controlReaders - 1 }
    else none
  | _ => none

def restartPass (s : State) (c : UInt64) (inv : Bool) : State :=
  { s.goTo (.invalidating c 0 inv) with controlReaders := s.controlReaders + 1 }

def wake (sv : Server) (s : State) : Option State :=
  match s.checkpointer with
  | .waiting c i initialRestartLsn inv =>
    match s.slots i with
    | none => some (s.restartPass c inv)
    | some sl =>
      if sl.data.invalidated then some (s.restartPass c inv)
      else
        match determineSlotInvalidationCause sl (sv.startOf c) initialRestartLsn false with
        | none => some (s.restartPass c inv)
        | some cause =>
          if sl.activePid = none then some ((s.setSlot i (some (sl.invalidate cause))).goTo (.invalidated c i))
          else none
  | _ => none

def markInvalidated (s : State) : Option State :=
  match s.checkpointer with
  | .invalidated c i =>
    match s.slots i with
    | some sl => (sl.saveStep .markDirty).map fun t => (s.setSlot i (some t)).goTo (.flushing c i)
    | none => none
  | _ => none

def releaseInvalidated (s : State) : Option State :=
  match s.checkpointer with
  | .flushed c i =>
    match s.slots i with
    | some sl => some ((s.setSlot i (some { sl with activePid := none })).restartPass c true)
    | none => none
  | _ => none

def endPass (sv : Server) (s : State) : Option State :=
  match s.checkpointer with
  | .invalidating c i inv =>
    if i < sv.maxReplicationSlots then none
    else some { s.goTo (if inv then .recomputing else .removing c) with controlReaders := s.controlReaders - 1 }
  | _ => none

/-- `RemoveOldXlogFiles` comes to a file, of the segments up to `_logSegNo`, which was decremented. -/
def updateLastRemoved (s : State) (segno : UInt64) : Option State :=
  match s.checkpointer with
  | .removing c =>
    if segno ≤ c - 1 ∧ segno ∉ s.removed then
      some { s.goTo (.removingFile c segno) with
        lastRemovedSegNo := if s.lastRemovedSegNo < segno then segno else s.lastRemovedSegNo }
    else none
  | _ => none

def removeFile (s : State) : Option State :=
  match s.checkpointer with
  | .removingFile c segno => some { s.goTo (.removing c) with removed := segno :: s.removed }
  | _ => none

def endRemoval (s : State) : Option State :=
  match s.checkpointer with
  | .removing _ => some (s.goTo .idle)
  | _ => none

def checkpoint (s : State) (redo : UInt64) : Option State :=
  match s.checkpointer with
  | .idle => if s.redoRecPtr ≤ redo then some { s.goTo (.visiting 0 false) with redoRecPtr := redo } else none
  | _ => none

def restored (s : State) (i : Nat) : Option ReplicationSlot := (s.slots i).bind ReplicationSlot.restore

def crash (sv : Server) (s : State) : State where
  slots := s.restored
  replicationSlotMinLsn := (List.range sv.maxReplicationSlots).foldl (fun m i => lowerFor m (s.restored i)) 0
  lastRemovedSegNo := 0
  redoRecPtr := s.controlRedo
  controlRedo := s.controlRedo
  startRedo := s.controlRedo
  recptr := s.controlRedo
  controlReaders := 0
  scans _ := none
  checkpointer := .idle
  removed := s.removed

end State

def step (sv : Server) (s : State) : Event → Option State
  | .create i database persistency reserve => s.create sv i (ReplicationSlot.create database persistency reserve)
  | .readPosition i lsn => s.onSlot i (ReplicationSlot.readPosition s.redoRecPtr lsn)
  | .storePosition i => s.onSlot i ReplicationSlot.storePosition
  | .checkRemoved i => s.onSlot i (ReplicationSlot.checkRemoved sv s.lastRemovedSegNo)
  | .acquire i => s.onSlot i ReplicationSlot.acquire
  | .release i => s.onSlot i ReplicationSlot.release
  | .drop i => s.drop i
  | .advance i lsn => s.onSlot i (ReplicationSlot.advance lsn)
  | .confirm i lsn => s.onSlot i (ReplicationSlot.confirm lsn)
  | .persist i => s.onSlot i ReplicationSlot.persist
  | .markDirty i => s.onSlot i ReplicationSlot.markDirty
  | .save .owner i op => s.onSlot i (ReplicationSlot.saveOwn op)
  | .save .checkpointer i op => s.saveByCheckpointer i op
  | .computeStart p => s.computeStart p
  | .computeLook p => s.computeLook sv p
  | .computeUnlock p => s.computeUnlock sv p
  | .computeSet p => s.computeSet p
  | .checkpoint redo => s.checkpoint redo
  | .visit shutdown => s.visit sv shutdown
  | .endVisits => s.endVisits sv
  | .writeControl recptr => s.writeControl recptr
  | .keepLogSeg g unsummarized => s.keepLogSeg sv g unsummarized
  | .test idle => s.test sv idle
  | .wake => s.wake sv
  | .markInvalidated => s.markInvalidated
  | .releaseInvalidated => s.releaseInvalidated
  | .endPass => s.endPass sv
  | .updateLastRemoved segno => s.updateLastRemoved segno
  | .removeFile => s.removeFile
  | .endRemoval => s.endRemoval
  | .crash => some (s.crash sv)

end CdcKafka.Slot.Wal

/-! Positions, segments and the horizon that `KeepLogSeg` calculates. -/

namespace CdcKafka.Slot.Wal

variable {sv : Server} {g : Settings} {a b c m u r : UInt64}

namespace Server

theorem segOf_mono (h : a ≤ b) : sv.segOf a ≤ sv.segOf b := by
  simp only [segOf, UInt64.le_iff_toNat_le, UInt64.toNat_div] at h ⊢
  exact Nat.div_le_div_right h

theorem walSegmentSize_pos (sv : Server) : 0 < sv.walSegmentSize.toNat :=
  Nat.lt_of_lt_of_le (by decide) (UInt64.le_iff_toNat_le.mp sv.valid)

theorem one_le_segOf (h : sv.walSegmentSize ≤ a) : 1 ≤ sv.segOf a := by
  simp only [segOf, UInt64.le_iff_toNat_le, UInt64.toNat_div] at h ⊢
  exact (Nat.one_le_div_iff sv.walSegmentSize_pos).mpr h

theorem lt_startOf_iff (hc : c ≤ sv.segOf b) : a < sv.startOf c ↔ sv.segOf a < c := by
  have hb : c.toNat * sv.walSegmentSize.toNat ≤ b.toNat := by
    simp only [segOf, UInt64.le_iff_toNat_le, UInt64.toNat_div] at hc
    exact (Nat.le_div_iff_mul_le sv.walSegmentSize_pos).mp hc
  have hsmall : c.toNat * sv.walSegmentSize.toNat < 2 ^ 64 := Nat.lt_of_le_of_lt hb b.toNat_lt
  simp only [segOf, startOf, UInt64.lt_iff_toNat_lt, UInt64.toNat_div, UInt64.toNat_mul, Nat.mod_eq_of_lt hsmall]
  exact (Nat.div_lt_iff_lt_mul sv.walSegmentSize_pos).symm

theorem one_le_sub (h : b < a) : 1 ≤ a - b := by
  have hle : b ≤ a := UInt64.le_of_lt h
  rw [UInt64.lt_iff_toNat_lt] at h
  rw [UInt64.le_iff_toNat_le, UInt64.toNat_sub_of_le _ _ hle]
  exact Nat.sub_pos_of_lt h

theorem lt_of_le_sub_one (hb : 1 ≤ b) (h : a ≤ b - 1) : a < b := by
  rw [UInt64.le_iff_toNat_le, UInt64.toNat_sub_of_le _ _ hb] at h
  rw [UInt64.le_iff_toNat_le] at hb
  rw [UInt64.lt_iff_toNat_lt]
  exact Nat.lt_of_le_of_lt h (Nat.sub_lt hb Nat.one_pos)

theorem one_le_limitSlots (ha : 1 ≤ a) (hab : a ≤ b) : 1 ≤ sv.limitSlots g b a := by
  rw [limitSlots]
  cases g.maxSlotWalKeepSizeMb with
  | none => exact ha
  | some mb =>
    dsimp only
    split
    · exact ha
    · split
      · next hlimit =>
        refine one_le_sub (UInt64.lt_of_lt_of_le hlimit ?_)
        rw [UInt64.le_iff_toNat_le, UInt64.toNat_sub_of_le _ _ hab]
        exact Nat.sub_le _ _
      · exact ha

theorem one_le_keptBySlots (hr : sv.walSegmentSize ≤ r) (hm : m = 0 ∨ sv.walSegmentSize ≤ m) :
    1 ≤ sv.keptBySlots g m r := by
  rw [keptBySlots]
  split
  · next hkeep =>
    have hsize : sv.walSegmentSize ≤ m := hm.resolve_left hkeep.1
    exact one_le_limitSlots (one_le_segOf hsize) (segOf_mono (UInt64.le_of_lt hkeep.2))
  · exact one_le_segOf hr

theorem one_le_keptForSummaries (ha : 1 ≤ a) (hu : u = 0 ∨ sv.walSegmentSize ≤ u) : 1 ≤ sv.keptForSummaries u a := by
  rw [keptForSummaries]
  split
  · next hkeep => exact one_le_segOf (hu.resolve_left hkeep.1)
  · exact ha

theorem one_le_keptBySize (ha : 1 ≤ a) : 1 ≤ sv.keptBySize g b a := by
  rw [keptBySize]
  split
  · split
    · exact UInt64.le_refl 1
    · next hcurr => exact one_le_sub (UInt64.not_le.mp hcurr)
  · exact ha

theorem one_le_keepLogSeg (hr : sv.walSegmentSize ≤ r) (hm : m = 0 ∨ sv.walSegmentSize ≤ m)
    (hu : u = 0 ∨ sv.walSegmentSize ≤ u) (hc : 1 ≤ c) : 1 ≤ sv.keepLogSeg g m u r c := by
  have hkept : 1 ≤ sv.keptBySize g (sv.segOf r) (sv.keptForSummaries u (sv.keptBySlots g m r)) :=
    one_le_keptBySize (one_le_keptForSummaries (one_le_keptBySlots hr hm) hu)
  rw [keepLogSeg]
  split
  · exact hkept
  · exact hc

theorem keepLogSeg_le (sv : Server) (g : Settings) (m u r c : UInt64) : sv.keepLogSeg g m u r c ≤ c := by
  rw [keepLogSeg]
  split
  · next hlt => exact UInt64.le_of_lt hlt
  · exact UInt64.le_refl c

end Server

end CdcKafka.Slot.Wal
