import CdcKafka.Slot.TransactionId
import CdcKafka.Lib.Steps

/-! The catalog horizon of a logical slot: `LogicalIncreaseXminForSlot`,
`LogicalIncreaseRestartDecodingForSlot` and `LogicalConfirmReceivedLocation` of `logical.c`,
and `update_local_synced_slot` of `slotsync.c`. -/

namespace CdcKafka.Slot.Horizon

open CdcKafka.Slot

structure Config where
  database : UInt32
  twoPhase : Bool
  twoPhaseAt : UInt64
  failover : Bool
  plugin : List UInt8
deriving DecidableEq

structure PersistentData where
  catalogXmin : TransactionId
  restartLsn : UInt64
  confirmedFlush : UInt64
  config : Config
deriving DecidableEq

structure ReplicationSlot where
  data : PersistentData
  dirty : Bool
  effectiveCatalogXmin : TransactionId
  candidateCatalogXmin : TransactionId
  candidateXminLsn : UInt64
  candidateRestartValid : UInt64
  candidateRestartLsn : UInt64
  stateFile : PersistentData
deriving DecidableEq

def created (d : PersistentData) : ReplicationSlot where
  data := d
  dirty := false
  effectiveCatalogXmin := d.catalogXmin
  candidateCatalogXmin := 0
  candidateXminLsn := 0
  candidateRestartValid := 0
  candidateRestartLsn := 0
  stateFile := d

def restart (s : ReplicationSlot) : ReplicationSlot := created s.stateFile

def replicationSlotMarkDirty (s : ReplicationSlot) : ReplicationSlot := { s with dirty := true }

def replicationSlotSave (s : ReplicationSlot) (ok : Bool) : ReplicationSlot × Bool :=
  if !s.dirty then (s, true)
  else if ok then ({ s with stateFile := s.data, dirty := false }, true)
  else (s, false)

def ReplicationSlot.confirmFlush (s : ReplicationSlot) (lsn : UInt64) : ReplicationSlot :=
  { s with data := { s.data with
      confirmedFlush := if s.data.confirmedFlush < lsn then lsn else s.data.confirmedFlush } }

def ReplicationSlot.TakesXmin (s : ReplicationSlot) (lsn : UInt64) : Prop :=
  s.candidateXminLsn ≠ 0 ∧ s.candidateXminLsn ≤ lsn ∧ s.candidateCatalogXmin ≠ 0 ∧
    s.data.catalogXmin ≠ s.candidateCatalogXmin

instance (s : ReplicationSlot) (lsn : UInt64) : Decidable (s.TakesXmin lsn) := inferInstanceAs (Decidable (_ ∧ _ ∧ _ ∧ _))

def ReplicationSlot.TakesRestart (s : ReplicationSlot) (lsn : UInt64) : Prop :=
  s.candidateRestartValid ≠ 0 ∧ s.candidateRestartValid ≤ lsn

instance (s : ReplicationSlot) (lsn : UInt64) : Decidable (s.TakesRestart lsn) := inferInstanceAs (Decidable (_ ∧ _))

def ReplicationSlot.takeXmin (s : ReplicationSlot) : ReplicationSlot :=
  { s with
    data := { s.data with catalogXmin := s.candidateCatalogXmin }
    candidateCatalogXmin := 0
    candidateXminLsn := 0 }

def ReplicationSlot.takeRestart (s : ReplicationSlot) : ReplicationSlot :=
  { s with
    data := { s.data with restartLsn := s.candidateRestartLsn }
    candidateRestartLsn := 0
    candidateRestartValid := 0 }

def ReplicationSlot.move (s : ReplicationSlot) (lsn : UInt64) : ReplicationSlot :=
  let moved := s.confirmFlush lsn
  let moved := if s.TakesXmin lsn then moved.takeXmin else moved
  if s.TakesRestart lsn then moved.takeRestart else moved

def logicalConfirmReceivedLocation (s : ReplicationSlot) (lsn : UInt64) (saveOk : Bool) : ReplicationSlot × Bool :=
  if s.candidateXminLsn ≠ 0 ∨ s.candidateRestartValid ≠ 0 then
    let moved := s.move lsn
    let saved :=
      if s.TakesXmin lsn ∨ s.TakesRestart lsn then replicationSlotSave (replicationSlotMarkDirty moved) saveOk
      else (moved, true)
    if saved.2 ∧ s.TakesXmin lsn then
      ({ saved.1 with effectiveCatalogXmin := saved.1.data.catalogXmin }, true)
    else saved
  else (s.confirmFlush lsn, true)

def ReplicationSlot.setXminCandidate (s : ReplicationSlot) (currentLsn : UInt64) (xmin : TransactionId) : ReplicationSlot :=
  { s with candidateCatalogXmin := xmin, candidateXminLsn := currentLsn }

def logicalIncreaseXminForSlot (s : ReplicationSlot) (currentLsn : UInt64) (xmin : TransactionId) (saveOk : Bool) :
    ReplicationSlot × Bool :=
  if transactionIdPrecedesOrEquals xmin s.data.catalogXmin then (s, true)
  else if currentLsn ≤ s.data.confirmedFlush then
    logicalConfirmReceivedLocation (s.setXminCandidate currentLsn xmin) s.data.confirmedFlush saveOk
  else if s.candidateXminLsn = 0 then (s.setXminCandidate currentLsn xmin, true)
  else (s, true)

def ReplicationSlot.setRestartCandidate (s : ReplicationSlot) (currentLsn restartLsn : UInt64) : ReplicationSlot :=
  { s with candidateRestartValid := currentLsn, candidateRestartLsn := restartLsn }

def logicalIncreaseRestartDecodingForSlot (s : ReplicationSlot) (currentLsn restartLsn : UInt64) (saveOk : Bool) : ReplicationSlot × Bool :=
  if restartLsn ≤ s.data.restartLsn then (s, true)
  else if currentLsn ≤ s.data.confirmedFlush then
    logicalConfirmReceivedLocation (s.setRestartCandidate currentLsn restartLsn) s.data.confirmedFlush saveOk
  else if s.candidateRestartValid = 0 then (s.setRestartCandidate currentLsn restartLsn, true)
  else (s, true)

inductive Call
  | increaseXmin (currentLsn : UInt64) (xmin : TransactionId) (saveOk : Bool)
  | increaseRestartDecoding (currentLsn restartLsn : UInt64) (saveOk : Bool)
  | confirm (lsn : UInt64) (saveOk : Bool)

def call (s : ReplicationSlot) : Call → ReplicationSlot × Bool
  | .increaseXmin currentLsn xmin saveOk => logicalIncreaseXminForSlot s currentLsn xmin saveOk
  | .increaseRestartDecoding currentLsn restartLsn saveOk =>
    logicalIncreaseRestartDecodingForSlot s currentLsn restartLsn saveOk
  | .confirm lsn saveOk => logicalConfirmReceivedLocation s lsn saveOk

def calls (s : ReplicationSlot) : List Call → ReplicationSlot × Bool
  | [] => (s, true)
  | c :: cs => if (call s c).2 then calls (call s c).1 cs else ((call s c).1, false)

/-- `LogicalSlotAdvanceAndCheckSnapState`: decoding calls the functions above as it goes, and ends
with a confirmation, unless a record cannot be read. -/
def logicalSlotAdvanceAndCheckSnapState (s : ReplicationSlot) (moveto : UInt64) (decoded : List Call) (readOk saveOk : Bool) :
    ReplicationSlot × Bool :=
  let r := calls s decoded
  if !r.2 || !readOk then (r.1, false)
  else
    let r := logicalConfirmReceivedLocation r.1 moveto saveOk
    if !r.2 then r else (replicationSlotMarkDirty r.1, true)

structure RemoteSlot where
  plugin : List UInt8
  twoPhase : Bool
  failover : Bool
  restartLsn : UInt64
  confirmedLsn : UInt64
  twoPhaseAt : UInt64
  catalogXmin : TransactionId

structure SyncEnv where
  /-- `SnapBuildSnapshotExists(remote_slot->restart_lsn)`. -/
  snapshotExists : Bool
  decoded : List Call
  readOk : Bool
  confirmOk : Bool
  /-- `DecodingContextReady` at the end of the advance. -/
  ready : Bool
  saveOk : Bool

structure SyncResult where
  updated : Bool
  foundConsistentSnapshot : Bool
  remoteSlotPrecedes : Bool

def RemoteSlot.Precedes (remote : RemoteSlot) (s : ReplicationSlot) : Prop :=
  remote.restartLsn < s.data.restartLsn ∨ transactionIdPrecedes remote.catalogXmin s.data.catalogXmin = true

instance (remote : RemoteSlot) (s : ReplicationSlot) : Decidable (remote.Precedes s) := inferInstanceAs (Decidable (_ ∨ _))

def RemoteSlot.IsAhead (remote : RemoteSlot) (s : ReplicationSlot) : Prop :=
  s.data.confirmedFlush < remote.confirmedLsn ∨ s.data.restartLsn < remote.restartLsn ∨
    transactionIdFollows remote.catalogXmin s.data.catalogXmin = true

instance (remote : RemoteSlot) (s : ReplicationSlot) : Decidable (remote.IsAhead s) := inferInstanceAs (Decidable (_ ∨ _ ∨ _))

def syncPositions (s : ReplicationSlot) (remote : RemoteSlot) (env : SyncEnv) : ReplicationSlot × Bool :=
  if env.snapshotExists then
    ({ s with data := { s.data with
        restartLsn := remote.restartLsn
        confirmedFlush := remote.confirmedLsn
        catalogXmin := remote.catalogXmin } }, true)
  else
    let r := logicalSlotAdvanceAndCheckSnapState s remote.confirmedLsn env.decoded env.readOk env.confirmOk
    if !r.2 then r
    else (r.1, r.1.data.confirmedFlush == remote.confirmedLsn)

def namestrcpy (name : List UInt8) : List UInt8 := name.take 63

def syncConfig (s : ReplicationSlot) (remote : RemoteSlot) (remoteDbid : UInt32) : ReplicationSlot × Bool :=
  if remoteDbid ≠ s.data.config.database ∨ remote.twoPhase ≠ s.data.config.twoPhase ∨
      remote.failover ≠ s.data.config.failover ∨ remote.plugin ≠ s.data.config.plugin ∨
      remote.twoPhaseAt ≠ s.data.config.twoPhaseAt then
    let config : Config := ⟨remoteDbid, remote.twoPhase, remote.twoPhaseAt, remote.failover, namestrcpy remote.plugin⟩
    ({ s with data := { s.data with config := config } }, true)
  else (s, false)

def syncSave (s : ReplicationSlot) (remote : RemoteSlot) (updatedXminOrLsn updatedConfig saveOk : Bool) : ReplicationSlot × Bool :=
  let r :=
    if updatedConfig || updatedXminOrLsn then replicationSlotSave (replicationSlotMarkDirty s) saveOk
    else (s, true)
  if r.2 && updatedXminOrLsn then ({ r.1 with effectiveCatalogXmin := remote.catalogXmin }, true) else r

def updateLocalSyncedSlot (s : ReplicationSlot) (remote : RemoteSlot) (remoteDbid : UInt32) (env : SyncEnv) :
    ReplicationSlot × Option SyncResult :=
  if remote.Precedes s then (s, some ⟨false, false, true⟩)
  else
    let ahead : Bool := remote.IsAhead s
    let positions := if ahead then syncPositions s remote env else (s, true)
    if !positions.2 then (positions.1, none)
    else
      let config := syncConfig positions.1 remote remoteDbid
      let saved := syncSave config.1 remote ahead config.2 env.saveOk
      if !saved.2 then (saved.1, none)
      else (saved.1, some ⟨config.2 || ahead, ahead && (env.snapshotExists || env.ready), false⟩)

inductive Event
  | call (c : Call)
  | sync (remote : RemoteSlot) (remoteDbid : UInt32) (env : SyncEnv)
  | save (ok : Bool)
  | restart

def step (s : ReplicationSlot) : Event → ReplicationSlot
  | .call c => (call s c).1
  | .sync remote remoteDbid env => (updateLocalSyncedSlot s remote remoteDbid env).1
  | .save ok => (replicationSlotSave s ok).1
  | .restart => restart s

end CdcKafka.Slot.Horizon
