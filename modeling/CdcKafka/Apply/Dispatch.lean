import Mathlib.Logic.Function.Basic
import CdcKafka.Proto.Message

/-! The globals of the apply worker and the files to which the leader spools streamed
transactions: the changes file of length-prefixed records and the table of
subtransaction offsets. -/

namespace CdcKafka.Apply
open CdcKafka.Lib CdcKafka.Event CdcKafka.Json CdcKafka.Proto

structure SubXactInfo where
  xid : Nat
  /-- The position in the changes file, over all its segments. -/
  offset : Nat
deriving DecidableEq

structure ApplySubXactData where
  subxactLast : Nat
  subxacts : List SubXactInfo
deriving DecidableEq

structure SubXactFile where
  nsubxacts : Nat
  subxacts : List SubXactInfo
deriving DecidableEq

structure ParallelApplyWorkerInfo where
  serializeChanges : Bool
deriving DecidableEq

structure State where
  inRemoteTransaction : Bool
  remoteFinalLsn : Nat
  inStreamedTransaction : Bool
  streamXid : Nat
  skipXactFinishLsn : Nat
  streamFd : Option Nat
  subxactData : ApplySubXactData
  isTransactionState : Bool
  changesFile : Nat → Option Bytes
  subxactFile : Nat → Option SubXactFile
  parallelApplyTxnHash : Nat → Option ParallelApplyWorkerInfo
  streamApplyWorker : Option Nat
  relMap : Nat → Option RemoteRel
  /-- The messages handed to parallel apply workers, with the transaction of the worker. -/
  paSent : List (Nat × Bytes)
  kafkaSent : List CJson

def ApplySubXactData.empty : ApplySubXactData := { subxactLast := 0, subxacts := [] }

def State.init : State where
  inRemoteTransaction := false
  remoteFinalLsn := 0
  inStreamedTransaction := false
  streamXid := 0
  skipXactFinishLsn := 0
  streamFd := none
  subxactData := .empty
  isTransactionState := false
  changesFile := fun _ => none
  subxactFile := fun _ => none
  parallelApplyTxnHash := fun _ => none
  streamApplyWorker := none
  relMap := fun _ => none
  paSent := []
  kafkaSent := []

inductive ApplyError
  | proto (e : ProtoError)
  | invalidMessageType (action : UInt8)
  | incorrectCommitLsn
  | incorrectPrepareLsn
  | gxactNotFound
  | streamPrepareWithoutStop
  | originOutOfOrder
  | duplicateStreamStart
  | invalidStreamXid
  | streamStopWithoutStart
  | streamAbortWithoutStop
  | streamCommitWithoutStop
  | hashTableCorrupted
  | noRelMapEntry (relid : Nat)
  | relationNotOpened (relid : Nat)
  | attnameOutOfBounds
  | kafkaError
  | fileMissing (xid : Nat)
  | fileNotOpen
  | shortRead
  | incorrectLength
  | messageLeft
  | unexpectedApplyAction
  | recursionTooDeep
deriving DecidableEq

abbrev Result := Except ApplyError

def beginReplicationStep (s : State) : State := { s with isTransactionState := true }

def commitTransactionCommand (s : State) : State := { s with isTransactionState := false }

/-- A record of the changes file: its length as an `int` of the machine, then the action and
what follows the transaction id in the message. -/
def changeRecord (data : Bytes) : Bytes := encodeLE 4 data.length ++ data

def streamOpenFile (s : State) (xid : Nat) (firstSegment : Bool) : Result State :=
  if firstSegment then
    .ok { s with changesFile := Function.update s.changesFile xid (some []), streamFd := some xid }
  else
    match s.changesFile xid with
    | some _ => .ok { s with streamFd := some xid }
    | none => .error (.fileMissing xid)

def streamCloseFile (s : State) : State := { s with streamFd := none }

def streamWriteChange (s : State) (action : LogicalRepMsgType) (rest : Bytes) : Result State :=
  match s.streamFd with
  | some xid =>
    let file := (s.changesFile xid).map (· ++ changeRecord (action.toByte :: rest))
    .ok { s with changesFile := Function.update s.changesFile xid file }
  | none => .error .fileNotOpen

def streamCleanupFiles (s : State) (xid : Nat) : Result State :=
  match s.changesFile xid with
  | some _ =>
    .ok { s with changesFile := Function.update s.changesFile xid none,
                 subxactFile := Function.update s.subxactFile xid none }
  | none => .error (.fileMissing xid)

def cleanupSubxactInfo (s : State) : State := { s with subxactData := .empty }

def subxactInfoWrite (s : State) (xid : Nat) : State :=
  let new := s.subxactData.subxacts
  let file :=
    if new = [] then none
    else some { nsubxacts := new.length,
                subxacts := new ++ ((s.subxactFile xid).elim [] (·.subxacts)).drop new.length }
  cleanupSubxactInfo { s with subxactFile := Function.update s.subxactFile xid file }

def subxactInfoRead (s : State) (xid : Nat) : State :=
  match s.subxactFile xid with
  | some file =>
    { s with subxactData := { s.subxactData with subxacts := file.subxacts.take file.nsubxacts } }
  | none => s

def subxactInfoAdd (s : State) (xid : Nat) : State :=
  if s.streamXid = xid then s
  else if s.subxactData.subxactLast = xid then s
  else if s.subxactData.subxacts.any (·.xid = xid) then
    { s with subxactData := { s.subxactData with subxactLast := xid } }
  else
    let offset := (s.streamFd.bind s.changesFile).elim 0 List.length
    let subxacts := s.subxactData.subxacts ++ [{ xid := xid, offset := offset }]
    { s with subxactData := { subxactLast := xid, subxacts := subxacts } }

def streamStartInternal (s : State) (xid : Nat) (firstSegment : Bool) : Result State := do
  let s ← streamOpenFile (beginReplicationStep s) xid firstSegment
  pure (if firstSegment then s else subxactInfoRead s xid)

def streamStopInternal (s : State) (xid : Nat) : State :=
  commitTransactionCommand (streamCloseFile (subxactInfoWrite s xid))

def streamReopen (s : State) (xid : Nat) : Result State :=
  if s.streamFd.isNone then streamStartInternal s xid false else .ok s

def streamOpenAndWriteChange (s : State) (xid : Nat) (action : LogicalRepMsgType)
    (rest : Bytes) : Result State := do
  let s ← streamReopen s xid
  let s ← streamWriteChange s action rest
  pure (streamStopInternal s xid)

def findSubxactFrom (subxacts : List SubXactInfo) (subxid : Nat) : Nat → Option Nat
  | 0 => none
  | i + 1 =>
    if (subxacts[i]?).any (·.xid = subxid) then some i else findSubxactFrom subxacts subxid i

def findSubxact (subxacts : List SubXactInfo) (subxid : Nat) : Option Nat :=
  findSubxactFrom subxacts subxid subxacts.length

def streamAbortInternal (s : State) (xid subxid : Nat) : Result State :=
  if xid = subxid then streamCleanupFiles s xid
  else
    let s := subxactInfoRead (beginReplicationStep s) xid
    match findSubxact s.subxactData.subxacts subxid with
    | none => .ok (commitTransactionCommand (cleanupSubxactInfo s))
    | some subidx =>
      match s.changesFile xid with
      | none => .error (.fileMissing xid)
      | some file =>
        let offset := (s.subxactData.subxacts[subidx]?).elim 0 (·.offset)
        let subxacts := s.subxactData.subxacts.take subidx
        let s := { s with
          changesFile := Function.update s.changesFile xid (some (file.take offset)),
          subxactData := { s.subxactData with subxacts := subxacts } }
        .ok (commitTransactionCommand (subxactInfoWrite s xid))

def paFindWorker (s : State) (xid : Nat) : Option Nat :=
  if xid = 0 then none
  else match s.streamApplyWorker with
    | some w => some w
    | none => if (s.parallelApplyTxnHash xid).isSome then some xid else none

inductive TransApplyAction
  | leaderApply
  | leaderSerialize
  | leaderSendToParallel (winfo : Nat)
  | leaderPartialSerialize (winfo : Nat)
deriving DecidableEq

def getTransactionApplyAction (s : State) (xid : Nat) : TransApplyAction :=
  match paFindWorker s xid with
  | some w =>
    if (s.parallelApplyTxnHash w).any (·.serializeChanges) then .leaderPartialSerialize w
    else .leaderSendToParallel w
  | none => if s.inStreamedTransaction then .leaderSerialize else .leaderApply

def paSendData (s : State) (winfo : Nat) (msg : Bytes) : State :=
  { s with paSent := s.paSent ++ [(winfo, msg)] }

def paSwitchToPartialSerialize (s : State) (winfo : Nat) : Result State :=
  let hash := Function.update s.parallelApplyTxnHash winfo (some { serializeChanges := true })
  streamStartInternal { s with parallelApplyTxnHash := hash } winfo true

def paXactFinish (s : State) (winfo : Nat) : Result State :=
  let serialized := (s.parallelApplyTxnHash winfo).any (·.serializeChanges)
  let s := { s with parallelApplyTxnHash := Function.update s.parallelApplyTxnHash winfo none }
  if serialized then streamCleanupFiles s winfo else .ok s

end CdcKafka.Apply

/-! `apply_dispatch` in the leader apply worker: the handler of every message kind. -/

namespace CdcKafka.Apply
open CdcKafka.Lib CdcKafka.Event CdcKafka.Json CdcKafka.Proto

structure Config where
  /-- `MyLogicalRepWorker->parallel_apply`. -/
  parallelApply : Bool
  dbname : CStr

structure Env where
  /-- `MySubscription->skiplsn`. -/
  skiplsn : Nat
  /-- `pa_allocate_worker` may start a worker and gets one. -/
  paAllocates : Bool
  /-- `pa_send_data` does not time out. -/
  paSends : Bool
  lookupGXact : Bool
  finishPreparedTransaction : Bool
  relOpens : Nat → Bool
  kafkaSends : Bool

def readMsg {α : Type} (r : MsgReader α) (body : Bytes) : Result α :=
  match r body with
  | .ok (a, _) => .ok a
  | .error e => .error (.proto e)

def isSkippingChanges (s : State) : Bool := s.skipXactFinishLsn ≠ 0

def maybeStartSkippingChanges (env : Env) (s : State) (finishLsn : Nat) : State :=
  if env.skiplsn = 0 ∨ env.skiplsn ≠ finishLsn then s
  else { s with skipXactFinishLsn := finishLsn }

def stopSkippingChanges (s : State) : State := { s with skipXactFinishLsn := 0 }

def applyHandleBegin (env : Env) (s : State) (body : Bytes) : Result State := do
  let beginData ← readMsg readBegin body
  let s := { s with remoteFinalLsn := beginData.finalLsn }
  let s := maybeStartSkippingChanges env s beginData.finalLsn
  pure { s with inRemoteTransaction := true }

/-- A skipped transaction starts a local one to clear `subskiplsn`; any local transaction is
committed. -/
def applyHandleCommitInternal (s : State) : State :=
  let s := if isSkippingChanges s then beginReplicationStep (stopSkippingChanges s) else s
  { commitTransactionCommand s with inRemoteTransaction := false }

def applyHandleCommit (s : State) (body : Bytes) : Result State := do
  let commitData ← readMsg readCommit body
  if commitData.commitLsn ≠ s.remoteFinalLsn then .error .incorrectCommitLsn
  else pure (applyHandleCommitInternal s)

def applyHandleBeginPrepare (env : Env) (s : State) (body : Bytes) : Result State := do
  let beginData ← readMsg readBeginPrepare body
  let s := { s with remoteFinalLsn := beginData.prepareLsn }
  let s := maybeStartSkippingChanges env s beginData.prepareLsn
  pure { s with inRemoteTransaction := true }

def applyHandlePrepare (s : State) (body : Bytes) : Result State := do
  let prepareData ← readMsg readPrepareCommon body
  if prepareData.prepareLsn ≠ s.remoteFinalLsn then .error .incorrectPrepareLsn
  else
    let s := commitTransactionCommand (beginReplicationStep s)
    pure (stopSkippingChanges { s with inRemoteTransaction := false })

/-- Unlike the other ends of a transaction this one does not stop skipping. -/
def applyHandleCommitPrepared (env : Env) (s : State) (body : Bytes) : Result State := do
  let _prepareData ← readMsg readCommitPrepared body
  if env.finishPreparedTransaction then
    let s := commitTransactionCommand (beginReplicationStep s)
    pure { s with inRemoteTransaction := false }
  else .error .gxactNotFound

def applyHandleRollbackPrepared (env : Env) (s : State) (body : Bytes) : Result State := do
  let _rollbackData ← readMsg readRollbackPrepared body
  if env.lookupGXact then
    if env.finishPreparedTransaction then
      let s := commitTransactionCommand (beginReplicationStep s)
      pure { s with inRemoteTransaction := false }
    else .error .gxactNotFound
  else pure { s with inRemoteTransaction := false }

def applyHandleOrigin (s : State) : Result State :=
  if !s.inStreamedTransaction && (!s.inRemoteTransaction || s.isTransactionState) then
    .error .originOutOfOrder
  else .ok s

def paAllocateWorker (env : Env) (s : State) (xid : Nat) : Result State :=
  if env.paAllocates then
    match s.parallelApplyTxnHash xid with
    | some _ => .error .hashTableCorrupted
    | none =>
      let hash := Function.update s.parallelApplyTxnHash xid (some { serializeChanges := false })
      .ok { s with parallelApplyTxnHash := hash }
  else .ok s

def streamStartWorker (env : Env) (s : State) (xid : Nat) (firstSegment : Bool) : Result State :=
  if firstSegment then paAllocateWorker env s xid else .ok s

def streamStartSegment (env : Env) (s : State) (xid : Nat) (firstSegment : Bool)
    (msg body : Bytes) : Result State :=
  match getTransactionApplyAction s xid with
  | .leaderSerialize => streamStartInternal s xid firstSegment
  | .leaderSendToParallel winfo =>
    if env.paSends then .ok { paSendData s winfo msg with streamApplyWorker := some winfo }
    else do
      let s ← paSwitchToPartialSerialize s winfo
      let s ← streamWriteChange s .streamStart body
      pure { s with streamApplyWorker := some winfo }
  | .leaderPartialSerialize winfo => do
    let s ← streamStartInternal s xid firstSegment
    let s ← streamWriteChange s .streamStart body
    pure { s with streamApplyWorker := some winfo }
  | .leaderApply => .error .unexpectedApplyAction

def applyHandleStreamStart (env : Env) (s : State) (msg body : Bytes) : Result State :=
  if s.inStreamedTransaction then .error .duplicateStreamStart
  else do
    let (xid, firstSegment) ← readMsg readStreamStart body
    if xid = 0 then .error .invalidStreamXid
    else do
      let s := { s with inStreamedTransaction := true, streamXid := xid }
      let s ← streamStartWorker env s xid firstSegment
      streamStartSegment env s xid firstSegment msg body

def closeSegment (s : State) : State := { s with inStreamedTransaction := false, streamXid := 0 }

def applyHandleStreamStop (env : Env) (s : State) (msg body : Bytes) : Result State :=
  if !s.inStreamedTransaction then .error .streamStopWithoutStart
  else
    match getTransactionApplyAction s s.streamXid with
    | .leaderSerialize => .ok (closeSegment (streamStopInternal s s.streamXid))
    | .leaderSendToParallel winfo =>
      if env.paSends then
        .ok (closeSegment { paSendData s winfo msg with streamApplyWorker := none })
      else do
        let s ← paSwitchToPartialSerialize s winfo
        let s ← streamWriteChange s .streamStop body
        pure (closeSegment { streamStopInternal s s.streamXid with streamApplyWorker := none })
    | .leaderPartialSerialize _ => do
      let s ← streamWriteChange s .streamStop body
      pure (closeSegment { streamStopInternal s s.streamXid with streamApplyWorker := none })
    | .leaderApply => .error .unexpectedApplyAction

def serializeAndFinish (s : State) (winfo xid : Nat) (action : LogicalRepMsgType)
    (body : Bytes) : Result State := do
  let s ← streamOpenAndWriteChange s xid action body
  paXactFinish s winfo

def applyHandleStreamAbort (cfg : Config) (env : Env) (s : State) (msg body : Bytes) :
    Result State :=
  if s.inStreamedTransaction then .error .streamAbortWithoutStop
  else do
    let abortData ← readMsg (readStreamAbort cfg.parallelApply) body
    let toplevelXact := abortData.xid = abortData.subxid
    match getTransactionApplyAction s abortData.xid with
    | .leaderApply => streamAbortInternal s abortData.xid abortData.subxid
    | .leaderSendToParallel winfo =>
      if env.paSends then
        if toplevelXact then paXactFinish (paSendData s winfo msg) winfo
        else pure (paSendData s winfo msg)
      else do
        let s ← paSwitchToPartialSerialize s winfo
        if toplevelXact then serializeAndFinish s winfo abortData.xid .streamAbort body
        else streamOpenAndWriteChange s abortData.xid .streamAbort body
    | .leaderPartialSerialize winfo =>
      if toplevelXact then serializeAndFinish s winfo abortData.xid .streamAbort body
      else streamOpenAndWriteChange s abortData.xid .streamAbort body
    | .leaderSerialize => .error .unexpectedApplyAction

/-- The loop of `apply_spooled_messages` over the bytes not read yet. A record that closes
the file has to be the last one. -/
def replayLoop (dispatch : State → Bytes → Result State) : Nat → State → Bytes → Result State
  | _, s, [] => .ok s
  | 0, _, _ :: _ => .error .shortRead
  | fuel + 1, s, rest@(_ :: _) =>
    if rest.length < 4 then .error .shortRead
    else
      let len := decodeLE (rest.take 4)
      let data := (rest.drop 4).take len
      let left := (rest.drop 4).drop len
      if len = 0 ∨ 2 ^ 31 ≤ len then .error .incorrectLength
      else if (rest.drop 4).length < len then .error .shortRead
      else do
        let s ← dispatch s data
        if s.streamFd.isNone then
          if left = [] then pure s else .error .messageLeft
        else replayLoop dispatch fuel s left

def applySpooledMessages (dispatch : State → Bytes → Result State) (env : Env) (s : State)
    (xid lsn : Nat) : Result State :=
  let s := beginReplicationStep (maybeStartSkippingChanges env s lsn)
  match s.changesFile xid with
  | none => .error (.fileMissing xid)
  | some file => do
    let s := { s with streamFd := some xid, remoteFinalLsn := lsn, inRemoteTransaction := true }
    let s ← replayLoop dispatch file.length s file
    pure (streamCloseFile s)

def paFinishTransaction (env : Env) (s : State) (winfo xid : Nat) (action : LogicalRepMsgType)
    (msg body : Bytes) : Result State :=
  if env.paSends then paXactFinish (paSendData s winfo msg) winfo
  else do
    let s ← paSwitchToPartialSerialize s winfo
    serializeAndFinish s winfo xid action body

def applyHandleStreamCommit (dispatch : State → Bytes → Result State) (env : Env) (s : State)
    (msg body : Bytes) : Result State :=
  if s.inStreamedTransaction then .error .streamCommitWithoutStop
  else do
    let (xid, commitData) ← readMsg readStreamCommit body
    match getTransactionApplyAction s xid with
    | .leaderApply => do
      let s ← applySpooledMessages dispatch env s xid commitData.commitLsn
      streamCleanupFiles (applyHandleCommitInternal s) xid
    | .leaderSendToParallel winfo => paFinishTransaction env s winfo xid .streamCommit msg body
    | .leaderPartialSerialize winfo => serializeAndFinish s winfo xid .streamCommit body
    | .leaderSerialize => .error .unexpectedApplyAction

def streamPrepareTransaction (dispatch : State → Bytes → Result State) (env : Env) (s : State)
    (msg body : Bytes) (xid prepareLsn : Nat) : Result State :=
  match getTransactionApplyAction s xid with
  | .leaderApply => do
    let s ← applySpooledMessages dispatch env s xid prepareLsn
    streamCleanupFiles { commitTransactionCommand s with inRemoteTransaction := false } xid
  | .leaderSendToParallel winfo => paFinishTransaction env s winfo xid .streamPrepare msg body
  | .leaderPartialSerialize winfo => serializeAndFinish s winfo xid .streamPrepare body
  | .leaderSerialize => .error .unexpectedApplyAction

def applyHandleStreamPrepare (dispatch : State → Bytes → Result State) (env : Env) (s : State)
    (msg body : Bytes) : Result State :=
  if s.inStreamedTransaction then .error .streamPrepareWithoutStop
  else do
    let prepareData ← readMsg readPrepareCommon body
    let s ← streamPrepareTransaction dispatch env s msg body prepareData.xid prepareData.prepareLsn
    pure (stopSkippingChanges s)

/-- Inside a segment the change is spooled or sent on. What is left to read is returned when the
caller still has to apply the message itself. -/
def handleStreamedTransaction (env : Env) (s : State) (action : LogicalRepMsgType)
    (msg body : Bytes) : Result (State × Option Bytes) :=
  match getTransactionApplyAction s s.streamXid with
  | .leaderApply => .ok (s, some body)
  | applyAction =>
    match getMsgInt 4 body with
    | .error e => .error (.proto e)
    | .ok (currentXid, rest) =>
      let again := if action = .relation ∨ action = .type then some rest else none
      if currentXid = 0 then .error .invalidStreamXid
      else match applyAction with
        | .leaderSerialize => do
          let s ← streamWriteChange (subxactInfoAdd s currentXid) action rest
          pure (s, none)
        | .leaderSendToParallel winfo =>
          if env.paSends then .ok (paSendData s winfo msg, again)
          else do
            let s ← paSwitchToPartialSerialize s winfo
            let s ← streamWriteChange s action body
            pure (s, again)
        | .leaderPartialSerialize _ => do
          let s ← streamWriteChange s action body
          pure (s, again)
        | .leaderApply => .error .unexpectedApplyAction

def logicalrepRelOpen (env : Env) (s : State) (relid : Nat) : Result RemoteRel :=
  match s.relMap relid with
  | none => .error (.noRelMapEntry relid)
  | some rel => if env.relOpens relid then .ok rel else .error (.relationNotOpened relid)

def kafkaSend (cfg : Config) (env : Env) (s : State) (change : RowChange) : Result State :=
  match change.toJson cfg.dbname with
  | none => .error .attnameOutOfBounds
  | some root =>
    if env.kafkaSends then .ok { s with kafkaSent := s.kafkaSent ++ [root] }
    else .error .kafkaError

/-- The handlers of INSERT, UPDATE, DELETE and TRUNCATE return early when they skip or when the
message belongs to a segment. -/
def applyHandleChange (env : Env) (s : State) (action : LogicalRepMsgType) (msg body : Bytes)
    (apply : State → Bytes → Result State) : Result State :=
  if isSkippingChanges s then .ok s
  else do
    let (s, again) ← handleStreamedTransaction env s action msg body
    match again with
    | none => pure s
    | some rest => apply (beginReplicationStep s) rest

def applyHandleInsert (cfg : Config) (env : Env) (s : State) (msg body : Bytes) : Result State :=
  applyHandleChange env s .insert msg body fun s rest => do
    let (relid, newtup) ← readMsg readInsert rest
    let rel ← logicalrepRelOpen env s relid
    kafkaSend cfg env s (.insert rel newtup)

def applyHandleUpdate (cfg : Config) (env : Env) (s : State) (msg body : Bytes) : Result State :=
  applyHandleChange env s .update msg body fun s rest => do
    let (relid, oldtup, newtup) ← readMsg readUpdate rest
    let rel ← logicalrepRelOpen env s relid
    kafkaSend cfg env s (.update rel oldtup newtup)

def applyHandleDelete (cfg : Config) (env : Env) (s : State) (msg body : Bytes) : Result State :=
  applyHandleChange env s .delete msg body fun s rest => do
    let (relid, oldtup) ← readMsg readDelete rest
    let rel ← logicalrepRelOpen env s relid
    kafkaSend cfg env s (.delete rel oldtup)

def applyHandleTruncate (env : Env) (s : State) (msg body : Bytes) : Result State :=
  applyHandleChange env s .truncate msg body fun s rest => do
    let (relids, _cascade, _restartSeqs) ← readMsg readTruncate rest
    let _rels ← relids.mapM (logicalrepRelOpen env s)
    pure s

def applyHandleRelation (env : Env) (s : State) (msg body : Bytes) : Result State := do
  let (s, again) ← handleStreamedTransaction env s .relation msg body
  match again with
  | none => pure s
  | some rest =>
    let rel ← readMsg readRel rest
    pure { s with relMap := Function.update s.relMap rel.remoteid (some rel.remoterel) }

def applyHandleType (env : Env) (s : State) (msg body : Bytes) : Result State := do
  let (s, again) ← handleStreamedTransaction env s .type msg body
  match again with
  | none => pure s
  | some rest =>
    let _typ ← readMsg readTyp rest
    pure s

def applyAction (cfg : Config) (env : Env) (dispatch : State → Bytes → Result State) (s : State)
    (msg body : Bytes) : LogicalRepMsgType → Result State
  | .begin => applyHandleBegin env s body
  | .commit => applyHandleCommit s body
  | .insert => applyHandleInsert cfg env s msg body
  | .update => applyHandleUpdate cfg env s msg body
  | .delete => applyHandleDelete cfg env s msg body
  | .truncate => applyHandleTruncate env s msg body
  | .relation => applyHandleRelation env s msg body
  | .type => applyHandleType env s msg body
  | .origin => applyHandleOrigin s
  | .message => .ok s
  | .streamStart => applyHandleStreamStart env s msg body
  | .streamStop => applyHandleStreamStop env s msg body
  | .streamAbort => applyHandleStreamAbort cfg env s msg body
  | .streamCommit => applyHandleStreamCommit dispatch env s msg body
  | .beginPrepare => applyHandleBeginPrepare env s body
  | .prepare => applyHandlePrepare s body
  | .commitPrepared => applyHandleCommitPrepared env s body
  | .rollbackPrepared => applyHandleRollbackPrepared env s body
  | .streamPrepare => applyHandleStreamPrepare dispatch env s msg body

/-- `apply_dispatch` calls itself through `apply_spooled_messages`; `depth` bounds the nesting. -/
def applyDispatch (cfg : Config) (env : Env) : Nat → State → Bytes → Result State
  | 0, _, _ => .error .recursionTooDeep
  | _ + 1, _, [] => .error (.proto .noDataLeft)
  | depth + 1, s, action :: body =>
    match LogicalRepMsgType.ofByte action with
    | none => .error (.invalidMessageType action)
    | some t => applyAction cfg env (applyDispatch cfg env depth) s (action :: body) body t

end CdcKafka.Apply
