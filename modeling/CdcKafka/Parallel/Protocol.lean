import CdcKafka.Lib.Steps
import Mathlib.Algebra.Group.Nat.Defs

/-! The leader apply worker and a parallel apply worker over one streamed
transaction after another: the shared queue, the switch to partial serialization,
the fileset state, the stream lock and the count of pending stream blocks. Every
access to shared memory is a step of its own. -/

namespace CdcKafka.Parallel

inductive FinishKind
  | streamCommit
  | streamPrepare
  | streamAbort
deriving DecidableEq

inductive Msg (α : Type)
  | streamStart (firstSegment : Bool)
  | change (payload : α)
  | streamStop
  | streamAbort (subxid : Nat)
  | finish (kind : FinishKind)
deriving DecidableEq

inductive FilesetState
  | empty
  | serializeInProgress
  | serializeDone
  | ready
deriving DecidableEq

inductive XactState
  | unknown
  | started
  | finished
deriving DecidableEq

inductive LeaderPc (α : Type)
  | idle
  | stopLock
  | abortUnlock (subxid : Nat)
  | abortIncr (subxid : Nat)
  | abortLock (subxid : Nat)
  | send (m : Msg α)
  | startUnlock
  | startIncr
  | switchOpen (m : Msg α)
  | switchLock (m : Msg α)
  | switchState (m : Msg α)
  | write (m : Msg α)
  | setDone
  | finishUnlock
  | finishWait
  | freed
deriving DecidableEq

inductive Source
  | queue
  | file
deriving DecidableEq

inductive WorkerPc
  | loop
  | readFileset
  | spoolLock
  | spoolUnlock
  | spoolReread
  | setReady
  | replay
  | setEmpty
  | readCount (src : Source)
  | checkSpooled (src : Source)
  | subCount (src : Source)
  | blockLock (src : Source)
  | blockUnlock (src : Source)
  | error
deriving DecidableEq

inductive Phase
  | begin
  | inChunk
  | between
  | done
deriving DecidableEq

structure State (α : Type) where
  received : List (Msg α)
  phase : Phase
  leader : LeaderPc α
  serializeChanges : Bool
  queue : List (Msg α)
  /-- A message only partly written to the queue: it is never received. -/
  torn : Option (Msg α)
  file : List (Msg α)
  fileset : FilesetState
  pendingStreamCount : Nat
  leaderLock : Bool
  workerLock : Bool
  xactState : XactState
  worker : WorkerPc
  filePos : Nat
  dispatched : List (Msg α)
  announced : Nat
  consumed : Nat
  skipped : Nat
deriving DecidableEq

variable {α : Type}

def State.init : State α where
  received := []
  phase := .begin
  leader := .idle
  serializeChanges := false
  queue := []
  torn := none
  file := []
  fileset := .empty
  pendingStreamCount := 0
  leaderLock := false
  workerLock := false
  xactState := .unknown
  worker := .loop
  filePos := 0
  dispatched := []
  announced := 0
  consumed := 0
  skipped := 0

def nextPhase : Phase → Msg α → Option Phase
  | .begin, .streamStart true => some .inChunk
  | .inChunk, .change _ => some .inChunk
  | .inChunk, .streamStop => some .between
  | .between, .streamStart false => some .inChunk
  | .between, .streamAbort _ => some .between
  | .between, .finish _ => some .done
  | _, _ => none

def firstPc (serializeChanges : Bool) (m : Msg α) : LeaderPc α :=
  if serializeChanges then .write m
  else match m with
    | .streamStop => .stopLock
    | .streamAbort subxid => .abortUnlock subxid
    | m => .send m

def afterSend : Msg α → LeaderPc α
  | .streamStart true => .startIncr
  | .streamStart false => .startUnlock
  | .finish _ => .finishUnlock
  | _ => .idle

def streamLocked : Msg α → Bool
  | .streamStart firstSegment => !firstSegment
  | .change _ => false
  | _ => true

def afterWrite : Msg α → LeaderPc α
  | .finish _ => .setDone
  | _ => .idle

inductive SendResult
  | sent
  | timeout (partlyWritten : Bool)

/-- A message takes at least 16 bytes of the ring of `DSM_QUEUE_SIZE` bytes. -/
def queueCapacity : Nat := 16 * 1024 * 1024 / 16

def State.announce (s : State α) : State α :=
  { s with pendingStreamCount := (s.pendingStreamCount + 1) % 2 ^ 32, announced := s.announced + 1 }

def State.stepLeader (s : State α) (result : SendResult) : Option (State α) :=
  match s.leader with
  | .idle => none
  | .stopLock =>
    if s.workerLock then none else some { s with leaderLock := true, leader := .send .streamStop }
  | .abortUnlock subxid => some { s with leaderLock := false, leader := .abortIncr subxid }
  | .abortIncr subxid => some { s.announce with leader := .abortLock subxid }
  | .abortLock subxid =>
    if s.workerLock then none
    else some { s with leaderLock := true, leader := .send (.streamAbort subxid) }
  | .send m =>
    match result with
    | .sent =>
      if s.queue.length < queueCapacity then
        some { s with queue := s.queue ++ [m], leader := afterSend m }
      else none
    | .timeout partlyWritten =>
      some { s with torn := if partlyWritten then some m else none, leader := .switchOpen m }
  | .startUnlock => some { s with leaderLock := false, leader := .startIncr }
  | .startIncr => some { s.announce with leader := .idle }
  | .switchOpen m =>
    -- `stream_start_internal` with `first_segment` creates the file
    some { s with serializeChanges := true, file := [],
                  leader := if streamLocked m then .switchState m else .switchLock m }
  | .switchLock m =>
    if s.workerLock then none else some { s with leaderLock := true, leader := .switchState m }
  | .switchState m => some { s with fileset := .serializeInProgress, leader := .write m }
  | .write m => some { s with file := s.file ++ [m], leader := afterWrite m }
  | .setDone => some { s with fileset := .serializeDone, leader := .finishUnlock }
  | .finishUnlock => some { s with leaderLock := false, leader := .finishWait }
  | .finishWait =>
    if s.xactState = .finished then some { s with leader := .freed } else none
  | .freed => none

def Source.resume : Source → WorkerPc
  | .queue => .loop
  | .file => .replay

def Source.afterFinish : Source → WorkerPc
  | .queue => .loop
  | .file => .setEmpty

def afterDispatch : Msg α → Source → WorkerPc
  | .streamStop, src => .readCount src
  | .streamAbort _, src => .readCount src
  | .finish _, src => src.afterFinish
  | _, src => src.resume

def xactAfter : Msg α → XactState → XactState
  | .streamStart true, _ => .started
  | .finish _, _ => .finished
  | _, x => x

def State.dispatch (s : State α) (m : Msg α) (src : Source) : State α :=
  { s with dispatched := s.dispatched ++ [m], xactState := xactAfter m s.xactState,
           worker := afterDispatch m src }

def State.stepWorker (s : State α) : Option (State α) :=
  match s.worker with
  | .loop =>
    match s.queue with
    | m :: queue => some ({ s with queue := queue }.dispatch m .queue)
    | [] => some { s with worker := .readFileset }
  | .readFileset =>
    match s.fileset with
    | .empty => some { s with worker := .loop }
    | .serializeInProgress => some { s with worker := .spoolLock }
    | .serializeDone => some { s with worker := .setReady }
    | .ready => some { s with worker := .replay }
  | .spoolLock =>
    if s.leaderLock then none else some { s with workerLock := true, worker := .spoolUnlock }
  | .spoolUnlock => some { s with workerLock := false, worker := .spoolReread }
  | .spoolReread =>
    match s.fileset with
    | .serializeDone => some { s with worker := .setReady }
    | .ready => some { s with worker := .replay }
    | _ => some { s with worker := .loop }
  | .setReady => some { s with fileset := .ready, worker := .loop }
  | .replay =>
    match s.file[s.filePos]? with
    | some m => some ({ s with filePos := s.filePos + 1 }.dispatch m .file)
    | none => some { s with worker := .setEmpty }
  | .setEmpty => some { s with fileset := .empty, worker := .loop }
  | .readCount src =>
    some { s with worker := if s.pendingStreamCount = 0 then .checkSpooled src else .subCount src }
  | .checkSpooled src =>
    if s.fileset ≠ .empty then some { s with skipped := s.skipped + 1, worker := src.resume }
    else some { s with worker := .error }
  | .subCount src =>
    let count := (s.pendingStreamCount + 2 ^ 32 - 1) % 2 ^ 32
    some { s with pendingStreamCount := count, consumed := s.consumed + 1,
                  worker := if count = 0 then .blockLock src else src.resume }
  | .blockLock src =>
    if s.leaderLock then none else some { s with workerLock := true, worker := .blockUnlock src }
  | .blockUnlock src => some { s with workerLock := false, worker := src.resume }
  | .error => none

inductive Event (α : Type)
  | receive (m : Msg α)
  | leader (result : SendResult)
  | worker
  | reuse

def State.receive (s : State α) (m : Msg α) : Option (State α) :=
  match s.leader with
  | .idle => (nextPhase s.phase m).map fun phase =>
      { s with received := s.received ++ [m], phase := phase,
               leader := firstPc s.serializeChanges m }
  | _ => none

def State.reuse (s : State α) : Option (State α) :=
  match s.leader, s.serializeChanges with
  | .freed, false =>
    some { s with received := [], phase := .begin, leader := .idle, xactState := .unknown,
                  dispatched := [], announced := 0, consumed := 0, skipped := 0 }
  | _, _ => none

def State.step (s : State α) : Event α → Option (State α)
  | .receive m => s.receive m
  | .leader result => s.stepLeader result
  | .worker => s.stepWorker
  | .reuse => s.reuse

def Step (s : State α) (e : Event α) (t : State α) : Prop := s.step e = some t

def Reachable (s : State α) : Prop := ∃ es, Lib.Steps Step State.init es s

end CdcKafka.Parallel
