import CdcKafka.Lib.Steps
import Mathlib.Algebra.Group.Nat.Defs

/-! The slots of the logical replication workers (`launcher.c`): the launches, the background
workers they register, and the stops, interleaved at the sections protected by
`LogicalRepWorkerLock` and at the reads made outside of it. -/

namespace CdcKafka.Launcher

abbrev Oid := Nat

abbrev InvalidOid : Oid := 0

inductive LogicalRepWorkerType
  | unknown
  | tablesync
  | apply
  | parallelApply
deriving DecidableEq

structure LogicalRepWorker where
  type : LogicalRepWorkerType
  launchTime : Int
  inUse : Bool
  /-- How often the slot has been taken; the generation is its low 16 bits. -/
  taken : Nat
  proc : Option Nat
  dbid : Oid
  userid : Oid
  subid : Oid
  relid : Oid
  streamFileset : Option Nat
  leaderPid : Option Nat
  parallelApply : Bool
deriving DecidableEq

def LogicalRepWorker.generation (w : LogicalRepWorker) : Nat := w.taken % 2 ^ 16

def freeSlot : LogicalRepWorker :=
  ⟨.unknown, 0, false, 0, none, InvalidOid, InvalidOid, InvalidOid, InvalidOid, none, none, false⟩

def logicalrepWorkerCleanup (w : LogicalRepWorker) : LogicalRepWorker :=
  { w with
    type := .unknown
    inUse := false
    proc := none
    dbid := InvalidOid
    userid := InvalidOid
    subid := InvalidOid
    relid := InvalidOid
    leaderPid := none
    parallelApply := false }

def isTablesyncWorker (w : LogicalRepWorker) : Bool := w.inUse && decide (w.type = .tablesync)

def isParallelApplyWorker (w : LogicalRepWorker) : Bool := w.inUse && decide (w.type = .parallelApply)

structure Config where
  maxSyncWorkersPerSubscription : Nat
  maxParallelApplyWorkersPerSubscription : Nat
  walReceiverTimeout : Int

structure LaunchArgs where
  wtype : LogicalRepWorkerType
  dbid : Oid
  subid : Oid
  userid : Oid
  relid : Oid
  myProcPid : Nat
deriving DecidableEq

inductive LaunchPhase
  | prepared
  /-- The registration has failed; the slot is not cleaned up yet. -/
  | refused
  | waiting (bgw : Nat)
  /-- The slot was in use without a process when it was looked at. -/
  | checked (bgw : Nat)
  | sawStopped (bgw : Nat)
  | returned
deriving DecidableEq

structure Launch where
  args : LaunchArgs
  slot : Nat
  taken : Nat
  phase : LaunchPhase
deriving DecidableEq

inductive WorkerPhase
  | registered
  | attached
  /-- The slot is given up; `stream_fileset` is still to be read. -/
  | detached
  | dead
deriving DecidableEq

structure BackgroundWorker where
  bgwMainArg : Nat
  /-- Selects `bgw_function_name`. -/
  function : LogicalRepWorkerType
  launchedFor : LaunchArgs
  /-- How often the slot had been taken by the launch of this worker. -/
  taken : Nat
  phase : WorkerPhase
  deleted : Option Nat
deriving DecidableEq

inductive StopPhase
  | startup
  | shutdown
  | returned
deriving DecidableEq

structure StopCall where
  slot : Nat
  generation : Nat
  phase : StopPhase
deriving DecidableEq

structure State where
  workers : List LogicalRepWorker
  launches : List Launch
  bgworkers : List BackgroundWorker
  stops : List StopCall
  signalled : List Nat
deriving DecidableEq

def initial (maxLogicalReplicationWorkers : Nat) : State :=
  ⟨List.replicate maxLogicalReplicationWorkers freeSlot, [], [], [], []⟩

def logicalrepSyncWorkerCount (workers : List LogicalRepWorker) (subid : Oid) : Nat :=
  workers.countP fun w => isTablesyncWorker w && decide (w.subid = subid)

def logicalrepPaWorkerCount (workers : List LogicalRepWorker) (subid : Oid) : Nat :=
  workers.countP fun w => isParallelApplyWorker w && decide (w.subid = subid)

def timestampDifferenceExceeds (startTime stopTime msec : Int) : Bool := decide (stopTime - startTime ≥ msec * 1000)

def tookTooLong (cfg : Config) (now : Int) (w : LogicalRepWorker) : Bool :=
  w.inUse && w.proc.isNone && timestampDifferenceExceeds w.launchTime now cfg.walReceiverTimeout

def findUnused (workers : List LogicalRepWorker) : Option Nat := workers.findIdx? fun w => !w.inUse

/-- From the label `retry` to the end of the garbage collection. `nows` are the readings of the clock, and
`fuel` bounds how often the label is reached. -/
def collectGarbage (cfg : Config) (subid : Oid) : Nat → (Nat → Int) → List LogicalRepWorker →
    Option (List LogicalRepWorker × Int)
  | 0, _, _ => none
  | fuel + 1, nows, workers =>
    if (findUnused workers).isNone ||
        decide (logicalrepSyncWorkerCount workers subid ≥ cfg.maxSyncWorkersPerSubscription) then
      if workers.any (tookTooLong cfg (nows 0)) then
        collectGarbage cfg subid fuel (fun k => nows (k + 1))
          (workers.map fun w => if tookTooLong cfg (nows 0) w then logicalrepWorkerCleanup w else w)
      else some (workers, nows 0)
    else some (workers, nows 0)

def prepare (args : LaunchArgs) (now : Int) (w : LogicalRepWorker) : LogicalRepWorker where
  type := args.wtype
  launchTime := now
  inUse := true
  taken := w.taken + 1
  proc := none
  dbid := args.dbid
  userid := args.userid
  subid := args.subid
  relid := args.relid
  streamFileset := none
  leaderPid := if args.wtype = .parallelApply then some args.myProcPid else none
  parallelApply := decide (args.wtype = .parallelApply)

def slotFor (cfg : Config) (args : LaunchArgs) (workers : List LogicalRepWorker) : Option Nat :=
  if args.wtype = .tablesync ∧ logicalrepSyncWorkerCount workers args.subid ≥ cfg.maxSyncWorkersPerSubscription then none
  else if args.wtype = .parallelApply ∧
      logicalrepPaWorkerCount workers args.subid ≥ cfg.maxParallelApplyWorkersPerSubscription then none
  else findUnused workers

/-- The assertions on the arguments. -/
def LaunchArgs.Sane (args : LaunchArgs) : Prop := args.wtype ≠ .unknown ∧ (args.wtype = .tablesync ↔ args.relid ≠ InvalidOid)

instance (args : LaunchArgs) : Decidable args.Sane := by
  unfold LaunchArgs.Sane
  infer_instance

/-- The first section of `logicalrep_worker_launch`; a launch that gets no slot returns at once. -/
def logicalrepWorkerLaunch (cfg : Config) (args : LaunchArgs) (nows : Nat → Int) (st : State) : Option State := do
  guard args.Sane
  let (workers, now) ← collectGarbage cfg args.subid (st.workers.length + 1) nows st.workers
  match slotFor cfg args workers with
  | none => return { st with workers := workers }
  | some slot =>
    let w ← workers[slot]?
    return { st with
      workers := workers.set slot (prepare args now w)
      launches := st.launches ++ [⟨args, slot, w.taken + 1, .prepared⟩] }

def registerDynamicBackgroundWorker (l : Nat) (registered : Bool) (st : State) : Option State := do
  let launch ← st.launches[l]?
  guard (launch.phase = .prepared)
  let w ← st.workers[launch.slot]?
  if w.type = .unknown then return { st with launches := st.launches.set l { launch with phase := .returned } }
  else if registered then
    return { st with
      launches := st.launches.set l { launch with phase := .waiting st.bgworkers.length }
      bgworkers := st.bgworkers ++ [⟨launch.slot, w.type, launch.args, launch.taken, .registered, none⟩] }
  else return { st with launches := st.launches.set l { launch with phase := .refused } }

/-- After a failed registration; that the slot is still the same is only asserted. -/
def cleanupRefused (l : Nat) (st : State) : Option State := do
  let launch ← st.launches[l]?
  guard (launch.phase = .refused)
  let w ← st.workers[launch.slot]?
  return { st with
    workers := st.workers.set launch.slot (logicalrepWorkerCleanup w)
    launches := st.launches.set l { launch with phase := .returned } }

def waitCheck (l : Nat) (st : State) : Option State := do
  let launch ← st.launches[l]?
  let w ← st.workers[launch.slot]?
  match launch.phase with
  | .waiting bgw =>
    let phase := if !w.inUse || w.proc.isSome then .returned else .checked bgw
    return { st with launches := st.launches.set l { launch with phase := phase } }
  | _ => none

def waitPoll (l : Nat) (st : State) : Option State := do
  let launch ← st.launches[l]?
  match launch.phase with
  | .checked bgw =>
    let worker ← st.bgworkers[bgw]?
    let phase := if worker.phase = .dead then .sawStopped bgw else .waiting bgw
    return { st with launches := st.launches.set l { launch with phase := phase } }
  | _ => none

def waitCleanup (l : Nat) (st : State) : Option State := do
  let launch ← st.launches[l]?
  match launch.phase with
  | .sawStopped _ =>
    let w ← st.workers[launch.slot]?
    let workers :=
      if launch.taken % 2 ^ 16 = w.generation then st.workers.set launch.slot (logicalrepWorkerCleanup w) else st.workers
    return { st with
      workers := workers
      launches := st.launches.set l { launch with phase := .returned } }
  | _ => none

def abandon (l : Nat) (st : State) : Option State := do
  let launch ← st.launches[l]?
  return { st with launches := st.launches.set l { launch with phase := .returned } }

def logicalrepWorkerAttach (b : Nat) (st : State) : Option State := do
  let worker ← st.bgworkers[b]?
  guard (worker.phase = .registered)
  let w ← st.workers[worker.bgwMainArg]?
  if !w.inUse || w.proc.isSome then return { st with bgworkers := st.bgworkers.set b { worker with phase := .dead } }
  else
    return { st with
      workers := st.workers.set worker.bgwMainArg { w with proc := some b }
      bgworkers := st.bgworkers.set b { worker with phase := .attached } }

def neverAttach (b : Nat) (st : State) : Option State := do
  let worker ← st.bgworkers[b]?
  guard (worker.phase = .registered)
  return { st with bgworkers := st.bgworkers.set b { worker with phase := .dead } }

def streamStartInternal (b : Nat) (st : State) : Option State := do
  let worker ← st.bgworkers[b]?
  guard (worker.phase = .attached)
  let w ← st.workers[worker.bgwMainArg]?
  if w.streamFileset.isNone then
    return { st with workers := st.workers.set worker.bgwMainArg { w with streamFileset := some b } }
  else return st

def logicalrepWorkerDetach (b : Nat) (st : State) : Option State := do
  let worker ← st.bgworkers[b]?
  guard (worker.phase = .attached)
  let w ← st.workers[worker.bgwMainArg]?
  return { st with
    workers := st.workers.set worker.bgwMainArg (logicalrepWorkerCleanup w)
    bgworkers := st.bgworkers.set b { worker with phase := .detached } }

def deleteStreamFileset (b : Nat) (st : State) : Option State := do
  let worker ← st.bgworkers[b]?
  guard (worker.phase = .detached)
  let w ← st.workers[worker.bgwMainArg]?
  return { st with bgworkers := st.bgworkers.set b { worker with phase := .dead, deleted := w.streamFileset } }

def logicalrepWorkerStopInternal (slot : Nat) (w : LogicalRepWorker) (st : State) : State :=
  match w.proc with
  | none => { st with stops := st.stops ++ [⟨slot, w.generation, .startup⟩] }
  | some b => { st with stops := st.stops ++ [⟨slot, w.generation, .shutdown⟩], signalled := st.signalled ++ [b] }

def logicalrepWorkerFind (workers : List LogicalRepWorker) (subid relid : Oid) : Option Nat :=
  workers.findIdx? fun w => !isParallelApplyWorker w && w.inUse && decide (w.subid = subid ∧ w.relid = relid)

def logicalrepWorkerStop (subid relid : Oid) (st : State) : Option State :=
  match logicalrepWorkerFind st.workers subid relid with
  | none => some st
  | some slot => do
    let w ← st.workers[slot]?
    return logicalrepWorkerStopInternal slot w st

def logicalrepPaWorkerStop (slot generation : Nat) (st : State) : Option State := do
  let w ← st.workers[slot]?
  if w.generation = generation ∧ w.proc.isSome then return logicalrepWorkerStopInternal slot w st else return st

def stopListed (slot : Nat) (st : State) : Option State := do
  let w ← st.workers[slot]?
  if isParallelApplyWorker w then return logicalrepWorkerStopInternal slot w st else return st

def stopRecheck (k : Nat) (st : State) : Option State := do
  let call ← st.stops[k]?
  let w ← st.workers[call.slot]?
  match call.phase with
  | .startup =>
    if !w.inUse || decide (w.generation ≠ call.generation) then
      return { st with stops := st.stops.set k { call with phase := .returned } }
    else
      match w.proc with
      | none => return st
      | some b =>
        return { st with stops := st.stops.set k { call with phase := .shutdown }, signalled := st.signalled ++ [b] }
  | .shutdown =>
    if w.proc.isNone || decide (w.generation ≠ call.generation) then
      return { st with stops := st.stops.set k { call with phase := .returned } }
    else return st
  | .returned => none

inductive Event
  | launch (args : LaunchArgs) (nows : Nat → Int)
  | register (l : Nat) (registered : Bool)
  | cleanupRefused (l : Nat)
  | waitCheck (l : Nat)
  | waitPoll (l : Nat)
  | waitCleanup (l : Nat)
  | abandon (l : Nat)
  | attach (b : Nat)
  | neverAttach (b : Nat)
  | streamStart (b : Nat)
  | detach (b : Nat)
  | deleteStreamFileset (b : Nat)
  | stop (subid relid : Oid)
  | stopParallel (slot generation : Nat)
  | stopListed (slot : Nat)
  | stopRecheck (k : Nat)

def step (cfg : Config) (st : State) : Event → Option State
  | .launch args nows => logicalrepWorkerLaunch cfg args nows st
  | .register l registered => registerDynamicBackgroundWorker l registered st
  | .cleanupRefused l => Launcher.cleanupRefused l st
  | .waitCheck l => Launcher.waitCheck l st
  | .waitPoll l => Launcher.waitPoll l st
  | .waitCleanup l => Launcher.waitCleanup l st
  | .abandon l => Launcher.abandon l st
  | .attach b => logicalrepWorkerAttach b st
  | .neverAttach b => Launcher.neverAttach b st
  | .streamStart b => streamStartInternal b st
  | .detach b => logicalrepWorkerDetach b st
  | .deleteStreamFileset b => Launcher.deleteStreamFileset b st
  | .stop subid relid => logicalrepWorkerStop subid relid st
  | .stopParallel slot generation => logicalrepPaWorkerStop slot generation st
  | .stopListed slot => Launcher.stopListed slot st
  | .stopRecheck k => Launcher.stopRecheck k st

end CdcKafka.Launcher
