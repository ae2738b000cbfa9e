import CdcKafka.Lib.Steps
import Mathlib.Data.List.Sort
import Mathlib.Data.UInt

/-! `replication/syncrep.c`: backends that wait for their commit to be replicated, and the WAL
senders that let them go. Everything that happens under `SyncRepLock` is one step. -/

namespace CdcKafka.SyncRep

inductive WalSndState
  | startup
  | backup
  | catchup
  | streaming
  | stopping
deriving DecidableEq

inductive Mode
  | write
  | flush
  | apply
deriving DecidableEq

def Mode.capAtFlush : Mode → Mode
  | .write => .write
  | .flush => .flush
  | .apply => .flush

abbrev Lsn := UInt64

structure WalSnd where
  /-- Zero in a slot that no WAL sender uses. -/
  pid : Nat
  state : WalSndState
  position : Mode → Lsn
  syncStandbyPriority : Nat

inductive Method
  | priority
  | quorum
deriving DecidableEq

structure Config where
  syncrepMethod : Method
  numSync : Nat
  pos : 0 < numSync

structure StandbyData where
  position : Mode → Lsn
  syncStandbyPriority : Nat
  walsndIndex : Nat
  isMe : Bool

def WalSnd.isCandidate (w : WalSnd) : Bool :=
  w.pid != 0 && (w.state == .streaming || w.state == .stopping) && w.syncStandbyPriority != 0 && w.position .flush != 0

def collect (me : Nat) : List WalSnd → Nat → List StandbyData
  | [], _ => []
  | w :: walsnds, i =>
    if w.isCandidate then ⟨w.position, w.syncStandbyPriority, i, i == me⟩ :: collect me walsnds (i + 1)
    else collect me walsnds (i + 1)

def standbyPriorityLe (a b : StandbyData) : Prop :=
  a.syncStandbyPriority < b.syncStandbyPriority ∨
    a.syncStandbyPriority = b.syncStandbyPriority ∧ a.walsndIndex ≤ b.walsndIndex

instance : DecidableRel standbyPriorityLe := fun _ _ => inferInstanceAs (Decidable (_ ∨ _))

def syncRepGetCandidateStandbys (cfg : Config) (walsnds : List WalSnd) (me : Nat) : List StandbyData :=
  let standbys := collect me walsnds 0
  if cfg.syncrepMethod = .priority ∧ cfg.numSync < standbys.length then
    (standbys.insertionSort standbyPriorityLe).take cfg.numSync
  else standbys

def older (oldest position : Lsn) : Lsn := if oldest = 0 ∨ position < oldest then position else oldest

def syncRepGetOldestSyncRecPtr (standbys : List StandbyData) (mode : Mode) : Lsn :=
  (standbys.map fun d => d.position mode).foldl older 0

/-- In descending order, the `nth`, counted from one; `stray` is what lies before the array. -/
def syncRepGetNthLatestSyncRecPtr (standbys : List StandbyData) (nth : UInt8) (stray : Lsn) (mode : Mode) : Lsn :=
  let sorted := (standbys.map fun d => d.position mode).insertionSort fun a b => b ≤ a
  if nth = 0 then stray else sorted.getD (nth.toNat - 1) 0

def syncRepGetSyncRecPtr (cfg : Config) (walsnds : List WalSnd) (me : Nat) (stray : Mode → Lsn) :
    Option (Mode → Lsn) :=
  let standbys := syncRepGetCandidateStandbys cfg walsnds me
  if !(standbys.any fun d => d.isMe) || decide (standbys.length < cfg.numSync) then none
  else
    some fun mode =>
      match cfg.syncrepMethod with
      | .priority => syncRepGetOldestSyncRecPtr standbys mode
      | .quorum => syncRepGetNthLatestSyncRecPtr standbys (UInt8.ofNat cfg.numSync) (stray mode) mode

inductive WaitState
  | notWaiting
  | waiting
  | waitComplete
deriving DecidableEq

structure Proc where
  waitLsn : Lsn
  syncRepState : WaitState

structure State where
  walsnds : List WalSnd
  /-- `WalSndCtl->lsn`. -/
  lsn : Mode → Lsn
  /-- `WalSndCtl->SyncRepQueue`, from head to tail. -/
  queue : Mode → List Nat
  procs : Nat → Proc

def initial (maxWalSenders : Nat) : State where
  walsnds := List.replicate maxWalSenders ⟨0, .startup, fun _ => 0, 0⟩
  lsn _ := 0
  queue _ := []
  procs _ := ⟨0, .notWaiting⟩

def insertFromTail (procs : Nat → Proc) (me : Nat) : List Nat → List Nat
  | [] => [me]
  | p :: rest =>
    if (procs p).waitLsn < (procs me).waitLsn then me :: p :: rest else p :: insertFromTail procs me rest

def syncRepQueueInsert (procs : Nat → Proc) (me : Nat) (queue : List Nat) : List Nat :=
  (insertFromTail procs me queue.reverse).reverse

def woken (s : State) (mode : Mode) : List Nat :=
  (s.queue mode).takeWhile fun p => !decide (s.lsn mode < (s.procs p).waitLsn)

def syncRepWakeQueue (s : State) (mode : Mode) : State :=
  { s with
    queue := Function.update s.queue mode ((s.queue mode).dropWhile fun p => !decide (s.lsn mode < (s.procs p).waitLsn))
    procs := fun p => if p ∈ woken s mode then { s.procs p with syncRepState := .waitComplete } else s.procs p }

abbrev Released := Mode × Lsn

def releaseMode (s : State) (mode : Mode) (position : Lsn) : State × List Released :=
  if s.lsn mode < position then
    let s := { s with lsn := Function.update s.lsn mode position }
    (syncRepWakeQueue s mode, (woken s mode).map fun p => (mode, (s.procs p).waitLsn))
  else (s, [])

def WalSnd.mayRelease (w : WalSnd) : Bool :=
  w.syncStandbyPriority != 0 && (w.state == .streaming || w.state == .stopping) && w.position .flush != 0

def syncRepReleaseWaiters (cfg : Config) (s : State) (me : Nat) (stray : Mode → Lsn) : State × List Released :=
  if (s.walsnds[me]?).any WalSnd.mayRelease then
    match syncRepGetSyncRecPtr cfg s.walsnds me stray with
    | none => (s, [])
    | some position =>
      let w := releaseMode s .write (position .write)
      let f := releaseMode w.1 .flush (position .flush)
      let a := releaseMode f.1 .apply (position .apply)
      (a.1, w.2 ++ f.2 ++ a.2)
  else (s, [])

/-- The beginning of `SyncRepWaitForLSN`, up to the wait. Synchronous standbys are defined, whether
or not the checkpointer has set the status yet. -/
def syncRepWaitForLSN (s : State) (me : Nat) (lsn : Lsn) (waitMode : Mode) (commit : Bool) : State × List Released :=
  let mode := if commit then waitMode else waitMode.capAtFlush
  if lsn ≤ s.lsn mode then (s, [(mode, lsn)])
  else
    let procs := Function.update s.procs me ⟨lsn, .waiting⟩
    ({ s with procs := procs, queue := Function.update s.queue mode (syncRepQueueInsert procs me (s.queue mode)) }, [])

def syncRepCancelWait (s : State) (me : Nat) : State :=
  { s with
    queue := fun mode => (s.queue mode).filter fun p => p ≠ me
    procs := Function.update s.procs me ⟨0, .notWaiting⟩ }

inductive Event
  /-- A backend commits; `waitMode` is its `SyncRepWaitMode`. -/
  | waitForLsn (me : Nat) (lsn : Lsn) (waitMode : Mode) (commit : Bool)
  | leave (me : Nat)
  | cancelWait (me : Nat)
  /-- `InitWalSenderSlot`. -/
  | start (i pid : Nat)
  | setState (i : Nat) (state : WalSndState)
  /-- `SyncRepInitConfig`. -/
  | initConfig (i priority : Nat)
  /-- `ProcessStandbyReplyMessage`. -/
  | reply (i : Nat) (position : Mode → Lsn)
  | releaseWaiters (i : Nat) (stray : Mode → Lsn)
  /-- `WalSndKill`. -/
  | stop (i : Nat)

def State.setWalSnd (s : State) (i : Nat) (f : WalSnd → WalSnd) : State := { s with walsnds := s.walsnds.modify i f }

def step (cfg : Config) (s : State) : Event → Option (State × List Released)
  | .waitForLsn me lsn waitMode commit =>
    if (s.procs me).syncRepState = .notWaiting then some (syncRepWaitForLSN s me lsn waitMode commit) else none
  | .leave me =>
    if (s.procs me).syncRepState = .waitComplete then
      some ({ s with procs := Function.update s.procs me ⟨0, .notWaiting⟩ }, [])
    else none
  | .cancelWait me =>
    if (s.procs me).syncRepState ≠ .notWaiting then some (syncRepCancelWait s me, []) else none
  | .start i pid => some (s.setWalSnd i fun _ => ⟨pid, .startup, fun _ => 0, 0⟩, [])
  | .setState i state => some (s.setWalSnd i fun w => { w with state := state }, [])
  | .initConfig i priority => some (s.setWalSnd i fun w => { w with syncStandbyPriority := priority }, [])
  | .reply i position => some (s.setWalSnd i fun w => { w with position := position }, [])
  | .releaseWaiters i stray => some (syncRepReleaseWaiters cfg s i stray)
  | .stop i => some (s.setWalSnd i fun w => { w with pid := 0 }, [])

end CdcKafka.SyncRep
