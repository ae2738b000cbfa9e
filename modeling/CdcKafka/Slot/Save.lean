import CdcKafka.Lib.Steps
import Mathlib.Logic.Function.Basic

/-! `SaveSlotToPath` of `slot.c` under two processes, the owner of a slot and the checkpointer.
Every section under the slot's mutex, every file operation and every wait for
`io_in_progress_lock` is a step of its own. -/

namespace CdcKafka.Slot.Save

structure PersistentData (α : Type) where
  database : Nat
  restartLsn : UInt64
  /-- Not `RS_INVAL_NONE`. -/
  invalidated : Bool
  confirmedFlush : UInt64
  rest : α
deriving DecidableEq

inductive Proc
  | owner
  | checkpointer
deriving DecidableEq

def Proc.other : Proc → Proc
  | .owner => .checkpointer
  | .checkpointer => .owner

inductive Pc (α : Type)
  | outside
  | waiting
  | locked
  | opened
  | copied (cp : PersistentData α)
  | written (cp : PersistentData α)
  | synced (cp : PersistentData α)
  | closed (cp : PersistentData α)
  | renamed (cp : PersistentData α)

def Pc.copy {α : Type} : Pc α → Option (PersistentData α)
  | .copied cp | .written cp | .synced cp | .closed cp | .renamed cp => some cp
  | _ => none

structure State (α : Type) where
  data : PersistentData α
  justDirtied : Bool
  dirty : Bool
  lastSavedConfirmedFlush : UInt64
  lastSavedRestartLsn : UInt64
  ioInProgressLock : Option Proc
  stateFile : PersistentData α
  tmpExists : Bool
  pc : Proc → Pc α
  /-- The values that the data has had since the slot was last marked dirty. -/
  sinceMarked : List (PersistentData α)

variable {α : Type}

def created (d : PersistentData α) : State α where
  data := d
  justDirtied := false
  dirty := false
  lastSavedConfirmedFlush := d.confirmedFlush
  lastSavedRestartLsn := d.restartLsn
  ioInProgressLock := none
  stateFile := d
  tmpExists := false
  pc _ := .outside
  sinceMarked := [d]

inductive Event (α : Type)
  | change (f : PersistentData α → PersistentData α)
  /-- `ReplicationSlotMarkDirty`. -/
  | markDirty
  /-- The checkpointer looks at the slot before it saves it at shutdown. -/
  | shutdownMark
  /-- The first section of `SaveSlotToPath`. -/
  | check (p : Proc)
  | lock (p : Proc)
  | openTmp (p : Proc) (ok : Bool)
  | copy (p : Proc)
  | write (p : Proc) (ok : Bool)
  | sync (p : Proc) (ok : Bool)
  | close (p : Proc) (ok : Bool)
  | rename (p : Proc) (ok : Bool)
  | finish (p : Proc)

namespace State

def goTo (s : State α) (p : Proc) (pc : Pc α) : State α := { s with pc := Function.update s.pc p pc }

def fail (s : State α) (p : Proc) : State α := { s.goTo p .outside with ioInProgressLock := none }

def mark (s : State α) : State α := { s with justDirtied := true, dirty := true, sinceMarked := [s.data] }

def NeedsShutdownMark (s : State α) : Prop :=
  s.data.database ≠ 0 ∧ s.data.invalidated = false ∧ s.lastSavedConfirmedFlush < s.data.confirmedFlush

instance (s : State α) : Decidable s.NeedsShutdownMark := inferInstanceAs (Decidable (_ ∧ _ ∧ _))

def check (s : State α) (p : Proc) : State α :=
  if s.dirty then { s.goTo p .waiting with justDirtied := false } else { s with justDirtied := false }

def openTmp (s : State α) (p : Proc) (ok : Bool) : State α :=
  if s.tmpExists ∨ !ok then s.fail p else { s.goTo p .opened with tmpExists := true }

def rename (s : State α) (p : Proc) (cp : PersistentData α) (ok : Bool) : State α :=
  if ok then { s.goTo p (.renamed cp) with stateFile := cp, tmpExists := false } else s.fail p

def finish (s : State α) (p : Proc) (cp : PersistentData α) : State α :=
  { s.goTo p .outside with
    dirty := if s.justDirtied then s.dirty else false
    lastSavedConfirmedFlush := cp.confirmedFlush
    lastSavedRestartLsn := cp.restartLsn
    ioInProgressLock := none }

end State

def step (s : State α) : Event α → Option (State α)
  | .change f =>
    match s.pc .owner with
    | .outside => some { s with data := f s.data, sinceMarked := s.sinceMarked ++ [f s.data] }
    | _ => none
  | .markDirty =>
    match s.pc .owner with
    | .outside => some s.mark
    | _ => none
  | .shutdownMark =>
    match s.pc .checkpointer with
    | .outside => some (if s.NeedsShutdownMark then s.mark else s)
    | _ => none
  | .check p =>
    match s.pc p with
    | .outside => some (s.check p)
    | _ => none
  | .lock p =>
    match s.pc p, s.ioInProgressLock with
    | .waiting, none => some { s.goTo p .locked with ioInProgressLock := some p }
    | _, _ => none
  | .openTmp p ok =>
    match s.pc p with
    | .locked => some (s.openTmp p ok)
    | _ => none
  | .copy p =>
    match s.pc p with
    | .opened => some (s.goTo p (.copied s.data))
    | _ => none
  | .write p ok =>
    match s.pc p with
    | .copied cp => some (if ok then s.goTo p (.written cp) else s.fail p)
    | _ => none
  | .sync p ok =>
    match s.pc p with
    | .written cp => some (if ok then s.goTo p (.synced cp) else s.fail p)
    | _ => none
  | .close p ok =>
    match s.pc p with
    | .synced cp => some (if ok then s.goTo p (.closed cp) else s.fail p)
    | _ => none
  | .rename p ok =>
    match s.pc p with
    | .closed cp => some (s.rename p cp ok)
    | _ => none
  | .finish p =>
    match s.pc p with
    | .renamed cp => some (s.finish p cp)
    | _ => none

end CdcKafka.Slot.Save
