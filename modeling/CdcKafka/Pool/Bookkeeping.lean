import Mathlib.Data.List.Nodup
import Mathlib.Logic.Function.Basic
import CdcKafka.Lib.Steps
import CdcKafka.Lib.Wire

/-! The leader apply worker's bookkeeping of its parallel apply workers
(`applyparallelworker.c`) and the handlers of `worker.c` that move it: the pool, the hash from
transactions to workers, and the cached worker of the open chunk. -/

namespace CdcKafka.Pool

structure WorkerInfo where
  addr : Nat
  inUse : Bool
  serializeChanges : Bool
  sharedXid : Nat
deriving DecidableEq

structure State where
  parallelApplyWorkerPool : List WorkerInfo
  parallelApplyTxnHash : Nat → Option Nat
  streamApplyWorker : Option Nat
  inStreamedTransaction : Bool
  streamXid : Nat

def initial : State := ⟨[], fun _ => none, none, false, 0⟩

inductive Error
  | hashTableCorrupted
  | duplicateStreamStart
  | streamStopWithoutStart
  | streamAbortWithoutStop
  | streamCommitWithoutStop
  | streamPrepareWithoutStop
  | invalidXid
  | unexpectedApplyAction
  | freedWorker
deriving DecidableEq

structure Allocator where
  addr : List Nat → Nat
  fresh : ∀ used, addr used ∉ used

structure Env where
  parallelApply : Bool
  skiplsnIsInvalid : Bool
  allTablesyncsReady : Bool
  dsmCreated : Bool
  launched : Bool
  palloc : Allocator
  /-- The result of `pa_send_data`. -/
  sent : Bool
  maxParallelApplyWorkersPerSubscription : Nat

namespace State

def deref (s : State) (winfo : Nat) : Except Error WorkerInfo :=
  match s.parallelApplyWorkerPool.find? fun w => w.addr = winfo with
  | some w => .ok w
  | none => .error .freedWorker

def assign (s : State) (winfo : Nat) (f : WorkerInfo → WorkerInfo) : State :=
  { s with parallelApplyWorkerPool := s.parallelApplyWorkerPool.map fun w => if w.addr = winfo then f w else w }

end State

def paCanStart (env : Env) : Bool :=
  env.parallelApply && env.skiplsnIsInvalid && env.allTablesyncsReady

def paLaunchParallelWorker (env : Env) (s : State) : State × Option Nat :=
  match s.parallelApplyWorkerPool.find? fun w => !w.inUse with
  | some w => (s, some w.addr)
  | none =>
    if !env.dsmCreated then (s, none)
    else
      let winfo := env.palloc.addr (s.parallelApplyWorkerPool.map WorkerInfo.addr)
      if env.launched then
        let pool := s.parallelApplyWorkerPool ++ [⟨winfo, false, false, 0⟩]
        ({ s with parallelApplyWorkerPool := pool }, some winfo)
      else (s, none)

def paAllocateWorker (env : Env) (s : State) (xid : Nat) : Except Error State :=
  if !paCanStart env then .ok s
  else
    match paLaunchParallelWorker env s with
    | (s, none) => .ok s
    | (s, some winfo) =>
      if (s.parallelApplyTxnHash xid).isSome then .error .hashTableCorrupted
      else
        let s := s.assign winfo fun w => { w with sharedXid := xid, inUse := true, serializeChanges := false }
        .ok { s with parallelApplyTxnHash := Function.update s.parallelApplyTxnHash xid (some winfo) }

def paFindWorker (s : State) (xid : Nat) : Option Nat :=
  if xid = 0 then none
  else
    match s.streamApplyWorker with
    | some winfo => some winfo
    | none => s.parallelApplyTxnHash xid

def paFreeWorker (env : Env) (s : State) (winfo : Nat) : Except Error State := do
  let w ← s.deref winfo
  if (s.parallelApplyTxnHash w.sharedXid).isNone then .error .hashTableCorrupted
  else
    let s := { s with parallelApplyTxnHash := Function.update s.parallelApplyTxnHash w.sharedXid none }
    if w.serializeChanges ∨ env.maxParallelApplyWorkersPerSubscription / 2 < s.parallelApplyWorkerPool.length then
      -- `pa_free_worker_info`
      pure { s with parallelApplyWorkerPool := s.parallelApplyWorkerPool.filter fun w => w.addr ≠ winfo }
    else pure (s.assign winfo fun w => { w with inUse := false, serializeChanges := false })

def paXactFinish (env : Env) (s : State) (winfo : Nat) : Except Error State := paFreeWorker env s winfo

def paSwitchToPartialSerialize (s : State) (winfo : Nat) : State :=
  s.assign winfo fun w => { w with serializeChanges := true }

inductive TransApplyAction
  | leaderApply
  | leaderSerialize
  | leaderSendToParallel (winfo : Nat)
  | leaderPartialSerialize (winfo : Nat)

def getTransactionApplyAction (s : State) (xid : Nat) : Except Error TransApplyAction :=
  match paFindWorker s xid with
  | some winfo => do
    let w ← s.deref winfo
    pure (if w.serializeChanges then .leaderPartialSerialize winfo else .leaderSendToParallel winfo)
  | none => .ok (if s.inStreamedTransaction then .leaderSerialize else .leaderApply)

def streamStartChunk (env : Env) (s : State) : TransApplyAction → Except Error State
  | .leaderSerialize => .ok s
  | .leaderSendToParallel winfo =>
    if env.sent then .ok { s with streamApplyWorker := some winfo }
    else .ok { paSwitchToPartialSerialize s winfo with streamApplyWorker := some winfo }
  | .leaderPartialSerialize winfo => .ok { s with streamApplyWorker := some winfo }
  | .leaderApply => .error .unexpectedApplyAction

def applyHandleStreamStart (env : Env) (s : State) (xid : Nat) (firstSegment : Bool) : Except Error State :=
  if s.inStreamedTransaction then .error .duplicateStreamStart
  else
    let s := { s with inStreamedTransaction := true, streamXid := xid }
    if xid = 0 then .error .invalidXid
    else do
      let s ← if firstSegment then paAllocateWorker env s xid else pure s
      let action ← getTransactionApplyAction s xid
      streamStartChunk env s action

def streamStopChunk (env : Env) (s : State) : TransApplyAction → Except Error State
  | .leaderSerialize => .ok s
  | .leaderSendToParallel winfo =>
    if env.sent then .ok { s with streamApplyWorker := none }
    else .ok { paSwitchToPartialSerialize s winfo with streamApplyWorker := none }
  | .leaderPartialSerialize _ => .ok { s with streamApplyWorker := none }
  | .leaderApply => .error .unexpectedApplyAction

def applyHandleStreamStop (env : Env) (s : State) : Except Error State :=
  if !s.inStreamedTransaction then .error .streamStopWithoutStart
  else do
    let action ← getTransactionApplyAction s s.streamXid
    let s ← streamStopChunk env s action
    pure { s with inStreamedTransaction := false, streamXid := 0 }

def handleStreamedTransaction (env : Env) (s : State) (currentXid : Nat) : Except Error State := do
  match ← getTransactionApplyAction s s.streamXid with
  | .leaderApply => pure s
  | action =>
    if currentXid = 0 then .error .invalidXid
    else
      match action with
      | .leaderSendToParallel winfo => pure (if env.sent then s else paSwitchToPartialSerialize s winfo)
      | _ => pure s

def applyHandleStreamAbort (env : Env) (s : State) (xid subxid : Nat) : Except Error State :=
  if s.inStreamedTransaction then .error .streamAbortWithoutStop
  else do
    let toplevelXact := xid = subxid
    match ← getTransactionApplyAction s xid with
    | .leaderApply => pure s
    | .leaderSendToParallel winfo =>
      let s := if env.sent then s else paSwitchToPartialSerialize s winfo
      if toplevelXact then paXactFinish env s winfo else pure s
    | .leaderPartialSerialize winfo => if toplevelXact then paXactFinish env s winfo else pure s
    | .leaderSerialize => .error .unexpectedApplyAction

/-- The switch over the action that `apply_handle_stream_commit` and
`apply_handle_stream_prepare` share. -/
def streamFinish (env : Env) (s : State) : TransApplyAction → Except Error State
  | .leaderApply => .ok s
  | .leaderSendToParallel winfo =>
    if env.sent then paXactFinish env s winfo
    else paXactFinish env (paSwitchToPartialSerialize s winfo) winfo
  | .leaderPartialSerialize winfo => paXactFinish env s winfo
  | .leaderSerialize => .error .unexpectedApplyAction

def applyHandleStreamCommit (env : Env) (s : State) (xid : Nat) : Except Error State :=
  if s.inStreamedTransaction then .error .streamCommitWithoutStop
  else do
    let action ← getTransactionApplyAction s xid
    streamFinish env s action

def applyHandleStreamPrepare (env : Env) (s : State) (xid : Nat) : Except Error State :=
  if s.inStreamedTransaction then .error .streamPrepareWithoutStop
  else do
    let action ← getTransactionApplyAction s xid
    streamFinish env s action

inductive Msg
  | streamStart (xid : Nat) (firstSegment : Bool)
  | streamStop
  /-- Any message that goes through `handle_streamed_transaction`. -/
  | change (currentXid : Nat)
  | streamAbort (xid subxid : Nat)
  | streamCommit (xid : Nat)
  | streamPrepare (xid : Nat)

def step (s : State) (e : Env × Msg) : Except Error State :=
  match e.2 with
  | .streamStart xid firstSegment => applyHandleStreamStart e.1 s xid firstSegment
  | .streamStop => applyHandleStreamStop e.1 s
  | .change currentXid => handleStreamedTransaction e.1 s currentXid
  | .streamAbort xid subxid => applyHandleStreamAbort e.1 s xid subxid
  | .streamCommit xid => applyHandleStreamCommit e.1 s xid
  | .streamPrepare xid => applyHandleStreamPrepare e.1 s xid

def Msg.finishes : Msg → Option Nat
  | .streamAbort xid subxid => if xid = subxid then some xid else none
  | .streamCommit xid => some xid
  | .streamPrepare xid => some xid
  | _ => none

end CdcKafka.Pool

/-! The workers in use are those the hash points to, one entry each, and the cached worker is
that of the open chunk. -/

namespace CdcKafka.Pool

open CdcKafka.Lib

variable {s t : State} {pool : List WorkerInfo} {hash : Nat → Option Nat} {w : WorkerInfo} {x : Nat}

structure Linked (pool : List WorkerInfo) (hash : Nat → Option Nat) : Prop where
  addrs : (pool.map WorkerInfo.addr).Nodup
  entry : ∀ x a, hash x = some a → x ≠ 0 ∧ ∃ w ∈ pool, w.addr = a ∧ w.inUse = true ∧ w.sharedXid = x
  used : ∀ w ∈ pool, w.inUse = true → hash w.sharedXid = some w.addr

namespace Linked

theorem eq_of_addr (h : Linked pool hash) {v : WorkerInfo} (hv : v ∈ pool) (hw : w ∈ pool)
    (haddr : v.addr = w.addr) : v = w :=
  List.inj_on_of_nodup_map h.addrs hv hw haddr

theorem entry_inj (h : Linked pool hash) {y a : Nat} (hx : hash x = some a) (hy : hash y = some a) : x = y := by
  obtain ⟨-, v, hv, hva, -, rfl⟩ := h.entry x a hx
  obtain ⟨-, w, hw, hwa, -, rfl⟩ := h.entry y a hy
  rw [h.eq_of_addr hv hw (hva.trans hwa.symm)]

theorem find?_addr (h : Linked pool hash) (hw : w ∈ pool) : (pool.find? fun v => v.addr = w.addr) = some w := by
  cases hfind : pool.find? fun v => v.addr = w.addr with
  | none =>
    have hnone := List.find?_eq_none.mp hfind w hw
    exact absurd (decide_eq_true rfl) hnone
  | some v =>
    have haddr : v.addr = w.addr := by simpa using List.find?_some hfind
    rw [h.eq_of_addr (List.mem_of_find?_eq_some hfind) hw haddr]

def assigned (pool : List WorkerInfo) (a : Nat) (f : WorkerInfo → WorkerInfo) : List WorkerInfo :=
  pool.map fun w => if w.addr = a then f w else w

theorem addrs_assigned {a : Nat} {f : WorkerInfo → WorkerInfo} (hf : ∀ w, (f w).addr = w.addr) :
    (assigned pool a f).map WorkerInfo.addr = pool.map WorkerInfo.addr := by
  rw [assigned, List.map_map]
  apply List.map_congr_left
  intro w _
  show WorkerInfo.addr (if w.addr = a then f w else w) = w.addr
  split
  · exact hf w
  · rfl

theorem mem_assigned (h : Linked pool hash) {f : WorkerInfo → WorkerInfo} (hw : w ∈ pool) {v : WorkerInfo} :
    v ∈ assigned pool w.addr f ↔ v = f w ∨ v ∈ pool ∧ v.addr ≠ w.addr := by
  rw [assigned, List.mem_map]
  constructor
  · rintro ⟨u, hu, rfl⟩
    by_cases haddr : u.addr = w.addr
    · rw [if_pos haddr, h.eq_of_addr hu hw haddr]
      exact .inl rfl
    · rw [if_neg haddr]
      exact .inr ⟨hu, haddr⟩
  · rintro (rfl | ⟨hv, haddr⟩)
    · exact ⟨w, hw, if_pos rfl⟩
    · exact ⟨v, hv, if_neg haddr⟩

theorem assign (h : Linked pool hash) {f : WorkerInfo → WorkerInfo} (hw : w ∈ pool) (haddr : ∀ w, (f w).addr = w.addr)
    (huse : (f w).inUse = w.inUse) (hxid : (f w).sharedXid = w.sharedXid) : Linked (assigned pool w.addr f) hash where
  addrs := by
    rw [addrs_assigned haddr]
    exact h.addrs
  entry x a hx := by
    obtain ⟨hne, v, hv, hva, hvuse, hvx⟩ := h.entry x a hx
    refine ⟨hne, ?_⟩
    by_cases hsame : v.addr = w.addr
    · obtain rfl := h.eq_of_addr hv hw hsame
      exact ⟨f v, (h.mem_assigned hv).mpr (.inl rfl), (haddr v).trans hva, huse.trans hvuse, hxid.trans hvx⟩
    · exact ⟨v, (h.mem_assigned hw).mpr (.inr ⟨hv, hsame⟩), hva, hvuse, hvx⟩
  used v hv hvuse := by
    rcases (h.mem_assigned hw).mp hv with rfl | ⟨hv, -⟩
    · rw [hxid, haddr]
      exact h.used w hw (huse.symm.trans hvuse)
    · exact h.used v hv hvuse

theorem concat (h : Linked pool hash) {a : Nat} (ha : a ∉ pool.map WorkerInfo.addr) (serializeChanges : Bool)
    (sharedXid : Nat) : Linked (pool ++ [⟨a, false, serializeChanges, sharedXid⟩]) hash where
  addrs := by
    rw [List.map_append, List.nodup_append]
    refine ⟨h.addrs, by simp, fun b hb c hc heq => ?_⟩
    obtain rfl : c = a := by simpa using hc
    exact ha (heq ▸ hb)
  entry x b hx := by
    obtain ⟨hne, v, hv, hrest⟩ := h.entry x b hx
    exact ⟨hne, v, List.mem_append_left _ hv, hrest⟩
  used v hv hvuse := by
    rcases List.mem_append.mp hv with hv | hv
    · exact h.used v hv hvuse
    · obtain rfl := List.mem_singleton.mp hv
      cases hvuse

theorem take (h : Linked pool hash) (hw : w ∈ pool) (hfree : w.inUse = false) (hx : hash x = none) (hne : x ≠ 0)
    {f : WorkerInfo → WorkerInfo} (haddr : ∀ w, (f w).addr = w.addr) (huse : (f w).inUse = true)
    (hxid : (f w).sharedXid = x) :
    Linked (assigned pool w.addr f) (Function.update hash x (some w.addr)) where
  addrs := by
    rw [addrs_assigned haddr]
    exact h.addrs
  entry y a hy := by
    by_cases heq : y = x
    · subst heq
      rw [Function.update_self] at hy
      obtain rfl := Option.some.inj hy
      exact ⟨hne, f w, (h.mem_assigned hw).mpr (.inl rfl), haddr w, huse, hxid⟩
    · rw [Function.update_of_ne heq] at hy
      obtain ⟨hyne, v, hv, hva, hvuse, hvx⟩ := h.entry y a hy
      have hother : v.addr ≠ w.addr := by
        intro hsame
        rw [h.eq_of_addr hv hw hsame, hfree] at hvuse
        cases hvuse
      exact ⟨hyne, v, (h.mem_assigned hw).mpr (.inr ⟨hv, hother⟩), hva, hvuse, hvx⟩
  used v hv hvuse := by
    rcases (h.mem_assigned hw).mp hv with rfl | ⟨hv, -⟩
    · rw [hxid, haddr, Function.update_self]
    · have hold := h.used v hv hvuse
      have hvx : v.sharedXid ≠ x := by
        rintro rfl
        rw [hx] at hold
        cases hold
      rw [Function.update_of_ne hvx]
      exact hold

theorem entry_of_ne (h : Linked pool hash) (hx : hash x = some w.addr) {y a : Nat} (hyx : y ≠ x)
    (hy : hash y = some a) : y ≠ 0 ∧ ∃ v ∈ pool, v.addr ≠ w.addr ∧ v.addr = a ∧ v.inUse = true ∧ v.sharedXid = y := by
  obtain ⟨hne, v, hv, hva, hvuse, hvx⟩ := h.entry y a hy
  refine ⟨hne, v, hv, fun hsame => hyx ?_, hva, hvuse, hvx⟩
  exact h.entry_inj (hva ▸ hy) (hsame ▸ hx)

theorem release (h : Linked pool hash) (hw : w ∈ pool) (hx : hash x = some w.addr)
    {f : WorkerInfo → WorkerInfo} (haddr : ∀ w, (f w).addr = w.addr) (huse : (f w).inUse = false) :
    Linked (assigned pool w.addr f) (Function.update hash x none) where
  addrs := by
    rw [addrs_assigned haddr]
    exact h.addrs
  entry y a hy := by
    by_cases heq : y = x
    · rw [heq, Function.update_self] at hy
      cases hy
    · rw [Function.update_of_ne heq] at hy
      obtain ⟨hne, v, hv, hother, hrest⟩ := h.entry_of_ne hx heq hy
      exact ⟨hne, v, (h.mem_assigned hw).mpr (.inr ⟨hv, hother⟩), hrest⟩
  used v hv hvuse := by
    rcases (h.mem_assigned hw).mp hv with rfl | ⟨hv, hother⟩
    · rw [huse] at hvuse
      cases hvuse
    · have hold := h.used v hv hvuse
      have hvx : v.sharedXid ≠ x := by
        rintro heq
        rw [heq, hx] at hold
        exact hother (Option.some.inj hold).symm
      rw [Function.update_of_ne hvx]
      exact hold

theorem remove (h : Linked pool hash) (hx : hash x = some w.addr) :
    Linked (pool.filter fun v => v.addr ≠ w.addr) (Function.update hash x none) where
  addrs := h.addrs.sublist (List.filter_sublist.map _)
  entry y a hy := by
    by_cases heq : y = x
    · rw [heq, Function.update_self] at hy
      cases hy
    · rw [Function.update_of_ne heq] at hy
      obtain ⟨hne, v, hv, hother, hrest⟩ := h.entry_of_ne hx heq hy
      exact ⟨hne, v, List.mem_filter.mpr ⟨hv, decide_eq_true hother⟩, hrest⟩
  used v hv hvuse := by
    obtain ⟨hv, hother⟩ := List.mem_filter.mp hv
    have hold := h.used v hv hvuse
    have hvx : v.sharedXid ≠ x := by
      rintro heq
      rw [heq, hx] at hold
      exact of_decide_eq_true hother (Option.some.inj hold).symm
    rw [Function.update_of_ne hvx]
    exact hold

end Linked

def State.Linked (s : State) : Prop := Pool.Linked s.parallelApplyWorkerPool s.parallelApplyTxnHash

structure Coherent (s : State) : Prop where
  linked : s.Linked
  opened : s.inStreamedTransaction = true → s.streamApplyWorker = s.parallelApplyTxnHash s.streamXid
  closed : s.inStreamedTransaction = false → s.streamApplyWorker = none ∧ s.streamXid = 0

theorem State.Linked.no_invalid (h : s.Linked) : s.parallelApplyTxnHash 0 = none := by
  cases hzero : s.parallelApplyTxnHash 0 with
  | none => rfl
  | some a => exact absurd rfl (h.entry 0 a hzero).1

theorem Coherent.find (h : Coherent s) (hx : s.inStreamedTransaction = true → x = s.streamXid) :
    paFindWorker s x = s.parallelApplyTxnHash x := by
  by_cases hzero : x = 0
  · rw [paFindWorker, if_pos hzero, hzero, h.linked.no_invalid]
  · rw [paFindWorker, if_neg hzero]
    cases hstream : s.inStreamedTransaction with
    | false => rw [(h.closed hstream).1]
    | true =>
      rw [h.opened hstream, hx hstream]
      cases s.parallelApplyTxnHash s.streamXid with
      | none => rfl
      | some a => rfl

theorem State.Linked.deref (h : s.Linked) (hw : w ∈ s.parallelApplyWorkerPool) : s.deref w.addr = .ok w := by
  rw [State.deref, h.find?_addr hw]

theorem getTransactionApplyAction_spec (h : s.Linked) (hfind : paFindWorker s x = s.parallelApplyTxnHash x) :
    (s.parallelApplyTxnHash x = none ∧
      getTransactionApplyAction s x = .ok (if s.inStreamedTransaction then .leaderSerialize else .leaderApply)) ∨
    ∃ w ∈ s.parallelApplyWorkerPool, s.parallelApplyTxnHash x = some w.addr ∧ w.sharedXid = x ∧
      (getTransactionApplyAction s x = .ok (.leaderPartialSerialize w.addr) ∨
        getTransactionApplyAction s x = .ok (.leaderSendToParallel w.addr)) := by
  rw [getTransactionApplyAction, hfind]
  cases hx : s.parallelApplyTxnHash x with
  | none => exact .inl ⟨rfl, rfl⟩
  | some a =>
    obtain ⟨-, w, hw, rfl, -, hwx⟩ := h.entry x a hx
    refine .inr ⟨w, hw, rfl, hwx, ?_⟩
    simp only [h.deref hw, ok_bind]
    cases hserialize : w.serializeChanges with
    | true => exact .inl rfl
    | false => exact .inr rfl

theorem State.Linked.switch (h : s.Linked) (hw : w ∈ s.parallelApplyWorkerPool) :
    (paSwitchToPartialSerialize s w.addr).Linked :=
  h.assign hw (fun _ => rfl) rfl rfl

theorem mem_switch (h : s.Linked) (hw : w ∈ s.parallelApplyWorkerPool) :
    { w with serializeChanges := true } ∈ (paSwitchToPartialSerialize s w.addr).parallelApplyWorkerPool :=
  (h.mem_assigned hw).mpr (.inl rfl)

theorem Coherent.switch (h : Coherent s) (hw : w ∈ s.parallelApplyWorkerPool) :
    Coherent (paSwitchToPartialSerialize s w.addr) :=
  ⟨h.linked.switch hw, h.opened, h.closed⟩

theorem paLaunchParallelWorker_cases (env : Env) (h : s.Linked) : paLaunchParallelWorker env s = (s, none) ∨
      ∃ pool, Pool.Linked pool s.parallelApplyTxnHash ∧ ∃ w ∈ pool, w.inUse = false ∧
          paLaunchParallelWorker env s = ({ s with parallelApplyWorkerPool := pool }, some w.addr) := by
  cases hfind : s.parallelApplyWorkerPool.find? fun w => !w.inUse with
  | some w =>
    have hfree : w.inUse = false := by simpa using List.find?_some hfind
    refine .inr ⟨s.parallelApplyWorkerPool, h, w, List.mem_of_find?_eq_some hfind, hfree, ?_⟩
    rw [paLaunchParallelWorker, hfind]
  | none =>
    rw [paLaunchParallelWorker, hfind]
    cases env.dsmCreated with
    | false => exact .inl rfl
    | true =>
      cases hlaunched : env.launched with
      | false => exact .inl rfl
      | true =>
        have hfresh := env.palloc.fresh (s.parallelApplyWorkerPool.map WorkerInfo.addr)
        exact .inr ⟨_, h.concat hfresh false 0, _, List.mem_append_right _ (List.mem_singleton_self _), rfl, rfl⟩

theorem paAllocateWorker_spec (env : Env) (h : s.Linked) (hx : x ≠ 0) :
    paAllocateWorker env s x = .error .hashTableCorrupted ∨
      ∃ pool hash, Pool.Linked pool hash ∧ paAllocateWorker env s x =
        .ok { s with parallelApplyWorkerPool := pool, parallelApplyTxnHash := hash } := by
  rw [paAllocateWorker]
  cases paCanStart env with
  | false => exact .inr ⟨_, _, h, rfl⟩
  | true =>
    rcases paLaunchParallelWorker_cases env h with hnone | ⟨pool, hpool, w, hw, hfree, hlaunch⟩
    · rw [hnone]
      exact .inr ⟨_, _, h, rfl⟩
    · rw [hlaunch]
      cases hentry : s.parallelApplyTxnHash x with
      | some a =>
        left
        simp [hentry]
      | none =>
        right
        have htake := hpool.take (f := fun w => { w with sharedXid := x, inUse := true, serializeChanges := false })
          hw hfree hentry hx (fun _ => rfl) rfl rfl
        exact ⟨_, _, htake, by simp [hentry, State.assign, Linked.assigned]⟩

theorem paFreeWorker_spec (env : Env) (h : s.Linked) (hw : w ∈ s.parallelApplyWorkerPool)
    (hx : s.parallelApplyTxnHash w.sharedXid = some w.addr) :
    ∃ pool, Pool.Linked pool (Function.update s.parallelApplyTxnHash w.sharedXid none) ∧
      paFreeWorker env s w.addr = .ok { s with
        parallelApplyWorkerPool := pool
        parallelApplyTxnHash := Function.update s.parallelApplyTxnHash w.sharedXid none } := by
  rw [paFreeWorker, h.deref hw, ok_bind, hx, if_neg (by simp)]
  by_cases hstop : w.serializeChanges = true ∨
      env.maxParallelApplyWorkersPerSubscription / 2 < s.parallelApplyWorkerPool.length
  · simp only [if_pos hstop]
    exact ⟨_, h.remove hx, rfl⟩
  · simp only [if_neg hstop]
    refine ⟨_, h.release (f := fun w => { w with inUse := false, serializeChanges := false }) hw hx
      (fun _ => rfl) rfl, rfl⟩

def Sound (r : Except Error State) : Prop :=
  (∀ s, r = .ok s → Coherent s) ∧ r ≠ .error .freedWorker

theorem Sound.ok (h : Coherent s) : Sound (.ok s) := by
  refine ⟨fun t ht => ?_, fun herror => (by cases herror)⟩
  obtain rfl : s = t := by simpa using ht
  exact h

theorem Sound.error {e : Error} (he : e ≠ .freedWorker) : Sound (.error e) := by
  refine ⟨fun t ht => (by cases ht), fun h => he ?_⟩
  simpa using h

theorem sound_streamStartChunk (env : Env) (h : s.Linked) (hopen : s.inStreamedTransaction = true)
    (hcache : s.streamApplyWorker = none) (hxid : s.streamXid = x) (hx : x ≠ 0) :
    Sound (do
      let action ← getTransactionApplyAction s x
      streamStartChunk env s action) := by
  have hfind : paFindWorker s x = s.parallelApplyTxnHash x := by
    rw [paFindWorker, if_neg hx, hcache]
  rcases getTransactionApplyAction_spec h hfind with ⟨hnone, haction⟩ | ⟨w, hw, hentry, -, haction⟩
  · rw [haction, hopen]
    refine Sound.ok ⟨h, fun _ => ?_, fun hclosed => ?_⟩
    · rw [hcache, hxid, hnone]
    · rw [hopen] at hclosed
      cases hclosed
  · -- whether the message is sent or written, the worker found in the hash is cached
    have hcached : ∀ t : State, t.Linked → t.parallelApplyTxnHash = s.parallelApplyTxnHash →
        t.inStreamedTransaction = true → t.streamXid = x → Coherent { t with streamApplyWorker := some w.addr } := by
      intro t ht hhash htopen htxid
      refine ⟨ht, fun _ => ?_, fun hclosed => ?_⟩
      · rw [← hentry, ← htxid, ← hhash]
      · exact absurd (htopen.symm.trans hclosed) (by decide)
    rcases haction with haction | haction
    · rw [haction]
      exact Sound.ok (hcached s h rfl hopen hxid)
    · rw [haction, ok_bind, streamStartChunk]
      cases env.sent with
      | true => exact Sound.ok (hcached s h rfl hopen hxid)
      | false => exact Sound.ok (hcached _ (h.switch hw) rfl hopen hxid)

theorem sound_streamStart (env : Env) (h : Coherent s) (xid : Nat) (firstSegment : Bool) :
    Sound (applyHandleStreamStart env s xid firstSegment) := by
  rw [applyHandleStreamStart]
  cases hstream : s.inStreamedTransaction with
  | true => exact Sound.error (by decide)
  | false =>
    by_cases hxid : xid = 0
    · simp only [if_pos hxid]
      exact Sound.error (by decide)
    · simp only [if_neg hxid]
      have hcache := (h.closed hstream).1
      cases firstSegment with
      | false =>
        exact sound_streamStartChunk (s := { s with inStreamedTransaction := true, streamXid := xid })
          env h.linked rfl hcache rfl hxid
      | true =>
        rcases paAllocateWorker_spec (s := { s with inStreamedTransaction := true, streamXid := xid }) env h.linked hxid
          with herror | ⟨pool, hash, hlinked, hok⟩
        · simp only [Bool.false_eq_true, if_false, if_true, herror]
          exact Sound.error (by decide)
        · simp only [Bool.false_eq_true, if_false, if_true, hok, ok_bind]
          exact sound_streamStartChunk (s := ⟨pool, hash, s.streamApplyWorker, true, xid⟩)
            env hlinked rfl hcache rfl hxid

theorem Coherent.close (h : t.Linked) :
    Coherent { t with streamApplyWorker := none, inStreamedTransaction := false, streamXid := 0 } :=
  ⟨h, fun hopen => (by cases hopen), fun _ => ⟨rfl, rfl⟩⟩

theorem sound_streamStop (env : Env) (h : Coherent s) : Sound (applyHandleStreamStop env s) := by
  rw [applyHandleStreamStop]
  cases hstream : s.inStreamedTransaction with
  | false => exact Sound.error (by decide)
  | true =>
    rw [if_neg (by decide)]
    rcases getTransactionApplyAction_spec h.linked (h.find fun _ => rfl) with
      ⟨hnone, haction⟩ | ⟨w, hw, hentry, -, haction⟩
    · have hcache : s.streamApplyWorker = none := by rw [h.opened hstream, hnone]
      have hclose := Coherent.close h.linked
      rw [haction, hstream]
      rw [← hcache] at hclose
      exact Sound.ok hclose
    · rcases haction with haction | haction
      · rw [haction]
        exact Sound.ok (.close h.linked)
      · rw [haction, ok_bind, streamStopChunk]
        cases env.sent with
        | true => exact Sound.ok (.close h.linked)
        | false => exact Sound.ok (.close (h.linked.switch hw))

theorem sound_change (env : Env) (h : Coherent s) (currentXid : Nat) :
    Sound (handleStreamedTransaction env s currentXid) := by
  rw [handleStreamedTransaction]
  rcases getTransactionApplyAction_spec h.linked (h.find fun _ => rfl) with
    ⟨hnone, haction⟩ | ⟨w, hw, hentry, -, haction⟩
  · rw [haction]
    cases s.inStreamedTransaction with
    | false => exact Sound.ok h
    | true =>
      by_cases hcurrent : currentXid = 0
      · simp only [if_true, ok_bind, if_pos hcurrent]
        exact Sound.error (by decide)
      · simp only [if_true, ok_bind, if_neg hcurrent]
        exact Sound.ok h
  · by_cases hcurrent : currentXid = 0
    · rcases haction with haction | haction
      · simp only [haction, ok_bind, if_pos hcurrent]
        exact Sound.error (by decide)
      · simp only [haction, ok_bind, if_pos hcurrent]
        exact Sound.error (by decide)
    · rcases haction with haction | haction
      · simp only [haction, ok_bind, if_neg hcurrent]
        exact Sound.ok h
      · simp only [haction, ok_bind, if_neg hcurrent]
        cases env.sent with
        | true => exact Sound.ok h
        | false => exact Sound.ok (h.switch hw)

def Finished (r : Except Error State) (x : Nat) : Prop :=
  ∃ t, r = .ok t ∧ Coherent t ∧ t.parallelApplyTxnHash x = none ∧ t.streamApplyWorker = none

theorem finished_paXactFinish (env : Env) (h : Coherent s) (hstream : s.inStreamedTransaction = false)
    (hw : w ∈ s.parallelApplyWorkerPool) (hentry : s.parallelApplyTxnHash x = some w.addr) (hxid : w.sharedXid = x) :
    Finished (paXactFinish env s w.addr) x := by
  subst hxid
  obtain ⟨pool, hlinked, hfree⟩ := paFreeWorker_spec env h.linked hw hentry
  refine ⟨_, hfree, ⟨hlinked, fun hopen => ?_, h.closed⟩, Function.update_self _ _ _, (h.closed hstream).1⟩
  exact absurd (hstream.symm.trans hopen) (by decide)

theorem finished_leader (h : Coherent s) (hstream : s.inStreamedTransaction = false)
    (hnone : s.parallelApplyTxnHash x = none) : Finished (.ok s) x :=
  ⟨s, rfl, h, hnone, (h.closed hstream).1⟩

theorem Finished.sound {r : Except Error State} (h : Finished r x) : Sound r := by
  obtain ⟨t, rfl, ht, -⟩ := h
  exact Sound.ok ht

theorem finished_sendOrSwitch (env : Env) (h : Coherent s) (hstream : s.inStreamedTransaction = false)
    (hw : w ∈ s.parallelApplyWorkerPool) (hentry : s.parallelApplyTxnHash x = some w.addr) (hxid : w.sharedXid = x) :
    Finished (paXactFinish env (if env.sent then s else paSwitchToPartialSerialize s w.addr) w.addr) x := by
  cases env.sent with
  | true => exact finished_paXactFinish env h hstream hw hentry hxid
  | false =>
    exact finished_paXactFinish (w := { w with serializeChanges := true }) env (h.switch hw) hstream
      (mem_switch h.linked hw) hentry hxid

theorem finished_streamFinish (env : Env) (h : Coherent s) (hstream : s.inStreamedTransaction = false) : Finished (do
      let action ← getTransactionApplyAction s x
      streamFinish env s action) x := by
  have hfind := h.find (x := x) fun hopen => absurd (hstream.symm.trans hopen) (by decide)
  rcases getTransactionApplyAction_spec h.linked hfind with ⟨hnone, haction⟩ | ⟨w, hw, hentry, hxid, haction⟩
  · rw [haction, hstream]
    exact finished_leader h hstream hnone
  · rcases haction with haction | haction
    · rw [haction]
      exact finished_paXactFinish env h hstream hw hentry hxid
    · rw [haction, ok_bind, streamFinish]
      have hfinished := finished_sendOrSwitch env h hstream hw hentry hxid
      cases hsent : env.sent with
      | true =>
        rw [hsent] at hfinished
        exact hfinished
      | false =>
        rw [hsent] at hfinished
        exact hfinished

theorem finished_streamAbort (env : Env) (h : Coherent s) (hstream : s.inStreamedTransaction = false) (xid : Nat) :
    Finished (applyHandleStreamAbort env s xid xid) xid := by
  rw [applyHandleStreamAbort, hstream, if_neg (by decide)]
  have hfind := h.find (x := xid) fun hopen => absurd (hstream.symm.trans hopen) (by decide)
  rcases getTransactionApplyAction_spec h.linked hfind with ⟨hnone, haction⟩ | ⟨w, hw, hentry, hxid, haction⟩
  · simp only [haction, hstream, ok_bind]
    exact finished_leader h hstream hnone
  · rcases haction with haction | haction
    · simp only [haction, ok_bind, if_true]
      exact finished_paXactFinish env h hstream hw hentry hxid
    · simp only [haction, ok_bind, if_true]
      exact finished_sendOrSwitch env h hstream hw hentry hxid

theorem sound_streamAbort (env : Env) (h : Coherent s) (xid subxid : Nat) :
    Sound (applyHandleStreamAbort env s xid subxid) := by
  cases hstream : s.inStreamedTransaction with
  | true =>
    rw [applyHandleStreamAbort, hstream]
    exact Sound.error (by decide)
  | false =>
    by_cases htop : xid = subxid
    · subst htop
      exact (finished_streamAbort env h hstream xid).sound
    · rw [applyHandleStreamAbort, hstream, if_neg (by decide)]
      have hfind := h.find (x := xid) fun hopen => absurd (hstream.symm.trans hopen) (by decide)
      rcases getTransactionApplyAction_spec h.linked hfind with ⟨hnone, haction⟩ | ⟨w, hw, hentry, hxid, haction⟩
      · simp only [haction, hstream, ok_bind]
        exact Sound.ok h
      · rcases haction with haction | haction
        · simp only [haction, ok_bind, if_neg htop]
          exact Sound.ok h
        · simp only [haction, ok_bind, if_neg htop]
          cases env.sent with
          | true => exact Sound.ok h
          | false => exact Sound.ok (h.switch hw)

theorem sound_step (h : Coherent s) (e : Env × Msg) : Sound (step s e) := by
  obtain ⟨env, msg⟩ := e
  cases msg with
  | streamStart xid firstSegment => exact sound_streamStart env h xid firstSegment
  | streamStop => exact sound_streamStop env h
  | change currentXid => exact sound_change env h currentXid
  | streamAbort xid subxid => exact sound_streamAbort env h xid subxid
  | streamCommit xid =>
    show Sound (applyHandleStreamCommit env s xid)
    rw [applyHandleStreamCommit]
    cases hstream : s.inStreamedTransaction with
    | true => exact Sound.error (by decide)
    | false => exact (finished_streamFinish env h hstream).sound
  | streamPrepare xid =>
    show Sound (applyHandleStreamPrepare env s xid)
    rw [applyHandleStreamPrepare]
    cases hstream : s.inStreamedTransaction with
    | true => exact Sound.error (by decide)
    | false => exact (finished_streamFinish env h hstream).sound

theorem finished_step (h : Coherent s) {e : Env × Msg} (hx : e.2.finishes = some x) (ht : step s e = .ok t) :
    t.parallelApplyTxnHash x = none ∧ t.streamApplyWorker = none := by
  have hof : ∀ {r : Except Error State}, Finished r x → r = .ok t →
      t.parallelApplyTxnHash x = none ∧ t.streamApplyWorker = none := by
    rintro r ⟨u, rfl, -, hentry, hcache⟩ hr
    obtain rfl : u = t := by simpa using hr
    exact ⟨hentry, hcache⟩
  obtain ⟨env, msg⟩ := e
  cases msg with
  | streamStart xid firstSegment => cases hx
  | streamStop => cases hx
  | change currentXid => cases hx
  | streamAbort xid subxid =>
    have htop : xid = subxid ∧ xid = x := by simpa [Msg.finishes] using hx
    obtain ⟨rfl, rfl⟩ := htop
    replace ht : applyHandleStreamAbort env s xid xid = .ok t := ht
    cases hstream : s.inStreamedTransaction with
    | true =>
      simp only [applyHandleStreamAbort, hstream, if_true] at ht
      cases ht
    | false => exact hof (finished_streamAbort env h hstream xid) ht
  | streamCommit xid =>
    obtain rfl : xid = x := by simpa [Msg.finishes] using hx
    replace ht : applyHandleStreamCommit env s xid = .ok t := ht
    rw [applyHandleStreamCommit] at ht
    cases hstream : s.inStreamedTransaction with
    | true =>
      simp only [hstream, if_true] at ht
      cases ht
    | false =>
      simp only [hstream, Bool.false_eq_true, if_false] at ht
      exact hof (finished_streamFinish env h hstream) ht
  | streamPrepare xid =>
    obtain rfl : xid = x := by simpa [Msg.finishes] using hx
    replace ht : applyHandleStreamPrepare env s xid = .ok t := ht
    rw [applyHandleStreamPrepare] at ht
    cases hstream : s.inStreamedTransaction with
    | true =>
      simp only [hstream, if_true] at ht
      cases ht
    | false =>
      simp only [hstream, Bool.false_eq_true, if_false] at ht
      exact hof (finished_streamFinish env h hstream) ht

def Reached (msgs : List (Env × Msg)) (s : State) : Prop :=
  Steps (fun s e t => step s e = .ok t) initial msgs s

theorem coherent_of_reached {msgs : List (Env × Msg)} (h : Reached msgs s) : Coherent s := by
  refine Steps.invariant (P := Coherent) (fun hs hstep => (sound_step hs _).1 _ hstep) h ?_
  refine ⟨⟨List.nodup_nil, fun x a hx => ?_, fun w hw => ?_⟩, fun hopen => ?_, fun _ => ⟨rfl, rfl⟩⟩
  · cases hx
  · cases hw
  · cases hopen

/-- In every state the leader reaches: a worker of the pool is in use iff exactly one entry of
the hash points to it; no two entries point to one worker, and each to one of the pool; the worker
of an open chunk is the cached one; a final message leaves nothing of its transaction; no freed
pointer is followed. -/
theorem parallel_apply_bookkeeping (msgs : List (Env × Msg)) (s : State) (h : Reached msgs s) :
    (∀ w ∈ s.parallelApplyWorkerPool, w.inUse = true ↔ ∃! x, s.parallelApplyTxnHash x = some w.addr) ∧
      (∀ x y a, s.parallelApplyTxnHash x = some a → s.parallelApplyTxnHash y = some a → x = y) ∧
      (∀ x a, s.parallelApplyTxnHash x = some a → ∃! w, w ∈ s.parallelApplyWorkerPool ∧ w.addr = a) ∧
      (s.inStreamedTransaction = true → s.streamApplyWorker = s.parallelApplyTxnHash s.streamXid) ∧
      (s.inStreamedTransaction = false → s.streamApplyWorker = none) ∧
      (∀ e x t, e.2.finishes = some x → step s e = .ok t →
        t.parallelApplyTxnHash x = none ∧ t.streamApplyWorker = none) ∧
      ∀ e, step s e ≠ .error .freedWorker := by
  have hs := coherent_of_reached h
  refine ⟨fun w hw => ⟨fun huse => ?_, fun hone => ?_⟩, fun x y a hx hy => hs.linked.entry_inj hx hy,
    fun x a hx => ?_, hs.opened, fun hclosed => (hs.closed hclosed).1, fun e x t hx ht => finished_step hs hx ht,
    fun e => (sound_step hs e).2⟩
  · exact ⟨w.sharedXid, hs.linked.used w hw huse, fun y hy => hs.linked.entry_inj hy (hs.linked.used w hw huse)⟩
  · obtain ⟨x, hx, -⟩ := hone
    obtain ⟨-, v, hv, haddr, huse, -⟩ := hs.linked.entry x w.addr hx
    rw [← hs.linked.eq_of_addr hv hw haddr]
    exact huse
  · obtain ⟨-, v, hv, haddr, -⟩ := hs.linked.entry x a hx
    exact ⟨v, ⟨hv, haddr⟩, fun u hu => hs.linked.eq_of_addr hu.1 hv (hu.2.trans haddr.symm)⟩

theorem not_mem_of_sum_lt (used : List Nat) : used.sum + 1 ∉ used := by
  have hle : ∀ a ∈ used, a ≤ used.sum := by
    induction used with
    | nil => exact fun a ha => by cases ha
    | cons b used ih =>
      intro a ha
      rw [List.sum_cons]
      rcases List.mem_cons.mp ha with rfl | ha
      · exact Nat.le_add_right a used.sum
      · exact (ih a ha).trans (Nat.le_add_left used.sum b)
  exact fun hmem => absurd (hle _ hmem) (Nat.not_succ_le_self _)

def startingEnv : Env where
  parallelApply := true
  skiplsnIsInvalid := true
  allTablesyncsReady := true
  dsmCreated := true
  launched := true
  palloc := ⟨fun used => used.sum + 1, not_mem_of_sum_lt⟩
  sent := true
  maxParallelApplyWorkersPerSubscription := 2

/-- The first chunk of transaction 7 is sent to the worker at address 1. -/
theorem parallel_apply_bookkeeping_first_chunk :
    ∃ s, Reached [(startingEnv, .streamStart 7 true)] s ∧ s.parallelApplyWorkerPool = [⟨1, true, false, 7⟩] ∧
      s.streamApplyWorker = s.parallelApplyTxnHash s.streamXid := by
  have hstep : Reached [(startingEnv, .streamStart 7 true)]
      ⟨[⟨1, true, false, 7⟩], Function.update (fun _ => none) 7 (some 1), some 1, true, 7⟩ := .cons rfl (.nil _)
  exact ⟨_, hstep, rfl, (parallel_apply_bookkeeping _ _ hstep).2.2.2.1 rfl⟩

end CdcKafka.Pool
