import CdcKafka.Apply.SubXact

/-! The protocol state of the leader apply worker over whole message sequences: the flags of
streamed and remote transactions, the open spool file and the skip position follow the
messages that open and close transactions. -/

namespace CdcKafka.Apply
open CdcKafka.Lib CdcKafka.Event CdcKafka.Json CdcKafka.Proto

variable {L : Ledger} {s t : State} {cfg : Config} {env : Env} {depth : Nat} {msg body : Bytes} {b : Boundary}

structure Boundary where
  stream : Option Nat
  /-- A BEGIN or BEGIN PREPARE came without its COMMIT or PREPARE. -/
  txn : Bool
  /-- No other transaction was finished between BEGIN and COMMIT. -/
  separated : Bool
deriving DecidableEq

def Boundary.start : Boundary := { stream := none, txn := false, separated := true }

def Boundary.finishOther (b : Boundary) : Boundary :=
  { b with separated := b.separated && !b.txn }

def Boundary.after (b : Boundary) (body : Bytes) : LogicalRepMsgType → Boundary
  | .begin | .beginPrepare => { b with txn := true }
  | .commit | .prepare => { b with txn := false }
  | .commitPrepared | .rollbackPrepared | .streamCommit | .streamPrepare => b.finishOther
  | .streamStart => { b with stream := (readMsg readStreamStart body).toOption.map (·.1) }
  | .streamStop => { b with stream := none }
  | _ => b

def Boundary.next (b : Boundary) : Bytes → Boundary
  | [] => b
  | action :: body => (LogicalRepMsgType.ofByte action).elim b (b.after body)

theorem Boundary.next_of_action (b : Boundary) {a : UInt8} {action : LogicalRepMsgType}
    (ha : LogicalRepMsgType.ofByte a = some action) (body : Bytes) :
    b.next (a :: body) = b.after body action := by
  rw [Boundary.next, ha]
  rfl

theorem applyDispatch_ok (ht : applyDispatch cfg env depth s msg = .ok t) :
    ∃ nested a body action, depth = nested + 1 ∧ msg = a :: body ∧ LogicalRepMsgType.ofByte a = some action ∧
      applyAction cfg env (applyDispatch cfg env nested) s msg body action = .ok t := by
  cases depth with
  | zero => cases ht
  | succ nested =>
    cases msg with
    | nil => cases ht
    | cons a body =>
      unfold applyDispatch at ht
      split at ht
      · cases ht
      next action ha => exact ⟨nested, a, body, action, rfl, rfl, ha, ht⟩

structure SpoolEntry where
  worker : Bool
  changes : List Change
deriving DecidableEq

def SpoolEntry.spooled (l : List Change) : SpoolEntry := { worker := false, changes := l }

def SpoolEntry.map (f : List Change → List Change) (e : SpoolEntry) : SpoolEntry :=
  { e with changes := f e.changes }

abbrev Ledger := Nat → Option SpoolEntry

def Ledger.start (L : Ledger) (t : State) (x : Nat) (firstSegment : Bool) : Ledger :=
  if firstSegment then
    Function.update L x (some { worker := (t.parallelApplyTxnHash x).isSome, changes := [] })
  else L

def Ledger.write (L : Ledger) (x : Nat) (p : Change) : Ledger :=
  Function.update L x ((L x).map (SpoolEntry.map (· ++ [p])))

def Ledger.finish (L : Ledger) (x : Nat) : Ledger := Function.update L x none

def Ledger.abort (L : Ledger) (x sub : Nat) : Ledger :=
  if x = sub then L.finish x
  else Function.update L x ((L x).map fun e => if e.worker then e else e.map (beforeSub · sub))

def Ledger.change (L : Ledger) (b : Boundary) (body : Bytes) (action : LogicalRepMsgType) :
    Ledger :=
  match b.stream, getMsgInt 4 body with
  | some x, .ok (sub, rest) => L.write x (sub, action.toByte :: rest)
  | _, _ => L

def Ledger.after (L : Ledger) (cfg : Config) (s t : State) (b : Boundary) (body : Bytes)
    (action : LogicalRepMsgType) : Ledger :=
  match action with
  | .streamStart => (readMsg readStreamStart body).toOption.elim L fun p => L.start t p.1 p.2
  | .streamAbort =>
    (readMsg (readStreamAbort cfg.parallelApply) body).toOption.elim L fun d => L.abort d.xid d.subxid
  | .streamCommit => (readMsg readStreamCommit body).toOption.elim L fun p => L.finish p.1
  | .streamPrepare => (readMsg readPrepareCommon body).toOption.elim L fun d => L.finish d.xid
  | .insert | .update | .delete | .truncate =>
    if isSkippingChanges s then L else L.change b body action
  | .relation | .type => L.change b body action
  | _ => L

def Ledger.next (L : Ledger) (cfg : Config) (s t : State) (b : Boundary) : Bytes → Ledger
  | [] => L
  | action :: body => (LogicalRepMsgType.ofByte action).elim L (L.after cfg s t b body)

theorem Ledger.next_of_action (L : Ledger) {a : UInt8} {action : LogicalRepMsgType}
    (ha : LogicalRepMsgType.ofByte a = some action) (body : Bytes) :
    L.next cfg s t b (a :: body) = L.after cfg s t b body action := by
  rw [Ledger.next, ha]
  rfl

theorem Ledger.abort_of_ne (L : Ledger) {x : Nat} (sub y : Nat) (hy : y ≠ x) : L.abort x sub y = L y := by
  unfold Ledger.abort
  split <;> exact Function.update_of_ne hy _ _

theorem Ledger.abort_eq_self {L : Ledger} {x sub : Nat} (hsub : x ≠ sub)
    (h : ∀ e, L x = some e → e.worker = true) : L.abort x sub = L := by
  have hself : (L x).map (fun e => if e.worker then e else e.map (beforeSub · sub)) = L x := by
    cases hL : L x with
    | none => rfl
    | some e =>
      rw [Option.map_some, if_pos (h e hL)]
  rw [Ledger.abort, if_neg hsub, hself, Function.update_eq_self]

/-- A changes file that the leader may replay stands, with its table, for a list of changes: for
those of the entry, if there is one. -/
structure SpoolAt (o : Option SpoolEntry) (s : State) (x : Nat) : Prop where
  replayable : s.parallelApplyTxnHash x ≠ some { serializeChanges := true } →
    s.changesFile x = none ∨ ∃ l, Spooled s x l
  spooled : ∀ e, o = some e → e.worker = false → s.parallelApplyTxnHash x = none ∧ Spooled s x e.changes
  handed : ∀ e, o = some e → e.worker = true → s.parallelApplyTxnHash x ≠ none

theorem SpoolAt.of_missing {x : Nat} (h : s.changesFile x = none) : SpoolAt none s x :=
  ⟨fun _ => .inl h, nofun, nofun⟩

theorem SpoolAt.of_spooled {x : Nat} {l : List Change} (hnone : s.parallelApplyTxnHash x = none)
    (h : Spooled s x l) : SpoolAt (some (.spooled l)) s x where
  replayable := fun _ => .inr ⟨l, h⟩
  spooled := by
    rintro e he -
    obtain rfl := Option.some.inj he
    exact ⟨hnone, h⟩
  handed := by
    rintro e he hw
    obtain rfl := Option.some.inj he
    cases hw

theorem SpoolAt.of_worker {o : Option SpoolEntry} {x : Nat}
    (hreplayable : s.parallelApplyTxnHash x ≠ some { serializeChanges := true } →
      s.changesFile x = none ∨ ∃ l, Spooled s x l)
    (hw : s.parallelApplyTxnHash x ≠ none) (ho : ∀ e, o = some e → e.worker = true) :
    SpoolAt o s x where
  replayable := hreplayable
  spooled := by
    intro e he hfalse
    rw [ho e he] at hfalse
    cases hfalse
  handed := fun _ _ _ => hw

theorem SpoolAt.forget {o : Option SpoolEntry} {x : Nat} (h : SpoolAt o s x) :
    SpoolAt none s x := ⟨h.replayable, nofun, nofun⟩

theorem SpoolAt.map {o o' : Option SpoolEntry} {x : Nat} {f : List Change → List Change} (h : SpoolAt o s x)
    (ho : ∀ e', o' = some e' → ∃ e, o = some e ∧ e'.worker = e.worker ∧ (e.worker = false → e'.changes = f e.changes))
    (hhash : t.parallelApplyTxnHash x = s.parallelApplyTxnHash x)
    (hmissing : s.changesFile x = none → t.changesFile x = none)
    (hspooled : ∀ l, Spooled s x l → Spooled t x (f l)) : SpoolAt o' t x where
  replayable := by
    intro hne
    rw [hhash] at hne
    rcases h.replayable hne with hnone | ⟨l, hl⟩
    · exact .inl (hmissing hnone)
    · exact .inr ⟨f l, hspooled l hl⟩
  spooled := by
    intro e' he' hfalse
    obtain ⟨e, he, hworker, hchanges⟩ := ho e' he'
    rw [hworker] at hfalse
    obtain ⟨hnone, hspool⟩ := h.spooled e he hfalse
    rw [hchanges hfalse]
    exact ⟨hhash.trans hnone, hspooled _ hspool⟩
  handed := by
    intro e' he' htrue
    obtain ⟨e, he, hworker, -⟩ := ho e' he'
    rw [hhash]
    exact h.handed e he (hworker.symm.trans htrue)

theorem SpoolAt.same {o : Option SpoolEntry} {x : Nat} (h : SpoolAt o s x)
    (hhash : t.parallelApplyTxnHash x = s.parallelApplyTxnHash x)
    (hmissing : s.changesFile x = none → t.changesFile x = none)
    (hspooled : ∀ l, Spooled s x l → Spooled t x l) : SpoolAt o t x :=
  h.map (f := id) (fun e he => ⟨e, he, rfl, fun _ => rfl⟩) hhash hmissing hspooled

def SpoolsOk (L : Ledger) (s : State) : Prop := ∀ x, SpoolAt (L x) s x

theorem SpoolsOk.same (h : SpoolsOk L s) (hchanges : t.changesFile = s.changesFile)
    (hsubxacts : t.subxactFile = s.subxactFile) (hfd : t.streamFd = s.streamFd)
    (hdata : t.subxactData = s.subxactData)
    (hhash : t.parallelApplyTxnHash = s.parallelApplyTxnHash) : SpoolsOk L t := by
  intro x
  refine (h x).same (by rw [hhash]) ?_ ?_
  · rw [hchanges]
    exact id
  · exact fun l hl => hl.same hchanges hsubxacts hfd hdata

structure Inv (L : Ledger) (s : State) (b : Boundary) : Prop where
  streamed : s.inStreamedTransaction = b.stream.isSome
  streamXid : s.streamXid = b.stream.getD 0
  stream_ne : b.stream ≠ some 0
  remote : b.separated = true → s.inRemoteTransaction = b.txn
  skip : b.separated = true → s.skipXactFinishLsn ≠ 0 → s.inRemoteTransaction = true
  fd : ∀ x, s.streamFd = some x → b.stream = some x ∧ s.parallelApplyTxnHash x ≠ some { serializeChanges := false }
  cache : ∀ w, s.streamApplyWorker = some w → b.stream = some w ∧ (s.parallelApplyTxnHash w).isSome = true
  hash_zero : s.parallelApplyTxnHash 0 = none
  data : s.streamFd = none → s.subxactData = .empty
  spools : SpoolsOk L s

theorem inv_init : Inv (fun _ => none) State.init Boundary.start where
  streamed := rfl
  streamXid := rfl
  stream_ne := nofun
  remote := fun _ => rfl
  skip := fun _ h => (h rfl).elim
  fd := nofun
  cache := nofun
  hash_zero := rfl
  data := fun _ => rfl
  spools := fun _ => .of_missing rfl

theorem Inv.findsOwn (h : Inv L s b) {x : Nat} (hx : b.stream = none ∨ b.stream = some x) : FindsOwn s x := by
  intro w hw
  obtain ⟨hstream, hsome⟩ := h.cache w hw
  rcases hx with hnone | hx
  · rw [hnone] at hstream
    cases hstream
  · exact ⟨Option.some.inj (hstream.symm.trans hx), hsome⟩

theorem Inv.stream_none (h : Inv L s b) (hs : ¬ s.inStreamedTransaction = true) : b.stream = none := by
  rw [h.streamed] at hs
  simpa using hs

theorem Inv.fd_none (h : Inv L s b) (hstream : b.stream = none) : s.streamFd = none := by
  cases hfd : s.streamFd with
  | none => rfl
  | some x =>
    obtain ⟨hx, -⟩ := h.fd x hfd
    rw [hstream] at hx
    cases hx

theorem Inv.cache_none (h : Inv L s b) (hstream : b.stream = none) : s.streamApplyWorker = none := by
  cases hw : s.streamApplyWorker with
  | none => rfl
  | some w =>
    obtain ⟨hx, -⟩ := h.cache w hw
    rw [hstream] at hx
    cases hx

theorem Inv.idle (h : Inv L s b) (hstream : b.stream = none) : Idle s where
  notStreamed := by rw [h.streamed, hstream]; rfl
  noXid := by rw [h.streamXid, hstream]; rfl

theorem Inv.touches (h : Inv L s b) (ht : Touches s t) : Inv L t b := by
  obtain ⟨tx, rels, docs, rfl⟩ := ht
  exact { h with spools := h.spools.same rfl rfl rfl rfl rfl }

theorem applyHandleCommitInternal_eq (s : State) : applyHandleCommitInternal s =
      { s with skipXactFinishLsn := 0, isTransactionState := false,
               inRemoteTransaction := false } := by
  unfold applyHandleCommitInternal isSkippingChanges
  by_cases hskip : s.skipXactFinishLsn = 0
  · simp [hskip, commitTransactionCommand]
  · simp [hskip, commitTransactionCommand, beginReplicationStep, stopSkippingChanges]

theorem Inv.setRemote (h : Inv L s b) (remote tx : Bool) (lsn skip : Nat) (hskip : skip ≠ 0 → remote = true) :
    Inv L { s with inRemoteTransaction := remote, isTransactionState := tx, remoteFinalLsn := lsn,
                   skipXactFinishLsn := skip } { b with txn := remote } :=
  { h with remote := fun _ => rfl, skip := fun _ => hskip, spools := h.spools.same rfl rfl rfl rfl rfl }

theorem Boundary.finishOther_separated (hsep : b.finishOther.separated = true) :
    b.separated = true ∧ b.txn = false := by
  simpa [Boundary.finishOther] using hsep

theorem Inv.not_skipping (h : Inv L s b) (hsep : b.finishOther.separated = true) : s.skipXactFinishLsn = 0 := by
  obtain ⟨hsep, htxn⟩ := b.finishOther_separated hsep
  by_contra hskip
  have hremote := h.skip hsep hskip
  rw [h.remote hsep, htxn] at hremote
  cases hremote

theorem Inv.begin (h : Inv L s b) (ht : applyHandleBegin env s body = .ok t) : Inv L t { b with txn := true } := by
  unfold applyHandleBegin at ht
  simp only [bind_eq_ok, pure_eq_ok] at ht
  obtain ⟨d, -, rfl⟩ := ht
  obtain ⟨skip, hskip⟩ :=
    maybeStartSkippingChanges_eq env { s with remoteFinalLsn := d.finalLsn } d.finalLsn
  rw [hskip]
  exact h.setRemote true s.isTransactionState d.finalLsn skip fun _ => rfl

theorem Inv.beginPrepare (h : Inv L s b) (ht : applyHandleBeginPrepare env s body = .ok t) :
    Inv L t { b with txn := true } := by
  unfold applyHandleBeginPrepare at ht
  simp only [bind_eq_ok, pure_eq_ok] at ht
  obtain ⟨d, -, rfl⟩ := ht
  obtain ⟨skip, hskip⟩ :=
    maybeStartSkippingChanges_eq env { s with remoteFinalLsn := d.prepareLsn } d.prepareLsn
  rw [hskip]
  exact h.setRemote true s.isTransactionState d.prepareLsn skip fun _ => rfl

theorem Inv.commit (h : Inv L s b) (ht : applyHandleCommit s body = .ok t) : Inv L t { b with txn := false } := by
  unfold applyHandleCommit at ht
  rw [bind_eq_ok] at ht
  obtain ⟨d, -, ht⟩ := ht
  split at ht
  · cases ht
  · obtain rfl := pure_eq_ok.mp ht
    rw [applyHandleCommitInternal_eq]
    exact h.setRemote false false s.remoteFinalLsn 0 fun h => (h rfl).elim

theorem Inv.prepare (h : Inv L s b) (ht : applyHandlePrepare s body = .ok t) : Inv L t { b with txn := false } := by
  unfold applyHandlePrepare at ht
  rw [bind_eq_ok] at ht
  obtain ⟨d, -, ht⟩ := ht
  split at ht
  · cases ht
  · obtain rfl := pure_eq_ok.mp ht
    exact h.setRemote false false s.remoteFinalLsn 0 fun h => (h rfl).elim

theorem Inv.finishOther (h : Inv L s b) (tx : Bool) :
    Inv L { s with inRemoteTransaction := false, isTransactionState := tx } b.finishOther :=
  { h with
    remote := fun hsep => (b.finishOther_separated hsep).2.symm
    skip := fun hsep hskip => (hskip (h.not_skipping hsep)).elim
    spools := h.spools.same rfl rfl rfl rfl rfl }

theorem Inv.finishReplay (h : Inv L s b) (tx : Bool) (lsn : Nat) :
    Inv L { s with inRemoteTransaction := false, isTransactionState := tx, remoteFinalLsn := lsn,
                   skipXactFinishLsn := 0 } b.finishOther :=
  { h with
    remote := fun hsep => (b.finishOther_separated hsep).2.symm
    skip := fun _ hskip => (hskip rfl).elim
    spools := h.spools.same rfl rfl rfl rfl rfl }

theorem Inv.finishNone (h : Inv L s b) : Inv L s b.finishOther :=
  { h with
    remote := fun hsep => h.remote (b.finishOther_separated hsep).1
    skip := fun hsep => h.skip (b.finishOther_separated hsep).1 }

theorem Inv.commitPrepared (h : Inv L s b) (ht : applyHandleCommitPrepared env s body = .ok t) :
    Inv L t b.finishOther := by
  unfold applyHandleCommitPrepared at ht
  rw [bind_eq_ok] at ht
  obtain ⟨d, -, ht⟩ := ht
  split at ht
  · obtain rfl := pure_eq_ok.mp ht
    exact h.finishOther false
  · cases ht

theorem Inv.rollbackPrepared (h : Inv L s b) (ht : applyHandleRollbackPrepared env s body = .ok t) :
    Inv L t b.finishOther := by
  unfold applyHandleRollbackPrepared at ht
  rw [bind_eq_ok] at ht
  obtain ⟨d, -, ht⟩ := ht
  split at ht
  · split at ht
    · obtain rfl := pure_eq_ok.mp ht
      exact h.finishOther false
    · cases ht
  · obtain rfl := pure_eq_ok.mp ht
    exact h.finishOther s.isTransactionState

def LogicalRepMsgType.isPlain : LogicalRepMsgType → Bool
  | .begin | .commit | .beginPrepare | .prepare | .commitPrepared | .rollbackPrepared | .origin
  | .message => true
  | _ => false

theorem applyAction_plain {dispatch : State → Bytes → Result State} {action : LogicalRepMsgType}
    (hplain : LogicalRepMsgType.isPlain action = true)
    (ht : applyAction cfg env dispatch s msg body action = .ok t) :
    ∃ remote tx lsn skip, t = { s with inRemoteTransaction := remote, isTransactionState := tx,
                                       remoteFinalLsn := lsn, skipXactFinishLsn := skip } := by
  cases action with
  | begin =>
    simp only [applyAction, applyHandleBegin, bind_eq_ok, pure_eq_ok] at ht
    obtain ⟨d, -, rfl⟩ := ht
    obtain ⟨skip, hskip⟩ :=
      maybeStartSkippingChanges_eq env { s with remoteFinalLsn := d.finalLsn } d.finalLsn
    rw [hskip]
    exact ⟨_, _, _, _, rfl⟩
  | beginPrepare =>
    simp only [applyAction, applyHandleBeginPrepare, bind_eq_ok, pure_eq_ok] at ht
    obtain ⟨d, -, rfl⟩ := ht
    obtain ⟨skip, hskip⟩ :=
      maybeStartSkippingChanges_eq env { s with remoteFinalLsn := d.prepareLsn } d.prepareLsn
    rw [hskip]
    exact ⟨_, _, _, _, rfl⟩
  | commit =>
    simp only [applyAction, applyHandleCommit, applyHandleCommitInternal_eq, bind_eq_ok] at ht
    obtain ⟨d, -, ht⟩ := ht
    split at ht
    · cases ht
    · obtain rfl := pure_eq_ok.mp ht
      exact ⟨_, _, _, _, rfl⟩
  | prepare =>
    simp only [applyAction, applyHandlePrepare, bind_eq_ok] at ht
    obtain ⟨d, -, ht⟩ := ht
    split at ht
    · cases ht
    · obtain rfl := pure_eq_ok.mp ht
      exact ⟨_, _, _, _, rfl⟩
  | commitPrepared =>
    simp only [applyAction, applyHandleCommitPrepared, bind_eq_ok] at ht
    obtain ⟨d, -, ht⟩ := ht
    split at ht
    · obtain rfl := pure_eq_ok.mp ht
      exact ⟨_, _, _, _, rfl⟩
    · cases ht
  | rollbackPrepared =>
    simp only [applyAction, applyHandleRollbackPrepared, bind_eq_ok] at ht
    obtain ⟨d, -, ht⟩ := ht
    split at ht
    · split at ht
      · obtain rfl := pure_eq_ok.mp ht
        exact ⟨_, _, _, _, rfl⟩
      · cases ht
    · obtain rfl := pure_eq_ok.mp ht
      exact ⟨_, _, _, _, rfl⟩
  | origin =>
    simp only [applyAction, applyHandleOrigin] at ht
    split at ht
    · cases ht
    · cases ht
      exact ⟨_, _, _, _, rfl⟩
  | message =>
    cases ht
    exact ⟨_, _, _, _, rfl⟩
  | _ => cases hplain

variable {x : Nat}

variable {M : Ledger}

theorem Inv.local (h : Inv L s b) (hl : Local x s t) (hM : ∀ y, y ≠ x → M y = L y)
    (hopen : ∀ y, s.streamFd = some y → y = x)
    (hfd : ∀ y, t.streamFd = some y → y = x ∧ b.stream = some x ∧
      t.parallelApplyTxnHash x ≠ some { serializeChanges := false })
    (hcache : ∀ w, t.streamApplyWorker = some w → b.stream = some w ∧ (t.parallelApplyTxnHash w).isSome = true)
    (hzero : t.parallelApplyTxnHash 0 = none) (hdata : t.streamFd = none → t.subxactData = .empty)
    (hspool : SpoolAt (M x) t x) : Inv M t b where
  streamed := hl.inStreamedTransaction.trans h.streamed
  streamXid := hl.streamXid.trans h.streamXid
  stream_ne := h.stream_ne
  remote := fun hsep => hl.inRemoteTransaction.trans (h.remote hsep)
  skip := by
    rw [hl.skipXactFinishLsn, hl.inRemoteTransaction]
    exact h.skip
  fd := by
    intro y hy
    obtain ⟨rfl, hstream, hne⟩ := hfd y hy
    exact ⟨hstream, hne⟩
  cache := hcache
  hash_zero := hzero
  data := hdata
  spools := by
    intro y
    by_cases hy : y = x
    · subst hy
      exact hspool
    · rw [hM y hy]
      refine (h.spools y).same (hl.hash y hy) ?_ ?_
      · exact fun hnone => (hl.changesFile y hy).trans hnone
      · intro l hspooled
        refine hspooled.frame (hl.changesFile y hy) (hl.subxactFile y hy) ?_ ?_
        · exact fun hsome => hy (hopen y hsome)
        · exact fun hsome => hy (hfd y hsome).1

theorem Inv.entry_worker (h : Inv L s b) {w : ParallelApplyWorkerInfo}
    (hw : s.parallelApplyTxnHash x = some w) (e : SpoolEntry) (he : L x = some e) :
    e.worker = true := by
  by_contra hworker
  obtain ⟨hnone, -⟩ := (h.spools x).spooled e he (by simpa using hworker)
  rw [hnone] at hw
  cases hw

theorem Inv.relabel (h : Inv L s b) (hw : s.parallelApplyTxnHash x ≠ none)
    (hM : ∀ y, y ≠ x → M y = L y) (hMx : ∀ e, M x = some e → e.worker = true) : Inv M s b :=
  { h with
    spools := fun y => by
      by_cases hy : y = x
      · subst hy
        exact .of_worker (h.spools y).replayable hw hMx
      · rw [hM y hy]
        exact h.spools y }

theorem Inv.forget (h : Inv L s b) (x : Nat) : Inv (L.finish x) s b :=
  { h with
    spools := fun y => by
      by_cases hy : y = x
      · subst hy
        rw [Ledger.finish, Function.update_self]
        exact (h.spools y).forget
      · rw [Ledger.finish, Function.update_of_ne hy]
        exact h.spools y }

theorem Inv.ne_zero_of_worker (h : Inv L s b) {w : ParallelApplyWorkerInfo}
    (hw : s.parallelApplyTxnHash x = some w) : x ≠ 0 := by
  rintro rfl
  rw [h.hash_zero] at hw
  cases hw

theorem Inv.hash_zero_local (h : Inv L s b) (hl : Local x s t) (hx : x ≠ 0) : t.parallelApplyTxnHash 0 = none := by
  rw [hl.hash 0 (Ne.symm hx)]
  exact h.hash_zero

structure Finished (x : Nat) (s t : State) : Prop where
  touched : Local x s t
  fd : t.streamFd = none
  cache : t.streamApplyWorker = s.streamApplyWorker
  data : t.subxactData = .empty
  hash : t.parallelApplyTxnHash x = none
  file : t.changesFile x = none ∨ t.changesFile x = s.changesFile x ∧ t.subxactFile x = s.subxactFile x ∧
    s.parallelApplyTxnHash x ≠ some { serializeChanges := true }

theorem finished_serializeAndFinish {action : LogicalRepMsgType} (hfd : ∀ y, s.streamFd = some y → y = x)
    (hser : s.parallelApplyTxnHash x = some { serializeChanges := true })
    (ht : serializeAndFinish s x x action body = .ok t) : Finished x s t := by
  unfold serializeAndFinish at ht
  rw [bind_eq_ok] at ht
  obtain ⟨u, hu, ht⟩ := ht
  obtain ⟨hlocal, hnone, hcache, hdata, hhash⟩ := local_streamOpenAndWriteChange hfd hu
  obtain ⟨hfin, hfd', hcache', hdata', hhash', hfile⟩ := local_paXactFinish ht
  rw [hhash, hser] at hfile
  refine ⟨hlocal.trans hfin, hfd'.trans hnone, hcache'.trans hcache, hdata'.trans hdata, ?_, .inl ?_⟩
  · rw [hhash', Function.update_self]
  · simp [hfile.1]

theorem finished_paSent (hfd : s.streamFd = none) (hdata : s.subxactData = .empty)
    (hser : s.parallelApplyTxnHash x = some { serializeChanges := false })
    (ht : paXactFinish (paSendData s x msg) x = .ok t) : Finished x s t := by
  obtain ⟨hfin, hfd', hcache', hdata', hhash', hfile⟩ := local_paXactFinish ht
  have hsame : (paSendData s x msg).parallelApplyTxnHash x = some { serializeChanges := false } :=
    hser
  rw [hsame] at hfile
  refine ⟨(local_paSendData s x x msg).trans hfin, hfd'.trans hfd, hcache', hdata'.trans hdata, ?_, .inr ⟨?_, ?_, ?_⟩⟩
  · rw [hhash', Function.update_self]
  · rw [hfile.1]
    rfl
  · rw [hfile.2]
    rfl
  · rw [hser]
    nofun

theorem finished_switched {action : LogicalRepMsgType}
    (ht : (paSwitchToPartialSerialize s x >>= fun s => serializeAndFinish s x x action body) =
      .ok t) : Finished x s t := by
  rw [bind_eq_ok] at ht
  obtain ⟨u, hu, ht⟩ := ht
  have hswitch := local_paSwitchToPartialSerialize hu
  rw [paSwitchToPartialSerialize_eq] at hu
  cases hu
  have hfin := finished_serializeAndFinish (fun y hy => (Option.some.inj hy).symm) (Function.update_self x _ _) ht
  refine ⟨hswitch.trans hfin.touched, hfin.fd, hfin.cache, hfin.data, hfin.hash, .inl ?_⟩
  rcases hfin.file with hnone | ⟨-, -, hne⟩
  · exact hnone
  · exact (hne (Function.update_self x _ _)).elim

theorem finished_paFinishTransaction {action : LogicalRepMsgType} (hfd : s.streamFd = none)
    (hdata : s.subxactData = .empty)
    (hser : s.parallelApplyTxnHash x = some { serializeChanges := false })
    (ht : paFinishTransaction env s x x action msg body = .ok t) : Finished x s t := by
  unfold paFinishTransaction at ht
  split at ht
  · exact finished_paSent hfd hdata hser ht
  · exact finished_switched ht

theorem Inv.finished (h : Inv L s b) (hstream : b.stream = none) {w : ParallelApplyWorkerInfo}
    (hw : s.parallelApplyTxnHash x = some w) (hf : Finished x s t) : Inv (L.finish x) t b := by
  have hfd := h.fd_none hstream
  refine h.local hf.touched (fun _ hy => Function.update_of_ne hy _ _) ?_ ?_ ?_
    (h.hash_zero_local hf.touched (h.ne_zero_of_worker hw)) (fun _ => hf.data) ?_
  · rw [hfd]
    nofun
  · rw [hf.fd]
    nofun
  · rw [hf.cache, h.cache_none hstream]
    nofun
  · rw [Ledger.finish, Function.update_self]
    rcases hf.file with hnone | ⟨hchanges, hsubxacts, hser⟩
    · exact .of_missing hnone
    · rcases (h.spools x).replayable hser with hnone | ⟨l, hspooled⟩
      · exact .of_missing (hchanges.trans hnone)
      · refine ⟨fun _ => .inr ⟨l, hspooled.frame hchanges hsubxacts ?_ ?_⟩, nofun, nofun⟩
        · rw [hfd]
          nofun
        · rw [hf.fd]
          nofun

theorem Inv.abortInternal (h : Inv L s b) (hstream : b.stream = none)
    (hnone : s.parallelApplyTxnHash x = none) {sub : Nat}
    (ht : streamAbortInternal s x sub = .ok t) : Inv (L.abort x sub) t b := by
  have hfd := h.fd_none hstream
  have hdata := h.data hfd
  obtain ⟨hfd', hcache', hhash'⟩ := streamAbortInternal_frame ht
  have hspool : t.subxactData = .empty ∧ SpoolAt (L.abort x sub x) t x := by
    by_cases hsub : x = sub
    · subst hsub
      unfold streamAbortInternal at ht
      rw [if_pos rfl] at ht
      obtain rfl := streamCleanupFiles_ok ht
      rw [Ledger.abort, if_pos rfl, Ledger.finish, Function.update_self]
      exact ⟨hdata, .of_missing (Function.update_self x _ _)⟩
    · rw [Ledger.abort, if_neg hsub, Function.update_self]
      have habort := fun l (hl : Spooled s x l) => hl.abort hfd hdata (Ne.symm hsub) ht
      have hentry : ∀ e', (L x).map (fun e => if e.worker then e else e.map (beforeSub · sub)) =
          some e' → ∃ e, L x = some e ∧ e'.worker = e.worker ∧
            (e.worker = false → e'.changes = beforeSub e.changes sub) := by
        intro e' he'
        obtain ⟨e, he, rfl⟩ := Option.map_eq_some_iff.mp he'
        refine ⟨e, he, ?_, fun hfalse => ?_⟩
        · split <;> rfl
        · simp [hfalse, SpoolEntry.map]
      refine ⟨?_, (h.spools x).map hentry (by rw [hhash']) ?_ fun l hl => (habort l hl).1⟩
      · rcases (h.spools x).replayable (by rw [hnone]; nofun) with hmissing | ⟨l, hspooled⟩
        · exact (streamAbortInternal_missing hsub hmissing ht).2
        · exact (habort l hspooled).2
      · exact fun hmissing => (streamAbortInternal_missing hsub hmissing ht).1
  refine h.local (local_streamAbortInternal ht) (L.abort_of_ne sub) ?_ ?_ ?_ ?_ (fun _ => hspool.1) hspool.2
  · rw [hfd]
    nofun
  · rw [hfd', hfd]
    nofun
  · rw [hcache', h.cache_none hstream]
    nofun
  · rw [hhash']
    exact h.hash_zero

structure Serialized (x : Nat) (s t : State) : Prop where
  touched : Local x s t
  fd : t.streamFd = none
  cache : t.streamApplyWorker = s.streamApplyWorker
  data : t.subxactData = .empty
  hash : t.parallelApplyTxnHash x = some { serializeChanges := true }

theorem serialized_write {action : LogicalRepMsgType} (hopen : ∀ y, s.streamFd = some y → y = x)
    (hser : s.parallelApplyTxnHash x = some { serializeChanges := true })
    (ht : streamOpenAndWriteChange s x action body = .ok t) : Serialized x s t := by
  obtain ⟨hlocal, hnone, hcache, hdata, hhash⟩ := local_streamOpenAndWriteChange hopen ht
  exact ⟨hlocal, hnone, hcache, hdata, by rw [hhash]; exact hser⟩

theorem serialized_switched {action : LogicalRepMsgType}
    (ht : (paSwitchToPartialSerialize s x >>= fun s => streamOpenAndWriteChange s x action body) =
      .ok t) : Serialized x s t := by
  rw [bind_eq_ok] at ht
  obtain ⟨u, hu, ht⟩ := ht
  have hswitch := local_paSwitchToPartialSerialize hu
  rw [paSwitchToPartialSerialize_eq] at hu
  cases hu
  have hw := serialized_write (fun y hy => (Option.some.inj hy).symm) (Function.update_self x _ _) ht
  exact ⟨hswitch.trans hw.touched, hw.fd, hw.cache, hw.data, hw.hash⟩

theorem Inv.serialized (h : Inv L s b) (hstream : b.stream = none) {w : ParallelApplyWorkerInfo}
    (hw : s.parallelApplyTxnHash x = some w) (hs : Serialized x s t) : Inv L t b := by
  refine h.local hs.touched (fun _ _ => rfl) ?_ ?_ ?_
    (h.hash_zero_local hs.touched (h.ne_zero_of_worker hw)) (fun _ => hs.data) ?_
  · rw [h.fd_none hstream]
    nofun
  · rw [hs.fd]
    nofun
  · rw [hs.cache, h.cache_none hstream]
    nofun
  · refine .of_worker (fun hne => (hne hs.hash).elim) ?_ (h.entry_worker hw)
    rw [hs.hash]
    nofun

theorem Inv.paSent (h : Inv L s b) (msg : Bytes) : Inv L (paSendData s x msg) b :=
  { h with spools := h.spools.same rfl rfl rfl rfl rfl }

theorem Inv.streamAbort (h : Inv L s b) (ht : applyHandleStreamAbort cfg env s msg body = .ok t) :
    ∃ d, readMsg (readStreamAbort cfg.parallelApply) body = .ok d ∧ b.stream = none ∧
      Inv (L.abort d.xid d.subxid) t b := by
  unfold applyHandleStreamAbort at ht
  split at ht
  · cases ht
  next hout =>
    have hstream := h.stream_none hout
    have hfd := h.fd_none hstream
    rw [bind_eq_ok] at ht
    obtain ⟨d, hread, ht⟩ := ht
    refine ⟨d, hread, hstream, ?_⟩
    dsimp only at ht
    rcases (h.findsOwn (.inl hstream) (x := d.xid)).action_cases h.hash_zero with
      ⟨hnone, hact⟩ | ⟨hsend, hact⟩ | ⟨hser, hact⟩
    · rw [hact, if_neg hout] at ht
      exact h.abortInternal hstream hnone ht
    · rw [hact] at ht
      dsimp only at ht
      split at ht
      · split at ht
        next htop =>
          rw [Ledger.abort, if_pos htop]
          exact h.finished hstream hsend (finished_paSent hfd (h.data hfd) hsend ht)
        next htop =>
          rw [Ledger.abort_eq_self htop (h.entry_worker hsend)]
          obtain rfl := pure_eq_ok.mp ht
          exact h.paSent msg
      · split at ht
        next htop =>
          rw [Ledger.abort, if_pos htop]
          exact h.finished hstream hsend (finished_switched ht)
        next htop =>
          rw [Ledger.abort_eq_self htop (h.entry_worker hsend)]
          exact h.serialized hstream hsend (serialized_switched ht)
    · rw [hact] at ht
      dsimp only at ht
      have hopen : ∀ y, s.streamFd = some y → y = d.xid := by
        rw [hfd]
        nofun
      split at ht
      next htop =>
        rw [Ledger.abort, if_pos htop]
        exact h.finished hstream hser (finished_serializeAndFinish hopen hser ht)
      next htop =>
        rw [Ledger.abort_eq_self htop (h.entry_worker hser)]
        exact h.serialized hstream hser (serialized_write hopen hser ht)

theorem Inv.replay (h : Inv L s b) (hstream : b.stream = none) (hnone : s.parallelApplyTxnHash x = none) {lsn : Nat}
    (ht : applySpooledMessages (applyDispatch cfg env depth) env s x lsn = .ok t) :
    ∃ l u, Spooled s x l ∧ (l.map (·.2)).foldlM (applyDispatch cfg env depth) (startReplay env s x lsn) = .ok u ∧
      t = streamCloseFile u := by
  rcases (h.spools x).replayable (by rw [hnone]; nofun) with hmissing | ⟨l, hspooled⟩
  · rw [applySpooledMessages_missing hmissing] at ht
    cases ht
  · rw [applySpooledMessages_eq (h.idle hstream) lsn depth hspooled.file fun _ hr => hspooled.isChangeRecord hr] at ht
    cases hfold : (l.map (·.2)).foldlM (applyDispatch cfg env depth) (startReplay env s x lsn) with
    | error e =>
      rw [hfold] at ht
      cases ht
    | ok u =>
      rw [hfold] at ht
      cases ht
      exact ⟨l, u, hspooled, hfold, rfl⟩

theorem Inv.touches_replay (h : Inv L s b) (hstream : b.stream = none) {lsn : Nat}
    {recs : List Bytes} (hrecs : ∀ r ∈ recs, IsChangeRecord r) {u : State}
    (hu : recs.foldlM (applyDispatch cfg env depth) (startReplay env s x lsn) = .ok u) :
    ∃ skip, Touches { s with inRemoteTransaction := true, remoteFinalLsn := lsn,
                             skipXactFinishLsn := skip, streamFd := some x } u := by
  obtain ⟨skip, hskip⟩ := maybeStartSkippingChanges_eq env s lsn
  have htouch := ((h.idle hstream).startReplay x lsn).touches_foldlM hrecs hu
  unfold startReplay at htouch
  rw [hskip] at htouch
  obtain ⟨tx, rels, docs, rfl⟩ := htouch
  exact ⟨skip, tx, rels, docs, rfl⟩

theorem Inv.replayed (h : Inv L s b) (hstream : b.stream = none) {lsn skip : Nat} {u : State}
    (htouch : Touches { s with inRemoteTransaction := true, remoteFinalLsn := lsn,
                               skipXactFinishLsn := skip, streamFd := some x } u) (tx : Bool)
    (skip' : Nat) (ht : streamCleanupFiles { streamCloseFile u with
      inRemoteTransaction := false, isTransactionState := tx, skipXactFinishLsn := skip' } x = .ok t) :
    Inv (L.finish x) (stopSkippingChanges t) b.finishOther := by
  have hfd := h.fd_none hstream
  obtain ⟨tx', rels, docs, rfl⟩ := htouch
  have hremote := (h.finishReplay tx lsn).touches ⟨tx, rels, docs, rfl⟩
  have hlocal := local_streamCleanupFiles ht
  obtain rfl := streamCleanupFiles_ok ht
  refine hremote.local (x := x) ⟨rfl, rfl, rfl, rfl, rfl, rfl, rfl, hlocal.changesFile,
    hlocal.subxactFile, fun _ _ => rfl⟩ (fun _ hy => Function.update_of_ne hy _ _) ?_ nofun ?_
    h.hash_zero (fun _ => h.data hfd) ?_
  · intro y hy
    have hsome : none = some y := hfd.symm.trans hy
    cases hsome
  · exact h.cache
  · rw [Ledger.finish, Function.update_self]
    exact .of_missing (Function.update_self x _ _)

theorem Inv.streamCommit (h : Inv L s b)
    (ht : applyHandleStreamCommit (applyDispatch cfg env depth) env s msg body = .ok t) :
    ∃ xid d, readMsg readStreamCommit body = .ok (xid, d) ∧ b.stream = none ∧ Inv (L.finish xid) t b.finishOther := by
  unfold applyHandleStreamCommit at ht
  split at ht
  · cases ht
  next hout =>
    have hstream := h.stream_none hout
    have hfd := h.fd_none hstream
    rw [bind_eq_ok] at ht
    obtain ⟨⟨xid, d⟩, hread, ht⟩ := ht
    refine ⟨xid, d, hread, hstream, ?_⟩
    dsimp only at ht
    rcases (h.findsOwn (.inl hstream) (x := xid)).action_cases h.hash_zero with
      ⟨hnone, hact⟩ | ⟨hsend, hact⟩ | ⟨hser, hact⟩
    · rw [hact, if_neg hout] at ht
      dsimp only at ht
      rw [bind_eq_ok] at ht
      obtain ⟨u, hu, ht⟩ := ht
      obtain ⟨l, v, hspooled, hv, rfl⟩ := h.replay hstream hnone hu
      obtain ⟨skip, htouch⟩ := h.touches_replay hstream (fun _ hr => hspooled.isChangeRecord hr) hv
      rw [applyHandleCommitInternal_eq] at ht
      have hinv := h.replayed hstream htouch false 0 ht
      obtain rfl := streamCleanupFiles_ok ht
      exact hinv
    · rw [hact] at ht
      exact (h.finished hstream hsend (finished_paFinishTransaction hfd (h.data hfd) hsend ht)).finishNone
    · rw [hact] at ht
      have hopen : ∀ y, s.streamFd = some y → y = xid := by
        rw [hfd]
        nofun
      exact (h.finished hstream hser (finished_serializeAndFinish hopen hser ht)).finishNone

theorem Inv.stopSkipping (h : Inv L s b) : Inv L (stopSkippingChanges s) b :=
  { h with skip := fun _ hne => (hne rfl).elim, spools := h.spools.same rfl rfl rfl rfl rfl }

theorem Inv.streamPrepare (h : Inv L s b)
    (ht : applyHandleStreamPrepare (applyDispatch cfg env depth) env s msg body = .ok t) :
    ∃ d, readMsg readPrepareCommon body = .ok d ∧ b.stream = none ∧ Inv (L.finish d.xid) t b.finishOther := by
  unfold applyHandleStreamPrepare at ht
  split at ht
  · cases ht
  next hout =>
    have hstream := h.stream_none hout
    have hfd := h.fd_none hstream
    simp only [bind_eq_ok, pure_eq_ok] at ht
    obtain ⟨d, hread, u, hu, rfl⟩ := ht
    refine ⟨d, hread, hstream, ?_⟩
    unfold streamPrepareTransaction at hu
    rcases (h.findsOwn (.inl hstream) (x := d.xid)).action_cases h.hash_zero with
      ⟨hnone, hact⟩ | ⟨hsend, hact⟩ | ⟨hser, hact⟩
    · rw [hact, if_neg hout] at hu
      dsimp only at hu
      rw [bind_eq_ok] at hu
      obtain ⟨v, hv, hu⟩ := hu
      obtain ⟨l, w, hspooled, hw, rfl⟩ := h.replay hstream hnone hv
      obtain ⟨skip, htouch⟩ := h.touches_replay hstream (fun _ hr => hspooled.isChangeRecord hr) hw
      exact h.replayed hstream htouch false w.skipXactFinishLsn hu
    · rw [hact] at hu
      exact (h.finished hstream hsend (finished_paFinishTransaction hfd (h.data hfd) hsend hu)).finishNone.stopSkipping
    · rw [hact] at hu
      have hopen : ∀ y, s.streamFd = some y → y = d.xid := by
        rw [hfd]
        nofun
      exact (h.finished hstream hser (finished_serializeAndFinish hopen hser hu)).finishNone.stopSkipping

end CdcKafka.Apply
