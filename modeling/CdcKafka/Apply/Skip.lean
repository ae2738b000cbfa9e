import CdcKafka.Apply.Hide
import CdcKafka.Apply.Survivors

/-! ALTER SUBSCRIPTION ... SKIP: what reaches Kafka is what reaches it from the stream without the
row changes of the skipped transaction. -/

namespace CdcKafka.Apply
open CdcKafka.Lib CdcKafka.Event CdcKafka.Json CdcKafka.Proto

variable {s s' t t' : State} {cfg : Config} {env : Env} {depth x : Nat} {msg body : Bytes}
  {action : LogicalRepMsgType} {L L' : Ledger}

structure Track where
  boundary : Boundary
  spools : Nat → Option (List (LogEvent Nat Bytes))

def Track.start : Track := { boundary := .start, spools := fun _ => none }

def startsFirst (x : Nat) (body : Bytes) : LogicalRepMsgType → Bool
  | .streamStart => (readMsg readStreamStart body).toOption.any fun p => p.1 = x && p.2
  | _ => false

def ends (cfg : Config) (x : Nat) (body : Bytes) : LogicalRepMsgType → Bool
  | .streamAbort => (readMsg (readStreamAbort cfg.parallelApply) body).toOption.any fun d =>
      d.xid = x && d.subxid = x
  | action => (finishes body action).any fun p => p.1 = x

def Track.after (cfg : Config) (k : Track) (body : Bytes) (action : LogicalRepMsgType) : Track where
  boundary := k.boundary.after body action
  spools := fun x =>
    if startsFirst x body action then some []
    else if ends cfg x body action then none
    else (k.spools x).map (· ++ (spoolEventOf cfg x k.boundary body action).toList)

def Track.next (cfg : Config) (k : Track) : Bytes → Track
  | [] => k
  | a :: body => (LogicalRepMsgType.ofByte a).elim k (k.after cfg body)

def Track.legal (k : Track) (body : Bytes) : LogicalRepMsgType → Bool
  | .begin | .beginPrepare => !k.boundary.txn && k.boundary.stream.isNone
  | .commitPrepared | .rollbackPrepared | .streamAbort => !k.boundary.txn
  | .streamStart => !k.boundary.txn && (readMsg readStreamStart body).toOption.all fun p => p.2 = (k.spools p.1).isNone
  | .streamCommit => !k.boundary.txn &&
      (finishes body .streamCommit).all fun p => (k.spools p.1).any fun evs => WellNested evs
  | .streamPrepare => !k.boundary.txn &&
      (finishes body .streamPrepare).all fun p => (k.spools p.1).any fun evs => WellNested evs
  | _ => true

def Track.legalMessage (k : Track) : Bytes → Bool
  | [] => true
  | a :: body => (LogicalRepMsgType.ofByte a).all (k.legal body)

def WellFormed (cfg : Config) : Track → List Message → Bool
  | _, [] => true
  | k, m :: ms => k.legalMessage m.data && WellFormed cfg (k.next cfg m.data) ms

def finishesMessage : Bytes → Option (Nat × Nat)
  | [] => none
  | a :: body => (LogicalRepMsgType.ofByte a).bind (finishes body)

def leftOutAtEnd (p : Env → Nat → Bool) (x : Nat) : List (Env × Message) → Bool
  | [] => false
  | m :: ms =>
    match finishesMessage m.2.data with
    | some (y, lsn) => if y = x then p m.1 lsn else leftOutAtEnd p x ms
    | none => leftOutAtEnd p x ms

/-- Whether the transaction that BEGIN or BEGIN PREPARE has opened is left out. -/
def outAfter (p : Env → Nat → Bool) (env : Env) (out : Bool) (body : Bytes) :
    LogicalRepMsgType → Bool
  | .begin => (readMsg readBegin body).toOption.any fun d => p env d.finalLsn
  | .beginPrepare => (readMsg readBeginPrepare body).toOption.any fun d => p env d.prepareLsn
  | .commit | .prepare => false
  | _ => out

def outNext (p : Env → Nat → Bool) (env : Env) (out : Bool) : Bytes → Bool
  | [] => out
  | a :: body => (LogicalRepMsgType.ofByte a).elim out (outAfter p env out body)

def without (p : Env → Nat → Bool) : Boundary → Bool → List (Env × Message) → List (Env × Message)
  | _, _, [] => []
  | b, out, m :: ms =>
    let rest := without p (b.next m.2.data) (outNext p m.1 out m.2.data) ms
    if isDataMessage m.2.data && (out || b.stream.any fun x => leftOutAtEnd p x ms) then rest
    else m :: rest

def withoutTransaction (p : Env → Nat → Bool) (msgs : List (Env × Message)) :
    List (Env × Message) := without p .start false msgs

/-! ## Without workers

While a skip LSN is set no worker is started, so that the leader learns where a streamed
transaction ends before it applies anything of it. -/

def NoWorkers (s : State) : Prop := ∀ x, s.parallelApplyTxnHash x = none

variable {b : Boundary}

theorem Inv.cache_of_noWorkers (h : Inv L s b) (hw : NoWorkers s) : s.streamApplyWorker = none := by
  cases hcache : s.streamApplyWorker with
  | none => rfl
  | some w =>
    have hsome := (h.cache w hcache).2
    rw [hw w] at hsome
    cases hsome

theorem Inv.action_of_noWorkers (h : Inv L s b) (hw : NoWorkers s) (x : Nat) : getTransactionApplyAction s x =
      if s.inStreamedTransaction then .leaderSerialize else .leaderApply := by
  have hfind : paFindWorker s x = none := by
    simp [paFindWorker, h.cache_of_noWorkers hw, hw x]
  rw [getTransactionApplyAction, hfind]

theorem Inv.inStreamed (h : Inv L s b) (hstream : b.stream = some x) : s.inStreamedTransaction = true := by
  rw [h.streamed, hstream]
  rfl

theorem Inv.not_inStreamed (h : Inv L s b) (hstream : b.stream = none) : s.inStreamedTransaction = false := by
  rw [h.streamed, hstream]
  rfl

def spoolChange (s : State) (action : LogicalRepMsgType) (body : Bytes) : Result State :=
  match getMsgInt 4 body with
  | .error e => .error (.proto e)
  | .ok (sub, rest) =>
    if sub = 0 then .error .invalidStreamXid
    else streamWriteChange (subxactInfoAdd s sub) action rest

theorem spoolChange_ok (ht : spoolChange s action body = .ok t) :
    ∃ sub rest data y, getMsgInt 4 body = .ok (sub, rest) ∧ sub ≠ 0 ∧ s.streamFd = some y ∧
      t = { s with
        subxactData := data
        changesFile := Function.update s.changesFile y
          ((s.changesFile y).map (· ++ changeRecord (action.toByte :: rest))) } := by
  unfold spoolChange at ht
  split at ht
  · cases ht
  next sub rest hread =>
    split at ht
    · cases ht
    next hsub =>
      obtain ⟨data, hadd⟩ := subxactInfoAdd_eq s sub
      rw [hadd] at ht
      obtain ⟨y, hy, rfl⟩ := streamWriteChange_ok ht
      exact ⟨sub, rest, data, y, hread, hsub, hy, rfl⟩

theorem Inv.change_eq_spoolChange (h : Inv L s b) (hw : NoWorkers s) (hstream : b.stream = some x)
    (hchange : LogicalRepMsgType.isChange action = true)
    (hskip : LogicalRepMsgType.isData action = true → isSkippingChanges s = false)
    {dispatch : State → Bytes → Result State} :
    applyAction cfg env dispatch s msg body action = spoolChange s action body := by
  have hact := h.action_of_noWorkers hw s.streamXid
  rw [h.inStreamed hstream, if_pos rfl] at hact
  have hstreamed : handleStreamedTransaction env s action msg body =
      (spoolChange s action body).map fun t => (t, none) := by
    unfold handleStreamedTransaction spoolChange
    rw [hact]
    dsimp only
    cases getMsgInt 4 body with
    | error e => rfl
    | ok p =>
      dsimp only
      split
      · rfl
      · cases streamWriteChange (subxactInfoAdd s p.1) action p.2 <;> rfl
  have hdata : ∀ apply, isSkippingChanges s = false →
      applyHandleChange env s action msg body apply = spoolChange s action body := by
    intro apply hskip
    rw [applyHandleChange, hskip, hstreamed]
    cases spoolChange s action body <;> rfl
  cases action with
  | insert | update | delete | truncate =>
    simp only [applyAction, applyHandleInsert, applyHandleUpdate, applyHandleDelete, applyHandleTruncate]
    exact hdata _ (hskip rfl)
  | relation =>
    rw [applyAction, applyHandleRelation, hstreamed]
    cases spoolChange s .relation body <;> rfl
  | type =>
    rw [applyAction, applyHandleType, hstreamed]
    cases spoolChange s .type body <;> rfl
  | _ => cases hchange

theorem Inv.streamStart_eq (h : Inv L s b) (hw : NoWorkers s) (hstream : b.stream = none)
    {first : Bool} (hpa : first = true → env.paAllocates = false)
    (hread : readMsg readStreamStart body = .ok (x, first)) (hx : x ≠ 0) :
    applyHandleStreamStart env s msg body =
      streamStartInternal { s with inStreamedTransaction := true, streamXid := x } x first := by
  have hworker : ∀ u : State, streamStartWorker env u x first = .ok u := by
    intro u
    cases first with
    | false => rfl
    | true => simp [streamStartWorker, paAllocateWorker, hpa rfl]
  have hact : getTransactionApplyAction
      { s with inStreamedTransaction := true, streamXid := x } x = .leaderSerialize := by
    have hfind : paFindWorker { s with inStreamedTransaction := true, streamXid := x } x = none := by
      simp [paFindWorker, h.cache_of_noWorkers hw, hw x]
    rw [getTransactionApplyAction, hfind]
    rfl
  rw [applyHandleStreamStart, h.not_inStreamed hstream, hread, ok_bind]
  dsimp only
  rw [if_neg hx, hworker, ok_bind, streamStartSegment, hact]
  rfl

theorem Inv.stream_of_stop (h : Inv L s b) (ht : applyHandleStreamStop env s msg body = .ok t) :
    ∃ x, b.stream = some x := by
  cases hstream : b.stream with
  | some x => exact ⟨x, rfl⟩
  | none =>
    rw [applyHandleStreamStop, h.not_inStreamed hstream] at ht
    cases ht

theorem Inv.streamStop_eq (h : Inv L s b) (hw : NoWorkers s) (hstream : b.stream = some x) :
    applyHandleStreamStop env s msg body = .ok (Apply.closeSegment (streamStopInternal s x)) := by
  have hact := h.action_of_noWorkers hw s.streamXid
  rw [h.inStreamed hstream, if_pos rfl, h.streamXid_eq hstream] at hact
  rw [applyHandleStreamStop, h.inStreamed hstream, h.streamXid_eq hstream, hact]
  rfl

theorem Inv.streamAbort_eq (h : Inv L s b) (hw : NoWorkers s) (hstream : b.stream = none)
    {d : LogicalRepStreamAbortData}
    (hread : readMsg (readStreamAbort cfg.parallelApply) body = .ok d) :
    applyHandleStreamAbort cfg env s msg body = streamAbortInternal s d.xid d.subxid := by
  have hact := h.action_of_noWorkers hw d.xid
  rw [h.not_inStreamed hstream] at hact
  rw [applyHandleStreamAbort, h.not_inStreamed hstream, hread, ok_bind]
  dsimp only
  rw [hact]
  rfl

theorem skipped_change (hskip : isSkippingChanges s = true)
    (hdata : LogicalRepMsgType.isData action = true) {dispatch : State → Bytes → Result State} :
    applyAction cfg env dispatch s msg body action = .ok s := by
  cases action with
  | insert | update | delete | truncate =>
    simp only [applyAction, applyHandleInsert, applyHandleUpdate, applyHandleDelete,
      applyHandleTruncate, applyHandleChange, hskip, if_true]
  | _ => cases hdata

theorem Inv.hash_replayed (h : Inv L s b) (hw : NoWorkers s) (hstream : b.stream = none) {lsn : Nat} {u : State}
    (hu : applySpooledMessages (applyDispatch cfg env depth) env s x lsn = .ok u) :
    u.parallelApplyTxnHash = s.parallelApplyTxnHash := by
  obtain ⟨l, v, hspooled, hv, rfl⟩ := h.replay hstream (hw x) hu
  obtain ⟨skip, htouch⟩ := h.touches_replay hstream (fun _ hr => hspooled.isChangeRecord hr) hv
  obtain ⟨tx, rels, docs, rfl⟩ := htouch
  rfl

theorem Inv.hash_change (h : Inv L s b) (hw : NoWorkers s)
    (hchange : LogicalRepMsgType.isChange action = true) {dispatch : State → Bytes → Result State}
    (ht : applyAction cfg env dispatch s msg body action = .ok t) :
    t.parallelApplyTxnHash = s.parallelApplyTxnHash := by
  cases hstream : b.stream with
  | none =>
    obtain ⟨tx, rels, docs, rfl⟩ := (h.idle hstream).touches_action hchange ht
    rfl
  | some x =>
    by_cases hskipped : LogicalRepMsgType.isData action = true ∧ isSkippingChanges s = true
    · rw [skipped_change hskipped.2 hskipped.1] at ht
      cases ht
      rfl
    · have hskip : LogicalRepMsgType.isData action = true → isSkippingChanges s = false :=
        fun hdata => Bool.eq_false_iff.mpr fun hskip => hskipped ⟨hdata, hskip⟩
      rw [h.change_eq_spoolChange hw hstream hchange hskip] at ht
      obtain ⟨sub, rest, data, y, -, -, -, rfl⟩ := spoolChange_ok ht
      rfl

theorem Inv.noWorkers_action (h : Inv L s b) (hw : NoWorkers s) (hpa : env.paAllocates = false)
    (ht : applyAction cfg env (applyDispatch cfg env depth) s msg body action = .ok t) :
    NoWorkers t := by
  have hsame : t.parallelApplyTxnHash = s.parallelApplyTxnHash := by
    cases action with
    | begin | beginPrepare | commit | prepare | commitPrepared | rollbackPrepared | origin
    | message =>
      obtain ⟨remote, tx, lsn, skip, rfl⟩ := applyAction_plain rfl ht
      rfl
    | insert | update | delete | truncate | relation | type => exact h.hash_change hw rfl ht
    | streamStart =>
      obtain ⟨x, first, hread, hstream, hinv, -⟩ := h.streamStart ht
      have hx : x ≠ 0 := fun hx => hinv.stream_ne (by rw [hx])
      rw [applyAction, h.streamStart_eq hw hstream (fun _ => hpa) hread hx] at ht
      exact (streamFd_streamStartInternal ht).2.2
    | streamStop =>
      obtain ⟨x, hstream⟩ := h.stream_of_stop ht
      rw [applyAction, h.streamStop_eq hw hstream] at ht
      cases ht
      rfl
    | streamAbort =>
      obtain ⟨d, hread, hstream, -⟩ := h.streamAbort ht
      rw [applyAction, h.streamAbort_eq hw hstream hread] at ht
      exact (streamAbortInternal_frame ht).2.2
    | streamCommit =>
      obtain ⟨xid, d, hread, hstream, -⟩ := h.streamCommit ht
      have hact := h.action_of_noWorkers hw xid
      rw [h.not_inStreamed hstream] at hact
      simp only [applyAction, applyHandleStreamCommit, h.not_inStreamed hstream, hread, ok_bind,
        hact, Bool.false_eq_true, if_false, bind_eq_ok, applyHandleCommitInternal_eq] at ht
      obtain ⟨u, hu, ht⟩ := ht
      obtain rfl := streamCleanupFiles_ok ht
      have hhash := h.hash_replayed hw hstream hu
      exact hhash
    | streamPrepare =>
      obtain ⟨d, hread, hstream, -⟩ := h.streamPrepare ht
      have hact := h.action_of_noWorkers hw d.xid
      rw [h.not_inStreamed hstream] at hact
      simp only [applyAction, applyHandleStreamPrepare, streamPrepareTransaction,
        h.not_inStreamed hstream, hread, ok_bind, hact, Bool.false_eq_true, if_false, bind_eq_ok,
        pure_eq_ok] at ht
      obtain ⟨v, ⟨u, hu, hv⟩, rfl⟩ := ht
      obtain rfl := streamCleanupFiles_ok hv
      have hhash := h.hash_replayed hw hstream hu
      exact hhash
  intro x
  rw [hsame]
  exact hw x

def isKept (r : Bytes) : Bool := !isDataMessage r

/-- The transactions whose files differ: those being streamed whose row changes are left out. -/
def Track.hidden (k : Track) (p : Env → Nat → Bool) (ms : List (Env × Message)) (x : Nat) : Bool :=
  (k.spools x).isSome && leftOutAtEnd p x ms

/-- The state `s` of the run that skips, against the state `s'` of the run that was never sent the
row changes in question. -/
structure Sim (p : Env → Nat → Bool) (L L' : Ledger) (k : Track) (out : Bool)
    (ms : List (Env × Message)) (s s' : State) : Prop where
  inv : Inv L s k.boundary
  segment : SegmentOpen s k.boundary
  inv' : Inv L' s' k.boundary
  segment' : SegmentOpen s' k.boundary
  hide : s'.hide (k.hidden p ms) = s.hide (k.hidden p ms)
  skip : isSkippingChanges s = out
  skip' : s'.skipXactFinishLsn = 0
  separated : k.boundary.separated = true
  outside : k.boundary.stream.isSome = true → k.boundary.txn = false
  zero : k.spools 0 = none
  started : ∀ x, k.boundary.stream = some x → (k.spools x).isSome = true
  workers : (∃ m ∈ ms, m.1.skiplsn ≠ 0) → NoWorkers s
  spooled : ∀ x evs, k.spools x = some evs → leftOutAtEnd p x ms = true → L x = some (.spooled (evs.foldl logStep [])) ∧
      L' x = some (.spooled ((evs.filter (LogEvent.kept isKept)).foldl logStep []))

variable {p : Env → Nat → Bool} {k : Track} {out : Bool} {m : Env × Message} {ms : List (Env × Message)} {a : UInt8}

theorem finishesMessage_of_action (ha : LogicalRepMsgType.ofByte a = some action) (body : Bytes) :
    finishesMessage (a :: body) = finishes body action := by
  rw [finishesMessage, ha]
  rfl

theorem leftOutAtEnd_of_finishes {lsn : Nat} (h : finishesMessage m.2.data = some (x, lsn)) :
    leftOutAtEnd p x (m :: ms) = p m.1 lsn := by
  rw [leftOutAtEnd, h]
  exact if_pos rfl

theorem leftOutAtEnd_of_not_finishes (h : (finishesMessage m.2.data).any (fun q => q.1 = x) = false) :
    leftOutAtEnd p x (m :: ms) = leftOutAtEnd p x ms := by
  rw [leftOutAtEnd]
  cases hf : finishesMessage m.2.data with
  | none => rfl
  | some q =>
    have hne : ¬ q.1 = x := by simpa [hf] using h
    exact if_neg hne

theorem exists_of_leftOutAtEnd (h : leftOutAtEnd p x ms = true) : ∃ m ∈ ms, ∃ lsn, p m.1 lsn = true := by
  induction ms with
  | nil => cases h
  | cons m ms ih =>
    rw [leftOutAtEnd] at h
    split at h
    · split at h
      · exact ⟨m, List.mem_cons_self, _, h⟩
      · obtain ⟨m', hm', hp⟩ := ih h
        exact ⟨m', List.mem_cons_of_mem m hm', hp⟩
    · obtain ⟨m', hm', hp⟩ := ih h
      exact ⟨m', List.mem_cons_of_mem m hm', hp⟩

theorem skiplsn_of_leftOutAtEnd (hp : ∀ m ∈ ms, ∀ lsn, p m.1 lsn = m.1.skips lsn)
    (hx : leftOutAtEnd p x ms = true) : ∃ m ∈ ms, m.1.skiplsn ≠ 0 := by
  obtain ⟨m, hm, lsn, hsel⟩ := exists_of_leftOutAtEnd hx
  rw [hp m hm] at hsel
  have hboth : m.1.skiplsn ≠ 0 ∧ m.1.skiplsn = lsn := by simpa [Env.skips] using hsel
  exact ⟨m, hm, hboth.1⟩

theorem not_finishes_of_not_ends (h : ends cfg x body action = false) :
    (finishes body action).any (fun q => q.1 = x) = false := by
  cases action with
  | streamAbort => rfl
  | _ => exact h

theorem concerns_of_ends (b : Boundary) (h : ends cfg x body action = true) : concerns cfg b body action = some x := by
  have hfinish : ∀ {o : Option (Nat × Nat)}, o.any (fun q => q.1 = x) = true → o.map (·.1) = some x := by
    intro o ho
    cases o with
    | none => cases ho
    | some q => exact congrArg some (by simpa using ho)
  cases action with
  | streamAbort =>
    unfold ends at h
    unfold concerns
    cases hread : (readMsg (readStreamAbort cfg.parallelApply) body).toOption with
    | none =>
      rw [hread] at h
      cases h
    | some d =>
      rw [hread] at h
      have hd : d.xid = x ∧ d.subxid = x := by simpa using h
      exact congrArg some hd.1
  | streamCommit => exact hfinish h
  | streamPrepare => exact hfinish h
  | _ => cases h

theorem Inv.skip_zero (h : Inv L s b) (hsep : b.separated = true) (htxn : b.txn = false) :
    s.skipXactFinishLsn = 0 := h.not_skipping (by simp [Boundary.finishOther, hsep, htxn])

theorem isSkippingChanges_eq_false (h : s.skipXactFinishLsn = 0) : isSkippingChanges s = false := by
  simp [isSkippingChanges, h]

theorem isSkippingChanges_begin (h : s.skipXactFinishLsn = 0) (env : Env) (lsn : Nat) :
    isSkippingChanges { maybeStartSkippingChanges env { s with remoteFinalLsn := lsn } lsn with
      inRemoteTransaction := true } = env.skips lsn := by
  unfold maybeStartSkippingChanges Env.skips isSkippingChanges
  by_cases hzero : env.skiplsn = 0
  · simp [hzero, h]
  · by_cases hlsn : env.skiplsn = lsn
    · have hne : lsn ≠ 0 := hlsn ▸ hzero
      simp [hlsn, hne]
    · simp [hzero, hlsn, h]

theorem Inv.skip_after {M : Ledger} (h : Inv L s k.boundary) (hsep : k.boundary.separated = true)
    (houtside : k.boundary.stream.isSome = true → k.boundary.txn = false)
    (hlegal : k.legal body action = true) (hM : Inv M t (k.boundary.after body action))
    {dispatch : State → Bytes → Result State}
    (ht : applyAction cfg env dispatch s msg body action = .ok t) :
    isSkippingChanges t = outAfter Env.skips env (isSkippingChanges s) body action := by
  -- a message that may not come between BEGIN and COMMIT
  have hapart : k.boundary.txn = false → (k.boundary.after body action).separated = true →
      (k.boundary.after body action).txn = false → isSkippingChanges t = isSkippingChanges s := by
    intro htxn hsep' htxn'
    rw [isSkippingChanges_eq_false (h.skip_zero hsep htxn), isSkippingChanges_eq_false (hM.skip_zero hsep' htxn')]
  have hfinish : k.boundary.txn = false → k.boundary.finishOther.separated = true := by
    intro htxn
    simp [Boundary.finishOther, hsep, htxn]
  cases action with
  | begin =>
    have htxn : k.boundary.txn = false := by
      have hboth : k.boundary.txn = false ∧ k.boundary.stream.isNone = true := by
        simpa [Track.legal] using hlegal
      exact hboth.1
    simp only [applyAction, applyHandleBegin, bind_eq_ok, pure_eq_ok] at ht
    obtain ⟨d, hread, rfl⟩ := ht
    rw [outAfter, hread]
    exact isSkippingChanges_begin (h.skip_zero hsep htxn) env d.finalLsn
  | beginPrepare =>
    have htxn : k.boundary.txn = false := by
      have hboth : k.boundary.txn = false ∧ k.boundary.stream.isNone = true := by
        simpa [Track.legal] using hlegal
      exact hboth.1
    simp only [applyAction, applyHandleBeginPrepare, bind_eq_ok, pure_eq_ok] at ht
    obtain ⟨d, hread, rfl⟩ := ht
    rw [outAfter, hread]
    exact isSkippingChanges_begin (h.skip_zero hsep htxn) env d.prepareLsn
  | commit =>
    exact isSkippingChanges_eq_false (hM.skip_zero hsep rfl)
  | prepare =>
    exact isSkippingChanges_eq_false (hM.skip_zero hsep rfl)
  | insert | update | delete | truncate | relation | type =>
    show isSkippingChanges t = isSkippingChanges s
    cases hstream : k.boundary.stream with
    | none =>
      obtain ⟨tx, rels, docs, rfl⟩ := (h.idle hstream).touches_action rfl ht
      rfl
    | some x =>
      have htxn := houtside (by rw [hstream]; rfl)
      exact hapart htxn hsep htxn
  | origin =>
    simp only [applyAction, applyHandleOrigin] at ht
    split at ht
    · cases ht
    · cases ht
      rfl
  | message =>
    cases ht
    rfl
  | commitPrepared | rollbackPrepared =>
    have htxn : k.boundary.txn = false := by simpa [Track.legal] using hlegal
    exact hapart htxn (hfinish htxn) htxn
  | streamAbort =>
    have htxn : k.boundary.txn = false := by simpa [Track.legal] using hlegal
    exact hapart htxn hsep htxn
  | streamStart =>
    have htxn : k.boundary.txn = false := (by simpa [Track.legal] using hlegal : k.boundary.txn = false ∧ _).1
    exact hapart htxn hsep htxn
  | streamStop =>
    obtain ⟨x, hstream⟩ := h.stream_of_stop ht
    have htxn := houtside (by rw [hstream]; rfl)
    exact hapart htxn hsep htxn
  | streamCommit | streamPrepare =>
    have htxn : k.boundary.txn = false := (by simpa [Track.legal] using hlegal : k.boundary.txn = false ∧ _).1
    exact hapart htxn (hfinish htxn) htxn

theorem outAfter_noSkip (env : Env) (body : Bytes) (action : LogicalRepMsgType) :
    outAfter Env.skips env.noSkip false body action = false := by
  have hskips : ∀ lsn, env.noSkip.skips lsn = false := fun lsn => rfl
  cases action with
  | begin => cases h : (readMsg readBegin body).toOption <;> simp [outAfter, h, hskips]
  | beginPrepare => cases h : (readMsg readBeginPrepare body).toOption <;> simp [outAfter, h, hskips]
  | _ => rfl

theorem outAfter_congr (hp : ∀ lsn, p env lsn = env.skips lsn) (out : Bool) (body : Bytes)
    (action : LogicalRepMsgType) :
    outAfter p env out body action = outAfter Env.skips env out body action := by
  have hp : p env = env.skips := funext hp
  cases action with
  | begin | beginPrepare => simp only [outAfter, hp]
  | _ => rfl

/-! ### Messages that both runs are sent -/

structure Received (cfg : Config) (p : Env → Nat → Bool) (k : Track) (m : Env × Message)
    (ms : List (Env × Message)) (a : UInt8) (body : Bytes) (action : LogicalRepMsgType) : Prop where
  data : m.2.data = a :: body
  kind : LogicalRepMsgType.ofByte a = some action
  legal : k.legal body action = true
  skips : ∀ m' ∈ m :: ms, ∀ lsn, p m'.1 lsn = m'.1.skips lsn
  starts : (∃ m' ∈ ms, m'.1.skiplsn ≠ 0) → m.1.paAllocates = false

theorem Received.fits (h : Received cfg p k m ms a body action) : (a :: body).length < 2 ^ 30 := by
  rw [← h.data]
  exact m.2.fits

theorem Received.skiplsn (h : Received cfg p k m ms a body action)
    (hx : leftOutAtEnd p x ms = true) : ∃ m' ∈ ms, m'.1.skiplsn ≠ 0 :=
  skiplsn_of_leftOutAtEnd (fun m' hm' => h.skips m' (List.mem_cons_of_mem m hm')) hx

theorem Received.leftOutAtEnd (h : Received cfg p k m ms a body action) (hx : ends cfg x body action = false) :
    leftOutAtEnd p x (m :: ms) = Apply.leftOutAtEnd p x ms := by
  refine leftOutAtEnd_of_not_finishes ?_
  rw [h.data, finishesMessage_of_action h.kind]
  exact not_finishes_of_not_ends hx

theorem Received.hidden (h : Received cfg p k m ms a body action)
    (hx : ends cfg x body action = false) (hhidden : k.hidden p (m :: ms) x = true) :
    (k.after cfg body action).hidden p ms x = true := by
  obtain ⟨hopen, hleft⟩ := Bool.and_eq_true_iff.mp hhidden
  rw [h.leftOutAtEnd hx] at hleft
  refine Bool.and_eq_true_iff.mpr ⟨?_, hleft⟩
  unfold Track.after
  dsimp only
  rw [hx]
  split
  · rfl
  · simpa using hopen

theorem continuesWith_of_not_ends (hsep : b.separated = true) (houtside : b.stream.isSome = true → b.txn = false)
    (hstart : startsFirst x body action = false) (hend : ends cfg x body action = false) :
    continuesWith cfg x b body action = true := by
  cases action with
  | streamStart =>
    unfold startsFirst at hstart
    unfold continuesWith
    cases hread : (readMsg readStreamStart body).toOption with
    | none => rfl
    | some q =>
      rw [hread] at hstart
      simpa [imp_iff_not_or] using hstart
  | streamAbort =>
    unfold ends at hend
    unfold continuesWith
    cases hread : (readMsg (readStreamAbort cfg.parallelApply) body).toOption with
    | none => rfl
    | some q =>
      rw [hread] at hend
      simpa [imp_iff_not_or] using hend
  | streamCommit =>
    unfold ends finishes at hend
    unfold continuesWith
    cases hread : (readMsg readStreamCommit body).toOption with
    | none => rfl
    | some q =>
      rw [hread] at hend
      simpa using hend
  | streamPrepare =>
    unfold ends finishes at hend
    unfold continuesWith
    cases hread : (readMsg readPrepareCommon body).toOption with
    | none => rfl
    | some q =>
      rw [hread] at hend
      simpa using hend
  | insert | update | delete | truncate =>
    unfold continuesWith
    by_cases hstream : b.stream = some x
    · have htxn := houtside (by rw [hstream]; rfl)
      simp [hstream, htxn, hsep]
    · simp [hstream]
  | _ => rfl

theorem Track.legal_apart (h : k.legal body action = true)
    (haction : action ≠ .commit ∧ action ≠ .prepare ∧ LogicalRepMsgType.isChange action = false ∧
      action ≠ .origin ∧ action ≠ .message ∧ action ≠ .streamStop) : k.boundary.txn = false := by
  cases action with
  | begin | beginPrepare | commitPrepared | rollbackPrepared | streamStart | streamAbort
  | streamCommit | streamPrepare =>
    simp only [Track.legal, Bool.and_eq_true, Bool.not_eq_true'] at h
    first
    | exact h.1
    | exact h
  | _ => simp [LogicalRepMsgType.isChange] at haction

theorem Track.separated_after (hsep : k.boundary.separated = true)
    (hlegal : k.legal body action = true) : (k.boundary.after body action).separated = true := by
  cases action with
  | commitPrepared | rollbackPrepared | streamCommit | streamPrepare =>
    have htxn := Track.legal_apart hlegal (by decide)
    show (k.boundary.separated && !k.boundary.txn) = true
    rw [hsep, htxn]
    rfl
  | _ => exact hsep

theorem Track.outside_after (houtside : k.boundary.stream.isSome = true → k.boundary.txn = false)
    (hlegal : k.legal body action = true) :
    (k.boundary.after body action).stream.isSome = true → (k.boundary.after body action).txn = false := by
  cases action with
  | begin | beginPrepare =>
    have hboth : k.boundary.txn = false ∧ k.boundary.stream.isNone = true := by
      simpa [Track.legal] using hlegal
    intro hsome
    have hnone : k.boundary.stream = none := Option.isNone_iff_eq_none.mp hboth.2
    have hsome : k.boundary.stream.isSome = true := hsome
    rw [hnone] at hsome
    cases hsome
  | commit | prepare => exact fun _ => rfl
  | streamStart => exact fun _ => Track.legal_apart hlegal (by decide)
  | streamStop => exact nofun
  | _ => exact houtside

theorem Inv.not_ends (h : Inv L s b) (hstream : b.stream = some x)
    (ht : applyAction cfg env (applyDispatch cfg env depth) s msg body action = .ok t) (y : Nat) :
    ends cfg y body action = false := by
  have hrefused : b.stream = none → ends cfg y body action = false := by
    intro hnone
    rw [hstream] at hnone
    cases hnone
  cases action with
  | streamAbort =>
    obtain ⟨d, -, hnone, -⟩ := h.streamAbort ht
    exact hrefused hnone
  | streamCommit =>
    obtain ⟨xid, d, -, hnone, -⟩ := h.streamCommit ht
    exact hrefused hnone
  | streamPrepare =>
    obtain ⟨d, -, hnone, -⟩ := h.streamPrepare ht
    exact hrefused hnone
  | _ => rfl

theorem Inv.stream_after (h : Inv L s b)
    (ht : applyAction cfg env (applyDispatch cfg env depth) s msg body action = .ok t) :
    (∃ x first, action = .streamStart ∧ readMsg readStreamStart body = .ok (x, first) ∧ x ≠ 0 ∧
      b.stream = none ∧ (b.after body action).stream = some x) ∨
    (∀ x, startsFirst x body action = false) ∧
      ((b.after body action).stream = b.stream ∨ (b.after body action).stream = none) := by
  cases action with
  | streamStart =>
    obtain ⟨x, first, hread, hstream, hinv, -⟩ := h.streamStart ht
    refine .inl ⟨x, first, rfl, hread, fun hx => hinv.stream_ne (by rw [hx]), hstream, ?_⟩
    rw [Boundary.after, hread]
    rfl
  | streamStop => exact .inr ⟨fun _ => rfl, .inr rfl⟩
  | _ => exact .inr ⟨fun _ => rfl, .inl rfl⟩

theorem Track.spools_after (hstart : startsFirst x body action = false) (hend : ends cfg x body action = false) :
    (k.after cfg body action).spools x =
      (k.spools x).map (· ++ (spoolEventOf cfg x k.boundary body action).toList) := by
  unfold Track.after
  dsimp only
  rw [hstart, hend]
  rfl

theorem Inv.spools_zero (h : Inv L s k.boundary) (hzero : k.spools 0 = none)
    (ht : applyAction cfg env (applyDispatch cfg env depth) s msg body action = .ok t) :
    (k.after cfg body action).spools 0 = none := by
  have hstart : startsFirst 0 body action = false := by
    rcases h.stream_after ht with ⟨x, first, rfl, hread, hx, -⟩ | ⟨hnone, -⟩
    · simp [startsFirst, hread, hx, Except.toOption]
    · exact hnone 0
  by_cases hend : ends cfg 0 body action = true
  · unfold Track.after
    dsimp only
    rw [hstart, hend]
    rfl
  · rw [Track.spools_after hstart (Bool.eq_false_iff.mpr hend), hzero]
    rfl

theorem Inv.started_after (h : Inv L s k.boundary)
    (hstarted : ∀ x, k.boundary.stream = some x → (k.spools x).isSome = true)
    (hlegal : k.legal body action = true)
    (ht : applyAction cfg env (applyDispatch cfg env depth) s msg body action = .ok t) :
    ∀ x, (k.boundary.after body action).stream = some x → ((k.after cfg body action).spools x).isSome = true := by
  intro y hy
  rcases h.stream_after ht with ⟨x, first, rfl, hread, -, -, hx⟩ | ⟨hnone, hsame | hclosed⟩
  · obtain rfl : x = y := Option.some.inj (hx.symm.trans hy)
    cases first with
    | true =>
      unfold Track.after
      simp [startsFirst, hread, Except.toOption]
    | false =>
      have hopen : (k.spools x).isSome = true := by
        have hboth : k.boundary.txn = false ∧ false = (k.spools x).isNone := by
          simpa [Track.legal, hread, Except.toOption] using hlegal
        cases hs : k.spools x with
        | none =>
          rw [hs] at hboth
          cases hboth.2
        | some evs => rfl
      rw [Track.spools_after (by simp [startsFirst, hread, Except.toOption]) rfl]
      simpa using hopen
  · rw [hsame] at hy
    rw [Track.spools_after (hnone y) (h.not_ends hy ht y)]
    simpa using hstarted y hy
  · rw [hclosed] at hy
    cases hy

theorem Sim.noWorkers (h : Sim p L L' k out (m :: ms) s s')
    (hr : Received cfg p k m ms a body action) (hx : leftOutAtEnd p x ms = true) : NoWorkers s := by
  obtain ⟨m', hm', hne⟩ := hr.skiplsn hx
  exact h.workers ⟨m', List.mem_cons_of_mem m hm', hne⟩

theorem Sim.hash_eq (h : Sim p L L' k out ms s s') : s'.parallelApplyTxnHash = s.parallelApplyTxnHash := by
  change (s'.hide (k.hidden p ms)).parallelApplyTxnHash = (s.hide (k.hidden p ms)).parallelApplyTxnHash
  rw [h.hide]

theorem Sim.noWorkers' (h : Sim p L L' k out (m :: ms) s s')
    (hr : Received cfg p k m ms a body action) (hx : leftOutAtEnd p x ms = true) :
    NoWorkers s' := by
  intro y
  rw [h.hash_eq]
  exact h.noWorkers hr hx y

theorem Ledger.after_started (hnone : NoWorkers t) (hstart : startsFirst x body action = true) :
    L.after cfg s t b body action x = some (.spooled []) := by
  cases action with
  | streamStart =>
    unfold startsFirst at hstart
    unfold Ledger.after
    cases hread : (readMsg readStreamStart body).toOption with
    | none =>
      rw [hread] at hstart
      cases hstart
    | some q =>
      obtain ⟨y, first⟩ := q
      rw [hread] at hstart
      obtain ⟨rfl, rfl⟩ : y = x ∧ first = true := by simpa using hstart
      show Function.update L y _ y = _
      rw [Function.update_self, hnone y]
      rfl
  | _ => cases hstart

theorem Sim.both (h : Sim p L L' k out (m :: ms) s s') (hr : Received cfg p k m ms a body action) {nested : Nat}
    (ht : applyAction cfg m.1 (applyDispatch cfg m.1 nested) s (a :: body) body action = .ok t)
    (ht' : applyAction cfg m.1.noSkip (applyDispatch cfg m.1.noSkip nested) s' (a :: body) body action = .ok t')
    (hkept : ∀ x, (k.spools x).isSome = true → leftOutAtEnd p x ms = true →
      ∀ e ∈ (spoolEventOf cfg x k.boundary body action).toList, e.kept isKept = true)
    (hhide : t'.hide ((k.after cfg body action).hidden p ms) = t.hide ((k.after cfg body action).hidden p ms)) :
    ∃ M M', Sim p M M' (k.after cfg body action) (outAfter p m.1 out body action) ms t t' := by
  have hdispatch : ∀ {env : Env} {u v : State},
      applyAction cfg env (applyDispatch cfg env nested) u (a :: body) body action = .ok v →
      applyDispatch cfg env (nested + 1) u (a :: body) = .ok v := by
    intro env u v hv
    rw [applyDispatch, hr.kind]
    exact hv
  obtain ⟨hinv, hseg⟩ := h.inv.dispatch h.segment hr.fits (hdispatch ht)
  obtain ⟨hinv', hseg'⟩ := h.inv'.dispatch h.segment' hr.fits (hdispatch ht')
  rw [Boundary.next_of_action _ hr.kind, Ledger.next_of_action _ hr.kind] at hinv hinv'
  rw [Boundary.next_of_action _ hr.kind] at hseg hseg'
  have hskip' : isSkippingChanges s' = false := isSkippingChanges_eq_false h.skip'
  refine ⟨_, _, hinv, hseg, hinv', hseg', hhide, ?_, ?_, Track.separated_after h.separated hr.legal,
    Track.outside_after h.outside hr.legal, h.inv.spools_zero h.zero ht,
    h.inv.started_after h.started hr.legal ht, ?_, ?_⟩
  · rw [h.inv.skip_after h.separated h.outside hr.legal hinv ht, h.skip]
    exact (outAfter_congr (hr.skips m List.mem_cons_self) out body action).symm
  · have hnone := h.inv'.skip_after h.separated h.outside hr.legal hinv' ht'
    rw [hskip', outAfter_noSkip] at hnone
    simpa [isSkippingChanges] using hnone
  · rintro ⟨m', hm', hne⟩
    exact h.inv.noWorkers_action (h.workers ⟨m', List.mem_cons_of_mem m hm', hne⟩) (hr.starts ⟨m', hm', hne⟩) ht
  · intro x evs hevs hleft
    have hw := h.noWorkers hr hleft
    have hpa := hr.starts (hr.skiplsn hleft)
    have hpa' : m.1.noSkip.paAllocates = false := hpa
    by_cases hstart : startsFirst x body action = true
    · have hnil : evs = [] := by
        unfold Track.after at hevs
        dsimp only at hevs
        rw [hstart, if_pos rfl] at hevs
        exact (Option.some.inj hevs).symm
      rw [hnil]
      exact ⟨Ledger.after_started (h.inv.noWorkers_action hw hpa ht) hstart,
        Ledger.after_started (h.inv'.noWorkers_action (h.noWorkers' hr hleft) hpa' ht') hstart⟩
    · have hstart : startsFirst x body action = false := Bool.eq_false_iff.mpr hstart
      have hend : ends cfg x body action = false := by
        by_contra hend
        unfold Track.after at hevs
        dsimp only at hevs
        rw [hstart, Bool.of_not_eq_false hend] at hevs
        cases hevs
      rw [Track.spools_after hstart hend] at hevs
      obtain ⟨evs₀, hevs₀, rfl⟩ := Option.map_eq_some_iff.mp hevs
      obtain ⟨hL, hL'⟩ := h.spooled x evs₀ hevs₀ ((hr.leftOutAtEnd hend).trans hleft)
      have hcont := continuesWith_of_not_ends h.separated h.outside hstart hend
      have hself := List.filter_eq_self.mpr (hkept x (by rw [hevs₀]; rfl) hleft)
      rw [List.foldl_append, List.filter_append, List.foldl_append, hself]
      exact ⟨Ledger.after_eq h.inv hL hcont, Ledger.after_eq h.inv' hL' hcont⟩

theorem spoolEventOf_kept (hdata : LogicalRepMsgType.isData action = false) :
    ∀ e ∈ (spoolEventOf cfg x b body action).toList, e.kept isKept = true := by
  have hchange : ∀ q : Nat × Bytes, LogEvent.kept isKept (.change q.1 (action.toByte :: q.2)) = true := by
    intro q
    simp [LogEvent.kept, isKept, isDataMessage, LogicalRepMsgType.ofByte_toByte, hdata]
  intro e he
  cases action with
  | insert | update | delete | truncate => cases hdata
  | relation | type =>
    simp only [spoolEventOf] at he
    split at he
    · obtain ⟨q, -, rfl⟩ := Option.map_eq_some_iff.mp (Option.mem_toList.mp he)
      exact hchange q
    · cases he
  | streamAbort =>
    simp only [spoolEventOf] at he
    obtain ⟨d, -, hd⟩ := Option.bind_eq_some_iff.mp (Option.mem_toList.mp he)
    split at hd
    · obtain rfl := Option.some.inj hd
      rfl
    · cases hd
  | _ => cases he

theorem Track.hidden_zero (hzero : k.spools 0 = none) : k.hidden p ms 0 = false := by
  rw [Track.hidden, hzero]
  rfl

theorem Received.hide_after (hr : Received cfg p k m ms a body action)
    (h : t'.hide (k.hidden p (m :: ms)) = t.hide (k.hidden p (m :: ms)))
    (hend : ∀ x, ends cfg x body action = true → k.hidden p (m :: ms) x = true →
      t.streamXid ≠ x ∧ t'.changesFile x = t.changesFile x ∧ t'.subxactFile x = t.subxactFile x) :
    t'.hide ((k.after cfg body action).hidden p ms) = t.hide ((k.after cfg body action).hidden p ms) := by
  refine hide_change h (fun x hx hx' => ?_) fun hx => ?_
  · by_cases hends : ends cfg x body action = true
    · exact (hend x hends hx).2
    · rw [hr.hidden (Bool.eq_false_iff.mpr hends) hx] at hx'
      cases hx'
  · refine hr.hidden (Bool.eq_false_iff.mpr fun hends => ?_) hx
    exact (hend _ hends hx).1 rfl

theorem Sim.alike (h : Sim p L L' k out (m :: ms) s s') (hr : Received cfg p k m ms a body action) {nested : Nat}
    (hshown : ∀ x, concerns cfg k.boundary body action = some x → k.hidden p (m :: ms) x = false)
    (hdata : LogicalRepMsgType.isData action = true → isSkippingChanges s = false)
    (ht : applyAction cfg m.1 (applyDispatch cfg m.1 nested) s (a :: body) body action = .ok t) :
    ∃ t', applyAction cfg m.1.noSkip (applyDispatch cfg m.1.noSkip nested) s' (a :: body) body action = .ok t' ∧
      t'.hide ((k.after cfg body action).hidden p ms) = t.hide ((k.after cfg body action).hidden p ms) := by
  have hfinish : ∀ x lsn, finishes body action = some (x, lsn) → s.skipXactFinishLsn = 0 ∧ m.1.skips lsn = false := by
    intro x lsn hf
    have hboth : k.boundary.txn = false ∧ (k.spools x).isSome = true := by
      have hlegal := hr.legal
      cases action with
      | streamCommit | streamPrepare =>
        simp only [Track.legal, hf, Bool.and_eq_true, Bool.not_eq_true', Option.all_some] at hlegal
        refine ⟨hlegal.1, ?_⟩
        cases hs : k.spools x with
        | none =>
          rw [hs] at hlegal
          cases hlegal.2
        | some evs => rfl
      | _ => cases hf
    refine ⟨h.inv.skip_zero h.separated hboth.1, ?_⟩
    have hends : ends cfg x body action = true := by
      cases action with
      | streamCommit | streamPrepare => simp [ends, hf]
      | _ => cases hf
    have hmessage : finishesMessage m.2.data = some (x, lsn) := by
      rw [hr.data, finishesMessage_of_action hr.kind, hf]
    have hnot := hshown x (concerns_of_ends k.boundary hends)
    rw [Track.hidden, hboth.2, Bool.true_and, leftOutAtEnd_of_finishes hmessage, hr.skips m List.mem_cons_self] at hnot
    exact hnot
  have hzero : k.hidden p (m :: ms) 0 = false := Track.hidden_zero h.zero
  have hs := h.inv.action_hide m.1 (a :: body) hzero hshown hdata hfinish nested
  have hs' := h.inv'.action_hide m.1.noSkip (a :: body) hzero hshown
    (fun _ => isSkippingChanges_eq_false h.skip') (fun _ _ _ => ⟨h.skip', rfl⟩) nested
  rw [h.hide] at hs'
  have hsame : (applyAction cfg m.1.noSkip (applyDispatch cfg m.1.noSkip nested) s' (a :: body) body
      action).map (State.hide (k.hidden p (m :: ms))) =
      (applyAction cfg m.1 (applyDispatch cfg m.1 nested) s (a :: body) body action).map
        (State.hide (k.hidden p (m :: ms))) := hs'.symm.trans hs
  obtain ⟨t', ht', hhide⟩ := hide_alike hsame ht
  refine ⟨t', ht', hr.hide_after hhide fun x hends hx => ?_⟩
  rw [hshown x (concerns_of_ends k.boundary hends)] at hx
  cases hx

end CdcKafka.Apply
