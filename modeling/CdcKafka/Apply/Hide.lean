import CdcKafka.Apply.Step

/-! The worker reads only the files of the transaction that a message is for: with the files of
other transactions and the skip position hidden from it, it does the same. -/

namespace CdcKafka.Apply
open CdcKafka.Lib CdcKafka.Event CdcKafka.Json CdcKafka.Proto

variable {D D' : Nat → Bool} {s s' t : State} {cfg : Config} {env : Env} {x winfo : Nat}
  {action : LogicalRepMsgType} {msg body rest : Bytes}

def State.hide (D : Nat → Bool) (s : State) : State :=
  { s with
    skipXactFinishLsn := 0
    changesFile := fun x => if D x then none else s.changesFile x
    subxactFile := fun x => if D x then none else s.subxactFile x
    subxactData := if D s.streamXid then .empty else s.subxactData }

def Env.noSkip (env : Env) : Env := { env with skiplsn := 0 }

theorem bind_hide {r r' : Result State} {f f' : State → Result State}
    (hr : r' = r.map (State.hide D)) (hf : ∀ t, r = .ok t → f' (t.hide D) = (f t).map (State.hide D)) :
    (r' >>= f') = (r >>= f).map (State.hide D) := by
  rw [hr]
  cases r with
  | error e => rfl
  | ok t => exact hf t rfl

theorem read_hide {α : Type} {r : Result α} {f f' : α → Result State}
    (hf : ∀ a, r = .ok a → f' a = (f a).map (State.hide D)) :
    (r >>= f') = (r >>= f).map (State.hide D) := by
  cases r with
  | error e => rfl
  | ok a => exact hf a rfl

theorem hide_alike {r r' : Result State} (h : r'.map (State.hide D) = r.map (State.hide D))
    (ht : r = .ok t) : ∃ t', r' = .ok t' ∧ t'.hide D = t.hide D := by
  rw [ht] at h
  cases r' with
  | error e => cases h
  | ok t' => exact ⟨t', rfl, Except.ok.inj h⟩

theorem hide_change (h : s'.hide D = s.hide D) (hfiles : ∀ x, D x = true → D' x = false →
      s'.changesFile x = s.changesFile x ∧ s'.subxactFile x = s.subxactFile x)
    (hdata : D s.streamXid = true → D' s.streamXid = true) : s'.hide D' = s.hide D' := by
  have hxid : s'.streamXid = s.streamXid := by
    change (s'.hide D).streamXid = (s.hide D).streamXid
    rw [h]
  have hpick : ∀ {α : Type} (f f' : Nat → Option α),
      (fun x => if D x then none else f' x) = (fun x => if D x then none else f x) →
      (∀ x, D x = true → D' x = false → f' x = f x) →
      (fun x => if D' x then none else f' x) = fun x => if D' x then none else f x := by
    intro α f f' hD hD'
    funext x
    cases hx' : D' x with
    | true => rfl
    | false =>
      cases hx : D x with
      | true => exact hD' x hx hx'
      | false =>
        have hat := congrFun hD x
        rwa [hx] at hat
  have hchanges := hpick s.changesFile s'.changesFile (congrArg (fun u : State => u.changesFile) h)
    fun x hx hx' => (hfiles x hx hx').1
  have hsubxacts := hpick s.subxactFile s'.subxactFile (congrArg (fun u : State => u.subxactFile) h)
    fun x hx hx' => (hfiles x hx hx').2
  have htable : (if D' s'.streamXid then ApplySubXactData.empty else s'.subxactData) =
      if D' s.streamXid then .empty else s.subxactData := by
    have hat : (if D s'.streamXid then ApplySubXactData.empty else s'.subxactData) =
        if D s.streamXid then .empty else s.subxactData :=
      congrArg (fun u : State => u.subxactData) h
    rw [hxid] at hat ⊢
    by_cases hx' : D' s.streamXid = true
    · rw [if_pos hx', if_pos hx']
    · have hx : ¬ D s.streamXid = true := fun hx => hx' (hdata hx)
      rw [if_neg hx, if_neg hx] at hat
      rw [if_neg hx', if_neg hx', hat]
  have hrest : { s'.hide D with changesFile := (s'.hide D').changesFile,
                                subxactFile := (s'.hide D').subxactFile,
                                subxactData := (s'.hide D').subxactData } =
      { s.hide D with changesFile := (s.hide D').changesFile,
                      subxactFile := (s.hide D').subxactFile,
                      subxactData := (s.hide D').subxactData } := by
    rw [h]
    show State.mk _ _ _ _ _ _ _ _ _ _ _ _ _ _ _ = State.mk _ _ _ _ _ _ _ _ _ _ _ _ _ _ _
    rw [show (s'.hide D').changesFile = (s.hide D').changesFile from hchanges,
      show (s'.hide D').subxactFile = (s.hide D').subxactFile from hsubxacts,
      show (s'.hide D').subxactData = (s.hide D').subxactData from htable]
  exact hrest

structure Shown (D : Nat → Bool) (s : State) : Prop where
  xid : D s.streamXid = false
  fd : ∀ x, s.streamFd = some x → D x = false

theorem Shown.same (h : Shown D s) (hxid : t.streamXid = s.streamXid) (hfd : t.streamFd = s.streamFd) : Shown D t where
  xid := by rw [hxid, h.xid]
  fd := by
    rw [hfd]
    exact h.fd

theorem Shown.subxactData (h : Shown D s) : (s.hide D).subxactData = s.subxactData := by
  show (if D s.streamXid then _ else _) = _
  rw [h.xid]
  rfl

theorem hide_changesFile (hx : D x = false) : (s.hide D).changesFile x = s.changesFile x := by
  show (if D x then _ else _) = _
  rw [hx]
  rfl

theorem hide_subxactFile (hx : D x = false) : (s.hide D).subxactFile x = s.subxactFile x := by
  show (if D x then _ else _) = _
  rw [hx]
  rfl

theorem update_hidden {α : Type} (hx : D x = false) (f : Nat → Option α) (v : Option α) :
    (fun y => if D y then none else Function.update f x v y) =
      Function.update (fun y => if D y then none else f y) x v := by
  funext y
  by_cases hy : y = x
  · rw [hy, hx, Function.update_self, Function.update_self]
    rfl
  · rw [Function.update_of_ne hy, Function.update_of_ne hy]

theorem streamOpenFile_hide (hx : D x = false) (first : Bool) (s : State) :
    streamOpenFile (s.hide D) x first = (streamOpenFile s x first).map (State.hide D) := by
  cases first with
  | true =>
    show Except.ok _ = Except.ok _
    simp only [State.hide, update_hidden hx]
  | false =>
    simp only [streamOpenFile, hide_changesFile hx, Bool.false_eq_true, if_false]
    cases s.changesFile x <;> rfl

theorem streamWriteChange_hide (h : Shown D s) : streamWriteChange (s.hide D) action rest =
      (streamWriteChange s action rest).map (State.hide D) := by
  have hfd : (s.hide D).streamFd = s.streamFd := rfl
  simp only [streamWriteChange, hfd]
  cases hy : s.streamFd with
  | none => rfl
  | some y =>
    have hDy := h.fd y hy
    show Except.ok _ = Except.ok _
    simp only [hide_changesFile hDy]
    simp only [State.hide, update_hidden hDy]

theorem streamCleanupFiles_hide (hx : D x = false) (s : State) :
    streamCleanupFiles (s.hide D) x = (streamCleanupFiles s x).map (State.hide D) := by
  simp only [streamCleanupFiles, hide_changesFile hx]
  cases s.changesFile x with
  | none => rfl
  | some file =>
    show Except.ok _ = Except.ok _
    simp only [State.hide, update_hidden hx]

theorem subxactInfoWrite_hide (h : Shown D s) (hx : D x = false) :
    subxactInfoWrite (s.hide D) x = (subxactInfoWrite s x).hide D := by
  simp only [subxactInfoWrite, h.subxactData, hide_subxactFile hx]
  simp only [State.hide, cleanupSubxactInfo, update_hidden hx, h.xid, Bool.false_eq_true, if_false]

theorem subxactInfoRead_hide (h : Shown D s) (hx : D x = false) :
    subxactInfoRead (s.hide D) x = (subxactInfoRead s x).hide D := by
  simp only [subxactInfoRead, hide_subxactFile hx, h.subxactData]
  cases s.subxactFile x with
  | none => rfl
  | some file => simp only [State.hide, h.xid, Bool.false_eq_true, if_false]

theorem subxactInfoAdd_hide (h : Shown D s) (sub : Nat) :
    subxactInfoAdd (s.hide D) sub = (subxactInfoAdd s sub).hide D := by
  have hfile : (s.hide D).streamFd.bind (s.hide D).changesFile = s.streamFd.bind s.changesFile := by
    show s.streamFd.bind _ = _
    cases hy : s.streamFd with
    | none => rfl
    | some y => exact hide_changesFile (h.fd y hy)
  have hxid : (s.hide D).streamXid = s.streamXid := rfl
  simp only [subxactInfoAdd, h.subxactData, hfile, hxid]
  split
  · rfl
  · split
    · rfl
    · split <;> simp only [State.hide, h.xid, Bool.false_eq_true, if_false]

theorem streamStartInternal_hide (h : Shown D s) (hx : D x = false) (first : Bool) :
    streamStartInternal (s.hide D) x first = (streamStartInternal s x first).map (State.hide D) := by
  refine bind_hide (streamOpenFile_hide hx first (beginReplicationStep s)) fun t ht => ?_
  cases first with
  | true => rfl
  | false =>
    have hshown : Shown D t := by
      simp only [streamOpenFile, Bool.false_eq_true, if_false] at ht
      split at ht
      · cases ht
        exact ⟨h.xid, fun y hy => by rwa [← Option.some.inj hy]⟩
      · cases ht
    show Except.ok _ = Except.ok _
    exact congrArg Except.ok (subxactInfoRead_hide hshown hx)

theorem streamStopInternal_hide (h : Shown D s) (hx : D x = false) :
    streamStopInternal (s.hide D) x = (streamStopInternal s x).hide D := by
  simp only [streamStopInternal, subxactInfoWrite_hide h hx]
  rfl

structure Apart (D : Nat → Bool) (s : State) : Prop where
  zero : D 0 = false
  xid : s.streamXid = 0
  fd : s.streamFd = none

theorem Apart.shown (h : Apart D s) : Shown D s where
  xid := by rw [h.xid, h.zero]
  fd := by
    rw [h.fd]
    nofun

theorem streamOpenAndWriteChange_hide (h : Shown D s) (hx : D x = false) :
    streamOpenAndWriteChange (s.hide D) x action rest =
      (streamOpenAndWriteChange s x action rest).map (State.hide D) := by
  have hreopen : streamReopen (s.hide D) x = (streamReopen s x).map (State.hide D) := by
    show (if s.streamFd.isNone then _ else _) = _
    unfold streamReopen
    split
    · exact streamStartInternal_hide h hx false
    · rfl
  refine bind_hide hreopen fun t ht => ?_
  have hshown : Shown D t := by
    unfold streamReopen at ht
    split at ht
    · have hl := local_streamStartInternal ht
      obtain ⟨rfl, -⟩ := streamStartInternal_next ht
      refine ⟨by rw [hl.streamXid]; exact h.xid, fun y hy => ?_⟩
      rw [(subxactInfoRead_frame _ x).1] at hy
      obtain rfl := Option.some.inj hy
      exact hx
    · cases ht
      exact h
  refine bind_hide (streamWriteChange_hide hshown) fun u hu => ?_
  obtain ⟨y, -, rfl⟩ := streamWriteChange_ok hu
  exact congrArg Except.ok (streamStopInternal_hide (hshown.same rfl rfl) hx)

theorem hide_cut (h : Shown D s) (hx : D x = false) (file : Option Bytes) (data : ApplySubXactData) :
    { s.hide D with changesFile := Function.update (s.hide D).changesFile x file,
                    subxactData := data } =
      State.hide D { s with changesFile := Function.update s.changesFile x file,
                            subxactData := data } := by
  simp only [State.hide, update_hidden hx, h.xid, Bool.false_eq_true, if_false]

theorem streamAbortInternal_hide (h : Shown D s) (hx : D x = false) (subxid : Nat) :
    streamAbortInternal (s.hide D) x subxid = (streamAbortInternal s x subxid).map (State.hide D) := by
  have hread := subxactInfoRead_hide (s := beginReplicationStep s) ⟨h.xid, h.fd⟩ hx
  unfold streamAbortInternal
  split
  · exact streamCleanupFiles_hide hx s
  · -- the state with the table of subtransactions read back
    have hshown : Shown D (subxactInfoRead (beginReplicationStep s) x) := by
      obtain ⟨hfd, -⟩ := subxactInfoRead_frame (beginReplicationStep s) x
      refine ⟨?_, fun y hy => h.fd y (hfd ▸ hy)⟩
      unfold subxactInfoRead
      split <;> exact h.xid
    have hbegin : beginReplicationStep (s.hide D) = (beginReplicationStep s).hide D := rfl
    simp only [hbegin, hread, hshown.subxactData, hide_changesFile hx]
    generalize subxactInfoRead (beginReplicationStep s) x = u at hshown
    cases findSubxact u.subxactData.subxacts subxid with
    | none =>
      show Except.ok _ = Except.ok _
      simp only [State.hide, commitTransactionCommand, cleanupSubxactInfo, hshown.xid, Bool.false_eq_true, if_false]
    | some subidx =>
      cases u.changesFile x with
      | none => rfl
      | some file =>
        show Except.ok (commitTransactionCommand (subxactInfoWrite _ x)) = Except.ok _
        rw [hide_cut hshown hx]
        show Except.ok (commitTransactionCommand _) = Except.ok (commitTransactionCommand (State.hide D _))
        refine congrArg (fun v => Except.ok (commitTransactionCommand v)) ?_
        exact subxactInfoWrite_hide (hshown.same rfl rfl) hx

theorem paSwitchToPartialSerialize_hide (h : Shown D s) (hx : D x = false) : paSwitchToPartialSerialize (s.hide D) x =
      (paSwitchToPartialSerialize s x).map (State.hide D) :=
  streamStartInternal_hide
    (s := { s with
      parallelApplyTxnHash :=
        Function.update s.parallelApplyTxnHash x (some { serializeChanges := true }) })
    ⟨h.xid, h.fd⟩ hx true

theorem shown_paSwitchToPartialSerialize (h : Shown D s) (hx : D x = false)
    (ht : paSwitchToPartialSerialize s x = .ok t) : Shown D t := by
  rw [paSwitchToPartialSerialize_eq] at ht
  cases ht
  exact ⟨h.xid, fun y hy => by rwa [← Option.some.inj hy]⟩

theorem paXactFinish_hide (hx : D x = false) (s : State) :
    paXactFinish (s.hide D) x = (paXactFinish s x).map (State.hide D) := by
  show (if (s.parallelApplyTxnHash x).any (·.serializeChanges) then _ else _) = _
  unfold paXactFinish
  dsimp only
  split
  · exact streamCleanupFiles_hide hx { s with
      parallelApplyTxnHash := Function.update s.parallelApplyTxnHash x none }
  · rfl

theorem serializeAndFinish_hide (h : Shown D s) (hx : D x = false) : serializeAndFinish (s.hide D) x x action body =
      (serializeAndFinish s x x action body).map (State.hide D) :=
  bind_hide (streamOpenAndWriteChange_hide h hx) fun t _ => paXactFinish_hide hx t

theorem paFinishTransaction_hide (h : Shown D s) (hx : D x = false) :
    paFinishTransaction env.noSkip (s.hide D) x x action msg body =
      (paFinishTransaction env s x x action msg body).map (State.hide D) := by
  show (if env.paSends then _ else _) = _
  unfold paFinishTransaction
  split
  · exact paXactFinish_hide hx (paSendData s x msg)
  · exact bind_hide (paSwitchToPartialSerialize_hide h hx) fun t ht =>
      serializeAndFinish_hide (shown_paSwitchToPartialSerialize h hx ht) hx

theorem streamStartWorker_hide (x : Nat) (first : Bool) (s : State) :
    streamStartWorker env.noSkip (s.hide D) x first = (streamStartWorker env s x first).map (State.hide D) := by
  cases first with
  | false => rfl
  | true =>
    have hash : (s.hide D).parallelApplyTxnHash x = s.parallelApplyTxnHash x := rfl
    have halloc : env.noSkip.paAllocates = env.paAllocates := rfl
    simp only [streamStartWorker, if_true, paAllocateWorker, hash, halloc]
    split
    · cases s.parallelApplyTxnHash x <;> rfl
    · rfl

theorem FindsOwn.worker_eq (h : FindsOwn s x) {w : Nat}
    (hact : getTransactionApplyAction s x = .leaderSendToParallel w ∨
      getTransactionApplyAction s x = .leaderPartialSerialize w) : w = x := by
  unfold getTransactionApplyAction at hact
  rw [h.paFindWorker_eq] at hact
  by_cases hx : x ≠ 0 ∧ (s.parallelApplyTxnHash x).isSome = true
  · rw [if_pos hx] at hact
    dsimp only at hact
    split at hact
    · rcases hact with hact | hact
      · cases hact
      · exact (TransApplyAction.leaderPartialSerialize.inj hact).symm
    · rcases hact with hact | hact
      · exact (TransApplyAction.leaderSendToParallel.inj hact).symm
      · cases hact
  · rw [if_neg hx] at hact
    dsimp only at hact
    split at hact
    · rcases hact with hact | hact <;> cases hact
    · rcases hact with hact | hact <;> cases hact

theorem streamStartSegment_hide (h : Shown D s) (hx : D x = false) (hown : FindsOwn s x) (first : Bool) :
    streamStartSegment env.noSkip (s.hide D) x first msg body =
      (streamStartSegment env s x first msg body).map (State.hide D) := by
  have hact : getTransactionApplyAction (s.hide D) x = getTransactionApplyAction s x := rfl
  have hsends : env.noSkip.paSends = env.paSends := rfl
  simp only [streamStartSegment, hact, hsends]
  cases hwhat : getTransactionApplyAction s x with
  | leaderApply => rfl
  | leaderSerialize => exact streamStartInternal_hide h hx first
  | leaderSendToParallel w =>
    obtain rfl := hown.worker_eq (.inl hwhat)
    dsimp only
    split
    · rfl
    · refine bind_hide (paSwitchToPartialSerialize_hide h hx) fun t ht => ?_
      have hshown := shown_paSwitchToPartialSerialize h hx ht
      exact bind_hide (streamWriteChange_hide hshown) fun u _ => rfl
  | leaderPartialSerialize w =>
    obtain rfl := hown.worker_eq (.inr hwhat)
    refine bind_hide (streamStartInternal_hide h hx first) fun t ht => ?_
    have hshown : Shown D t := by
      have hl := local_streamStartInternal ht
      refine ⟨by rw [hl.streamXid]; exact h.xid, fun y hy => ?_⟩
      rw [(streamFd_streamStartInternal ht).1] at hy
      rwa [← Option.some.inj hy]
    exact bind_hide (streamWriteChange_hide hshown) fun u _ => rfl

theorem Apart.openSegment_hide (h : Apart D s) (hx : D x = false) :
    { s.hide D with inStreamedTransaction := true, streamXid := x } =
      State.hide D { s with inStreamedTransaction := true, streamXid := x } := by
  simp only [State.hide, h.shown.xid, hx, Bool.false_eq_true, if_false]

theorem Apart.streamStart_hide (h : Apart D s) (hcache : s.streamApplyWorker = none)
    (hx : ∀ p, readMsg readStreamStart body = .ok p → D p.1 = false) :
    applyHandleStreamStart env.noSkip (s.hide D) msg body =
      (applyHandleStreamStart env s msg body).map (State.hide D) := by
  show (if s.inStreamedTransaction then _ else _) = _
  unfold applyHandleStreamStart
  split
  · rfl
  · refine read_hide fun p hp => ?_
    obtain ⟨xid, first⟩ := p
    have hxid : D xid = false := hx _ hp
    dsimp only
    split
    · rfl
    · rw [h.openSegment_hide hxid]
      refine bind_hide (streamStartWorker_hide xid first _) fun t ht => ?_
      have hshown : Shown D t ∧ FindsOwn t xid := by
        rcases streamStartWorker_ok ht with rfl | ⟨-, -, rfl⟩
        · exact ⟨⟨hxid, by rw [h.fd]; nofun⟩, by rw [FindsOwn, hcache]; nofun⟩
        · exact ⟨⟨hxid, by rw [h.fd]; nofun⟩, by rw [FindsOwn, hcache]; nofun⟩
      exact streamStartSegment_hide hshown.1 hxid hshown.2 first

theorem closeSegment_hide (hzero : D 0 = false) (hx : D s.streamXid = false) :
    closeSegment (s.hide D) = (closeSegment s).hide D := by
  simp only [closeSegment, State.hide, hzero, hx, Bool.false_eq_true, if_false]

theorem streamStop_hide (hzero : D 0 = false) (h : Shown D s) (hown : FindsOwn s s.streamXid) :
    applyHandleStreamStop env.noSkip (s.hide D) msg body =
      (applyHandleStreamStop env s msg body).map (State.hide D) := by
  have hact : getTransactionApplyAction (s.hide D) (s.hide D).streamXid = getTransactionApplyAction s s.streamXid := rfl
  have hsends : env.noSkip.paSends = env.paSends := rfl
  -- the file is closed, then the segment
  have hstop : ∀ t : State, Shown D t →
      closeSegment { streamStopInternal (t.hide D) t.streamXid with streamApplyWorker := none } =
        (closeSegment { streamStopInternal t t.streamXid with
          streamApplyWorker := none }).hide D := by
    intro t ht
    rw [streamStopInternal_hide ht ht.xid]
    exact closeSegment_hide (s := { streamStopInternal t t.streamXid with
      streamApplyWorker := none }) hzero ht.xid
  show (if !s.inStreamedTransaction then _ else _) = _
  unfold applyHandleStreamStop
  split
  · rfl
  · simp only [hact, hsends]
    cases hwhat : getTransactionApplyAction s s.streamXid with
    | leaderApply => rfl
    | leaderSerialize =>
      show Except.ok _ = Except.ok _
      refine congrArg Except.ok ?_
      have hcode : streamStopInternal (s.hide D) (s.hide D).streamXid =
          (streamStopInternal s s.streamXid).hide D := streamStopInternal_hide h h.xid
      rw [hcode]
      exact closeSegment_hide hzero h.xid
    | leaderSendToParallel w =>
      obtain rfl := hown.worker_eq (.inl hwhat)
      dsimp only
      split
      · exact congrArg Except.ok (closeSegment_hide (s := { paSendData s s.streamXid msg with
          streamApplyWorker := none }) hzero h.xid)
      · refine bind_hide (paSwitchToPartialSerialize_hide h h.xid) fun t ht => ?_
        have hshown := shown_paSwitchToPartialSerialize h h.xid ht
        refine bind_hide (streamWriteChange_hide hshown) fun u hu => ?_
        obtain ⟨y, -, rfl⟩ := streamWriteChange_ok hu
        exact congrArg Except.ok (hstop _ (hshown.same rfl rfl))
    | leaderPartialSerialize w =>
      refine bind_hide (streamWriteChange_hide h) fun u hu => ?_
      obtain ⟨y, -, rfl⟩ := streamWriteChange_ok hu
      exact congrArg Except.ok (hstop _ (h.same rfl rfl))

theorem Apart.streamAbort_hide (h : Apart D s) (hcache : s.streamApplyWorker = none)
    (hx : ∀ d, readMsg (readStreamAbort cfg.parallelApply) body = .ok d → D d.xid = false) :
    applyHandleStreamAbort cfg env.noSkip (s.hide D) msg body =
      (applyHandleStreamAbort cfg env s msg body).map (State.hide D) := by
  have hsends : env.noSkip.paSends = env.paSends := rfl
  show (if s.inStreamedTransaction then _ else _) = _
  unfold applyHandleStreamAbort
  split
  · rfl
  · refine read_hide fun d hd => ?_
    have hxid := hx d hd
    have hown : FindsOwn s d.xid := by
      rw [FindsOwn, hcache]
      nofun
    have hact : getTransactionApplyAction (s.hide D) d.xid = getTransactionApplyAction s d.xid := rfl
    simp only [hact, hsends]
    cases hwhat : getTransactionApplyAction s d.xid with
    | leaderApply => exact streamAbortInternal_hide h.shown hxid d.subxid
    | leaderSerialize => rfl
    | leaderSendToParallel w =>
      obtain rfl := hown.worker_eq (.inl hwhat)
      dsimp only
      split
      · split
        · exact paXactFinish_hide hxid (paSendData s d.xid msg)
        · rfl
      · refine bind_hide (paSwitchToPartialSerialize_hide h.shown hxid) fun t ht => ?_
        have hshown := shown_paSwitchToPartialSerialize h.shown hxid ht
        split
        · exact serializeAndFinish_hide hshown hxid
        · exact streamOpenAndWriteChange_hide hshown hxid
    | leaderPartialSerialize w =>
      obtain rfl := hown.worker_eq (.inr hwhat)
      dsimp only
      split
      · exact serializeAndFinish_hide h.shown hxid
      · exact streamOpenAndWriteChange_hide h.shown hxid

def StreamsAlike (env : Env) (D : Nat → Bool) (s : State) (msg body : Bytes) : Prop :=
  ∀ action, handleStreamedTransaction env.noSkip (s.hide D) action msg body =
    (handleStreamedTransaction env s action msg body).map fun p => (p.1.hide D, p.2)

theorem Shown.streamsAlike (h : Shown D s) (hown : FindsOwn s s.streamXid) : StreamsAlike env D s msg body := by
  intro action
  have hact : getTransactionApplyAction (s.hide D) (s.hide D).streamXid = getTransactionApplyAction s s.streamXid := rfl
  have hsends : env.noSkip.paSends = env.paSends := rfl
  have hwrite : ∀ (t : State) (data : Bytes) (again : Option Bytes), Shown D t →
      (streamWriteChange (t.hide D) action data >>= fun u => pure (u, again) : Result (State × Option Bytes)) =
      (streamWriteChange t action data >>= fun u => pure (u, again)).map fun p => (p.1.hide D, p.2) := by
    intro t data again ht
    rw [streamWriteChange_hide ht]
    cases streamWriteChange t action data <;> rfl
  simp only [handleStreamedTransaction, hact, hsends]
  cases hwhat : getTransactionApplyAction s s.streamXid with
  | leaderApply => rfl
  | leaderSerialize =>
    cases hread : getMsgInt 4 body with
    | error e => rfl
    | ok p =>
      dsimp only
      split
      · rfl
      · rw [subxactInfoAdd_hide h]
        obtain ⟨data, hadd⟩ := subxactInfoAdd_eq s p.1
        refine hwrite _ p.2 none ?_
        rw [hadd]
        exact h.same rfl rfl
  | leaderSendToParallel w =>
    obtain rfl := hown.worker_eq (.inl hwhat)
    cases hread : getMsgInt 4 body with
    | error e => rfl
    | ok p =>
      dsimp only
      split
      · rfl
      · split
        · rfl
        · rw [paSwitchToPartialSerialize_hide h h.xid]
          cases ht : paSwitchToPartialSerialize s s.streamXid with
          | error e => rfl
          | ok t => exact hwrite t body _ (shown_paSwitchToPartialSerialize h h.xid ht)
  | leaderPartialSerialize w =>
    cases hread : getMsgInt 4 body with
    | error e => rfl
    | ok p =>
      dsimp only
      split
      · rfl
      · exact hwrite s body _ h

theorem kafkaSend_hide (change : RowChange) (s : State) :
    kafkaSend cfg env.noSkip (s.hide D) change = (kafkaSend cfg env s change).map (State.hide D) := by
  have hsends : env.noSkip.kafkaSends = env.kafkaSends := rfl
  unfold kafkaSend
  rw [hsends]
  cases change.toJson cfg.dbname with
  | none => rfl
  | some root =>
    dsimp only
    split <;> rfl

theorem Idle.hide (h : Idle s) : Idle (s.hide D) := ⟨h.notStreamed, h.noXid⟩

theorem Idle.streamsAlike (h : Idle s) : StreamsAlike env D s msg body := by
  intro action
  have hhidden : Idle (s.hide D) := h.hide
  rw [h.handleStreamed, hhidden.handleStreamed]
  rfl

theorem change_hide (hstreams : StreamsAlike env D s msg body)
    (hskip : isSkippingChanges s = false) {apply apply' : State → Bytes → Result State}
    (happly : ∀ t rest, apply' (t.hide D) rest = (apply t rest).map (State.hide D)) :
    applyHandleChange env.noSkip (s.hide D) action msg body apply' =
      (applyHandleChange env s action msg body apply).map (State.hide D) := by
  have hhidden : isSkippingChanges (s.hide D) = false := by simp [isSkippingChanges, State.hide]
  simp only [applyHandleChange, hskip, hhidden, Bool.false_eq_true, if_false]
  rw [hstreams]
  cases handleStreamedTransaction env s action msg body with
  | error e => rfl
  | ok p =>
    obtain ⟨t, again⟩ := p
    cases again with
    | none => rfl
    | some rest => exact happly (beginReplicationStep t) rest

/-- The kinds that are left out while a transaction is skipped. -/
def LogicalRepMsgType.isData : LogicalRepMsgType → Bool
  | .insert | .update | .delete | .truncate => true
  | _ => false

theorem changeAction_hide (hstreams : StreamsAlike env D s msg body)
    (hchange : LogicalRepMsgType.isChange action = true)
    (hskip : LogicalRepMsgType.isData action = true → isSkippingChanges s = false)
    {dispatch dispatch' : State → Bytes → Result State} :
    applyAction cfg env.noSkip dispatch' (s.hide D) msg body action =
      (applyAction cfg env dispatch s msg body action).map (State.hide D) := by
  cases action with
  | insert | update | delete =>
    simp only [applyAction, applyHandleInsert, applyHandleUpdate, applyHandleDelete]
    refine change_hide hstreams (hskip rfl) fun t rest => ?_
    refine read_hide fun p _ => ?_
    refine read_hide (r := logicalrepRelOpen env t p.1) fun rel _ => ?_
    exact kafkaSend_hide _ t
  | truncate =>
    simp only [applyAction, applyHandleTruncate]
    refine change_hide hstreams (hskip rfl) fun t rest => ?_
    refine read_hide fun p _ => ?_
    exact read_hide (r := p.1.mapM (logicalrepRelOpen env t)) fun rels _ => rfl
  | relation =>
    simp only [applyAction, applyHandleRelation, hstreams .relation]
    cases handleStreamedTransaction env s .relation msg body with
    | error e => rfl
    | ok p =>
      obtain ⟨t, again⟩ := p
      cases again with
      | none => rfl
      | some rest => exact read_hide (r := readMsg readRel rest) fun rel _ => rfl
  | type =>
    simp only [applyAction, applyHandleType, hstreams .type]
    cases handleStreamedTransaction env s .type msg body with
    | error e => rfl
    | ok p =>
      obtain ⟨t, again⟩ := p
      cases again with
      | none => rfl
      | some rest => exact read_hide (r := readMsg readTyp rest) fun typ _ => rfl
  | _ => cases hchange

theorem maybeStartSkippingChanges_hide (D : Nat → Bool) (env : Env) (lsn : Nat) (s : State) :
    maybeStartSkippingChanges env.noSkip (s.hide D) lsn = (maybeStartSkippingChanges env s lsn).hide D := by
  obtain ⟨skip, hskip⟩ := maybeStartSkippingChanges_eq env s lsn
  rw [hskip]
  exact if_pos (.inl rfl)

theorem plain_hide (hplain : LogicalRepMsgType.isPlain action = true) (s : State)
    {dispatch dispatch' : State → Bytes → Result State} :
    applyAction cfg env.noSkip dispatch' (s.hide D) msg body action =
      (applyAction cfg env dispatch s msg body action).map (State.hide D) := by
  cases action with
  | begin =>
    refine read_hide (r := readMsg readBegin body) fun d _ => ?_
    have hskip := maybeStartSkippingChanges_hide D env d.finalLsn { s with remoteFinalLsn := d.finalLsn }
    exact congrArg (fun t => Except.ok { t with inRemoteTransaction := true }) hskip
  | beginPrepare =>
    refine read_hide (r := readMsg readBeginPrepare body) fun d _ => ?_
    have hskip := maybeStartSkippingChanges_hide D env d.prepareLsn { s with remoteFinalLsn := d.prepareLsn }
    exact congrArg (fun t => Except.ok { t with inRemoteTransaction := true }) hskip
  | commit =>
    refine read_hide (r := readMsg readCommit body) fun d _ => ?_
    show (if d.commitLsn ≠ s.remoteFinalLsn then _ else _) = _
    split
    · rfl
    · rw [applyHandleCommitInternal_eq, applyHandleCommitInternal_eq]
      rfl
  | prepare =>
    refine read_hide (r := readMsg readPrepareCommon body) fun d _ => ?_
    show (if d.prepareLsn ≠ s.remoteFinalLsn then _ else _) = _
    split <;> rfl
  | commitPrepared =>
    refine read_hide (r := readMsg readCommitPrepared body) fun d _ => ?_
    show (if env.finishPreparedTransaction then _ else _) = _
    split <;> rfl
  | rollbackPrepared =>
    refine read_hide (r := readMsg readRollbackPrepared body) fun d _ => ?_
    show (if env.lookupGXact then if env.finishPreparedTransaction then _ else _ else _) = _
    split
    · split <;> rfl
    · rfl
  | origin =>
    show (if !s.inStreamedTransaction && (!s.inRemoteTransaction || s.isTransactionState) then _
      else _) = Except.map _ (if _ then _ else _)
    split <;> rfl
  | message => rfl
  | _ => cases hplain

theorem startReplay_hide (D : Nat → Bool) (env : Env) (s : State) (x lsn : Nat) :
    startReplay env.noSkip (s.hide D) x lsn = (startReplay env s x lsn).hide D := by
  have hskip := maybeStartSkippingChanges_hide D env lsn s
  unfold startReplay
  rw [hskip]
  rfl

def isDataMessage : Bytes → Bool
  | [] => false
  | a :: _ => (LogicalRepMsgType.ofByte a).any LogicalRepMsgType.isData

theorem Idle.record_hide (h : Idle s) {r : Bytes} (hr : IsChangeRecord r)
    (hskip : isDataMessage r = true → isSkippingChanges s = false) (depth : Nat) :
    applyDispatch cfg env.noSkip depth (s.hide D) r = (applyDispatch cfg env depth s r).map (State.hide D) := by
  obtain ⟨action, rest, hchange, rfl⟩ := hr.action
  cases depth with
  | zero => rfl
  | succ depth =>
    rw [applyDispatch, applyDispatch, LogicalRepMsgType.ofByte_toByte]
    refine changeAction_hide h.streamsAlike hchange fun hdata => hskip ?_
    rw [isDataMessage, LogicalRepMsgType.ofByte_toByte]
    exact hdata

theorem Idle.foldlM_hide (h : Idle s) {recs : List Bytes} (hrecs : ∀ r ∈ recs, IsChangeRecord r)
    (hskip : isSkippingChanges s = false) (depth : Nat) :
    recs.foldlM (applyDispatch cfg env.noSkip depth) (s.hide D) =
      (recs.foldlM (applyDispatch cfg env depth) s).map (State.hide D) := by
  induction recs generalizing s with
  | nil => rfl
  | cons r recs ih =>
    have hr := hrecs r List.mem_cons_self
    rw [List.foldlM_cons, List.foldlM_cons]
    refine bind_hide (h.record_hide hr (fun _ => hskip) depth) fun t ht => ?_
    have htouch := h.touches_record hr ht
    refine ih (h.touches htouch) (fun r hr => hrecs r (List.mem_cons_of_mem _ hr)) ?_
    obtain ⟨tx, rels, docs, rfl⟩ := htouch
    exact hskip

theorem Inv.replay_hide {L : Ledger} {b : Boundary} (h : Inv L s b) (hstream : b.stream = none)
    (hx : D x = false) {lsn : Nat} (hskip : s.skipXactFinishLsn = 0)
    (hlsn : env.skiplsn = 0 ∨ env.skiplsn ≠ lsn)
    (hact : getTransactionApplyAction s x = .leaderApply) (depth : Nat) :
    applySpooledMessages (applyDispatch cfg env.noSkip depth) env.noSkip (s.hide D) x lsn =
      (applySpooledMessages (applyDispatch cfg env depth) env s x lsn).map (State.hide D) := by
  have hfile : (s.hide D).changesFile x = s.changesFile x := hide_changesFile hx
  rcases h.replayable_of_leaderApply hstream hact with hmissing | ⟨l, hspooled⟩
  · rw [applySpooledMessages_missing hmissing, applySpooledMessages_missing (hfile.trans hmissing)]
    rfl
  · have hrecs : ∀ r ∈ l.map (·.2), IsChangeRecord r := fun _ hr => hspooled.isChangeRecord hr
    have hidle := h.idle hstream
    have hstart : isSkippingChanges (startReplay env s x lsn) = false := by
      have hnone : maybeStartSkippingChanges env s lsn = s := if_pos hlsn
      simp [isSkippingChanges, startReplay, hnone, beginReplicationStep, hskip]
    rw [applySpooledMessages_eq hidle lsn depth hspooled.file hrecs,
      applySpooledMessages_eq hidle.hide lsn depth (hfile.trans hspooled.file) hrecs,
      startReplay_hide, (hidle.startReplay x lsn).foldlM_hide hrecs hstart depth]
    cases (l.map (·.2)).foldlM (applyDispatch cfg env depth) (startReplay env s x lsn) <;> rfl

def finishes (body : Bytes) : LogicalRepMsgType → Option (Nat × Nat)
  | .streamCommit => (readMsg readStreamCommit body).toOption.map fun p => (p.1, p.2.commitLsn)
  | .streamPrepare => (readMsg readPrepareCommon body).toOption.map fun d => (d.xid, d.prepareLsn)
  | _ => none

def concerns (cfg : Config) (b : Boundary) (body : Bytes) : LogicalRepMsgType → Option Nat
  | .insert | .update | .delete | .truncate | .relation | .type | .streamStop => b.stream
  | .streamStart => (readMsg readStreamStart body).toOption.map (·.1)
  | .streamAbort => (readMsg (readStreamAbort cfg.parallelApply) body).toOption.map (·.xid)
  | .streamCommit => (finishes body .streamCommit).map (·.1)
  | .streamPrepare => (finishes body .streamPrepare).map (·.1)
  | _ => none

def Env.skips (env : Env) (lsn : Nat) : Bool := env.skiplsn ≠ 0 && env.skiplsn = lsn

theorem Env.not_skips {lsn : Nat} (h : env.skips lsn = false) : env.skiplsn = 0 ∨ env.skiplsn ≠ lsn := by
  simp only [Env.skips, ne_eq, decide_not, Bool.and_eq_false_iff, Bool.not_eq_false',
    decide_eq_true_eq, decide_eq_false_iff_not] at h
  exact h

variable {L : Ledger} {b : Boundary}

theorem Inv.shown (h : Inv L s b) (hzero : D 0 = false) (hD : ∀ x, b.stream = some x → D x = false) : Shown D s where
  xid := by
    rw [h.streamXid]
    cases hstream : b.stream with
    | none => exact hzero
    | some x => exact hD x hstream
  fd := fun x hx => hD x (h.fd x hx).1

theorem Inv.findsOwn_streamXid (h : Inv L s b) : FindsOwn s s.streamXid := by
  cases hstream : b.stream with
  | none => exact h.findsOwn (.inl hstream)
  | some x =>
    rw [h.streamXid_eq hstream]
    exact h.findsOwn (.inr hstream)

theorem Inv.apart (h : Inv L s b) (hzero : D 0 = false) (hstream : b.stream = none) : Apart D s where
  zero := hzero
  xid := by rw [h.streamXid, hstream]; rfl
  fd := h.fd_none hstream

theorem Inv.finish_hide (h : Inv L s b) (hzero : D 0 = false) (hstream : b.stream = none)
    (hx : D x = false) {lsn : Nat} (hskip : s.skipXactFinishLsn = 0)
    (hlsn : env.skips lsn = false) (depth : Nat) {finish finish' : State → Result State}
    (hfinish : ∀ t, finish' (t.hide D) = (finish t).map (State.hide D)) :
    (match getTransactionApplyAction (s.hide D) x with
      | .leaderApply => applySpooledMessages (applyDispatch cfg env.noSkip depth) env.noSkip
          (s.hide D) x lsn >>= finish'
      | .leaderSendToParallel winfo =>
        paFinishTransaction env.noSkip (s.hide D) winfo x action msg body
      | .leaderPartialSerialize winfo => serializeAndFinish (s.hide D) winfo x action body
      | .leaderSerialize => .error .unexpectedApplyAction) =
    Except.map (State.hide D) (match getTransactionApplyAction s x with
      | .leaderApply => applySpooledMessages (applyDispatch cfg env depth) env s x lsn >>= finish
      | .leaderSendToParallel winfo => paFinishTransaction env s winfo x action msg body
      | .leaderPartialSerialize winfo => serializeAndFinish s winfo x action body
      | .leaderSerialize => .error .unexpectedApplyAction) := by
  have hact : getTransactionApplyAction (s.hide D) x = getTransactionApplyAction s x := rfl
  have hown : FindsOwn s x := h.findsOwn (.inl hstream)
  have hshown := (h.apart hzero hstream).shown
  rw [hact]
  cases hwhat : getTransactionApplyAction s x with
  | leaderApply =>
    exact bind_hide (h.replay_hide hstream hx hskip (Env.not_skips hlsn) hwhat depth) fun t _ => hfinish t
  | leaderSerialize => rfl
  | leaderSendToParallel w =>
    obtain rfl := hown.worker_eq (.inl hwhat)
    exact paFinishTransaction_hide hshown hx
  | leaderPartialSerialize w =>
    obtain rfl := hown.worker_eq (.inr hwhat)
    exact serializeAndFinish_hide hshown hx

theorem Inv.streamCommit_hide (h : Inv L s b) (hzero : D 0 = false)
    (hD : ∀ x lsn, finishes body .streamCommit = some (x, lsn) →
      D x = false ∧ s.skipXactFinishLsn = 0 ∧ env.skips lsn = false) (depth : Nat) :
    applyHandleStreamCommit (applyDispatch cfg env.noSkip depth) env.noSkip (s.hide D) msg body =
      (applyHandleStreamCommit (applyDispatch cfg env depth) env s msg body).map (State.hide D) := by
  show (if s.inStreamedTransaction then _ else _) = _
  unfold applyHandleStreamCommit
  split
  · rfl
  next hout =>
    refine read_hide fun p hp => ?_
    obtain ⟨xid, d⟩ := p
    obtain ⟨hx, hskip, hlsn⟩ := hD xid d.commitLsn (by rw [finishes, hp]; rfl)
    refine h.finish_hide hzero (h.stream_none hout) hx hskip hlsn depth fun t => ?_
    rw [applyHandleCommitInternal_eq, applyHandleCommitInternal_eq]
    exact streamCleanupFiles_hide hx
      { t with skipXactFinishLsn := 0, isTransactionState := false, inRemoteTransaction := false }

theorem Inv.streamPrepare_hide (h : Inv L s b) (hzero : D 0 = false)
    (hD : ∀ x lsn, finishes body .streamPrepare = some (x, lsn) →
      D x = false ∧ s.skipXactFinishLsn = 0 ∧ env.skips lsn = false) (depth : Nat) :
    applyHandleStreamPrepare (applyDispatch cfg env.noSkip depth) env.noSkip (s.hide D) msg body =
      (applyHandleStreamPrepare (applyDispatch cfg env depth) env s msg body).map (State.hide D) := by
  show (if s.inStreamedTransaction then _ else _) = _
  unfold applyHandleStreamPrepare
  split
  · rfl
  next hout =>
    refine read_hide fun d hd => ?_
    obtain ⟨hx, hskip, hlsn⟩ := hD d.xid d.prepareLsn (by rw [finishes, hd]; rfl)
    refine bind_hide (h.finish_hide hzero (h.stream_none hout) hx hskip hlsn depth fun t => ?_) fun t _ => rfl
    exact streamCleanupFiles_hide hx { commitTransactionCommand t with inRemoteTransaction := false }

theorem Inv.action_hide (h : Inv L s b) (env : Env) (msg : Bytes) (hzero : D 0 = false)
    (hD : ∀ x, concerns cfg b body action = some x → D x = false)
    (hdata : LogicalRepMsgType.isData action = true → isSkippingChanges s = false)
    (hfinish : ∀ x lsn, finishes body action = some (x, lsn) →
      s.skipXactFinishLsn = 0 ∧ env.skips lsn = false) (depth : Nat) :
    applyAction cfg env.noSkip (applyDispatch cfg env.noSkip depth) (s.hide D) msg body action =
      (applyAction cfg env (applyDispatch cfg env depth) s msg body action).map (State.hide D) := by
  cases action with
  | insert | update | delete | truncate | relation | type =>
    exact changeAction_hide ((h.shown hzero hD).streamsAlike h.findsOwn_streamXid) rfl hdata
  | begin | beginPrepare | commit | prepare | commitPrepared | rollbackPrepared | origin | message =>
    exact plain_hide rfl s
  | streamStop => exact streamStop_hide hzero (h.shown hzero hD) h.findsOwn_streamXid
  | streamStart =>
    show applyHandleStreamStart env.noSkip (s.hide D) msg body = Except.map _ (applyHandleStreamStart _ _ _ _)
    by_cases hin : s.inStreamedTransaction = true
    · have hhidden : (s.hide D).inStreamedTransaction = true := hin
      simp only [applyHandleStreamStart, hin, hhidden, if_true]
      rfl
    · have hstream := h.stream_none hin
      refine (h.apart hzero hstream).streamStart_hide (h.cache_none hstream) fun p hp => ?_
      exact hD p.1 (by rw [concerns, hp]; rfl)
  | streamAbort =>
    show applyHandleStreamAbort cfg env.noSkip (s.hide D) msg body = Except.map _ (applyHandleStreamAbort _ _ _ _ _)
    by_cases hin : s.inStreamedTransaction = true
    · have hhidden : (s.hide D).inStreamedTransaction = true := hin
      simp only [applyHandleStreamAbort, hin, hhidden, if_true]
      rfl
    · have hstream := h.stream_none hin
      refine (h.apart hzero hstream).streamAbort_hide (h.cache_none hstream) fun d hd => ?_
      exact hD d.xid (by rw [concerns, hd]; rfl)
  | streamCommit =>
    exact h.streamCommit_hide hzero (fun x lsn hx => ⟨hD x (by rw [concerns, hx]; rfl), hfinish x lsn hx⟩) depth
  | streamPrepare =>
    exact h.streamPrepare_hide hzero (fun x lsn hx => ⟨hD x (by rw [concerns, hx]; rfl), hfinish x lsn hx⟩) depth

end CdcKafka.Apply
