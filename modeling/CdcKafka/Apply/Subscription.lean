import CdcKafka.Apply.Skip

/-! A subscription with a skip LSN: the messages of the transaction that is skipped, whole runs of
the worker, and the skip LSN in the catalog. -/

namespace CdcKafka.Apply
open CdcKafka.Lib CdcKafka.Event CdcKafka.Json CdcKafka.Proto

variable {D : Nat → Bool} {s s' t t' : State} {cfg : Config} {env : Env} {x : Nat} {body : Bytes}
  {action : LogicalRepMsgType} {L L' : Ledger} {p : Env → Nat → Bool} {k : Track} {out : Bool}
  {m : Env × Message} {ms : List (Env × Message)} {a : UInt8} {b : Boundary} {nested : Nat}

theorem update_hidden_self {α : Type} (hx : D x = true) (f : Nat → Option α) (v : Option α) :
    (fun y => if D y then none else Function.update f x v y) =
      fun y => if D y then none else f y := by
  funext y
  by_cases hy : y = x
  · rw [hy, hx]
    rfl
  · rw [Function.update_of_ne hy]

theorem spoolChange_hidden (hx : D x = true) (hxid : s.streamXid = x) (hfd : s.streamFd = some x)
    (ht : spoolChange s action body = .ok t) : t.hide D = s.hide D := by
  obtain ⟨sub, rest, data, y, -, -, hy, rfl⟩ := spoolChange_ok ht
  obtain rfl : x = y := Option.some.inj (hfd.symm.trans hy)
  simp only [State.hide, update_hidden_self hx, hxid, hx, if_true]

theorem spoolChange_of_open (hfd : s'.streamFd = some x) (ht : spoolChange s action body = .ok t) :
    ∃ t', spoolChange s' action body = .ok t' := by
  obtain ⟨sub, rest, -, -, hread, hsub, -, -⟩ := spoolChange_ok ht
  obtain ⟨data, hadd⟩ := subxactInfoAdd_eq s' sub
  unfold spoolChange
  rw [hread]
  dsimp only
  rw [if_neg hsub, hadd, streamWriteChange]
  dsimp only
  rw [hfd]
  exact ⟨_, rfl⟩

theorem stop_hidden (hzero : D 0 = false) (hx : D x = true) (hxid : s.streamXid = x) :
    (closeSegment (streamStopInternal s x)).hide D =
      { s.hide D with inStreamedTransaction := false, streamXid := 0, streamFd := none,
                      isTransactionState := false } := by
  simp only [closeSegment, streamStopInternal, subxactInfoWrite, streamCloseFile,
    commitTransactionCommand, cleanupSubxactInfo, State.hide, update_hidden_self hx, hxid, hx, hzero,
    Bool.false_eq_true, if_true, if_false]

theorem start_hidden (hx : D x = true) (hs : D s.streamXid = false) (hdata : s.subxactData = .empty)
    (ht : streamStartInternal { s with inStreamedTransaction := true, streamXid := x } x false = .ok t) :
    t.hide D = { s.hide D with inStreamedTransaction := true, streamXid := x, streamFd := some x,
                               isTransactionState := true } := by
  obtain ⟨rfl, -⟩ := streamStartInternal_next ht
  unfold subxactInfoRead
  split
  · simp only [State.hide, beginReplicationStep, hx, hs, hdata, Bool.false_eq_true, if_true, if_false]
  · simp only [State.hide, beginReplicationStep, hx, hs, hdata, Bool.false_eq_true, if_true, if_false]

theorem abort_hidden (hx : D x = true) (hs : D s.streamXid = false) {sub : Nat} (hsub : x ≠ sub)
    (ht : streamAbortInternal s x sub = .ok t) :
    t.hide D = { s.hide D with isTransactionState := false, subxactData := .empty } := by
  obtain ⟨data, hread⟩ : ∃ data, subxactInfoRead (beginReplicationStep s) x =
      { beginReplicationStep s with subxactData := data } := by
    unfold subxactInfoRead
    split
    · exact ⟨_, rfl⟩
    · exact ⟨_, rfl⟩
  unfold streamAbortInternal at ht
  rw [if_neg hsub, hread] at ht
  dsimp only at ht
  split at ht
  · cases ht
    simp only [State.hide, beginReplicationStep, commitTransactionCommand, cleanupSubxactInfo, hs,
      Bool.false_eq_true, if_false]
  · split at ht
    · cases ht
    · cases ht
      simp only [State.hide, beginReplicationStep, commitTransactionCommand, cleanupSubxactInfo,
        subxactInfoWrite, update_hidden_self hx, hs, Bool.false_eq_true, if_false]

theorem streamAbortInternal_of_file (sub : Nat) {file : Bytes}
    (hfile : s.changesFile x = some file) : ∃ t, streamAbortInternal s x sub = .ok t := by
  have hread : (subxactInfoRead (beginReplicationStep s) x).changesFile x = some file := by
    rw [(subxactInfoRead_frame (beginReplicationStep s) x).2.2.2]
    exact hfile
  unfold streamAbortInternal
  split
  · rw [streamCleanupFiles, hfile]
    exact ⟨_, rfl⟩
  · dsimp only
    split
    · exact ⟨_, rfl⟩
    · rw [hread]
      exact ⟨_, rfl⟩

theorem cleanup_hidden (hx : D x = true) (ht : streamCleanupFiles s x = .ok t) :
    t.hide D = s.hide D ∧ t.streamXid = s.streamXid ∧ t.changesFile x = none ∧ t.subxactFile x = none := by
  obtain rfl := streamCleanupFiles_ok ht
  refine ⟨?_, rfl, Function.update_self x _ _, Function.update_self x _ _⟩
  simp only [State.hide, update_hidden_self hx]

theorem streamCleanupFiles_of_file {file : Bytes} (hfile : s.changesFile x = some file) :
    ∃ t, streamCleanupFiles s x = .ok t := by
  rw [streamCleanupFiles, hfile]
  exact ⟨_, rfl⟩

theorem Idle.record_alike (h : Idle s) (h' : Idle s') (hhide : s'.hide D = s.hide D) {r : Bytes}
    (hr : IsChangeRecord r) (hdata : isDataMessage r = false) {depth : Nat}
    (ht : applyDispatch cfg env depth s r = .ok t) :
    ∃ t', applyDispatch cfg env.noSkip depth s' r = .ok t' ∧ t'.hide D = t.hide D := by
  have hnot : isDataMessage r = true → ∀ u : State, isSkippingChanges u = false := by
    rw [hdata]
    nofun
  have hs : applyDispatch cfg env.noSkip depth (s.hide D) r =
      (applyDispatch cfg env depth s r).map (State.hide D) := h.record_hide hr (hnot · s) depth
  have hs' : applyDispatch cfg env.noSkip.noSkip depth (s'.hide D) r =
      (applyDispatch cfg env.noSkip depth s' r).map (State.hide D) :=
    h'.record_hide hr (hnot · s') depth
  rw [hhide] at hs'
  exact hide_alike (hs'.symm.trans hs) ht

theorem skipped_record {r : Bytes} (hr : IsChangeRecord r) (hdata : isDataMessage r = true)
    (hskip : isSkippingChanges s = true) {depth : Nat}
    (ht : applyDispatch cfg env depth s r = .ok t) : t = s := by
  obtain ⟨action, rest, -, rfl⟩ := hr.action
  rw [isDataMessage, LogicalRepMsgType.ofByte_toByte] at hdata
  cases depth with
  | zero => cases ht
  | succ depth =>
    rw [applyDispatch, LogicalRepMsgType.ofByte_toByte] at ht
    dsimp only at ht
    rw [skipped_change hskip hdata] at ht
    exact (Except.ok.inj ht).symm

theorem Idle.skipped_foldlM (h : Idle s) (h' : Idle s') (hhide : s'.hide D = s.hide D)
    (hskip : isSkippingChanges s = true) {recs : List Bytes}
    (hrecs : ∀ r ∈ recs, IsChangeRecord r) {depth : Nat}
    (ht : recs.foldlM (applyDispatch cfg env depth) s = .ok t) :
    ∃ t', (recs.filter isKept).foldlM (applyDispatch cfg env.noSkip depth) s' = .ok t' ∧ t'.hide D = t.hide D := by
  induction recs generalizing s s' with
  | nil =>
    obtain rfl := pure_eq_ok.mp ht
    exact ⟨s', rfl, hhide⟩
  | cons r recs ih =>
    have hr := hrecs r List.mem_cons_self
    have hrest : ∀ r ∈ recs, IsChangeRecord r := fun r hr => hrecs r (List.mem_cons_of_mem _ hr)
    rw [List.foldlM_cons, bind_eq_ok] at ht
    obtain ⟨u, hu, ht⟩ := ht
    by_cases hkept : isKept r = true
    · have hdata : isDataMessage r = false := by simpa [isKept] using hkept
      obtain ⟨u', hu', hhide'⟩ := h.record_alike h' hhide hr hdata hu
      have htouch := h.touches_record hr hu
      have hskipu : isSkippingChanges u = true := by
        obtain ⟨tx, rels, docs, rfl⟩ := htouch
        exact hskip
      obtain ⟨t', ht', hhidet⟩ := ih (h.touches htouch) (h'.touches (h'.touches_record hr hu')) hhide' hskipu hrest ht
      refine ⟨t', ?_, hhidet⟩
      rw [List.filter_cons_of_pos hkept, List.foldlM_cons, hu', ok_bind]
      exact ht'
    · have hdata : isDataMessage r = true := by simpa [isKept] using hkept
      obtain rfl := skipped_record hr hdata hskip hu
      rw [List.filter_cons_of_neg hkept]
      exact ih h h' hhide hskip hrest ht

theorem Sim.replayed (h : Sim p L L' k out ms s s') (hstream : k.boundary.stream = none)
    {evs : List (LogEvent Nat Bytes)} (hevs : k.spools x = some evs) (hnested : WellNested evs)
    (hleft : leftOutAtEnd p x ms = true) {lsn : Nat} (hskips : env.skips lsn = true) {depth : Nat}
    {u : State}
    (hu : ((surviving evs).map (·.2)).foldlM (applyDispatch cfg env depth) (startReplay env s x lsn) = .ok u) :
    ∃ u', ((surviving (evs.filter (LogEvent.kept isKept))).map (·.2)).foldlM
        (applyDispatch cfg env.noSkip depth) (startReplay env.noSkip s' x lsn) = .ok u' ∧
      u'.hide (k.hidden p ms) = u.hide (k.hidden p ms) := by
  obtain ⟨hL, -⟩ := h.spooled x evs hevs hleft
  rw [foldl_logStep_eq_surviving hnested] at hL
  have hrecs : ∀ r ∈ (surviving evs).map (·.2), IsChangeRecord r := by
    obtain ⟨-, hspooled⟩ := (h.inv.spools x).spooled _ hL rfl
    exact fun r hr => hspooled.isChangeRecord hr
  have hskip : isSkippingChanges (startReplay env s x lsn) = true := by
    have hboth : env.skiplsn ≠ 0 ∧ env.skiplsn = lsn := by simpa [Env.skips] using hskips
    have hstart : maybeStartSkippingChanges env s lsn = { s with skipXactFinishLsn := lsn } := by
      refine if_neg ?_
      rintro (hzero | hne)
      · exact hboth.1 hzero
      · exact hne hboth.2
    have hne : lsn ≠ 0 := hboth.2 ▸ hboth.1
    simp [isSkippingChanges, startReplay, hstart, beginReplicationStep, hne]
  have hhide : (startReplay env.noSkip s' x lsn).hide (k.hidden p ms) =
      (startReplay env s x lsn).hide (k.hidden p ms) := by
    rw [← startReplay_hide, ← startReplay_hide, h.hide]
    rfl
  have hmap : (surviving (evs.filter (LogEvent.kept isKept))).map (·.2) =
      ((surviving evs).map (·.2)).filter isKept := by
    rw [surviving_filter_kept, List.filter_map]
    rfl
  rw [hmap]
  exact ((h.inv.idle hstream).startReplay x lsn).skipped_foldlM
    ((h.inv'.idle hstream).startReplay x lsn) hhide hskip hrecs hu

theorem Sim.apart (h : Sim p L L' k out ms s s') (hstream : k.boundary.stream = none) :
    (k.hidden p ms) s.streamXid = false ∧ (k.hidden p ms) s'.streamXid = false := by
  rw [h.inv.streamXid, h.inv'.streamXid, hstream]
  exact ⟨Track.hidden_zero h.zero, Track.hidden_zero h.zero⟩

theorem Sim.file (h : Sim p L L' k out ms s s') {evs : List (LogEvent Nat Bytes)}
    (hevs : k.spools x = some evs) (hleft : leftOutAtEnd p x ms = true) :
    ∃ file, s'.changesFile x = some file := by
  obtain ⟨-, hL'⟩ := h.spooled x evs hevs hleft
  obtain ⟨-, hspooled⟩ := (h.inv'.spools x).spooled _ hL' rfl
  exact ⟨_, hspooled.file⟩

theorem Sim.hidden_segment (h : Sim p L L' k out (m :: ms) s s')
    (hr : Received cfg p k m ms a body action) (hstream : k.boundary.stream = some x)
    (hx : k.hidden p (m :: ms) x = true)
    (haction : action = .relation ∨ action = .type ∨ action = .streamStop)
    (hw : NoWorkers s) (hw' : NoWorkers s')
    (ht : applyAction cfg m.1 (applyDispatch cfg m.1 nested) s (a :: body) body action = .ok t) :
    ∃ t', applyAction cfg m.1.noSkip (applyDispatch cfg m.1.noSkip nested) s' (a :: body) body
        action = .ok t' ∧ t'.hide (k.hidden p (m :: ms)) = t.hide (k.hidden p (m :: ms)) := by
  have hfd : s.streamFd = some x := h.segment x hstream (by rw [hw x]; nofun)
  have hfd' : s'.streamFd = some x := h.segment' x hstream (by rw [hw' x]; nofun)
  have hxid := h.inv.streamXid_eq hstream
  have hxid' := h.inv'.streamXid_eq hstream
  have hchange : ∀ hchange : LogicalRepMsgType.isChange action = true, LogicalRepMsgType.isData action = false →
      ∃ t', applyAction cfg m.1.noSkip (applyDispatch cfg m.1.noSkip nested) s' (a :: body) body
        action = .ok t' ∧ t'.hide (k.hidden p (m :: ms)) = t.hide (k.hidden p (m :: ms)) := by
    intro hchange hdata
    have hnot : LogicalRepMsgType.isData action = true → ∀ u : State, isSkippingChanges u = false := by
      rw [hdata]
      nofun
    rw [h.inv.change_eq_spoolChange hw hstream hchange (hnot · s)] at ht
    rw [h.inv'.change_eq_spoolChange hw' hstream hchange (hnot · s')]
    obtain ⟨t', ht'⟩ := spoolChange_of_open hfd' ht
    refine ⟨t', ht', ?_⟩
    rw [spoolChange_hidden hx hxid hfd ht, spoolChange_hidden hx hxid' hfd' ht', h.hide]
  rcases haction with rfl | rfl | rfl
  · exact hchange rfl rfl
  · exact hchange rfl rfl
  · rw [applyAction, h.inv.streamStop_eq hw hstream] at ht
    cases ht
    refine ⟨_, h.inv'.streamStop_eq hw' hstream, ?_⟩
    have hzero : k.hidden p (m :: ms) 0 = false := Track.hidden_zero h.zero
    rw [stop_hidden hzero hx hxid, stop_hidden hzero hx hxid', h.hide]

theorem Sim.hidden_start (h : Sim p L L' k out (m :: ms) s s')
    (hr : Received cfg p k m ms a body .streamStart) {first : Bool}
    (hread : readMsg readStreamStart body = .ok (x, first)) {evs : List (LogEvent Nat Bytes)}
    (hevs : k.spools x = some evs) (hleft : leftOutAtEnd p x (m :: ms) = true)
    (hw : NoWorkers s) (hw' : NoWorkers s')
    (ht : applyAction cfg m.1 (applyDispatch cfg m.1 nested) s (a :: body) body .streamStart = .ok t) :
    ∃ t', applyAction cfg m.1.noSkip (applyDispatch cfg m.1.noSkip nested) s' (a :: body) body .streamStart = .ok t' ∧
      t'.hide (k.hidden p (m :: ms)) = t.hide (k.hidden p (m :: ms)) := by
  obtain ⟨y, first', hread', hstream, hinv, -⟩ := h.inv.streamStart ht
  obtain ⟨rfl, rfl⟩ := Prod.mk.inj (Except.ok.inj (hread.symm.trans hread'))
  have hx : x ≠ 0 := fun hx => hinv.stream_ne (by rw [hx])
  have hhidden : k.hidden p (m :: ms) x = true := by rw [Track.hidden, hevs, hleft]; rfl
  have hnext : first = false := by
    have hboth : k.boundary.txn = false ∧ first = (k.spools x).isNone := by
      simpa [Track.legal, hread, Except.toOption] using hr.legal
    rw [hboth.2, hevs]
    rfl
  subst hnext
  have hpa : ∀ env : Env, false = true → env.paAllocates = false := fun _ h => by cases h
  rw [applyAction, h.inv.streamStart_eq hw hstream (hpa m.1) hread hx] at ht
  have heq : applyHandleStreamStart m.1.noSkip s' (a :: body) body =
      streamStartInternal { s' with inStreamedTransaction := true, streamXid := x } x false :=
    h.inv'.streamStart_eq hw' hstream (hpa m.1.noSkip) hread hx
  obtain ⟨file, hfile⟩ := h.file hevs hleft
  obtain ⟨t', ht'⟩ : ∃ t', streamStartInternal
      { s' with inStreamedTransaction := true, streamXid := x } x false = .ok t' := by
    have hopen : ({ beginReplicationStep { s' with
        inStreamedTransaction := true, streamXid := x } with } : State).changesFile x =
        some file := hfile
    simp only [streamStartInternal, streamOpenFile, Bool.false_eq_true, if_false, hopen]
    exact ⟨_, rfl⟩
  refine ⟨t', heq.trans ht', ?_⟩
  obtain ⟨hs, hs'⟩ := h.apart hstream
  rw [start_hidden hhidden hs (h.inv.data (h.inv.fd_none hstream)) ht,
    start_hidden hhidden hs' (h.inv'.data (h.inv'.fd_none hstream)) ht', h.hide]

theorem Sim.hidden_abort (h : Sim p L L' k out (m :: ms) s s')
    (hr : Received cfg p k m ms a body .streamAbort) {d : LogicalRepStreamAbortData}
    (hread : readMsg (readStreamAbort cfg.parallelApply) body = .ok d)
    {evs : List (LogEvent Nat Bytes)} (hevs : k.spools d.xid = some evs)
    (hleft : leftOutAtEnd p d.xid (m :: ms) = true) (hw : NoWorkers s) (hw' : NoWorkers s')
    (ht : applyAction cfg m.1 (applyDispatch cfg m.1 nested) s (a :: body) body .streamAbort = .ok t) :
    ∃ t', applyAction cfg m.1.noSkip (applyDispatch cfg m.1.noSkip nested) s' (a :: body) body .streamAbort = .ok t' ∧
      t'.hide ((k.after cfg body .streamAbort).hidden p ms) = t.hide ((k.after cfg body .streamAbort).hidden p ms) := by
  obtain ⟨-, -, hstream, -⟩ := h.inv.streamAbort ht
  have hhidden : k.hidden p (m :: ms) d.xid = true := by rw [Track.hidden, hevs, hleft]; rfl
  rw [applyAction, h.inv.streamAbort_eq hw hstream hread] at ht
  have heq : applyHandleStreamAbort cfg m.1.noSkip s' (a :: body) body =
      streamAbortInternal s' d.xid d.subxid := h.inv'.streamAbort_eq hw' hstream hread
  obtain ⟨file, hfile⟩ := h.file hevs hleft
  obtain ⟨t', ht'⟩ := streamAbortInternal_of_file d.subxid hfile
  refine ⟨t', heq.trans ht', ?_⟩
  obtain ⟨hs, hs'⟩ := h.apart hstream
  have hends : ∀ y, ends cfg y body .streamAbort = true → d.xid = y ∧ d.subxid = y := by
    intro y hy
    simpa [ends, hread, Except.toOption] using hy
  by_cases hsub : d.xid = d.subxid
  · -- the whole transaction is rolled back: its files are gone in both runs
    rw [streamAbortInternal, if_pos hsub] at ht ht'
    obtain ⟨hhide, hxid, hchanges, hsubxacts⟩ := cleanup_hidden hhidden ht
    obtain ⟨hhide', -, hchanges', hsubxacts'⟩ := cleanup_hidden hhidden ht'
    refine hr.hide_after (by rw [hhide, hhide', h.hide]) fun y hy hD => ?_
    obtain ⟨rfl, -⟩ := hends y hy
    refine ⟨fun heq => ?_, hchanges'.trans hchanges.symm, hsubxacts'.trans hsubxacts.symm⟩
    rw [← heq, hxid, hs] at hD
    cases hD
  · refine hr.hide_after ?_ fun y hy _ => ?_
    · rw [abort_hidden hhidden hs hsub ht, abort_hidden hhidden hs' hsub ht', h.hide]
    · obtain ⟨hy, hy'⟩ := hends y hy
      exact (hsub (hy.trans hy'.symm)).elim

def endReplay (u : State) : State :=
  { u with streamFd := none, isTransactionState := false, inRemoteTransaction := false,
           skipXactFinishLsn := 0 }

theorem endReplay_hide (D : Nat → Bool) (u : State) : (endReplay u).hide D =
      { u.hide D with streamFd := none, isTransactionState := false,
                      inRemoteTransaction := false } := rfl

theorem Inv.finish_eq (h : Inv L s b) (hstream : b.stream = none) {l : List Change}
    (hL : L x = some (.spooled l)) {lsn depth : Nat} {msg : Bytes}
    (hf : finishes body action = some (x, lsn)) :
    applyAction cfg env (applyDispatch cfg env depth) s msg body action =
      (l.map (·.2)).foldlM (applyDispatch cfg env depth) (startReplay env s x lsn) >>= fun u =>
        streamCleanupFiles (endReplay u) x := by
  have hreplays : Replays cfg s x (l.map (·.2)) := h.replays hstream hL
  have hstop : ∀ u : State, (streamCleanupFiles { commitTransactionCommand (streamCloseFile u) with
      inRemoteTransaction := false } x).map stopSkippingChanges =
        streamCleanupFiles (endReplay u) x := by
    intro u
    dsimp only [streamCleanupFiles, commitTransactionCommand, streamCloseFile, endReplay]
    cases u.changesFile x <;> rfl
  cases action with
  | streamCommit =>
    unfold finishes at hf
    cases hread : readMsg readStreamCommit body with
    | error e =>
      rw [hread] at hf
      cases hf
    | ok q =>
      rw [hread] at hf
      obtain ⟨rfl, rfl⟩ := Prod.mk.inj (Option.some.inj hf)
      rw [applyAction, hreplays.streamCommit env depth msg body q.2 hread]
      refine congrArg _ (funext fun u => ?_)
      rw [applyHandleCommitInternal_eq]
      rfl
  | streamPrepare =>
    unfold finishes at hf
    cases hread : readMsg readPrepareCommon body with
    | error e =>
      rw [hread] at hf
      cases hf
    | ok d =>
      rw [hread] at hf
      obtain ⟨rfl, rfl⟩ := Prod.mk.inj (Option.some.inj hf)
      rw [applyAction, hreplays.streamPrepare env depth msg body d hread rfl]
      exact congrArg _ (funext hstop)
  | _ => cases hf

theorem Sim.hidden_finish (h : Sim p L L' k out (m :: ms) s s') (hr : Received cfg p k m ms a body action) {lsn : Nat}
    (hf : finishes body action = some (x, lsn)) (hstream : k.boundary.stream = none)
    {evs : List (LogEvent Nat Bytes)} (hevs : k.spools x = some evs)
    (hleft : leftOutAtEnd p x (m :: ms) = true)
    (ht : applyAction cfg m.1 (applyDispatch cfg m.1 nested) s (a :: body) body action = .ok t) :
    ∃ t', applyAction cfg m.1.noSkip (applyDispatch cfg m.1.noSkip nested) s' (a :: body) body action = .ok t' ∧
      t'.hide ((k.after cfg body action).hidden p ms) = t.hide ((k.after cfg body action).hidden p ms) := by
  have hhidden : k.hidden p (m :: ms) x = true := by rw [Track.hidden, hevs, hleft]; rfl
  have hmessage : finishesMessage m.2.data = some (x, lsn) := by
    rw [hr.data, finishesMessage_of_action hr.kind, hf]
  have hskips := hleft
  rw [leftOutAtEnd_of_finishes hmessage, hr.skips m List.mem_cons_self] at hskips
  have hnested : WellNested evs := by
    have hlegal := hr.legal
    cases action with
    | streamCommit | streamPrepare =>
      simp only [Track.legal, hf, Option.all_some, hevs, Option.any_some, Bool.and_eq_true, decide_eq_true_eq] at hlegal
      exact hlegal.2
    | _ => cases hf
  obtain ⟨hL, hL'⟩ := h.spooled x evs hevs hleft
  rw [foldl_logStep_eq_surviving hnested] at hL
  rw [foldl_logStep_eq_surviving (hnested.filter_kept isKept)] at hL'
  rw [h.inv.finish_eq hstream hL hf, bind_eq_ok] at ht
  rw [h.inv'.finish_eq hstream hL' hf]
  obtain ⟨u, hu, ht⟩ := ht
  obtain ⟨u', hu', hhide⟩ := h.replayed hstream hevs hnested hleft hskips hu
  have hrecs' : ∀ r ∈ (surviving (evs.filter (LogEvent.kept isKept))).map (·.2), IsChangeRecord r := by
    obtain ⟨-, hspooled⟩ := (h.inv'.spools x).spooled _ hL' rfl
    exact fun r hr => hspooled.isChangeRecord hr
  have hxid : u.streamXid = 0 := by
    have htouch : Touches (startReplay m.1 s x lsn) u := by
      refine ((h.inv.idle hstream).startReplay x lsn).touches_foldlM ?_ hu
      obtain ⟨-, hspooled⟩ := (h.inv.spools x).spooled _ hL rfl
      exact fun r hr => hspooled.isChangeRecord hr
    exact (((h.inv.idle hstream).startReplay x lsn).touches htouch).noXid
  obtain ⟨file, hfile⟩ := h.file hevs hleft
  have hopen : (endReplay u').changesFile x = some file := by
    have htouch := ((h.inv'.idle hstream).startReplay x lsn).touches_foldlM hrecs' hu'
    obtain ⟨tx, rels, docs, rfl⟩ := htouch
    exact (congrFun (changesFile_startReplay m.1.noSkip s' lsn) x).trans hfile
  obtain ⟨t', ht'⟩ := streamCleanupFiles_of_file hopen
  refine ⟨t', ?_, ?_⟩
  · rw [hu', ok_bind]
    exact ht'
  · obtain ⟨hcleaned, hxid', hchanges, hsubxacts⟩ := cleanup_hidden hhidden ht
    obtain ⟨hcleaned', -, hchanges', hsubxacts'⟩ := cleanup_hidden hhidden ht'
    refine hr.hide_after ?_ fun y hy hD => ?_
    · rw [hcleaned, hcleaned', endReplay_hide, endReplay_hide, hhide]
    · obtain rfl : x = y := by
        have hy' := concerns_of_ends k.boundary hy
        have hx' : concerns cfg k.boundary body action = some x := by
          refine concerns_of_ends k.boundary ?_
          cases action with
          | streamCommit | streamPrepare => simp [ends, hf]
          | _ => cases hf
        exact Option.some.inj (hx'.symm.trans hy')
      refine ⟨fun heq => ?_, hchanges'.trans hchanges.symm, hsubxacts'.trans hsubxacts.symm⟩
      rw [hxid'] at heq
      have hzero : k.hidden p (m :: ms) 0 = false := Track.hidden_zero h.zero
      rw [← heq, show (endReplay u).streamXid = 0 from hxid, hzero] at hD
      cases hD

theorem spoolEventOf_not_kept (hdata : LogicalRepMsgType.isData action = true) :
    ∀ e ∈ (spoolEventOf cfg x b body action).toList, b.stream = some x ∧ e.kept isKept = false := by
  intro e he
  cases action with
  | insert | update | delete | truncate =>
    simp only [spoolEventOf] at he
    split at he
    next hstream =>
      obtain ⟨q, -, rfl⟩ := Option.map_eq_some_iff.mp (Option.mem_toList.mp he)
      refine ⟨hstream, ?_⟩
      simp [LogEvent.kept, isKept, isDataMessage, LogicalRepMsgType.ofByte_toByte, LogicalRepMsgType.isData]
    next => cases he
  | _ => cases hdata

theorem boundary_after_data (hdata : LogicalRepMsgType.isData action = true) : b.after body action = b := by
  cases action with
  | insert | update | delete | truncate => rfl
  | _ => cases hdata

theorem Received.hidden_after_data (hr : Received cfg p k m ms a body action)
    (hdata : LogicalRepMsgType.isData action = true) :
    (k.after cfg body action).hidden p ms = k.hidden p (m :: ms) := by
  have hstart : ∀ x, startsFirst x body action = false := by
    intro x
    cases action with
    | insert | update | delete | truncate => rfl
    | _ => cases hdata
  have hend : ∀ x, ends cfg x body action = false := by
    intro x
    cases action with
    | insert | update | delete | truncate => rfl
    | _ => cases hdata
  funext x
  rw [Track.hidden, Track.hidden, Track.spools_after (hstart x) (hend x), hr.leftOutAtEnd (hend x), Option.isSome_map]

theorem Sim.dropped (h : Sim p L L' k out (m :: ms) s s') (hr : Received cfg p k m ms a body action)
    (hdata : LogicalRepMsgType.isData action = true)
    (ht : applyAction cfg m.1 (applyDispatch cfg m.1 nested) s (a :: body) body action = .ok t)
    (hhide : t.hide (k.hidden p (m :: ms)) = s.hide (k.hidden p (m :: ms))) :
    ∃ M, Sim p M L' (k.after cfg body action) (outAfter p m.1 out body action) ms t s' := by
  have hdispatch : applyDispatch cfg m.1 (nested + 1) s (a :: body) = .ok t := by
    rw [applyDispatch, hr.kind]
    exact ht
  obtain ⟨hinv, hseg⟩ := h.inv.dispatch h.segment hr.fits hdispatch
  rw [Boundary.next_of_action _ hr.kind, Ledger.next_of_action _ hr.kind] at hinv
  rw [Boundary.next_of_action _ hr.kind] at hseg
  have hsame : (k.after cfg body action).boundary = k.boundary := boundary_after_data hdata
  have hstart : ∀ x, startsFirst x body action = false := by
    intro x
    cases action with
    | insert | update | delete | truncate => rfl
    | _ => cases hdata
  have hend : ∀ x, ends cfg x body action = false := by
    intro x
    cases action with
    | insert | update | delete | truncate => rfl
    | _ => cases hdata
  refine ⟨_, hinv, hseg, ?_, ?_, ?_, ?_, h.skip', Track.separated_after h.separated hr.legal,
    Track.outside_after h.outside hr.legal, h.inv.spools_zero h.zero ht,
    h.inv.started_after h.started hr.legal ht, ?_, ?_⟩
  · rw [hsame]
    exact h.inv'
  · rw [hsame]
    exact h.segment'
  · rw [hr.hidden_after_data hdata, hhide, h.hide]
  · rw [h.inv.skip_after h.separated h.outside hr.legal hinv ht, h.skip]
    exact (outAfter_congr (hr.skips m List.mem_cons_self) out body action).symm
  · rintro ⟨m', hm', hne⟩
    exact h.inv.noWorkers_action (h.workers ⟨m', List.mem_cons_of_mem m hm', hne⟩) (hr.starts ⟨m', hm', hne⟩) ht
  · intro x evs hevs hleft
    rw [Track.spools_after (hstart x) (hend x)] at hevs
    obtain ⟨evs₀, hevs₀, rfl⟩ := Option.map_eq_some_iff.mp hevs
    obtain ⟨hL, hL'⟩ := h.spooled x evs₀ hevs₀ ((hr.leftOutAtEnd (hend x)).trans hleft)
    have hcont := continuesWith_of_not_ends h.separated h.outside (hstart x) (hend x)
    have hnone : ((spoolEventOf cfg x k.boundary body action).toList).filter (LogEvent.kept isKept) = [] := by
      refine List.filter_eq_nil_iff.mpr fun e he => ?_
      rw [(spoolEventOf_not_kept hdata e he).2]
      exact Bool.false_ne_true
    rw [List.foldl_append, List.filter_append, hnone, List.append_nil]
    exact ⟨Ledger.after_eq h.inv hL hcont, hL'⟩

/-- Whether the message is one of the row changes that are left out. -/
def isLeftOut (p : Env → Nat → Bool) (b : Boundary) (out : Bool) (ms : List (Env × Message))
    (action : LogicalRepMsgType) : Bool :=
  LogicalRepMsgType.isData action && (out || b.stream.any fun x => leftOutAtEnd p x ms)

theorem Sim.step_leftOut (h : Sim p L L' k out (m :: ms) s s') (hr : Received cfg p k m ms a body action)
    (hleft : isLeftOut p k.boundary out ms action = true)
    (ht : applyAction cfg m.1 (applyDispatch cfg m.1 nested) s (a :: body) body action = .ok t) :
    ∃ M, Sim p M L' (k.after cfg body action) (outAfter p m.1 out body action) ms t s' := by
  obtain ⟨hdata, hwhich⟩ := Bool.and_eq_true_iff.mp hleft
  have hchange : LogicalRepMsgType.isChange action = true := by
    cases action with
    | insert | update | delete | truncate => rfl
    | _ => cases hdata
  refine h.dropped hr hdata ht ?_
  by_cases hout : out = true
  · rw [skipped_change (h.skip.trans hout) hdata] at ht
    rw [Except.ok.inj ht]
  · obtain ⟨x, hstream, hx⟩ : ∃ x, k.boundary.stream = some x ∧ leftOutAtEnd p x ms = true := by
      rw [Bool.eq_false_iff.mpr hout, Bool.false_or] at hwhich
      cases hstream : k.boundary.stream with
      | none =>
        rw [hstream] at hwhich
        cases hwhich
      | some x =>
        rw [hstream] at hwhich
        exact ⟨x, rfl, hwhich⟩
    have hw := h.noWorkers hr hx
    have hhidden : k.hidden p (m :: ms) x = true := by
      rw [← hr.hidden_after_data hdata, Track.hidden, hx, Bool.and_true]
      refine h.inv.started_after h.started hr.legal ht x ?_
      rw [boundary_after_data hdata]
      exact hstream
    rw [h.inv.change_eq_spoolChange hw hstream hchange fun _ => h.skip.trans (Bool.eq_false_iff.mpr hout)] at ht
    exact spoolChange_hidden hhidden (h.inv.streamXid_eq hstream) (h.segment x hstream (by simp [hw x])) ht

theorem Sim.hidden_message (h : Sim p L L' k out (m :: ms) s s')
    (hr : Received cfg p k m ms a body action) (hdata : LogicalRepMsgType.isData action = false)
    (hconcerns : concerns cfg k.boundary body action = some x)
    (hx : k.hidden p (m :: ms) x = true)
    (ht : applyAction cfg m.1 (applyDispatch cfg m.1 nested) s (a :: body) body action = .ok t) :
    ∃ t', applyAction cfg m.1.noSkip (applyDispatch cfg m.1.noSkip nested) s' (a :: body) body action = .ok t' ∧
      t'.hide ((k.after cfg body action).hidden p ms) = t.hide ((k.after cfg body action).hidden p ms) := by
  obtain ⟨hopen, hleft⟩ := Bool.and_eq_true_iff.mp hx
  obtain ⟨evs, hevs⟩ := Option.isSome_iff_exists.mp hopen
  have hw : NoWorkers s := h.workers (skiplsn_of_leftOutAtEnd hr.skips hleft)
  have hw' : NoWorkers s' := by
    intro y
    rw [h.hash_eq]
    exact hw y
  have hsegment : k.boundary.stream = some x → (action = .relation ∨ action = .type ∨
      action = .streamStop) → (∀ y, ends cfg y body action = false) →
      ∃ t', applyAction cfg m.1.noSkip (applyDispatch cfg m.1.noSkip nested) s' (a :: body) body action = .ok t' ∧
        t'.hide ((k.after cfg body action).hidden p ms) = t.hide ((k.after cfg body action).hidden p ms) := by
    intro hstream haction hends
    obtain ⟨t', ht', hhide⟩ := h.hidden_segment hr hstream hx haction hw hw' ht
    refine ⟨t', ht', hr.hide_after hhide fun y hy _ => ?_⟩
    rw [hends y] at hy
    cases hy
  cases action with
  | insert | update | delete | truncate => cases hdata
  | begin | beginPrepare | commit | prepare | commitPrepared | rollbackPrepared | origin
  | message => cases hconcerns
  | relation => exact hsegment hconcerns (.inl rfl) fun _ => rfl
  | type => exact hsegment hconcerns (.inr (.inl rfl)) fun _ => rfl
  | streamStop => exact hsegment hconcerns (.inr (.inr rfl)) fun _ => rfl
  | streamStart =>
    obtain ⟨y, first, hread, -, -⟩ := h.inv.streamStart ht
    obtain rfl : y = x := by simpa [concerns, hread, Except.toOption] using hconcerns
    obtain ⟨t', ht', hhide⟩ := h.hidden_start hr hread hevs hleft hw hw' ht
    exact ⟨t', ht', hr.hide_after hhide fun _ h => by cases h⟩
  | streamAbort =>
    obtain ⟨d, hread, -, -⟩ := h.inv.streamAbort ht
    obtain rfl : d.xid = x := by simpa [concerns, hread, Except.toOption] using hconcerns
    exact h.hidden_abort hr hread hevs hleft hw hw' ht
  | streamCommit =>
    obtain ⟨y, d, hread, hstream, -⟩ := h.inv.streamCommit ht
    obtain rfl : y = x := by simpa [concerns, finishes, hread, Except.toOption] using hconcerns
    exact h.hidden_finish hr (by rw [finishes, hread]; rfl) hstream hevs hleft ht
  | streamPrepare =>
    obtain ⟨d, hread, hstream, -⟩ := h.inv.streamPrepare ht
    obtain rfl : d.xid = x := by simpa [concerns, finishes, hread, Except.toOption] using hconcerns
    exact h.hidden_finish hr (by rw [finishes, hread]; rfl) hstream hevs hleft ht

theorem Sim.step_kept (h : Sim p L L' k out (m :: ms) s s') (hr : Received cfg p k m ms a body action)
    (hleft : isLeftOut p k.boundary out ms action = false)
    (ht : applyAction cfg m.1 (applyDispatch cfg m.1 nested) s (a :: body) body action = .ok t) :
    ∃ t' M M', applyAction cfg m.1.noSkip (applyDispatch cfg m.1.noSkip nested) s' (a :: body) body action = .ok t' ∧
      Sim p M M' (k.after cfg body action) (outAfter p m.1 out body action) ms t t' := by
  have hdata : LogicalRepMsgType.isData action = true →
      out = false ∧ ∀ x, k.boundary.stream = some x → leftOutAtEnd p x ms = false := by
    intro hdata
    rw [isLeftOut, hdata, Bool.true_and, Bool.or_eq_false_iff] at hleft
    refine ⟨hleft.1, fun x hstream => ?_⟩
    have hnot := hleft.2
    rw [hstream] at hnot
    exact hnot
  have hkept : ∀ x, (k.spools x).isSome = true → leftOutAtEnd p x ms = true →
      ∀ e ∈ (spoolEventOf cfg x k.boundary body action).toList, e.kept isKept = true := by
    intro x _ hx e he
    by_cases hd : LogicalRepMsgType.isData action = true
    · rw [(hdata hd).2 x (spoolEventOf_not_kept hd e he).1] at hx
      cases hx
    · exact spoolEventOf_kept (Bool.eq_false_iff.mpr hd) e he
  have hrun : ∃ t', applyAction cfg m.1.noSkip (applyDispatch cfg m.1.noSkip nested) s' (a :: body)
        body action = .ok t' ∧
      t'.hide ((k.after cfg body action).hidden p ms) = t.hide ((k.after cfg body action).hidden p ms) := by
    by_cases hhidden : ∃ x, concerns cfg k.boundary body action = some x ∧ k.hidden p (m :: ms) x = true
    · obtain ⟨x, hconcerns, hx⟩ := hhidden
      refine h.hidden_message hr (Bool.eq_false_iff.mpr fun hd => ?_) hconcerns hx ht
      -- a row change of such a transaction would be left out
      have hstream : k.boundary.stream = some x := by
        cases action with
        | insert | update | delete | truncate => exact hconcerns
        | _ => cases hd
      rw [← hr.hidden_after_data hd, Track.hidden, (hdata hd).2 x hstream, Bool.and_false] at hx
      cases hx
    · refine h.alike hr (fun x hconcerns => ?_) (fun hd => h.skip.trans (hdata hd).1) ht
      exact Bool.eq_false_iff.mpr fun hx => hhidden ⟨x, hconcerns, hx⟩
  obtain ⟨t', ht', hhide⟩ := hrun
  obtain ⟨M, M', hsim⟩ := h.both hr ht ht' hkept hhide
  exact ⟨t', M, M', ht', hsim⟩

def noSkips (ms : List (Env × Message)) : List (Env × Message) := ms.map fun m => (m.1.noSkip, m.2)

theorem Sim.run {depth : Nat} (h : Sim p L L' k out ms s s') (hwf : WellFormed cfg k (ms.map (·.2)) = true)
    (hp : ∀ m ∈ ms, ∀ lsn, p m.1 lsn = m.1.skips lsn)
    (hstarts : ms.Pairwise fun m m' => m'.1.skiplsn ≠ 0 → m.1.paAllocates = false)
    (ht : applyMessages cfg depth s ms = .ok t) :
    ∃ t', applyMessages cfg depth s' (noSkips (without p k.boundary out ms)) = .ok t' ∧ t'.kafkaSent = t.kafkaSent := by
  induction ms generalizing L L' k out s s' with
  | nil =>
    obtain rfl := pure_eq_ok.mp ht
    refine ⟨s', rfl, ?_⟩
    change (s'.hide (k.hidden p [])).kafkaSent = (s.hide (k.hidden p [])).kafkaSent
    rw [h.hide]
  | cons m ms ih =>
    unfold applyMessages at ht
    rw [List.foldlM_cons, bind_eq_ok] at ht
    obtain ⟨u, hu, ht⟩ := ht
    obtain ⟨hlegal, hwf⟩ := Bool.and_eq_true_iff.mp hwf
    obtain ⟨hstart, hstarts⟩ := List.pairwise_cons.mp hstarts
    obtain ⟨nested, a, body, action, rfl, hdata, hkind, hu⟩ := applyDispatch_ok hu
    have hr : Received cfg p k m ms a body action := by
      refine ⟨hdata, hkind, ?_, hp, ?_⟩
      · rw [hdata, Track.legalMessage, hkind] at hlegal
        exact hlegal
      · rintro ⟨m', hm', hne⟩
        exact hstart m' hm' hne
    have hp' : ∀ m ∈ ms, ∀ lsn, p m.1 lsn = m.1.skips lsn :=
      fun m' hm' => hp m' (List.mem_cons_of_mem m hm')
    have hnext : k.next cfg m.2.data = k.after cfg body action := by
      rw [hdata, Track.next, hkind]
      rfl
    have hout : outNext p m.1 out m.2.data = outAfter p m.1 out body action := by
      rw [hdata, outNext, hkind]
      rfl
    have hboundary : k.boundary.next m.2.data = (k.after cfg body action).boundary := by
      rw [hdata, Boundary.next_of_action _ hkind]
      rfl
    have hwhich : (isDataMessage m.2.data && (out || k.boundary.stream.any fun x => leftOutAtEnd p x ms)) =
        isLeftOut p k.boundary out ms action := by
      rw [hdata, isDataMessage, hkind]
      rfl
    rw [hdata] at hu
    rw [hnext] at hwf
    rw [without, hout, hboundary, hwhich]
    cases hleft : isLeftOut p k.boundary out ms action with
    | true =>
      obtain ⟨M, hsim⟩ := h.step_leftOut hr hleft hu
      exact ih hsim hwf hp' hstarts ht
    | false =>
      obtain ⟨u', M, M', hu', hsim⟩ := h.step_kept hr hleft hu
      obtain ⟨t', ht', hsent⟩ := ih hsim hwf hp' hstarts ht
      refine ⟨t', ?_, hsent⟩
      have hfirst : applyDispatch cfg m.1.noSkip (nested + 1) s' m.2.data = .ok u' := by
        rw [hdata, applyDispatch, hkind]
        exact hu'
      show (noSkips (m :: without p (k.after cfg body action).boundary
        (outAfter p m.1 out body action) ms)).foldlM _ s' = _
      rw [noSkips, List.map_cons, List.foldlM_cons, hfirst, ok_bind]
      exact ht'

theorem sim_init (p : Env → Nat → Bool) (ms : List (Env × Message)) :
    Sim p (fun _ => none) (fun _ => none) .start false ms State.init State.init where
  inv := inv_init
  segment := segmentOpen_none rfl
  inv' := inv_init
  segment' := segmentOpen_none rfl
  hide := rfl
  skip := rfl
  skip' := rfl
  separated := rfl
  outside := nofun
  zero := rfl
  started := nofun
  workers := fun _ _ => rfl
  spooled := nofun

structure Subscriber where
  worker : State
  /-- `subskiplsn` of the catalog. -/
  subskiplsn : Nat
  /-- `MySubscription->skiplsn`. -/
  skiplsn : Nat

def Subscriber.start (lsn : Nat) : Subscriber :=
  { worker := .init, subskiplsn := lsn, skiplsn := lsn }

/-- A message, and whether `maybe_reread_subscription` has read the catalog again before it. -/
structure Delivery where
  reread : Bool
  env : Env
  message : Message

def Subscriber.meets (sub : Subscriber) (d : Delivery) : Env :=
  let skiplsn := if d.reread then sub.subskiplsn else sub.skiplsn
  { d.env with skiplsn := skiplsn, paAllocates := d.env.paAllocates && skiplsn = 0 }

/-- The handler comes to `clear_subscription_skip_lsn`: a COMMIT does so for a transaction that
was skipped or not empty, the leader leaves a streamed transaction to its worker. -/
def clearsAfter (env : Env) (s : State) (body : Bytes) : LogicalRepMsgType → Bool
  | .commit => isSkippingChanges s || s.isTransactionState
  | .prepare | .commitPrepared | .streamPrepare => true
  | .rollbackPrepared => env.lookupGXact
  | .streamCommit => (readMsg readStreamCommit body).toOption.any fun p =>
      getTransactionApplyAction s p.1 = .leaderApply
  | _ => false

def Subscriber.clears (sub : Subscriber) (d : Delivery) : Bool :=
  match d.message.data with
  | [] => false
  | a :: body => (LogicalRepMsgType.ofByte a).any (clearsAfter (sub.meets d) sub.worker body)

def clearSubscriptionSkipLsn (sub : Subscriber) : Subscriber :=
  if sub.skiplsn = 0 then sub
  else if sub.subskiplsn = sub.skiplsn then { sub with subskiplsn := 0 }
  else sub

def Subscriber.receive (cfg : Config) (depth : Nat) (sub : Subscriber) (d : Delivery) :
    Result Subscriber := do
  let worker ← applyDispatch cfg (sub.meets d) depth sub.worker d.message.data
  let next := { sub with worker := worker, skiplsn := (sub.meets d).skiplsn }
  pure (if sub.clears d then clearSubscriptionSkipLsn next else next)

def Subscriber.run (cfg : Config) (depth : Nat) (sub : Subscriber) (ds : List Delivery) :
    Result Subscriber := ds.foldlM (Subscriber.receive cfg depth) sub

def Subscriber.met (cfg : Config) (depth : Nat) : Subscriber → List Delivery → List (Env × Message)
  | _, [] => []
  | sub, d :: ds =>
    (sub.meets d, d.message) :: match sub.receive cfg depth d with
      | .ok next => next.met cfg depth ds
      | .error _ => []

def Subscriber.unfinished (cfg : Config) (depth : Nat) : Subscriber → List Delivery → Bool
  | _, [] => true
  | sub, d :: ds =>
    !sub.clears d && match sub.receive cfg depth d with
      | .ok next => next.unfinished cfg depth ds
      | .error _ => true

variable {depth lsn : Nat} {sub next : Subscriber} {d : Delivery} {ds : List Delivery}

theorem Subscriber.receive_ok (h : sub.receive cfg depth d = .ok next) :
    applyDispatch cfg (sub.meets d) depth sub.worker d.message.data = .ok next.worker ∧
      next.skiplsn = (sub.meets d).skiplsn ∧
      (next.subskiplsn = sub.subskiplsn ∨
        sub.clears d = true ∧ sub.subskiplsn = (sub.meets d).skiplsn ∧ next.subskiplsn = 0) := by
  simp only [Subscriber.receive, bind_eq_ok, pure_eq_ok] at h
  obtain ⟨worker, hworker, rfl⟩ := h
  split
  next hclears =>
    unfold clearSubscriptionSkipLsn
    split
    · exact ⟨hworker, rfl, .inl rfl⟩
    · split
      next heq => exact ⟨hworker, rfl, .inr ⟨hclears, heq, rfl⟩⟩
      next => exact ⟨hworker, rfl, .inl rfl⟩
  next => exact ⟨hworker, rfl, .inl rfl⟩

def Subscriber.Configured (lsn : Nat) (sub : Subscriber) : Prop :=
  sub.subskiplsn = lsn ∧ sub.skiplsn = lsn ∨ sub.subskiplsn = 0 ∧ (sub.skiplsn = lsn ∨ sub.skiplsn = 0)

theorem Subscriber.Configured.meets (h : sub.Configured lsn) (d : Delivery) :
    (sub.meets d).skiplsn = lsn ∨ sub.subskiplsn = 0 ∧ (sub.meets d).skiplsn = 0 := by
  show (if d.reread then sub.subskiplsn else sub.skiplsn) = lsn ∨
    _ ∧ (if d.reread then sub.subskiplsn else sub.skiplsn) = 0
  rcases h with ⟨hcat, hown⟩ | ⟨hcat, hown⟩
  · rw [hcat, hown, ite_self]
    exact .inl rfl
  · by_cases hreread : d.reread = true
    · rw [if_pos hreread]
      exact .inr ⟨hcat, hcat⟩
    · rw [if_neg hreread]
      exact hown.imp_right fun hzero => ⟨hcat, hzero⟩

theorem Subscriber.Configured.receive (h : sub.Configured lsn)
    (hnext : sub.receive cfg depth d = .ok next) : next.Configured lsn := by
  obtain ⟨-, hown, hcat⟩ := Subscriber.receive_ok hnext
  rcases h.meets d with hmeets | ⟨hzero, hmeets⟩
  · rcases hcat with hcat | ⟨-, -, hcat⟩
    · rcases h with ⟨hlsn, -⟩ | ⟨hzero, -⟩
      · exact .inl ⟨hcat.trans hlsn, hown.trans hmeets⟩
      · exact .inr ⟨hcat.trans hzero, .inl (hown.trans hmeets)⟩
    · exact .inr ⟨hcat, .inl (hown.trans hmeets)⟩
  · refine .inr ⟨?_, .inr (hown.trans hmeets)⟩
    rcases hcat with hcat | ⟨-, -, hcat⟩
    · exact hcat.trans hzero
    · exact hcat

theorem Subscriber.Configured.met_skiplsn (h : sub.Configured lsn) :
    ∀ m ∈ sub.met cfg depth ds, m.1.skiplsn = lsn ∨ m.1.skiplsn = 0 := by
  induction ds generalizing sub with
  | nil => exact fun _ hm => (List.not_mem_nil hm).elim
  | cons d ds ih =>
    intro m hm
    rcases List.mem_cons.mp hm with rfl | hm
    · exact (h.meets d).imp_right (·.2)
    · cases hnext : sub.receive cfg depth d with
      | error e =>
        rw [hnext] at hm
        exact (List.not_mem_nil hm).elim
      | ok next =>
        rw [hnext] at hm
        exact ih (h.receive hnext) m hm

theorem Subscriber.Configured.cleared (h : sub.Configured lsn)
    (hzero : (sub.meets d).skiplsn = 0) (hnext : sub.receive cfg depth d = .ok next) :
    next.Configured 0 := by
  obtain ⟨-, hown, hcat⟩ := Subscriber.receive_ok hnext
  have hcatalog : sub.subskiplsn = 0 := by
    rcases h.meets d with hmeets | ⟨hcat, -⟩
    · rcases h with ⟨hlsn, -⟩ | ⟨hcat, -⟩
      · rw [hlsn, ← hmeets, hzero]
      · exact hcat
    · exact hcat
  refine .inl ⟨?_, hown.trans hzero⟩
  rcases hcat with hcat | ⟨-, -, hcat⟩
  · exact hcat.trans hcatalog
  · exact hcat

theorem Subscriber.Configured.met_starts (h : sub.Configured lsn) :
    (sub.met cfg depth ds).Pairwise fun m m' => m'.1.skiplsn ≠ 0 → m.1.paAllocates = false := by
  induction ds generalizing sub with
  | nil => exact List.Pairwise.nil
  | cons d ds ih =>
    rw [Subscriber.met]
    cases hnext : sub.receive cfg depth d with
    | error e => exact List.pairwise_singleton _ _
    | ok next =>
      refine List.pairwise_cons.mpr ⟨fun m' hm' hne => ?_, ih (h.receive hnext)⟩
      refine Bool.eq_false_iff.mpr fun hpa => ?_
      have hzero : (sub.meets d).skiplsn = 0 := by
        have hboth : d.env.paAllocates = true ∧ (sub.meets d).skiplsn = 0 := by
          simpa [Subscriber.meets] using hpa
        exact hboth.2
      rcases (h.cleared hzero hnext).met_skiplsn m' hm' with hm' | hm'
      · exact hne hm'
      · exact hne hm'

theorem Subscriber.run_met {final : Subscriber} (hrun : sub.run cfg depth ds = .ok final) :
    applyMessages cfg depth sub.worker (sub.met cfg depth ds) = .ok final.worker ∧
      (sub.met cfg depth ds).map (·.2) = ds.map (·.message) := by
  induction ds generalizing sub with
  | nil =>
    obtain rfl := pure_eq_ok.mp hrun
    exact ⟨rfl, rfl⟩
  | cons d ds ih =>
    unfold Subscriber.run at hrun
    rw [List.foldlM_cons, bind_eq_ok] at hrun
    obtain ⟨next, hnext, hrun⟩ := hrun
    obtain ⟨hworker, -, -⟩ := Subscriber.receive_ok hnext
    obtain ⟨hmsgs, hmap⟩ := ih hrun
    rw [Subscriber.met, hnext]
    refine ⟨?_, congrArg (d.message :: ·) hmap⟩
    unfold applyMessages
    rw [List.foldlM_cons, hworker, ok_bind]
    exact hmsgs

theorem Subscriber.skiplsn_of_unfinished {final : Subscriber} (hcat : sub.subskiplsn = lsn) (hown : sub.skiplsn = lsn)
    (hrun : sub.run cfg depth ds = .ok final) (hopen : sub.unfinished cfg depth ds = true)
    (d : Delivery) : (final.meets d).skiplsn = lsn := by
  induction ds generalizing sub with
  | nil =>
    obtain rfl := pure_eq_ok.mp hrun
    show (if d.reread then sub.subskiplsn else sub.skiplsn) = lsn
    rw [hcat, hown, ite_self]
  | cons e ds ih =>
    unfold Subscriber.run at hrun
    rw [List.foldlM_cons, bind_eq_ok] at hrun
    obtain ⟨next, hnext, hrun⟩ := hrun
    rw [Subscriber.unfinished, hnext, Bool.and_eq_true_iff] at hopen
    obtain ⟨-, hskip, hclear⟩ := Subscriber.receive_ok hnext
    have hmeets : (sub.meets e).skiplsn = lsn := by
      show (if e.reread then sub.subskiplsn else sub.skiplsn) = lsn
      rw [hcat, hown, ite_self]
    refine ih ?_ (hskip.trans hmeets) hrun hopen.2
    rcases hclear with hsame | ⟨hclears, -, -⟩
    · exact hsame.trans hcat
    · rw [hclears] at hopen
      cases hopen.1

def skippedAt (lsn : Nat) (env : Env) (finish : Nat) : Bool :=
  lsn ≠ 0 && env.skiplsn = lsn && finish = lsn

/-- The skip LSN takes effect on the transaction that ends there, unless another transaction was
finished first and the catalog read again. -/
theorem skips_transaction (cfg : Config) (depth lsn : Nat) (ds : List Delivery) {sub : Subscriber}
    (hwf : WellFormed cfg .start (ds.map (·.message)) = true)
    (hrun : (Subscriber.start lsn).run cfg depth ds = .ok sub) :
    (∃ s', applyMessages cfg depth State.init (noSkips (withoutTransaction (skippedAt lsn)
        ((Subscriber.start lsn).met cfg depth ds))) = .ok s' ∧
      s'.kafkaSent = sub.worker.kafkaSent) ∧
    (∀ m ∈ (Subscriber.start lsn).met cfg depth ds, m.1.skiplsn = lsn ∨ m.1.skiplsn = 0) ∧
    ∀ before d after between, ds = before ++ d :: after → (Subscriber.start lsn).run cfg depth before = .ok between →
      (Subscriber.start lsn).unfinished cfg depth before = true →
      (between.meets d).skiplsn = lsn := by
  have hconf : (Subscriber.start lsn).Configured lsn := .inl ⟨rfl, rfl⟩
  obtain ⟨hmsgs, hmap⟩ := Subscriber.run_met hrun
  have hselect : ∀ m ∈ (Subscriber.start lsn).met cfg depth ds, ∀ finish,
      skippedAt lsn m.1 finish = m.1.skips finish := by
    intro m hm finish
    unfold skippedAt Env.skips
    rcases hconf.met_skiplsn m hm with hlsn | hzero
    · by_cases hne : lsn = 0
      · simp [hlsn, hne]
      · simp [hlsn, hne, eq_comm]
    · by_cases hne : lsn = 0
      · simp [hzero, hne]
      · simp [hzero, Ne.symm hne]
  refine ⟨?_, hconf.met_skiplsn, fun before d after between _ hbefore hopen => ?_⟩
  · exact (sim_init (skippedAt lsn) _).run (by rw [hmap]; exact hwf) hselect hconf.met_starts hmsgs
  · exact Subscriber.skiplsn_of_unfinished rfl rfl hbefore hopen d

def deliver (reread : Bool) (m : Message) : Delivery :=
  { reread := reread, env := .leaderOnly, message := m }

def tableMessage (xid : Nat) : Bytes :=
  writeRel xid 1 (CStr.lit ['p']) (CStr.lit ['t']) (byteOf 'd')
    [{ attname := CStr.lit ['c'], flags := 1, atttypid := 25, atttypmod := 0 }]

/-- A transaction of one row that ends at `lsn`, after the subscription was read again or not. -/
def rowAt (reread : Bool) (lsn xid : Nat) : List Delivery :=
  [deliver reread ⟨writeBegin { finalLsn := lsn, committime := 0, xid := xid }, by
      simp [writeBegin]⟩,
    deliver false ⟨tableMessage 0, by decide⟩, deliver false ⟨writeInsert 0 1 [.null], insertOne_fits⟩,
    deliver false ⟨writeCommit { commitLsn := lsn, endLsn := lsn + 1, committime := 0 }, by
      simp [writeCommit, commitFields]⟩]

def skippedStream : List Delivery :=
  [⟨writeStreamStart 5 true, streamFive_fits⟩, ⟨tableMessage 5, by decide⟩,
    ⟨writeInsert 5 1 [.null], insertFive_fits⟩, ⟨writeStreamStop, stop_fits⟩,
    ⟨writeStreamCommit 5 { commitLsn := 10, endLsn := 11, committime := 0 }, by decide⟩].map
      (deliver false) ++ rowAt true 20 6

theorem runsTo_eq_true {r : Result Subscriber} {n : Nat}
    (h : (match r with | .ok sub => decide (sub.worker.kafkaSent.length = n) | .error _ => false) =
      true) : ∃ sub, r = .ok sub ∧ sub.worker.kafkaSent.length = n := by
  cases r with
  | error e => cases h
  | ok sub => exact ⟨sub, rfl, of_decide_eq_true h⟩

theorem skips_skippedStream : ∃ sub s', (Subscriber.start 10).run .sample 2 skippedStream = .ok sub ∧
      sub.worker.kafkaSent.length = 1 ∧
      applyMessages .sample 2 State.init (noSkips (withoutTransaction (skippedAt 10)
        ((Subscriber.start 10).met .sample 2 skippedStream))) = .ok s' ∧
      s'.kafkaSent = sub.worker.kafkaSent := by
  obtain ⟨sub, hrun, hlen⟩ : ∃ sub, (Subscriber.start 10).run .sample 2 skippedStream = .ok sub ∧
      sub.worker.kafkaSent.length = 1 := runsTo_eq_true (by decide +kernel)
  obtain ⟨⟨s', hs', hsent⟩, -⟩ :=
    skips_transaction .sample 2 10 skippedStream (by decide +kernel) hrun
  exact ⟨sub, s', hrun, hlen, hs', hsent⟩

/-- Another transaction is finished before the one that ends at the skip LSN, and the subscription
is read again in between. -/
def clearedFirst : List Delivery := rowAt false 10 4 ++ rowAt true 20 6

/-- The transaction at the skip LSN is not skipped: both rows are sent, where one is of the stream
without that transaction. -/
theorem clearedFirst_not_skipped : WellFormed .sample .start (clearedFirst.map (·.message)) = true ∧
    ∃ sub s', (Subscriber.start 20).run .sample 2 clearedFirst = .ok sub ∧
      applyMessages .sample 2 State.init (noSkips (withoutTransaction (fun _ finish => finish = 20)
        ((Subscriber.start 20).met .sample 2 clearedFirst))) = .ok s' ∧
      sub.worker.kafkaSent ≠ s'.kafkaSent := by
  refine ⟨by decide +kernel, ?_⟩
  obtain ⟨sub, hrun, hlen⟩ : ∃ sub, (Subscriber.start 20).run .sample 2 clearedFirst = .ok sub ∧
      sub.worker.kafkaSent.length = 2 := runsTo_eq_true (by decide +kernel)
  obtain ⟨s', hs', hlen'⟩ := endsWith_eq_true (r := applyMessages .sample 2 State.init (noSkips (withoutTransaction
      (fun _ finish => finish = 20) ((Subscriber.start 20).met .sample 2 clearedFirst))))
    (p := fun s : State => s.kafkaSent.length = 1) (by decide +kernel)
  refine ⟨sub, s', hrun, hs', fun heq => ?_⟩
  have hone : s'.kafkaSent.length = 1 := of_decide_eq_true hlen'
  rw [← heq, hlen] at hone
  cases hone

end CdcKafka.Apply
