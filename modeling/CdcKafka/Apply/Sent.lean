import CdcKafka.Apply.Survivors

/-! Which messages make the leader send documents to Kafka: a row change outside a segment, and
the end of a transaction whose file it replays. -/

namespace CdcKafka.Apply
open CdcKafka.Lib CdcKafka.Event CdcKafka.Json CdcKafka.Proto

variable {s t : State} {cfg : Config} {env : Env} {depth : Nat} {msg body rest : Bytes} {x : Nat}
  {action : LogicalRepMsgType}

theorem kafkaSent_streamWriteChange (h : streamWriteChange s action rest = .ok t) : t.kafkaSent = s.kafkaSent := by
  obtain ⟨y, -, rfl⟩ := streamWriteChange_ok h
  rfl

theorem kafkaSent_streamOpenAndWriteChange (h : streamOpenAndWriteChange s x action rest = .ok t) :
    t.kafkaSent = s.kafkaSent := by
  unfold streamOpenAndWriteChange at h
  simp only [bind_eq_ok, pure_eq_ok] at h
  obtain ⟨u, hu, v, hv, rfl⟩ := h
  have hopen : u.kafkaSent = s.kafkaSent := by
    unfold streamReopen at hu
    split at hu
    · exact (local_streamStartInternal hu).kafkaSent
    · cases hu
      rfl
  exact (kafkaSent_streamWriteChange hv).trans hopen

theorem kafkaSent_serializeAndFinish {winfo : Nat}
    (h : serializeAndFinish s winfo x action rest = .ok t) : t.kafkaSent = s.kafkaSent := by
  unfold serializeAndFinish at h
  rw [bind_eq_ok] at h
  obtain ⟨u, hu, h⟩ := h
  exact (local_paXactFinish h).1.kafkaSent.trans (kafkaSent_streamOpenAndWriteChange hu)

theorem kafkaSent_switched {winfo : Nat}
    (h : (paSwitchToPartialSerialize s winfo >>= fun s => serializeAndFinish s winfo x action rest) =
      .ok t) : t.kafkaSent = s.kafkaSent := by
  rw [bind_eq_ok] at h
  obtain ⟨u, hu, h⟩ := h
  exact (kafkaSent_serializeAndFinish h).trans (local_paSwitchToPartialSerialize hu).kafkaSent

theorem kafkaSent_paFinishTransaction {winfo : Nat} (h : paFinishTransaction env s winfo x action msg rest = .ok t) :
    t.kafkaSent = s.kafkaSent := by
  unfold paFinishTransaction at h
  split at h
  · exact (local_paXactFinish h).1.kafkaSent
  · exact kafkaSent_switched h

theorem kafkaSent_streamStartSegment {first : Bool}
    (h : streamStartSegment env s x first msg body = .ok t) : t.kafkaSent = s.kafkaSent := by
  unfold streamStartSegment at h
  split at h
  · exact (local_streamStartInternal h).kafkaSent
  · split at h
    · cases h
      rfl
    · simp only [bind_eq_ok, pure_eq_ok] at h
      obtain ⟨u, hu, v, hv, rfl⟩ := h
      exact (kafkaSent_streamWriteChange hv).trans (local_paSwitchToPartialSerialize hu).kafkaSent
  · simp only [bind_eq_ok, pure_eq_ok] at h
    obtain ⟨u, hu, v, hv, rfl⟩ := h
    exact (kafkaSent_streamWriteChange hv).trans (local_streamStartInternal hu).kafkaSent
  · cases h

theorem kafkaSent_streamStart (h : applyHandleStreamStart env s msg body = .ok t) : t.kafkaSent = s.kafkaSent := by
  unfold applyHandleStreamStart at h
  split at h
  · cases h
  · rw [bind_eq_ok] at h
    obtain ⟨⟨x, first⟩, -, h⟩ := h
    dsimp only at h
    split at h
    · cases h
    · rw [bind_eq_ok] at h
      obtain ⟨u, hu, h⟩ := h
      rw [kafkaSent_streamStartSegment h]
      rcases streamStartWorker_ok hu with rfl | ⟨-, -, rfl⟩ <;> rfl

theorem kafkaSent_streamStop (h : applyHandleStreamStop env s msg body = .ok t) : t.kafkaSent = s.kafkaSent := by
  unfold applyHandleStreamStop at h
  split at h
  · cases h
  · split at h
    · cases h
      rfl
    · split at h
      · cases h
        rfl
      · simp only [bind_eq_ok, pure_eq_ok] at h
        obtain ⟨u, hu, v, hv, rfl⟩ := h
        exact (kafkaSent_streamWriteChange hv).trans (local_paSwitchToPartialSerialize hu).kafkaSent
    · simp only [bind_eq_ok, pure_eq_ok] at h
      obtain ⟨v, hv, rfl⟩ := h
      have hsent := kafkaSent_streamWriteChange hv
      exact hsent
    · cases h

theorem kafkaSent_streamAbort (h : applyHandleStreamAbort cfg env s msg body = .ok t) : t.kafkaSent = s.kafkaSent := by
  unfold applyHandleStreamAbort at h
  split at h
  · cases h
  · rw [bind_eq_ok] at h
    obtain ⟨d, -, h⟩ := h
    dsimp only at h
    split at h
    · exact (local_streamAbortInternal h).kafkaSent
    · split at h
      · split at h
        · exact (local_paXactFinish h).1.kafkaSent
        · obtain rfl := pure_eq_ok.mp h
          rfl
      · split at h
        · exact kafkaSent_switched h
        · rw [bind_eq_ok] at h
          obtain ⟨u, hu, h⟩ := h
          exact (kafkaSent_streamOpenAndWriteChange h).trans (local_paSwitchToPartialSerialize hu).kafkaSent
    · split at h
      · exact kafkaSent_serializeAndFinish h
      · exact kafkaSent_streamOpenAndWriteChange h
    · cases h

def LogicalRepMsgType.isRow : LogicalRepMsgType → Bool
  | .insert | .update | .delete => true
  | _ => false

theorem kafkaSent_handleStreamed {again : Option Bytes} {L : Ledger} {b : Boundary}
    (h : Inv L s b) (hstream : b.stream = some x)
    (ht : handleStreamedTransaction env s action msg body = .ok (t, again)) :
    t.kafkaSent = s.kafkaSent := by
  obtain ⟨sub, rest, -, -, ⟨-, -, hwrite⟩ | ⟨-, hcases⟩⟩ := h.handleStreamed_cases hstream ht
  · obtain ⟨data, hadd⟩ := subxactInfoAdd_eq s sub
    rw [hadd] at hwrite
    have hsent := kafkaSent_streamWriteChange hwrite
    exact hsent
  · rcases hcases with ⟨-, -, rfl⟩ | ⟨-, u, hu, hwrite⟩ | ⟨-, hwrite⟩
    · rfl
    · exact (kafkaSent_streamWriteChange hwrite).trans (local_paSwitchToPartialSerialize hu).kafkaSent
    · exact kafkaSent_streamWriteChange hwrite

theorem kafkaSent_segmentChange {L : Ledger} {b : Boundary} (h : Inv L s b)
    (hstream : b.stream = some x) (hchange : LogicalRepMsgType.isChange action = true)
    {dispatch : State → Bytes → Result State}
    (ht : applyAction cfg env dispatch s msg body action = .ok t) :
    t.kafkaSent = s.kafkaSent := by
  have hdata : ∀ {apply}, ¬ (action = .relation ∨ action = .type) →
      applyHandleChange env s action msg body apply = .ok t → t.kafkaSent = s.kafkaSent := by
    intro apply hrel ht
    unfold applyHandleChange at ht
    split at ht
    · cases ht
      rfl
    · rw [bind_eq_ok] at ht
      obtain ⟨⟨u, again⟩, hu, ht⟩ := ht
      obtain rfl := h.handleStreamed_none hstream hrel hu
      obtain rfl := pure_eq_ok.mp ht
      exact kafkaSent_handleStreamed h hstream hu
  cases action with
  | insert | update | delete | truncate =>
    simp only [applyAction, applyHandleInsert, applyHandleUpdate, applyHandleDelete, applyHandleTruncate] at ht
    exact hdata (by decide) ht
  | relation =>
    simp only [applyAction, applyHandleRelation, bind_eq_ok] at ht
    obtain ⟨⟨u, again⟩, hu, ht⟩ := ht
    have hsent := kafkaSent_handleStreamed h hstream hu
    cases again with
    | none =>
      obtain rfl := pure_eq_ok.mp ht
      exact hsent
    | some rest =>
      simp only [bind_eq_ok, pure_eq_ok] at ht
      obtain ⟨rel, -, rfl⟩ := ht
      exact hsent
  | type =>
    simp only [applyAction, applyHandleType, bind_eq_ok] at ht
    obtain ⟨⟨u, again⟩, hu, ht⟩ := ht
    have hsent := kafkaSent_handleStreamed h hstream hu
    cases again with
    | none =>
      obtain rfl := pure_eq_ok.mp ht
      exact hsent
    | some rest =>
      simp only [bind_eq_ok, pure_eq_ok] at ht
      obtain ⟨typ, -, rfl⟩ := ht
      exact hsent
  | _ => cases hchange

theorem kafkaSent_kafkaSend {change : RowChange} (h : kafkaSend cfg env s change = .ok t) :
    ∃ doc, t.kafkaSent = s.kafkaSent ++ [doc] := by
  unfold kafkaSend at h
  split at h
  · cases h
  · split at h
    · cases h
      exact ⟨_, rfl⟩
    · cases h

theorem Idle.kafkaSent_change (h : Idle s) {apply : State → Bytes → Result State}
    (happly : ∀ s rest t, apply s rest = .ok t → ∃ docs, t.kafkaSent = s.kafkaSent ++ docs)
    (ht : applyHandleChange env s action msg body apply = .ok t) :
    ∃ docs, t.kafkaSent = s.kafkaSent ++ docs ∧ (isSkippingChanges s = true → docs = []) := by
  unfold applyHandleChange at ht
  split at ht
  · cases ht
    exact ⟨[], (List.append_nil _).symm, fun _ => rfl⟩
  next hskip =>
    rw [h.handleStreamed] at ht
    obtain ⟨docs, hdocs⟩ := happly _ _ _ ht
    exact ⟨docs, hdocs, fun hs => (hskip hs).elim⟩

theorem Idle.kafkaSent_action (h : Idle s) (hchange : LogicalRepMsgType.isChange action = true)
    {dispatch : State → Bytes → Result State}
    (ht : applyAction cfg env dispatch s msg body action = .ok t) :
    ∃ docs, t.kafkaSent = s.kafkaSent ++ docs ∧ (LogicalRepMsgType.isRow action = false → docs = []) ∧
      (isSkippingChanges s = true → docs = []) := by
  cases action with
  | insert | update | delete =>
    simp only [applyAction, applyHandleInsert, applyHandleUpdate, applyHandleDelete] at ht
    obtain ⟨docs, hdocs, hskip⟩ := h.kafkaSent_change (fun s rest t hok => by
      simp only [bind_eq_ok] at hok
      obtain ⟨change, -, rel, -, hsend⟩ := hok
      obtain ⟨doc, hdoc⟩ := kafkaSent_kafkaSend hsend
      exact ⟨[doc], hdoc⟩) ht
    exact ⟨docs, hdocs, (fun hrow => by cases hrow), hskip⟩
  | truncate =>
    simp only [applyAction, applyHandleTruncate, applyHandleChange, h.handleStreamed] at ht
    refine ⟨[], ?_, fun _ => rfl, fun _ => rfl⟩
    rw [List.append_nil]
    split at ht
    · cases ht
      rfl
    · simp only [bind_eq_ok, pure_eq_ok, Except.ok.injEq, exists_eq_left'] at ht
      obtain ⟨relids, -, rels, -, rfl⟩ := ht
      rfl
  | relation =>
    simp only [applyAction, applyHandleRelation, h.handleStreamed, bind_eq_ok, pure_eq_ok,
      Except.ok.injEq, exists_eq_left'] at ht
    obtain ⟨rel, -, rfl⟩ := ht
    exact ⟨[], (List.append_nil _).symm, fun _ => rfl, fun _ => rfl⟩
  | type =>
    simp only [applyAction, applyHandleType, h.handleStreamed, bind_eq_ok, pure_eq_ok,
      Except.ok.injEq, exists_eq_left'] at ht
    obtain ⟨typ, -, rfl⟩ := ht
    exact ⟨[], (List.append_nil _).symm, fun _ => rfl, fun _ => rfl⟩
  | _ => cases hchange

abbrev Origin := Nat × Nat

def newDocs (s t : State) : List CJson := t.kafkaSent.drop s.kafkaSent.length

theorem newDocs_eq {docs : List CJson} (h : t.kafkaSent = s.kafkaSent ++ docs) : newDocs s t = docs := by
  rw [newDocs, h, List.drop_left]

def replayEvents (dispatch : State → Bytes → Result State) (x : Nat) :
    State → List Change → List (Origin × CJson)
  | _, [] => []
  | s, p :: l =>
    match dispatch s p.2 with
    | .ok t => (newDocs s t).map (fun doc => ((x, p.1), doc)) ++ replayEvents dispatch x t l
    | .error _ => []

def isRowRecord : Bytes → Bool
  | [] => false
  | a :: _ => (LogicalRepMsgType.ofByte a).any LogicalRepMsgType.isRow

theorem Idle.kafkaSent_record (h : Idle s) {r : Bytes} (hr : IsChangeRecord r)
    (ht : applyDispatch cfg env depth s r = .ok t) :
    ∃ docs, t.kafkaSent = s.kafkaSent ++ docs ∧ (isRowRecord r = false → docs = []) := by
  obtain ⟨action, rest, hchange, rfl⟩ := hr.action
  cases depth with
  | zero => cases ht
  | succ depth =>
    rw [applyDispatch, LogicalRepMsgType.ofByte_toByte] at ht
    obtain ⟨docs, hdocs, hrow, -⟩ := h.kafkaSent_action hchange ht
    refine ⟨docs, hdocs, fun hnot => hrow ?_⟩
    simpa [isRowRecord] using hnot

theorem Idle.mem_replayEvents (h : Idle s) {l : List Change} (hl : ∀ p ∈ l, IsChangeRecord p.2)
    {e : Origin × CJson} (he : e ∈ replayEvents (applyDispatch cfg env depth) x s l) :
    ∃ p ∈ l, e.1 = (x, p.1) ∧ isRowRecord p.2 = true := by
  induction l generalizing s with
  | nil => cases he
  | cons p l ih =>
    have hp := hl p List.mem_cons_self
    unfold replayEvents at he
    split at he
    next t ht =>
      rcases List.mem_append.mp he with he | he
      · obtain ⟨doc, hdoc, rfl⟩ := List.mem_map.mp he
        refine ⟨p, List.mem_cons_self, rfl, ?_⟩
        by_contra hrow
        obtain ⟨docs, hdocs, hnone⟩ := h.kafkaSent_record hp ht
        rw [newDocs_eq hdocs, hnone (by simpa using hrow)] at hdoc
        cases hdoc
      · obtain ⟨q, hq, heq, hrow⟩ := ih (h.touches (h.touches_record hp ht))
          (fun q hq => hl q (List.mem_cons_of_mem p hq)) he
        exact ⟨q, List.mem_cons_of_mem p hq, heq, hrow⟩
    next => cases he

theorem Idle.kafkaSent_foldlM (h : Idle s) {l : List Change} (hl : ∀ p ∈ l, IsChangeRecord p.2)
    (ht : (l.map (·.2)).foldlM (applyDispatch cfg env depth) s = .ok t) :
    t.kafkaSent = s.kafkaSent ++ (replayEvents (applyDispatch cfg env depth) x s l).map (·.2) := by
  induction l generalizing s with
  | nil =>
    obtain rfl := pure_eq_ok.mp ht
    exact (List.append_nil _).symm
  | cons p l ih =>
    have hp := hl p List.mem_cons_self
    rw [List.map_cons, List.foldlM_cons, bind_eq_ok] at ht
    obtain ⟨u, hu, ht⟩ := ht
    obtain ⟨docs, hdocs, -⟩ := h.kafkaSent_record hp hu
    have htail := ih (h.touches (h.touches_record hp hu)) (fun q hq => hl q (List.mem_cons_of_mem p hq)) ht
    rw [htail, hdocs, replayEvents, hu]
    dsimp only
    rw [newDocs_eq hdocs, List.map_append, List.map_map, List.append_assoc]
    congr 2
    exact (List.map_id docs).symm

def leaderEvents (cfg : Config) (env : Env) (depth : Nat) (s : State) (x lsn : Nat)
    (e : SpoolEntry) : List (Origin × CJson) :=
  if e.worker then []
  else replayEvents (applyDispatch cfg env depth) x (startReplay env s x lsn) e.changes

variable {L : Ledger} {b : Boundary} {e : SpoolEntry}

theorem kafkaSent_startReplay (env : Env) (s : State) (x lsn : Nat) :
    (startReplay env s x lsn).kafkaSent = s.kafkaSent := by
  obtain ⟨skip, hskip⟩ := maybeStartSkippingChanges_eq env s lsn
  unfold startReplay
  rw [hskip]
  rfl

theorem Inv.records (h : Inv L s b) (hL : L x = some e) (hworker : e.worker = false) :
    ∀ p ∈ e.changes, IsChangeRecord p.2 :=
  ((h.spools x).spooled e hL hworker).2.records

theorem Inv.kafkaSent_replay (h : Inv L s b) (hstream : b.stream = none) (hL : L x = some e)
    (hworker : e.worker = false) {lsn : Nat} {u : State}
    (hu : (e.changes.map (·.2)).foldlM (applyDispatch cfg env depth) (startReplay env s x lsn) = .ok u) :
    u.kafkaSent = s.kafkaSent ++ (leaderEvents cfg env depth s x lsn e).map (·.2) := by
  have hidle : Idle (startReplay env s x lsn) := (h.idle hstream).startReplay x lsn
  rw [leaderEvents, hworker, hidle.kafkaSent_foldlM (h.records hL hworker) hu, kafkaSent_startReplay]
  rfl

theorem Inv.worker_cases (h : Inv L s b) (hstream : b.stream = none) (hL : L x = some e) (hworker : e.worker = true) :
    getTransactionApplyAction s x = .leaderSendToParallel x ∨
      getTransactionApplyAction s x = .leaderPartialSerialize x := by
  have hw := (h.spools x).handed e hL hworker
  rcases (h.findsOwn (.inl hstream)).action_cases h.hash_zero with
    ⟨hnone, -⟩ | ⟨-, hact⟩ | ⟨-, hact⟩
  · exact (hw hnone).elim
  · exact .inl hact
  · exact .inr hact

theorem Inv.kafkaSent_streamCommit (h : Inv L s b) {d : LogicalRepCommitData}
    (hread : readMsg readStreamCommit body = .ok (x, d)) (hL : L x = some e)
    (ht : applyHandleStreamCommit (applyDispatch cfg env depth) env s msg body = .ok t) :
    t.kafkaSent = s.kafkaSent ++ (leaderEvents cfg env depth s x d.commitLsn e).map (·.2) := by
  have hstream : b.stream = none := by
    refine h.stream_none fun hin => ?_
    simp [applyHandleStreamCommit, hin] at ht
  cases hworker : e.worker with
  | false =>
    have hL' : L x = some (.spooled e.changes) := by
      rw [hL, SpoolEntry.spooled, ← hworker]
    rw [(h.replays hstream hL').streamCommit env depth msg body d hread, bind_eq_ok] at ht
    obtain ⟨u, hu, ht⟩ := ht
    rw [applyHandleCommitInternal_eq] at ht
    obtain rfl := streamCleanupFiles_ok ht
    have hsent := h.kafkaSent_replay hstream hL hworker hu
    exact hsent
  | true =>
    rw [leaderEvents, hworker, if_pos rfl, List.map_nil, List.append_nil]
    unfold applyHandleStreamCommit at ht
    split at ht
    · cases ht
    · rw [hread, ok_bind] at ht
      dsimp only at ht
      rcases h.worker_cases hstream hL hworker with hact | hact
      · rw [hact] at ht
        exact kafkaSent_paFinishTransaction ht
      · rw [hact] at ht
        exact kafkaSent_serializeAndFinish ht

theorem Inv.kafkaSent_streamPrepare (h : Inv L s b) {d : LogicalRepPreparedTxnData}
    (hread : readMsg readPrepareCommon body = .ok d) (hL : L d.xid = some e)
    (ht : applyHandleStreamPrepare (applyDispatch cfg env depth) env s msg body = .ok t) :
    t.kafkaSent = s.kafkaSent ++ (leaderEvents cfg env depth s d.xid d.prepareLsn e).map (·.2) := by
  have hstream : b.stream = none := by
    refine h.stream_none fun hin => ?_
    simp [applyHandleStreamPrepare, hin] at ht
  cases hworker : e.worker with
  | false =>
    have hL' : L d.xid = some (.spooled e.changes) := by
      rw [hL, SpoolEntry.spooled, ← hworker]
    rw [(h.replays hstream hL').streamPrepare env depth msg body d hread rfl, bind_eq_ok] at ht
    obtain ⟨u, hu, ht⟩ := ht
    cases hclean : streamCleanupFiles { commitTransactionCommand (streamCloseFile u) with
        inRemoteTransaction := false } d.xid with
    | error err =>
      rw [hclean] at ht
      cases ht
    | ok v =>
      rw [hclean] at ht
      cases ht
      obtain rfl := streamCleanupFiles_ok hclean
      have hsent := h.kafkaSent_replay hstream hL hworker hu
      exact hsent
  | true =>
    rw [leaderEvents, hworker, if_pos rfl, List.map_nil, List.append_nil]
    unfold applyHandleStreamPrepare at ht
    split at ht
    · cases ht
    · simp only [bind_eq_ok, pure_eq_ok] at ht
      obtain ⟨d', hread', u, hu, rfl⟩ := ht
      obtain rfl := Except.ok.inj (hread.symm.trans hread')
      unfold streamPrepareTransaction at hu
      rcases h.worker_cases hstream hL hworker with hact | hact
      · rw [hact] at hu
        have hsent := kafkaSent_paFinishTransaction hu
        exact hsent
      · rw [hact] at hu
        have hsent := kafkaSent_serializeAndFinish hu
        exact hsent

end CdcKafka.Apply
