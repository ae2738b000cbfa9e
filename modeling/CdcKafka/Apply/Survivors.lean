import CdcKafka.Apply.Step
import CdcKafka.Proto.Write

/-! What the leader replays of a transaction that it has spooled: over any interleaving of its
segments with other messages, the changes whose subtransactions were not rolled back. -/

namespace CdcKafka.Apply
open CdcKafka.Lib CdcKafka.Event CdcKafka.Json CdcKafka.Proto

variable {L : Ledger} {s t : State} {cfg : Config} {env : Env} {depth : Nat} {body : Bytes}
  {b : Boundary} {x : Nat} {l : List Change} {action : LogicalRepMsgType}

def spoolEventOf (cfg : Config) (x : Nat) (b : Boundary) (body : Bytes)
    (action : LogicalRepMsgType) : Option (LogEvent Nat Bytes) :=
  match action with
  | .streamAbort =>
    (readMsg (readStreamAbort cfg.parallelApply) body).toOption.bind fun d =>
      if d.xid = x then some (.abort d.subxid) else none
  | .insert | .update | .delete | .truncate | .relation | .type =>
    if b.stream = some x then
      (getMsgInt 4 body).toOption.map fun p => .change p.1 (action.toByte :: p.2)
    else none
  | _ => none

/-- After its first segment the transaction `x` is neither started again nor finished, and its
segments do not come inside a BEGIN and COMMIT. -/
def continuesWith (cfg : Config) (x : Nat) (b : Boundary) (body : Bytes) :
    LogicalRepMsgType → Bool
  | .streamStart => (readMsg readStreamStart body).toOption.all fun p => !(p.1 = x && p.2)
  | .streamAbort => (readMsg (readStreamAbort cfg.parallelApply) body).toOption.all fun d =>
      !(d.xid = x && d.subxid = x)
  | .streamCommit => (readMsg readStreamCommit body).toOption.all fun p => p.1 ≠ x
  | .streamPrepare => (readMsg readPrepareCommon body).toOption.all fun d => d.xid ≠ x
  | .insert | .update | .delete | .truncate => !(b.stream = some x) || (!b.txn && b.separated)
  | _ => true

theorem Ledger.change_eq (hx : L x = some (.spooled l)) (hchange : LogicalRepMsgType.isChange action = true) :
    L.change b body action x = some (.spooled ((spoolEventOf cfg x b body action).toList.foldl logStep l)) := by
  have hevent : spoolEventOf cfg x b body action = if b.stream = some x then
        (getMsgInt 4 body).toOption.map fun p => .change p.1 (action.toByte :: p.2)
      else none := by
    cases action with
    | insert | update | delete | truncate | relation | type => rfl
    | _ => cases hchange
  rw [hevent]
  unfold Ledger.change
  cases hstream : b.stream with
  | none => exact hx
  | some y =>
    cases hread : getMsgInt 4 body with
    | error e =>
      split
      · exact hx
      · exact hx
    | ok p =>
      by_cases hy : y = x
      · subst hy
        rw [if_pos rfl]
        show Function.update L y ((L y).map _) y = _
        rw [Function.update_self, hx]
        rfl
      · rw [if_neg fun h => hy (Option.some.inj h)]
        exact (Function.update_of_ne (Ne.symm hy) _ _).trans hx

theorem Inv.not_skipping_chunk (h : Inv L s b) (htxn : b.txn = false)
    (hsep : b.separated = true) : ¬ isSkippingChanges s = true := by
  have hskip : s.skipXactFinishLsn = 0 := h.not_skipping (by simp [Boundary.finishOther, htxn, hsep])
  simp [isSkippingChanges, hskip]

theorem Ledger.after_eq (h : Inv L s b) (hx : L x = some (.spooled l))
    (hcont : continuesWith cfg x b body action = true) :
    L.after cfg s t b body action x = some (.spooled ((spoolEventOf cfg x b body action).toList.foldl logStep l)) := by
  cases action with
  | insert | update | delete | truncate =>
    show (if isSkippingChanges s then L else L.change b body _) x = _
    by_cases hstream : b.stream = some x
    · have hout : b.txn = false ∧ b.separated = true := by
        simpa [continuesWith, hstream] using hcont
      rw [if_neg (h.not_skipping_chunk hout.1 hout.2)]
      exact Ledger.change_eq hx rfl
    · -- a change of another transaction, or outside any segment
      split
      · rw [spoolEventOf, if_neg hstream]
        exact hx
      · exact Ledger.change_eq hx rfl
  | relation | type => exact Ledger.change_eq hx rfl
  | streamStart =>
    show ((readMsg readStreamStart body).toOption.elim L fun p => L.start t p.1 p.2) x = _
    cases hread : (readMsg readStreamStart body).toOption with
    | none => exact hx
    | some p =>
      obtain ⟨y, first⟩ := p
      have hnot : y ≠ x ∨ first = false := by
        simpa [continuesWith, hread] using hcont
      show L.start t y first x = some (.spooled l)
      cases first with
      | true =>
        have hy : x ≠ y := Ne.symm (hnot.resolve_right nofun)
        exact (Function.update_of_ne hy _ _).trans hx
      | false => exact hx
  | streamAbort =>
    show ((readMsg (readStreamAbort cfg.parallelApply) body).toOption.elim L fun d => L.abort d.xid d.subxid) x = _
    unfold spoolEventOf
    cases hread : (readMsg (readStreamAbort cfg.parallelApply) body).toOption with
    | none => exact hx
    | some d =>
      have hnot : d.xid ≠ x ∨ d.subxid ≠ x := by
        simpa [continuesWith, hread] using hcont
      show L.abort d.xid d.subxid x = some (.spooled
        ((if d.xid = x then some (LogEvent.abort d.subxid) else none).toList.foldl logStep l))
      by_cases hd : d.xid = x
      · have hsub : x ≠ d.subxid := Ne.symm (hnot.resolve_left fun hne => hne hd)
        rw [hd, if_pos rfl, Ledger.abort, if_neg hsub, Function.update_self, hx]
        rfl
      · rw [if_neg hd, L.abort_of_ne d.subxid x (Ne.symm hd)]
        exact hx
  | streamCommit =>
    show ((readMsg readStreamCommit body).toOption.elim L fun p => L.finish p.1) x = _
    cases hread : (readMsg readStreamCommit body).toOption with
    | none => exact hx
    | some p =>
      have hne : p.1 ≠ x := by simpa [continuesWith, hread] using hcont
      exact (Function.update_of_ne (Ne.symm hne) _ _).trans hx
  | streamPrepare =>
    show ((readMsg readPrepareCommon body).toOption.elim L fun d => L.finish d.xid) x = _
    cases hread : (readMsg readPrepareCommon body).toOption with
    | none => exact hx
    | some d =>
      have hne : d.xid ≠ x := by simpa [continuesWith, hread] using hcont
      exact (Function.update_of_ne (Ne.symm hne) _ _).trans hx
  | _ => exact hx

def StartsFirst (x : Nat) (msg : Bytes) : Prop :=
  ∃ body, msg = LogicalRepMsgType.streamStart.toByte :: body ∧ readMsg readStreamStart body = .ok (x, true)

theorem Inv.started (h : Inv L s b) (hseg : SegmentOpen s b) {msg : Bytes}
    (hfits : msg.length < 2 ^ 30) (hstart : StartsFirst x msg)
    (ht : applyDispatch cfg env depth s msg = .ok t)
    (hmode : getTransactionApplyAction t x = .leaderSerialize) :
    ∃ M, Inv M t (b.next msg) ∧ SegmentOpen t (b.next msg) ∧ M x = some (.spooled []) := by
  obtain ⟨hinv, hseg'⟩ := h.dispatch hseg hfits ht
  refine ⟨_, hinv, hseg', ?_⟩
  obtain ⟨body, rfl, hread⟩ := hstart
  have hstream : (b.next (LogicalRepMsgType.streamStart.toByte :: body)).stream = some x := by
    rw [b.next_of_action (LogicalRepMsgType.ofByte_toByte _), Boundary.after, hread]
    rfl
  have hnone : t.parallelApplyTxnHash x = none := by
    rcases (hinv.findsOwn (.inr hstream)).action_cases hinv.hash_zero with
      ⟨hnone, -⟩ | ⟨-, hact⟩ | ⟨-, hact⟩
    · exact hnone
    · rw [hmode] at hact
      cases hact
    · rw [hmode] at hact
      cases hact
  rw [L.next_of_action (LogicalRepMsgType.ofByte_toByte _), Ledger.after, hread]
  show Function.update L x (some { worker := (t.parallelApplyTxnHash x).isSome, changes := [] }) x = some (.spooled [])
  rw [Function.update_self, hnone]
  rfl

/-- What the end of transaction `x` dispatches: the records `recs`, each once and in order, to
any dispatcher that leaves the file open and so also from STREAM COMMIT and STREAM PREPARE. -/
structure Replays (cfg : Config) (s : State) (x : Nat) (recs : List Bytes) : Prop where
  spooled : ∀ env lsn (dispatch : State → Bytes → Result State),
    (∀ t r u, dispatch t r = .ok u → u.streamFd = t.streamFd) →
    applySpooledMessages dispatch env s x lsn = (recs.foldlM dispatch (startReplay env s x lsn)).map streamCloseFile
  streamCommit : ∀ env depth msg body d, readMsg readStreamCommit body = .ok (x, d) →
    applyHandleStreamCommit (applyDispatch cfg env depth) env s msg body =
      recs.foldlM (applyDispatch cfg env depth) (startReplay env s x d.commitLsn) >>= fun t =>
        streamCleanupFiles (applyHandleCommitInternal (streamCloseFile t)) x
  streamPrepare : ∀ env depth msg body d, readMsg readPrepareCommon body = .ok d → d.xid = x →
    applyHandleStreamPrepare (applyDispatch cfg env depth) env s msg body =
      recs.foldlM (applyDispatch cfg env depth) (startReplay env s x d.prepareLsn) >>= fun t =>
        (streamCleanupFiles { commitTransactionCommand (streamCloseFile t) with
          inRemoteTransaction := false } x).map stopSkippingChanges

theorem Inv.replays (h : Inv L s b) (hstream : b.stream = none) (hx : L x = some (.spooled l)) :
    Replays cfg s x (l.map (·.2)) := by
  obtain ⟨hnone, hspooled⟩ : s.parallelApplyTxnHash x = none ∧ Spooled s x l :=
    (h.spools x).spooled _ hx rfl
  have hrecs : ∀ r ∈ l.map (·.2), IsChangeRecord r := fun _ hr => hspooled.isChangeRecord hr
  have hout : ¬ s.inStreamedTransaction = true := by
    rw [h.streamed, hstream]
    nofun
  have hact : getTransactionApplyAction s x = .leaderApply := by
    rcases (h.findsOwn (.inl hstream)).action_cases h.hash_zero with
      ⟨-, hact⟩ | ⟨hsome, -⟩ | ⟨hsome, -⟩
    · rw [hact, if_neg hout]
    · rw [hnone] at hsome
      cases hsome
    · rw [hnone] at hsome
      cases hsome
  refine ⟨?_, ?_, ?_⟩
  · intro env lsn dispatch hopen
    refine applySpooledMessages_of_open (P := fun t => t.streamFd.isNone = false) (fun _ ht => ht)
      hrecs (fun t r u _ ht hu => ?_) rfl hspooled.file
    rw [hopen t r u hu]
    exact ht
  · intro env depth msg body d hread
    unfold applyHandleStreamCommit
    rw [if_neg hout, hread, ok_bind]
    dsimp only
    rw [hact]
    dsimp only
    rw [applySpooledMessages_eq (h.idle hstream) _ depth hspooled.file hrecs, map_bind]
  · intro env depth msg body d hread hd
    subst hd
    unfold applyHandleStreamPrepare streamPrepareTransaction
    rw [if_neg hout, hread, ok_bind, hact]
    dsimp only
    rw [applySpooledMessages_eq (h.idle hstream) _ depth hspooled.file hrecs, map_bind]
    cases (l.map (·.2)).foldlM (applyDispatch cfg env depth) (startReplay env s d.xid d.prepareLsn) <;> rfl

theorem streamFive_fits : (writeStreamStart 5 true).length < 2 ^ 30 := by decide

theorem insertFive_fits : (writeInsert 5 1 [.null]).length < 2 ^ 30 := by decide

theorem stop_fits : writeStreamStop.length < 2 ^ 30 := by decide

theorem insertOne_fits : (writeInsert 0 1 [.null]).length < 2 ^ 30 := by decide

end CdcKafka.Apply
