import CdcKafka.Feedback.Position
import CdcKafka.Lib.Steps
import Mathlib.Data.Set.Basic

/-! The apply loop between the publisher and Kafka: messages are produced into
librdkafka's local queue while changes are applied, delivered at any later time,
and the flush position goes back to the publisher by `send_feedback`. -/

namespace CdcKafka.Feedback
open CdcKafka.Lib

structure KafkaMsg where
  endLsn : Option Lsn
  seq : Nat
deriving DecidableEq

/-- What a replication message makes the leader do, by its handler. Changes that
are spooled, handed to a parallel worker or skipped are `other`. -/
inductive LogicalMsg
  | other
  | change (sent : List KafkaMsg)
  | commit (skipping : Bool) (endLsn xactLastCommitEnd : Lsn)
  | prepare (endLsn : Lsn)
  | commitPrepared (endLsn xactLastCommitEnd : Lsn)
  | rollbackPrepared (endLsn : Lsn) (found : Bool)
  | streamCommit (spooled : List KafkaMsg) (skipping : Bool) (endLsn xactLastCommitEnd : Lsn)
  | streamPrepare (spooled : List KafkaMsg) (endLsn : Lsn)
  | parallelFinish (remoteLsn lastCommitEnd : Lsn)
deriving DecidableEq

structure State where
  positions : Positions
  lastReceived : Lsn
  /-- `IsTransactionState()` -/
  transactionState : Bool
  produced : List KafkaMsg
  delivered : List KafkaMsg
  failed : List KafkaMsg
  finished : List Lsn
  /-- The flush positions sent to the publisher, the last one first. -/
  reports : List Lsn
deriving DecidableEq

def State.init (startpos : Lsn) : State where
  positions := Positions.init
  lastReceived := startpos
  transactionState := false
  produced := []
  delivered := []
  failed := []
  finished := []
  reports := []

def State.applyChanges (s : State) (msgs : List KafkaMsg) : State :=
  { s with transactionState := true, produced := s.produced ++ msgs }

def State.store (s : State) (remoteLsn localLsn : Lsn) : State :=
  { s with positions := s.positions.storeFlushPosition remoteLsn localLsn }

def State.finish (s : State) (endLsn : Lsn) : State :=
  { s with transactionState := false, finished := endLsn :: s.finished }

def State.applyHandleCommitInternal (s : State) (skipping : Bool) (endLsn xactLastCommitEnd : Lsn) :
    State :=
  if skipping || s.transactionState then (s.store endLsn xactLastCommitEnd).finish endLsn
  else s.finish endLsn

def State.applyHandlePrepare (s : State) (endLsn : Lsn) : State :=
  (s.store endLsn invalidXLogRecPtr).finish endLsn

def State.paXactFinish (s : State) (remoteLsn lastCommitEnd : Lsn) : State :=
  if remoteLsn ≠ invalidXLogRecPtr then
    { s.store remoteLsn lastCommitEnd with finished := remoteLsn :: s.finished }
  else s

def State.applyDispatch (s : State) : LogicalMsg → State
  | .other => s
  | .change sent => s.applyChanges sent
  | .commit skipping endLsn localEnd => s.applyHandleCommitInternal skipping endLsn localEnd
  | .prepare endLsn => s.applyHandlePrepare endLsn
  | .commitPrepared endLsn localEnd => (s.store endLsn localEnd).finish endLsn
  | .rollbackPrepared endLsn found =>
    { s.store endLsn invalidXLogRecPtr with
      transactionState := !found && s.transactionState
      finished := endLsn :: s.finished }
  | .streamCommit spooled skipping endLsn localEnd =>
    (s.applyChanges spooled).applyHandleCommitInternal skipping endLsn localEnd
  | .streamPrepare spooled endLsn => (s.applyChanges spooled).applyHandlePrepare endLsn
  | .parallelFinish remoteLsn lastCommitEnd => s.paXactFinish remoteLsn lastCommitEnd

inductive Event
  | data (startLsn endLsn : Lsn) (msg : LogicalMsg)
  | keepalive (endLsn : Lsn) (replyRequested : Bool) (env : FeedbackEnv)
  | feedback (requestReply : Bool) (env : FeedbackEnv)
  /-- A parallel apply worker calls `kafka_send_optimized`. -/
  | workerSend (m : KafkaMsg)
  | deliver (m : KafkaMsg)
  | fail (m : KafkaMsg)

def State.receive (s : State) (lsn : Lsn) : State := { s with lastReceived := max s.lastReceived lsn }

def State.sendFeedback (s : State) (env : FeedbackEnv) (force requestReply : Bool) : State :=
  let r := s.positions.sendFeedback env s.lastReceived force requestReply
  { s with positions := r.1, reports := (r.2.map StatusUpdate.flushpos).toList ++ s.reports }

def State.step (s : State) : Event → State
  | .data startLsn endLsn msg => ((s.receive startLsn).receive endLsn).applyDispatch msg
  | .keepalive endLsn replyRequested env =>
    (s.receive endLsn).sendFeedback env replyRequested false
  | .feedback requestReply env => s.sendFeedback env requestReply requestReply
  | .workerSend m => { s with produced := s.produced ++ [m] }
  | .deliver m => { s with delivered := m :: s.delivered }
  | .fail m => { s with failed := m :: s.failed }

def State.Undelivered (s : State) (m : KafkaMsg) : Prop := m ∈ s.produced ∧ m ∉ s.delivered

def LogicalMsg.sent : LogicalMsg → List KafkaMsg
  | .change sent => sent
  | .streamCommit spooled _ _ _ => spooled
  | .streamPrepare spooled _ => spooled
  | _ => []

def LogicalMsg.endLsn? : LogicalMsg → Option Lsn
  | .commit _ e _ => some e
  | .prepare e => some e
  | .commitPrepared e _ => some e
  | .rollbackPrepared e _ => some e
  | .streamCommit _ _ e _ => some e
  | .streamPrepare _ e => some e
  | .parallelFinish e _ => if e ≠ invalidXLogRecPtr then some e else none
  | _ => none

section Stream

-- the end LSNs of the transactions the publisher sends in this run
variable (ends : Set Lsn)

def State.Open (s : State) (e : Lsn) : Prop := e ∈ ends ∧ e ∉ s.finished

def State.SentOpen (s : State) (m : KafkaMsg) : Prop := ∀ e, m.endLsn = some e → s.Open ends e

/-- What the publisher promises of the next event: no position of a message is
at or past the end of a transaction still to be finished, transactions finish in
the order of their end LSNs, and changes come before their transaction's end. -/
def State.Admissible (s : State) : Event → Prop
  | .data startLsn endLsn msg =>
    (∀ e, s.Open ends e → msg.endLsn? ≠ some e → startLsn < e ∧ endLsn < e) ∧
    (∀ e, msg.endLsn? = some e → (∀ e' ∈ s.finished, e' < e) ∧ ∀ e', s.Open ends e' → e' ≠ e → e < e') ∧
    ∀ m ∈ msg.sent, s.SentOpen ends m
  | .keepalive endLsn _ _ => ∀ e, s.Open ends e → endLsn < e
  | .feedback _ _ => True
  | .workerSend m => s.SentOpen ends m
  | .deliver m => s.Undelivered m ∧ m ∉ s.failed
  | .fail m => s.Undelivered m ∧ m ∉ s.failed

/-- Every undelivered message of a finished transaction is held back by an entry
of `lsn_mapping` at or before that transaction that is not flushed locally. -/
def State.HeldBack (s : State) (localFlush : Lsn) : Prop :=
  ∀ m, s.Undelivered m → ∀ e ∈ s.finished, m.endLsn = some e →
    ∃ pos ∈ s.positions.lsnMapping, pos.remoteEnd ≤ e ∧ localFlush < pos.localEnd

def State.FeedbackSafe (s : State) : Event → Prop
  | .keepalive _ _ env => s.HeldBack env.localFlush
  | .feedback _ env => s.HeldBack env.localFlush
  | _ => True

def Step (s : State) (ev : Event) (t : State) : Prop := s.Admissible ends ev ∧ t = s.step ev

def SafeStep (s : State) (ev : Event) (t : State) : Prop := Step ends s ev t ∧ s.FeedbackSafe ev

def State.AckedDelivered (s : State) : Prop :=
  ∀ f ∈ s.reports, ∀ e ∈ ends, e ≤ f → ∀ m ∈ s.produced, m.endLsn = some e → m ∈ s.delivered

def State.AckedFinished (s : State) : Prop :=
  ∀ f ∈ s.reports, ∀ e ∈ ends, e ≤ f → e ∈ s.finished

/-- The invariant of well-formed streams under the condition on feedback. While
the message that finishes the transaction ending at `x` is handled, the received
position may already be at its end. -/
structure Inv (x : Option Lsn) (s : State) : Prop where
  received : ∀ e, s.Open ends e → x ≠ some e → s.lastReceived < e
  recvpos : ∀ e, s.Open ends e → s.positions.lastRecvpos < e
  flushpos : ∀ e, s.Open ends e → s.positions.lastFlushpos < e
  mappingFinished : ∀ pos ∈ s.positions.lsnMapping, pos.remoteEnd ∈ s.finished
  mappingOpen : ∀ pos ∈ s.positions.lsnMapping, ∀ e, s.Open ends e → pos.remoteEnd < e
  sorted : s.positions.lsnMapping.Pairwise fun a b => a.remoteEnd < b.remoteEnd
  undelivered : ∀ m, s.Undelivered m → ∀ e, m.endLsn = some e → s.positions.lastFlushpos < e
  tagged : ∀ m ∈ s.produced, ∀ e, m.endLsn = some e → e ∈ ends
  reports : ∀ f ∈ s.reports, f ≤ s.positions.lastFlushpos

variable {ends : Set Lsn} {x : Option Lsn} {s : State}

theorem inv_init {startpos : Lsn} (h : ∀ e ∈ ends, startpos < e) : Inv ends none (State.init startpos) where
  received e he _ := h e he.1
  recvpos e he := lt_of_le_of_lt (Nat.zero_le _) (h e he.1)
  flushpos e he := lt_of_le_of_lt (Nat.zero_le _) (h e he.1)
  mappingFinished _ hpos := nomatch hpos
  mappingOpen _ hpos := nomatch hpos
  sorted := List.Pairwise.nil
  undelivered _ hm := nomatch hm.1
  tagged _ hm := nomatch hm
  reports _ hf := nomatch hf

theorem Inv.receive (h : Inv ends x s) {lsn : Lsn}
    (hlsn : ∀ e, s.Open ends e → x ≠ some e → lsn < e) : Inv ends x (s.receive lsn) :=
  { h with received := fun e he hx => max_lt (h.received e he hx) (hlsn e he hx) }

theorem Inv.exempt (h : Inv ends none s) (x : Option Lsn) : Inv ends x s :=
  { h with received := fun e he _ => h.received e he (by simp) }

theorem Inv.produce (h : Inv ends x s) {msgs : List KafkaMsg} (b : Bool) (hmsgs : ∀ m ∈ msgs, s.SentOpen ends m) :
    Inv ends x { s with transactionState := b, produced := s.produced ++ msgs } where
  __ := h
  undelivered m hm e he := by
    rcases List.mem_append.mp hm.1 with hold | hnew
    · exact h.undelivered m ⟨hold, hm.2⟩ e he
    · exact h.flushpos e (hmsgs m hnew e he)
  tagged m hm e he := by
    rcases List.mem_append.mp hm with hold | hnew
    · exact h.tagged m hold e he
    · exact (hmsgs m hnew e he).1

theorem Inv.finish {e : Lsn} (h : Inv ends (some e) s) (hfin : ∀ e' ∈ s.finished, e' < e)
    (hopen : ∀ e', s.Open ends e' → e' ≠ e → e < e') (b : Bool) {mapping : List FlushPosition}
    (hm : mapping = s.positions.lsnMapping ∨
      ∃ l, mapping = s.positions.lsnMapping ++ [{ localEnd := l, remoteEnd := e }]) :
    Inv ends none { s with
      positions := { s.positions with lsnMapping := mapping }
      transactionState := b
      finished := e :: s.finished } := by
  have hold : ∀ e', e' ∈ ends ∧ e' ∉ e :: s.finished → s.Open ends e' ∧ e' ≠ e := by
    rintro e' ⟨hends, hnot⟩
    rw [List.mem_cons, not_or] at hnot
    exact ⟨⟨hends, hnot.2⟩, hnot.1⟩
  have hmem : ∀ pos ∈ mapping, pos ∈ s.positions.lsnMapping ∨ pos.remoteEnd = e := by
    intro pos hpos
    rcases hm with rfl | ⟨l, rfl⟩
    · exact .inl hpos
    · rcases List.mem_append.mp hpos with hpos | hpos
      · exact .inl hpos
      · rw [List.mem_singleton.mp hpos]
        exact .inr rfl
  exact {
    received := fun e' he' _ => h.received e' (hold e' he').1 (by
      simpa [eq_comm] using (hold e' he').2)
    recvpos := fun e' he' => h.recvpos e' (hold e' he').1
    flushpos := fun e' he' => h.flushpos e' (hold e' he').1
    mappingFinished := fun pos hpos => by
      rcases hmem pos hpos with hpos | rfl
      · exact List.mem_cons_of_mem _ (h.mappingFinished pos hpos)
      · exact List.mem_cons_self ..
    mappingOpen := fun pos hpos e' he' => by
      rcases hmem pos hpos with hpos | rfl
      · exact h.mappingOpen pos hpos e' (hold e' he').1
      · exact hopen e' (hold e' he').1 (hold e' he').2
    sorted := by
      rcases hm with rfl | ⟨l, rfl⟩
      · exact h.sorted
      · refine List.pairwise_append.mpr ⟨h.sorted, List.pairwise_singleton _ _, ?_⟩
        intro pos hpos new hnew
        rw [List.mem_singleton.mp hnew]
        exact hfin _ (h.mappingFinished pos hpos)
    undelivered := h.undelivered
    tagged := h.tagged
    reports := h.reports }

theorem Inv.flushCandidate_lt_of_open (h : Inv ends none s) {localFlush e : Lsn}
    (he : s.Open ends e) : s.positions.flushCandidate localFlush s.lastReceived < e := by
  unfold Positions.flushCandidate FlushAnswer.flushOr
  split_ifs
  · rcases flushLoop_flush_mem localFlush s.positions.lsnMapping invalidXLogRecPtr
      invalidXLogRecPtr with hf | ⟨pos, hmem, hf⟩
    · rw [getFlushPosition, hf]
      exact lt_of_le_of_lt (Nat.zero_le _) (h.recvpos e he)
    · rw [getFlushPosition, hf]
      exact h.mappingOpen pos hmem e he
  · exact max_lt (h.received e he (by simp)) (h.recvpos e he)

theorem Inv.flushCandidate_lt (h : Inv ends none s) {localFlush : Lsn}
    (hheld : s.HeldBack localFlush) {m : KafkaMsg} (hm : s.Undelivered m) {e : Lsn}
    (he : m.endLsn = some e) : s.positions.flushCandidate localFlush s.lastReceived < e := by
  by_cases hfin : e ∈ s.finished
  · obtain ⟨pos, hmem, hle, hlocal⟩ := hheld m hm e hfin he
    have hpos : invalidXLogRecPtr < e :=
      lt_of_le_of_lt (Nat.zero_le _) (h.undelivered m hm e he)
    have hpending := flushLoop_pending (w := invalidXLogRecPtr) (f := invalidXLogRecPtr) hmem hlocal
    rw [Positions.flushCandidate, FlushAnswer.flushOr, getFlushPosition, if_pos hpending]
    exact flushLoop_flush_lt h.sorted hmem hlocal hle hpos
  · exact h.flushCandidate_lt_of_open ⟨h.tagged m hm.1 e he, hfin⟩

theorem Inv.sendFeedback (h : Inv ends none s) {env : FeedbackEnv}
    (hheld : s.HeldBack env.localFlush) (force requestReply : Bool) :
    Inv ends none (s.sendFeedback env force requestReply) := by
  obtain ⟨mapping, hsuffix, hcases⟩ :=
    sendFeedback_cases env s.lastReceived force requestReply s.positions
  have hfinished : ∀ pos ∈ mapping, pos.remoteEnd ∈ s.finished :=
    fun pos hpos => h.mappingFinished pos (hsuffix.subset hpos)
  have hopen : ∀ pos ∈ mapping, ∀ e, s.Open ends e → pos.remoteEnd < e :=
    fun pos hpos => h.mappingOpen pos (hsuffix.subset hpos)
  have hsorted : mapping.Pairwise fun a b => a.remoteEnd < b.remoteEnd :=
    h.sorted.sublist hsuffix.sublist
  rcases hcases with hnone | ⟨write, flush, hflush, hsome⟩
  · rw [State.sendFeedback, hnone]
    exact { h with mappingFinished := hfinished, mappingOpen := hopen, sorted := hsorted }
  · rw [State.sendFeedback, hsome]
    exact {
      received := h.received
      recvpos := fun e he => max_lt (h.received e he (by simp)) (h.recvpos e he)
      flushpos := fun e he => by
        rw [hflush]
        exact max_lt (h.flushCandidate_lt_of_open he) (h.flushpos e he)
      mappingFinished := hfinished
      mappingOpen := hopen
      sorted := hsorted
      undelivered := fun m hm e he => by
        rw [hflush]
        exact max_lt (h.flushCandidate_lt hheld hm he) (h.undelivered m hm e he)
      tagged := h.tagged
      reports := fun f hf => by
        rcases List.mem_cons.mp hf with rfl | hold
        · exact le_rfl
        · rw [hflush]
          exact (h.reports f hold).trans (le_max_right _ _) }

theorem Inv.data (h : Inv ends none s) {startLsn endLsn : Lsn} {msg : LogicalMsg}
    (hadm : s.Admissible ends (.data startLsn endLsn msg)) :
    Inv ends none (s.step (.data startLsn endLsn msg)) := by
  obtain ⟨hpos, hfinish, hsent⟩ := hadm
  have hrecv : Inv ends msg.endLsn? ((s.receive startLsn).receive endLsn) := by
    refine ((h.exempt _).receive ?_).receive ?_
    · exact fun e he hx => (hpos e he hx).1
    · exact fun e he hx => (hpos e he hx).2
  cases msg with
  | other => exact hrecv
  | change sent => exact hrecv.produce true hsent
  | commit skipping e localEnd =>
    obtain ⟨hfin, hopen⟩ := hfinish e rfl
    simp only [State.step, State.applyDispatch, State.applyHandleCommitInternal]
    split_ifs
    · exact hrecv.finish hfin hopen false (.inr ⟨localEnd, rfl⟩)
    · exact hrecv.finish hfin hopen false (.inl rfl)
  | prepare e =>
    obtain ⟨hfin, hopen⟩ := hfinish e rfl
    exact hrecv.finish hfin hopen false (.inr ⟨invalidXLogRecPtr, rfl⟩)
  | commitPrepared e localEnd =>
    obtain ⟨hfin, hopen⟩ := hfinish e rfl
    exact hrecv.finish hfin hopen false (.inr ⟨localEnd, rfl⟩)
  | rollbackPrepared e found =>
    obtain ⟨hfin, hopen⟩ := hfinish e rfl
    exact hrecv.finish hfin hopen _ (.inr ⟨invalidXLogRecPtr, rfl⟩)
  | streamCommit spooled skipping e localEnd =>
    obtain ⟨hfin, hopen⟩ := hfinish e rfl
    have hprod := hrecv.produce true hsent
    simp only [State.step, State.applyDispatch, State.applyHandleCommitInternal]
    split_ifs
    · exact hprod.finish hfin hopen false (.inr ⟨localEnd, rfl⟩)
    · exact hprod.finish hfin hopen false (.inl rfl)
  | streamPrepare spooled e =>
    obtain ⟨hfin, hopen⟩ := hfinish e rfl
    exact (hrecv.produce true hsent).finish hfin hopen false (.inr ⟨invalidXLogRecPtr, rfl⟩)
  | parallelFinish e localEnd =>
    by_cases he : e = invalidXLogRecPtr
    · have hnone : LogicalMsg.endLsn? (.parallelFinish e localEnd) = none := by
        simp [LogicalMsg.endLsn?, he]
      rw [hnone] at hrecv
      simpa [State.step, State.applyDispatch, State.paXactFinish, he] using hrecv
    · have hsome : LogicalMsg.endLsn? (.parallelFinish e localEnd) = some e := by
        simp [LogicalMsg.endLsn?, he]
      obtain ⟨hfin, hopen⟩ := hfinish e hsome
      rw [hsome] at hrecv
      simp only [State.step, State.applyDispatch, State.paXactFinish, if_pos he]
      exact hrecv.finish hfin hopen _ (.inr ⟨localEnd, rfl⟩)

theorem Inv.step {t : State} {ev : Event} (h : Inv ends none s) (hstep : SafeStep ends s ev t) : Inv ends none t := by
  obtain ⟨⟨hadm, rfl⟩, hsafe⟩ := hstep
  cases ev with
  | data startLsn endLsn msg => exact h.data hadm
  | keepalive endLsn replyRequested env =>
    exact (h.receive fun e he _ => hadm e he).sendFeedback hsafe replyRequested false
  | feedback requestReply env => exact h.sendFeedback hsafe requestReply requestReply
  | workerSend m =>
    exact h.produce s.transactionState fun m' hm' => by
      rw [List.mem_singleton.mp hm']
      exact hadm
  | deliver m =>
    exact { h with
      undelivered := fun m' hm' => h.undelivered m' ⟨hm'.1, fun hd => hm'.2 (List.mem_cons_of_mem _ hd)⟩ }
  | fail m => exact { h with }

theorem Inv.acked (h : Inv ends none s) : s.AckedDelivered ends ∧ s.AckedFinished ends := by
  constructor
  · intro f hf e _ hle m hm he
    by_contra hnot
    have hlt := h.undelivered m ⟨hm, hnot⟩ e he
    exact absurd (hle.trans (h.reports f hf)) (not_le.mpr hlt)
  · intro f hf e hends hle
    by_contra hnot
    have hlt := h.flushpos e ⟨hends, hnot⟩
    exact absurd (hle.trans (h.reports f hf)) (not_le.mpr hlt)

/-- No acknowledged change is lost in a run in which every feedback is sent from
a held-back state. -/
theorem acked_of_heldBack {startpos : Lsn} (hstart : ∀ e ∈ ends, startpos < e) {evs : List Event}
    {t : State} (hrun : Steps (SafeStep ends) (State.init startpos) evs t) :
    t.AckedDelivered ends ∧ t.AckedFinished ends :=
  (hrun.invariant (fun h hs => h.step hs) (inv_init hstart)).acked

end Stream

def oneMsg : KafkaMsg := { endLsn := some 100, seq := 0 }

def oneTxnRun (between : List Event) : List Event :=
  ([.data 50 50 (.change [oneMsg]), .data 100 100 (.commit false 100 16)] : List Event) ++ between ++
    ([.keepalive 100 true { localFlush := 16, statusInterval := 10, intervalExceeded := false }] : List Event)

theorem oneTxn_change_admissible : (State.init 0).Admissible {100} (.data 50 50 (.change [oneMsg])) := by
  refine ⟨fun e he _ => ?_, fun e he => by simp [LogicalMsg.endLsn?] at he, fun m hm e he => ?_⟩
  · rw [show e = 100 from he.1]
    exact ⟨by decide, by decide⟩
  · rw [List.mem_singleton.mp hm] at he
    exact ⟨(Option.some.inj he).symm, List.not_mem_nil⟩

theorem oneTxn_commit_admissible : ((State.init 0).step (.data 50 50 (.change [oneMsg]))).Admissible {100}
      (.data 100 100 (.commit false 100 16)) := by
  refine ⟨fun e he hne => ?_, fun e he => ⟨fun e' he' => absurd he' List.not_mem_nil, fun e' he' hne => ?_⟩,
    fun m hm => nomatch hm⟩
  · exact absurd (congrArg some (show e = 100 from he.1)) fun h => hne (h ▸ rfl)
  · exact absurd ((show e' = 100 from he'.1).trans (Option.some.inj he)) hne

/-- A keepalive right after the commit acknowledges the transaction while its
message is still in the local queue. -/
theorem acked_before_delivery : ¬ ∀ (startpos : Lsn) (ends : Set Lsn) (evs : List Event) (t : State),
      (∀ e ∈ ends, startpos < e) → Steps (Step ends) (State.init startpos) evs t → t.AckedDelivered ends := by
  intro h
  have hstart : ∀ e ∈ ({100} : Set Lsn), 0 < e := by
    rintro e rfl
    decide
  have hrun : Steps (Step {100}) (State.init 0) (oneTxnRun []) ((oneTxnRun []).foldl State.step (State.init 0)) :=
    .cons ⟨oneTxn_change_admissible, rfl⟩ (.cons ⟨oneTxn_commit_admissible, rfl⟩
      (.cons ⟨fun e he => absurd (he.1 ▸ List.mem_cons_self ..) he.2, rfl⟩ (.nil _)))
  have hlost := h 0 {100} _ _ hstart hrun 100 (by decide) 100 rfl le_rfl oneMsg (by decide) rfl
  exact absurd hlost (by decide)

/-- With the delivery report before the keepalive the same run loses nothing. -/
theorem acked_of_heldBack_delivered : ∃ t, Steps (SafeStep {100}) (State.init 0) (oneTxnRun [.deliver oneMsg]) t ∧
      t.reports = [100] ∧ t.AckedDelivered {100} ∧ t.AckedFinished {100} := by
  have hstart : ∀ e ∈ ({100} : Set Lsn), 0 < e := by
    rintro e rfl
    decide
  have hrun : Steps (SafeStep {100}) (State.init 0) (oneTxnRun [.deliver oneMsg])
      ((oneTxnRun [.deliver oneMsg]).foldl State.step (State.init 0)) := by
    refine .cons ⟨⟨oneTxn_change_admissible, rfl⟩, trivial⟩ (.cons ⟨⟨oneTxn_commit_admissible, rfl⟩, trivial⟩
        (.cons ⟨⟨⟨⟨by decide, by decide⟩, by decide⟩, rfl⟩, trivial⟩
          (.cons ⟨⟨fun e he => absurd (he.1 ▸ List.mem_cons_self ..) he.2, rfl⟩, ?_⟩ (.nil _))))
    rintro m ⟨hprod, hnot⟩
    exact absurd hprod hnot
  exact ⟨_, hrun, rfl, acked_of_heldBack hstart hrun⟩

end CdcKafka.Feedback
