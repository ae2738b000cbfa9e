import CdcKafka.Apply.Step
import CdcKafka.Proto.Write

/-! The protocol state of the leader apply worker over whole message sequences: the flags of
streamed and remote transactions, the open spool file and the skip position follow the
messages that open and close transactions. -/

namespace CdcKafka.Apply
open CdcKafka.Lib CdcKafka.Event CdcKafka.Json CdcKafka.Proto

variable {L : Ledger} {s t : State} {cfg : Config} {env : Env} {depth : Nat} {msg body : Bytes} {b : Boundary} {x : Nat}

def TransApplyAction.serializes : TransApplyAction → Bool
  | .leaderSerialize | .leaderPartialSerialize _ => true
  | _ => false

structure Consistent (cfg : Config) (s : State) (b : Boundary) : Prop where
  streamed : s.inStreamedTransaction = true ↔ b.stream.isSome = true
  streamXid : ∀ x, b.stream = some x ↔ s.streamXid = x ∧ x ≠ 0
  streamFd : s.streamFd ≠ none → s.inStreamedTransaction = true ∧
    (getTransactionApplyAction s s.streamXid).serializes = true
  remote : b.separated = true → s.inRemoteTransaction = b.txn
  skip : b.separated = true → s.skipXactFinishLsn ≠ 0 → s.inRemoteTransaction = true
  /-- The state in which a replay of the file of `x` has dispatched its first `n` records. -/
  replay : ∀ env depth x lsn recs n u, b.stream = none → s.changesFile x = some (spoolBytes recs) →
    (∀ r ∈ recs, IsChangeRecord r) →
    (recs.take n).foldlM (applyDispatch cfg env depth) (startReplay env s x lsn) = .ok u →
    u.inStreamedTransaction = false ∧ u.streamFd = some x ∧ u.inRemoteTransaction = true

theorem Inv.streamFd_serializes (h : Inv L s b) (hfd : s.streamFd ≠ none) : s.inStreamedTransaction = true ∧
      (getTransactionApplyAction s s.streamXid).serializes = true := by
  obtain ⟨x, hx⟩ := Option.ne_none_iff_exists'.mp hfd
  obtain ⟨hstream, hne⟩ := h.fd x hx
  have hin : s.inStreamedTransaction = true := by rw [h.streamed, hstream]; rfl
  refine ⟨hin, ?_⟩
  rw [h.streamXid_eq hstream]
  rcases (h.findsOwn (.inr hstream)).action_cases h.hash_zero with
    ⟨-, hact⟩ | ⟨hsend, -⟩ | ⟨-, hact⟩
  · rw [hact, if_pos hin]
    rfl
  · exact (hne hsend).elim
  · rw [hact]
    rfl

theorem Inv.stream_eq_some_iff (h : Inv L s b) (x : Nat) : b.stream = some x ↔ s.streamXid = x ∧ x ≠ 0 := by
  constructor
  · intro hstream
    refine ⟨h.streamXid_eq hstream, ?_⟩
    rintro rfl
    exact h.stream_ne hstream
  · rintro ⟨rfl, hne⟩
    cases hstream : b.stream with
    | none =>
      rw [h.streamXid, hstream] at hne
      exact (hne rfl).elim
    | some y => rw [h.streamXid_eq hstream]

theorem Inv.replaying (h : Inv L s b) (hstream : b.stream = none) {lsn : Nat} {recs : List Bytes}
    (hrecs : ∀ r ∈ recs, IsChangeRecord r) {u : State}
    (hu : recs.foldlM (applyDispatch cfg env depth) (startReplay env s x lsn) = .ok u) :
    u.inStreamedTransaction = false ∧ u.streamFd = some x ∧ u.inRemoteTransaction = true := by
  have hidle : Idle (startReplay env s x lsn) := (h.idle hstream).startReplay x lsn
  obtain ⟨tx, rels, docs, rfl⟩ := hidle.touches_foldlM hrecs hu
  exact ⟨hidle.notStreamed, rfl, rfl⟩

theorem consistent_of_applyMessages (cfg : Config) (depth : Nat) {msgs : List (Env × Message)}
    (ht : applyMessages cfg depth State.init msgs = .ok s) : Consistent cfg s (Boundary.start.over msgs) := by
  obtain ⟨L, h, -⟩ := inv_of_applyMessages inv_init (segmentOpen_none rfl) ht
  exact {
    streamed := by rw [h.streamed]
    streamXid := h.stream_eq_some_iff
    streamFd := h.streamFd_serializes
    remote := h.remote
    skip := h.skip
    replay := fun env depth x lsn recs n u hstream _ hrecs hu =>
      h.replaying hstream (fun r hr => hrecs r (List.mem_of_mem_take hr)) hu }

def skippedBegin : Env × Message :=
  ({ Env.leaderOnly with skiplsn := 10 }, ⟨writeBegin { finalLsn := 10, committime := 0, xid := 4 }, by decide⟩)

def skippedThenStreamed : List (Env × Message) :=
  [skippedBegin, (.leaderOnly, ⟨writeCommit { commitLsn := 10, endLsn := 11, committime := 0 }, by decide⟩),
    (.leaderOnly, ⟨writeStreamStart 5 true, by decide⟩)]

theorem consistent_skippedThenStreamed :
    ∃ s, applyMessages .sample 2 State.init skippedThenStreamed = .ok s ∧ s.streamFd = some 5 ∧
      Consistent .sample s (Boundary.start.over skippedThenStreamed) := by
  obtain ⟨s, hs, hfd⟩ := endsWith_eq_true (r := applyMessages .sample 2 State.init skippedThenStreamed)
    (p := fun s : State => s.streamFd = some 5) (by decide +kernel)
  exact ⟨s, hs, of_decide_eq_true hfd, consistent_of_applyMessages .sample 2 hs⟩

def rollbackInsideSkipped : List (Env × Message) :=
  [skippedBegin, (.leaderOnly, ⟨writeRollbackPrepared 8 9 0 0 3 (CStr.lit ['g']), by decide⟩)]

/-- The worker is left skipping outside any transaction. -/
theorem skipping_after_rollbackInsideSkipped : ∃ s, applyMessages .sample 2 State.init rollbackInsideSkipped = .ok s ∧
      s.skipXactFinishLsn ≠ 0 ∧ s.inRemoteTransaction = false := by
  obtain ⟨s, hs, h⟩ := endsWith_eq_true (r := applyMessages .sample 2 State.init rollbackInsideSkipped)
    (p := fun s : State => s.skipXactFinishLsn ≠ 0 ∧ s.inRemoteTransaction = false)
    (by decide +kernel)
  exact ⟨s, hs, of_decide_eq_true h⟩

end CdcKafka.Apply
