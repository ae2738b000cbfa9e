import Mathlib.Data.List.Pairwise
import Mathlib.Data.Nat.Basic
import Mathlib.Logic.Function.Basic
import CdcKafka.Lib.Steps

/-! The publisher's committed transactions in commit order, and the position of a
worker that receives them: an apply worker or a table synchronization worker. -/

namespace CdcKafka.TableSync

structure Txn (τ : Type) where
  finalLsn : Nat
  endLsn : Nat
  changes : List τ
  final_lt_end : finalLsn < endLsn

structure History (τ : Type) where
  txns : List (Txn τ)
  ordered : txns.Pairwise fun a b => a.endLsn ≤ b.finalLsn

/-- A worker's place in the history: the transactions before `next` are behind it,
and `inTxn` counts the changes handled of the transaction it is in. -/
structure Stream where
  next : Nat
  inTxn : Option Nat
  lastReceived : Nat
deriving DecidableEq

inductive StreamEvent
  | begin
  | change
  | commit
  | keepalive (endLsn : Nat)

variable {τ : Type} {hist : History τ} {st st' : Stream} {i j : Nat} {T : Txn τ}

def Stream.start (hist : History τ) (startpos : Nat) : Stream where
  next := hist.txns.findIdx fun T => startpos ≤ T.finalLsn
  inTxn := none
  lastReceived := startpos

def Stream.keepaliveOk (hist : History τ) (st : Stream) (endLsn : Nat) : Bool :=
  match hist.txns[st.next]? with
  | some T => endLsn ≤ T.finalLsn
  | none => true

def Stream.step (hist : History τ) (st : Stream) : StreamEvent → Option Stream
  | .begin =>
    match st.inTxn, hist.txns[st.next]? with
    | none, some _ => some { st with inTxn := some 0 }
    | _, _ => none
  | .change =>
    match st.inTxn, hist.txns[st.next]? with
    | some k, some T =>
      if k < T.changes.length then some { st with inTxn := some (k + 1) } else none
    | _, _ => none
  | .commit =>
    match st.inTxn, hist.txns[st.next]? with
    | some k, some T =>
      if k = T.changes.length then
        some { next := st.next + 1, inTxn := none, lastReceived := max st.lastReceived T.endLsn }
      else none
    | _, _ => none
  | .keepalive endLsn =>
    if st.keepaliveOk hist endLsn then
      some { st with lastReceived := max st.lastReceived endLsn }
    else none

def Stream.Past (st : Stream) (i j : Nat) : Prop :=
  i < st.next ∨ i = st.next ∧ ∃ k, st.inTxn = some k ∧ j < k

structure Stream.Sound (hist : History τ) (st : Stream) : Prop where
  split : ∀ i T, hist.txns[i]? = some T → (i < st.next ↔ T.finalLsn < st.lastReceived)
  inTxn_le : ∀ k, st.inTxn = some k → ∃ T, hist.txns[st.next]? = some T ∧ k ≤ T.changes.length

theorem end_le_final {i' : Nat} {T' : Txn τ} (hi : hist.txns[i]? = some T)
    (hi' : hist.txns[i']? = some T') (hlt : i < i') : T.endLsn ≤ T'.finalLsn := by
  obtain ⟨h, rfl⟩ := List.getElem?_eq_some_iff.mp hi
  obtain ⟨h', rfl⟩ := List.getElem?_eq_some_iff.mp hi'
  exact List.pairwise_iff_getElem.mp hist.ordered i i' h h' hlt

theorem final_lt_final {i' : Nat} {T' : Txn τ} (hi : hist.txns[i]? = some T)
    (hi' : hist.txns[i']? = some T') (hlt : i < i') : T.finalLsn < T'.finalLsn :=
  Nat.lt_of_lt_of_le T.final_lt_end (end_le_final hi hi' hlt)

theorem sound_start (hist : History τ) (startpos : Nat) : (Stream.start hist startpos).Sound hist where
  split i T hi := by
    obtain ⟨hlt, hget⟩ := List.getElem?_eq_some_iff.mp hi
    show i < hist.txns.findIdx _ ↔ T.finalLsn < startpos
    constructor
    · intro hnext
      have hnot := List.not_of_lt_findIdx hnext
      simpa [hget] using hnot
    · intro hfinal
      by_contra hge
      have hle := Nat.le_of_not_lt hge
      have hfound := Nat.lt_of_le_of_lt hle hlt
      have hstart := of_decide_eq_true (List.findIdx_getElem (w := hfound))
      rcases Nat.eq_or_lt_of_le hle with heq | hless
      · simp only [heq, hget] at hstart
        omega
      · have hmono := final_lt_final (List.getElem?_eq_getElem hfound) hi hless
        omega
  inTxn_le := nofun

theorem Stream.Sound.le_final (h : st.Sound hist) (hi : hist.txns[i]? = some T)
    (hle : st.next ≤ i) : st.lastReceived ≤ T.finalLsn := by
  have hsplit := h.split i T hi
  omega

theorem Stream.Sound.commit (h : st.Sound hist) (hT : hist.txns[st.next]? = some T) :
    Stream.Sound hist { next := st.next + 1, inTxn := none,
                        lastReceived := max st.lastReceived T.endLsn } where
  split i T' hi := by
    show i < st.next + 1 ↔ T'.finalLsn < max st.lastReceived T.endLsn
    have hlast := h.le_final hT (Nat.le_refl _)
    have hcommit := T.final_lt_end
    have hsplit := h.split i T' hi
    rcases Nat.lt_trichotomy i st.next with hlt | heq | hgt
    · omega
    · rw [heq, hT] at hi
      obtain rfl := Option.some.inj hi
      omega
    · have hend := end_le_final hT hi hgt
      omega
  inTxn_le := nofun

theorem Stream.Sound.keepalive (h : st.Sound hist) {endLsn : Nat} (hk : st.keepaliveOk hist endLsn = true) :
    Stream.Sound hist { st with lastReceived := max st.lastReceived endLsn } where
  split i T hi := by
    show i < st.next ↔ T.finalLsn < max st.lastReceived endLsn
    have hsplit := h.split i T hi
    by_cases hlt : i < st.next
    · omega
    · have hle := Nat.le_of_not_lt hlt
      obtain ⟨hilen, -⟩ := List.getElem?_eq_some_iff.mp hi
      have hnext := List.getElem?_eq_getElem (Nat.lt_of_le_of_lt hle hilen)
      simp only [Stream.keepaliveOk, hnext, decide_eq_true_eq] at hk
      have hlast := h.le_final hi hle
      rcases Nat.eq_or_lt_of_le hle with heq | hless
      · rw [← heq, hnext] at hi
        obtain rfl := Option.some.inj hi
        omega
      · have hmono := final_lt_final hnext hi hless
        omega
  inTxn_le := h.inTxn_le

theorem Stream.step_cases {ev : StreamEvent} (h : st.step hist ev = some st') :
    (ev = .begin ∧ st.inTxn = none ∧ st' = { st with inTxn := some 0 } ∧ ∃ T, hist.txns[st.next]? = some T) ∨
    (∃ k T, ev = .change ∧ st.inTxn = some k ∧ hist.txns[st.next]? = some T ∧
      k < T.changes.length ∧ st' = { st with inTxn := some (k + 1) }) ∨
    (∃ T, ev = .commit ∧ hist.txns[st.next]? = some T ∧ st.inTxn = some T.changes.length ∧
      st' = { next := st.next + 1, inTxn := none,
              lastReceived := max st.lastReceived T.endLsn }) ∨
    ∃ endLsn, ev = .keepalive endLsn ∧ st.keepaliveOk hist endLsn = true ∧
      st' = { st with lastReceived := max st.lastReceived endLsn } := by
  cases ev with
  | begin =>
    simp only [Stream.step] at h
    split at h
    next hin hT => exact .inl ⟨rfl, hin, (Option.some.inj h).symm, _, hT⟩
    next => simp at h
  | change =>
    simp only [Stream.step] at h
    split at h
    next k T hin hT =>
      rw [Option.ite_none_right_eq_some] at h
      exact .inr (.inl ⟨k, T, rfl, hin, hT, h.1, (Option.some.inj h.2).symm⟩)
    next => simp at h
  | commit =>
    simp only [Stream.step] at h
    split at h
    next k T hin hT =>
      rw [Option.ite_none_right_eq_some] at h
      obtain ⟨rfl, hst⟩ := h
      exact .inr (.inr (.inl ⟨T, rfl, hT, hin, (Option.some.inj hst).symm⟩))
    next => simp at h
  | keepalive endLsn =>
    simp only [Stream.step] at h
    rw [Option.ite_none_right_eq_some] at h
    exact .inr (.inr (.inr ⟨endLsn, rfl, h.1, (Option.some.inj h.2).symm⟩))

theorem Stream.Sound.step {ev : StreamEvent} (h : st.Sound hist)
    (hs : st.step hist ev = some st') : st'.Sound hist := by
  rcases Stream.step_cases hs with ⟨-, -, rfl, T, hT⟩ | ⟨k, T, -, -, hT, hk, rfl⟩ |
    ⟨T, -, hT, -, rfl⟩ | ⟨endLsn, -, hk, rfl⟩
  · exact { h with inTxn_le := fun k hk => ⟨T, hT, by simp [← Option.some.inj hk]⟩ }
  · exact { h with inTxn_le := fun k' hk' => ⟨T, hT, by
      obtain rfl := Option.some.inj hk'
      exact hk⟩ }
  · exact h.commit hT
  · exact h.keepalive hk

theorem Stream.le_step {ev : StreamEvent} (hs : st.step hist ev = some st') : st.lastReceived ≤ st'.lastReceived := by
  rcases Stream.step_cases hs with ⟨-, -, rfl, -⟩ | ⟨k, T, -, -, -, -, rfl⟩ | ⟨T, -, -, -, rfl⟩ | ⟨endLsn, -, -, rfl⟩
  · exact Nat.le_refl _
  · exact Nat.le_refl _
  · exact Nat.le_max_left _ _
  · exact Nat.le_max_left _ _

theorem Stream.past_step {ev : StreamEvent} (hs : st.step hist ev = some st')
    (hi : hist.txns[i]? = some T) (hj : j < T.changes.length) :
    st'.Past i j ↔ st.Past i j ∨ ev = .change ∧ i = st.next ∧ st.inTxn = some j := by
  rcases Stream.step_cases hs with ⟨rfl, hin, rfl, -⟩ | ⟨k, T', rfl, hin, hT, hk, rfl⟩ |
    ⟨T', rfl, hT, hin, rfl⟩ | ⟨endLsn, rfl, hk, rfl⟩
  · simp [Stream.Past, hin]
  · simp only [Stream.Past, hin, Option.some.injEq, exists_eq_left', true_and]
    omega
  · simp only [Stream.Past, hin, Option.some.injEq, exists_eq_left', reduceCtorEq, false_and,
      exists_false, and_false, or_false]
    constructor
    · intro hlt
      rcases Nat.lt_succ_iff_lt_or_eq.mp hlt with hlt | rfl
      · exact .inl hlt
      · rw [hT] at hi
        obtain rfl := Option.some.inj hi
        exact .inr ⟨rfl, hj⟩
    · rintro (hlt | ⟨rfl, -⟩) <;> omega
  · simp [Stream.Past]

end CdcKafka.TableSync

/-! The leader apply worker and the table synchronization workers: the copy of each
table, the SYNCWAIT, CATCHUP, SYNCDONE and READY hand-off, and the row change events
each worker sends to Kafka. -/

namespace CdcKafka.TableSync
open CdcKafka.Lib

inductive Catalog
  | init
  | datasync
  | finishedCopy
  | syncdone (lsn : Nat)
  | ready (lsn : Nat)
deriving DecidableEq

/-- A table synchronization worker. In `syncwait` and `catchup` the start position and
the target are `relstate_lsn`; `syncdone` is the state in shared memory, before the
catalog has it. -/
inductive SyncWorker
  | absent
  | started
  | datasync
  | slot (startpos : Nat)
  | copied (startpos : Nat)
  | syncwait (startpos : Nat)
  | catchup (startpos target : Nat) (stream : Stream)
  | syncdone (startpos lsn : Nat)
  | exited
deriving DecidableEq

structure Table where
  catalog : Catalog
  worker : SyncWorker
  /-- The position of the snapshot whose rows `copy_table` has sent. -/
  snapshot : Option Nat
  handoff : Option Nat
deriving DecidableEq

inductive WorkerType (τ : Type)
  | apply
  | tablesync (relid : τ)
deriving DecidableEq

/-- A row change event sent to Kafka for change `idx` of transaction `txn`, with the
answer `should_apply_changes_for_rel` gives at that moment. -/
structure Emission (τ : Type) where
  txn : Nat
  idx : Nat
  worker : WorkerType τ
  guarded : Bool
deriving DecidableEq

structure State (τ : Type) where
  leader : Stream
  waiting : Option τ
  tables : τ → Table
  emitted : List (Emission τ)

variable {τ : Type} [DecidableEq τ]

def State.init (hist : History τ) (startpos : Nat) : State τ where
  leader := Stream.start hist startpos
  waiting := none
  tables := fun _ => { catalog := .init, worker := .absent, snapshot := none, handoff := none }
  emitted := []

def shouldApplyChangesForRel (worker : WorkerType τ) (rel : τ) (state : Catalog)
    (remoteFinalLsn : Nat) : Bool :=
  match worker with
  | .tablesync relid => relid = rel
  | .apply =>
    match state with
    | .ready _ => true
    | .syncdone statelsn => statelsn ≤ remoteFinalLsn
    | _ => false

def State.dispatch (hist : History τ) (s : State τ) (worker : WorkerType τ) (st : Stream) :
    StreamEvent → List (Emission τ)
  | .change =>
    match st.inTxn, hist.txns[st.next]? with
    | some k, some T =>
      match T.changes[k]? with
      | some rel =>
        [{ txn := st.next, idx := k, worker := worker,
           guarded := shouldApplyChangesForRel worker rel (s.tables rel).catalog T.finalLsn }]
      | none => []
    | _, _ => []
  | _ => []

inductive Event (τ : Type)
  | leader (ev : StreamEvent)
  | leaderLaunch (rel : τ)
  | leaderCatchup (rel : τ)
  | leaderResume
  | leaderReady (rel : τ)
  | syncStart (rel : τ)
  | syncSlot (rel : τ) (startpos : Nat)
  | syncCopy (rel : τ)
  | syncWait (rel : τ)
  | sync (rel : τ) (ev : StreamEvent)
  | syncFinish (rel : τ)
  | syncPersist (rel : τ)

/-- The leader reaches `process_syncing_tables` outside transactions only, and not
while it waits for a table. -/
def State.leaderFree (s : State τ) : Bool := s.waiting.isNone && s.leader.inTxn.isNone

def State.setTable (s : State τ) (rel : τ) (tbl : Table) : State τ :=
  { s with tables := Function.update s.tables rel tbl }

def State.step (hist : History τ) (s : State τ) : Event τ → Option (State τ)
  | .leader ev =>
    if s.waiting.isNone then
      (s.leader.step hist ev).map fun st =>
        { s with leader := st, emitted := s.emitted ++ s.dispatch hist .apply s.leader ev }
    else none
  | .leaderLaunch rel =>
    match s.leaderFree, (s.tables rel).catalog, (s.tables rel).worker with
    | true, .init, .absent => some (s.setTable rel { s.tables rel with worker := .started })
    | _, _, _ => none
  | .leaderCatchup rel =>
    match s.leaderFree, (s.tables rel).worker with
    | true, .syncwait startpos =>
      some { s.setTable rel { s.tables rel with
               worker := .catchup startpos (max startpos s.leader.lastReceived)
                 (Stream.start hist startpos) } with
             waiting := some rel }
    | _, _ => none
  | .leaderResume =>
    match s.waiting with
    | some rel =>
      match (s.tables rel).catalog with
      | .syncdone _ => some { s with waiting := none }
      | _ => none
    | none => none
  | .leaderReady rel =>
    match s.leaderFree, (s.tables rel).catalog with
    | true, .syncdone lsn =>
      if lsn ≤ s.leader.lastReceived then
        some (s.setTable rel { s.tables rel with catalog := .ready s.leader.lastReceived })
      else none
    | _, _ => none
  | .syncStart rel =>
    match (s.tables rel).worker with
    | .started =>
      some (s.setTable rel { s.tables rel with worker := .datasync, catalog := .datasync })
    | _ => none
  | .syncSlot rel startpos =>
    match (s.tables rel).worker with
    | .datasync => some (s.setTable rel { s.tables rel with worker := .slot startpos })
    | _ => none
  | .syncCopy rel =>
    match (s.tables rel).worker with
    | .slot startpos =>
      some (s.setTable rel { s.tables rel with worker := .copied startpos,
                                               snapshot := some startpos })
    | _ => none
  | .syncWait rel =>
    match (s.tables rel).worker with
    | .copied startpos =>
      some (s.setTable rel { s.tables rel with worker := .syncwait startpos,
                                               catalog := .finishedCopy })
    | _ => none
  | .sync rel ev =>
    match (s.tables rel).worker with
    | .catchup startpos target st =>
      (st.step hist ev).map fun st' =>
        { s.setTable rel { s.tables rel with worker := .catchup startpos target st' } with
          emitted := s.emitted ++ s.dispatch hist (.tablesync rel) st ev }
    | _ => none
  | .syncFinish rel =>
    match (s.tables rel).worker with
    | .catchup startpos target st =>
      if st.inTxn = none ∧ target ≤ st.lastReceived then
        some (s.setTable rel { s.tables rel with worker := .syncdone startpos st.lastReceived })
      else none
    | _ => none
  | .syncPersist rel =>
    match (s.tables rel).worker with
    | .syncdone _ lsn =>
      some (s.setTable rel { s.tables rel with worker := .exited, catalog := .syncdone lsn,
                                               handoff := some lsn })
    | _ => none

def State.visible (s : State τ) (rel : τ) (T : Txn τ) : Bool :=
  match (s.tables rel).snapshot with
  | some startpos => T.finalLsn < startpos
  | none => false

def State.events (s : State τ) (i j : Nat) : Nat :=
  s.emitted.countP fun e => e.txn = i ∧ e.idx = j

def State.deliveries (s : State τ) (i j : Nat) (rel : τ) (T : Txn τ) : Nat :=
  (if s.visible rel T then 1 else 0) + s.events i j

def State.Complete (s : State τ) (i : Nat) (rel : τ) : Prop :=
  (∃ lsn, (s.tables rel).handoff = some lsn) ∧ i < s.leader.next

def State.DeliveredOnce (s : State τ) (i j : Nat) (rel : τ) (T : Txn τ) : Prop :=
  s.deliveries i j rel T ≤ 1 ∧ (s.Complete i rel → s.deliveries i j rel T = 1)

def Step (hist : History τ) (s : State τ) (ev : Event τ) (t : State τ) : Prop :=
  s.step hist ev = some t

def State.sends (hist : History τ) (s : State τ) : Event τ → List (Emission τ)
  | .leader ev => s.dispatch hist .apply s.leader ev
  | .sync rel ev =>
    match (s.tables rel).worker with
    | .catchup _ _ st => s.dispatch hist (.tablesync rel) st ev
    | _ => []
  | _ => []

def State.GuardHolds (hist : History τ) (s : State τ) (ev : Event τ) : Prop :=
  ∀ e ∈ s.sends hist ev, e.guarded = true

instance (hist : History τ) (s : State τ) (ev : Event τ) : Decidable (s.GuardHolds hist ev) :=
  inferInstanceAs (Decidable (∀ e ∈ s.sends hist ev, e.guarded = true))

def GuardedStep (hist : History τ) (s : State τ) (ev : Event τ) (t : State τ) : Prop :=
  Step hist s ev t ∧ s.GuardHolds hist ev

end CdcKafka.TableSync
