import CdcKafka.Apply.Sent
import CdcKafka.Proto.Publish
import Mathlib.Algebra.Order.Group.Multiset

/-! A table of the publisher and the one that a consumer builds from the events: they differ by
the rows that were in the table when it was truncated. -/

namespace CdcKafka.Apply
open CdcKafka.Lib CdcKafka.Event CdcKafka.Json CdcKafka.Proto

structure PublishedTable where
  rel : Relation
  cols : ColumnList
  full : rel.replidentFull = true

abbrev Values := Nat → Option CStr

abbrev Row := List (Option CStr)

def Values.slot (v : Values) : TupleTableSlot := fun i =>
  match v i with
  | none => .null
  | some typoutput => .value typoutput none

def PublishedTable.row (tab : PublishedTable) (v : Values) : Row :=
  (tab.rel.desc.zipIdx.filter fun p => logicalrepShouldPublishColumn tab.cols p.1).map fun p => v p.2

inductive TableOp
  | insert (new : Values)
  | update (old new : Values)
  | delete (old : Values)
  | truncate (cascade restartSeqs : Bool)

def PublishedTable.apply (tab : PublishedTable) (T : Multiset Row) : TableOp → Multiset Row
  | .insert new => tab.row new ::ₘ T
  | .update old new => tab.row new ::ₘ T.erase (tab.row old)
  | .delete old => T.erase (tab.row old)
  | .truncate _ _ => 0

def PublishedTable.Valid (tab : PublishedTable) : Multiset Row → List TableOp → Prop
  | _, [] => True
  | T, op :: ops =>
    (match op with
      | .update old _ | .delete old => tab.row old ∈ T
      | _ => True) ∧ tab.Valid (tab.apply T op) ops

def PublishedTable.TruncatesEmpty (tab : PublishedTable) : Multiset Row → List TableOp → Prop
  | _, [] => True
  | T, op :: ops =>
    (match op with
      | .truncate _ _ => T = 0
      | _ => True) ∧ tab.TruncatesEmpty (tab.apply T op) ops

structure Txn where
  xid : UInt32
  finalLsn : UInt64
  endLsn : UInt64
  commitTime : UInt64
  steps : List (Bool × TableOp)
  lsn_ne : finalLsn ≠ 0

def Txn.ops (txn : Txn) : List TableOp := txn.steps.map (·.2)

def PublishedTable.change (tab : PublishedTable) : TableOp → Published
  | .insert new => .insert 0 tab.rel new.slot false tab.cols
  | .update old new => .update 0 tab.rel (some old.slot) new.slot false tab.cols
  | .delete old => .delete 0 tab.rel old.slot false tab.cols
  | .truncate cascade restartSeqs => .truncate 0 [tab.rel.relid] cascade restartSeqs

def PublishedTable.changes (tab : PublishedTable) : Bool → List (Bool × TableOp) → List Published
  | _, [] => []
  | schemaSent, (invalidated, op) :: steps =>
    (if schemaSent && !invalidated then [] else [.relation 0 tab.rel tab.cols]) ++
      tab.change op :: tab.changes true steps

def PublishedTable.transaction (tab : PublishedTable) (schemaSent : Bool) (txn : Txn) :
    List Published :=
  .begin txn.finalLsn txn.commitTime txn.xid ::
    (tab.changes schemaSent txn.steps ++ [.commit txn.finalLsn txn.endLsn txn.commitTime])

def PublishedTable.history (tab : PublishedTable) : Bool → List Txn → List Published
  | _, [] => []
  | schemaSent, txn :: txns =>
    tab.transaction schemaSent txn ++ tab.history (schemaSent || !txn.steps.isEmpty) txns

def dispatchAll (cfg : Config) (env : Env) (depth : Nat) (s : State) (msgs : List Published) :
    Result State :=
  msgs.foldlM (fun s m => applyDispatch cfg env depth s m.bytes) s

def memberOf (event : CJson) (key : CStr) : Option CJson :=
  match event with
  | .object child => (child.find? fun p => p.1 = key).map (·.2)
  | _ => none

def cellOf : CJson → Option CStr
  | .string valuestring => some valuestring
  | _ => none

def imageOf (event : CJson) (key : CStr) : Row :=
  match memberOf event key with
  | some (.array child) => child.map cellOf
  | _ => []

/-- An insert adds `after`, an update replaces `before` by `after`, a delete removes `before`. -/
def consume (T : Multiset Row) (event : CJson) : Multiset Row :=
  match memberOf event opName with
  | some (.string op) =>
    if op = CStr.lit ['I'] then imageOf event afterKey ::ₘ T
    else if op = CStr.lit ['U'] then imageOf event afterKey ::ₘ T.erase (imageOf event beforeKey)
    else if op = CStr.lit ['D'] then T.erase (imageOf event beforeKey)
    else T
  | _ => T

variable {tab : PublishedTable} {s t : State} {cfg : Config} {env : Env} {depth : Nat}

def PublishedTable.remoteRel (tab : PublishedTable) : RemoteRel where
  nspname := tab.rel.nsp.nspname
  relname := tab.rel.relname
  attnames := (publishedAttrs tab.rel tab.cols).map (·.attname)

def PublishedTable.tuple (tab : PublishedTable) (v : Values) : TupleData :=
  publishedTuple tab.rel tab.cols false v.slot

def PublishedTable.rowChange (tab : PublishedTable) : TableOp → Option RowChange
  | .insert new => some (.insert tab.remoteRel (tab.tuple new))
  | .update old new => some (.update tab.remoteRel (some (tab.tuple old)) (tab.tuple new))
  | .delete old => some (.delete tab.remoteRel (tab.tuple old))
  | .truncate _ _ => none

theorem cellOf_columnToJson (v : Values) (i : Nat) : cellOf (columnToJson ((v.slot i).column false)) = v i := by
  unfold Values.slot
  cases v i with
  | none => rfl
  | some c =>
    show some (CStr.ofBytes c.bytes) = some c
    rw [CStr.ofBytes_bytes]

theorem cells_tuple (tab : PublishedTable) (v : Values) : ((tab.tuple v).map columnToJson).map cellOf = tab.row v := by
  rw [PublishedTable.tuple, publishedTuple, PublishedTable.row, List.map_map, List.map_map]
  exact List.map_congr_left fun p _ => cellOf_columnToJson v p.2

theorem length_tuple (tab : PublishedTable) (v : Values) : (tab.tuple v).length = tab.remoteRel.attnames.length := by
  rw [PublishedTable.tuple, length_publishedTuple, PublishedTable.remoteRel, List.length_map, length_publishedAttrs]

theorem attnamesToJson_tuple (tab : PublishedTable) (v : Values) : attnamesToJson tab.remoteRel (tab.tuple v).length =
      some (.array ((tab.remoteRel.attnames.take (tab.tuple v).length).map CJson.string)) :=
  if_pos (length_tuple tab v).le

def PublishedTable.events (tab : PublishedTable) (db : CStr) (op : TableOp) : List CJson :=
  ((tab.rowChange op).bind (RowChange.toJson db)).toList

theorem memberOf_op (op : Char) (db table : CStr) (attnames : CJson) (images : List (CStr × CJson)) :
    memberOf (.object (eventHead op db table attnames ++ images)) opName = some (.string (CStr.lit [op])) := by
  simp [memberOf, eventHead]

theorem memberOf_image {op : Char} {db table : CStr} {attnames : CJson}
    {images : List (CStr × CJson)} {key : CStr} (hkey : key = beforeKey ∨ key = afterKey) :
    memberOf (.object (eventHead op db table attnames ++ images)) key = memberOf (.object images) key := by
  have hop : opName ≠ key := by rcases hkey with rfl | rfl <;> decide
  have hdb : dbName ≠ key := by rcases hkey with rfl | rfl <;> decide
  have htable : tableKey ≠ key := by rcases hkey with rfl | rfl <;> decide
  have hnames : attnamesKey ≠ key := by rcases hkey with rfl | rfl <;> decide
  simp [memberOf, eventHead, hop, hdb, htable, hnames]

theorem imageOf_tuple (tab : PublishedTable) {event : CJson} {key : CStr} {v : Values}
    (h : memberOf event key = some (arrayOfTuple (tab.tuple v))) : imageOf event key = tab.row v := by
  unfold imageOf
  rw [h]
  exact cells_tuple tab v

theorem consume_insert (T : Multiset Row) (db table : CStr) (attnames : CJson) (new : Values) :
    consume T (.object (eventHead 'I' db table attnames ++ [(afterKey, arrayOfTuple (tab.tuple new))])) =
      tab.row new ::ₘ T := by
  unfold consume
  rw [memberOf_op]
  dsimp only
  rw [if_pos rfl, imageOf_tuple tab (v := new)]
  rw [memberOf_image (.inr rfl)]
  simp [memberOf]

theorem consume_update (T : Multiset Row) (db table : CStr) (attnames : CJson) (old new : Values) :
    consume T (.object (eventHead 'U' db table attnames ++
        [(beforeKey, arrayOfTuple (tab.tuple old)), (afterKey, arrayOfTuple (tab.tuple new))])) =
      tab.row new ::ₘ T.erase (tab.row old) := by
  unfold consume
  rw [memberOf_op]
  dsimp only
  rw [if_neg (by decide), if_pos rfl, imageOf_tuple tab (v := new), imageOf_tuple tab (v := old)]
  · rw [memberOf_image (.inl rfl)]
    simp [memberOf]
  · have hne : beforeKey ≠ afterKey := by decide
    rw [memberOf_image (.inr rfl)]
    simp [memberOf, hne]

theorem consume_delete (T : Multiset Row) (db table : CStr) (attnames : CJson) (old : Values) :
    consume T (.object (eventHead 'D' db table attnames ++
        [(beforeKey, arrayOfTuple (tab.tuple old))])) = T.erase (tab.row old) := by
  unfold consume
  rw [memberOf_op]
  dsimp only
  rw [if_neg (by decide), if_neg (by decide), if_pos rfl, imageOf_tuple tab (v := old)]
  rw [memberOf_image (.inl rfl)]
  simp [memberOf]

def lostBy (T : Multiset Row) : TableOp → Multiset Row
  | .truncate _ _ => T
  | _ => 0

theorem consume_events {db : CStr} {T lost : Multiset Row} {op : TableOp} (hvalid : tab.Valid T [op]) :
    (tab.events db op).foldl consume (T + lost) = tab.apply T op + (lostBy T op + lost) := by
  cases op with
  | truncate cascade restartSeqs =>
    show T + lost = 0 + (T + lost)
    rw [zero_add]
  | insert new =>
    have hdoc : (tab.rowChange (.insert new)).bind (RowChange.toJson db) =
        (attnamesToJson tab.remoteRel (tab.tuple new).length).bind fun attnames =>
          some (.object (eventHead 'I' db (tableName tab.remoteRel) attnames ++
            [(afterKey, arrayOfTuple (tab.tuple new))])) := rfl
    rw [PublishedTable.events, hdoc, attnamesToJson_tuple, Option.bind_some, Option.toList_some,
      List.foldl_cons, List.foldl_nil, consume_insert]
    show _ = tab.row new ::ₘ T + (0 + lost)
    rw [zero_add, Multiset.cons_add]
  | update old new =>
    have hdoc : (tab.rowChange (.update old new)).bind (RowChange.toJson db) =
        (attnamesToJson tab.remoteRel (tab.tuple new).length).bind fun attnames =>
          some (.object (eventHead 'U' db (tableName tab.remoteRel) attnames ++
            [(beforeKey, arrayOfTuple (tab.tuple old)), (afterKey, arrayOfTuple (tab.tuple new))])) := rfl
    rw [PublishedTable.events, hdoc, attnamesToJson_tuple, Option.bind_some, Option.toList_some,
      List.foldl_cons, List.foldl_nil, consume_update, Multiset.erase_add_left_pos _ hvalid.1]
    show _ = tab.row new ::ₘ T.erase (tab.row old) + (0 + lost)
    rw [zero_add, Multiset.cons_add]
  | delete old =>
    have hdoc : (tab.rowChange (.delete old)).bind (RowChange.toJson db) =
        (attnamesToJson tab.remoteRel (tab.tuple old).length).bind fun attnames =>
          some (.object (eventHead 'D' db (tableName tab.remoteRel) attnames ++
            [(beforeKey, arrayOfTuple (tab.tuple old))])) := rfl
    rw [PublishedTable.events, hdoc, attnamesToJson_tuple, Option.bind_some, Option.toList_some,
      List.foldl_cons, List.foldl_nil, consume_delete, Multiset.erase_add_left_pos _ hvalid.1]
    show _ = T.erase (tab.row old) + (0 + lost)
    rw [zero_add]

def PublishedTable.table (tab : PublishedTable) (T : Multiset Row) (ops : List TableOp) :
    Multiset Row := ops.foldl tab.apply T

def PublishedTable.lost (tab : PublishedTable) : Multiset Row → List TableOp → Multiset Row
  | _, [] => 0
  | T, op :: ops => lostBy T op + tab.lost (tab.apply T op) ops

theorem consume_ops (db : CStr) {T : Multiset Row} (lost : Multiset Row) {ops : List TableOp}
    (hvalid : tab.Valid T ops) :
    (ops.flatMap (tab.events db)).foldl consume (T + lost) = tab.table T ops + (tab.lost T ops + lost) := by
  induction ops generalizing T lost with
  | nil =>
    show T + lost = T + (0 + lost)
    rw [zero_add]
  | cons op ops ih =>
    rw [List.flatMap_cons, List.foldl_append, consume_events ⟨hvalid.1, trivial⟩, ih _ hvalid.2]
    show _ = tab.table (tab.apply T op) ops + (lostBy T op + tab.lost (tab.apply T op) ops + lost)
    rw [add_assoc (lostBy T op), add_left_comm (lostBy T op)]

theorem lostBy_eq_zero {T : Multiset Row} {op : TableOp} : lostBy T op = 0 ↔ match op with
      | .truncate _ _ => T = 0
      | _ => True := by
  cases op with
  | truncate cascade restartSeqs => exact Iff.rfl
  | insert new | update old new | delete old => exact ⟨fun _ => trivial, fun _ => rfl⟩

theorem lost_eq_zero {T : Multiset Row} {ops : List TableOp} : tab.lost T ops = 0 ↔ tab.TruncatesEmpty T ops := by
  induction ops generalizing T with
  | nil => exact ⟨fun _ => trivial, fun _ => rfl⟩
  | cons op ops ih =>
    show lostBy T op + tab.lost (tab.apply T op) ops = 0 ↔ _
    rw [← Multiset.card_eq_zero, Multiset.card_add, Nat.add_eq_zero_iff, Multiset.card_eq_zero,
      Multiset.card_eq_zero, ih, lostBy_eq_zero]
    exact Iff.rfl

theorem consume_ops_eq_iff {db : CStr} {T : Multiset Row} {ops : List TableOp} (hvalid : tab.Valid T ops) :
    (ops.flatMap (tab.events db)).foldl consume T = tab.table T ops ↔ tab.TruncatesEmpty T ops := by
  have hconsume := consume_ops db 0 hvalid
  rw [add_zero, add_zero] at hconsume
  rw [hconsume, ← lost_eq_zero]
  exact add_eq_left

structure Delivers (env : Env) (tab : PublishedTable) : Prop where
  skiplsn : env.skiplsn = 0
  relOpens : env.relOpens tab.rel.relid.toNat = true
  kafkaSends : env.kafkaSends = true

structure Following (tab : PublishedTable) (schemaSent : Bool) (s : State) : Prop where
  idle : Idle s
  skip : s.skipXactFinishLsn = 0
  known : schemaSent = true → s.relMap tab.rel.relid.toNat = some tab.remoteRel

theorem readMsg_of_reads {α : Type} {r : MsgReader α} {body : Bytes} {a : α} (h : Reads r body a) :
    readMsg r body = .ok a := by
  have hread := h []
  rw [List.append_nil] at hread
  rw [readMsg, hread]

theorem dispatch_begin (s : State) (cfg : Config) (depth : Nat) (henv : Delivers env tab) (txn : Txn) :
    applyDispatch cfg env (depth + 1) s (Published.begin txn.finalLsn txn.commitTime txn.xid).bytes =
      .ok { s with remoteFinalLsn := txn.finalLsn.toNat, inRemoteTransaction := true } := by
  have hread := readMsg_of_reads (reads_begin
    (d := ⟨txn.finalLsn.toNat, txn.commitTime.toNat, txn.xid.toNat⟩) (toNat_ne_zero txn.lsn_ne)
    txn.finalLsn.toNat_lt txn.commitTime.toNat_lt txn.xid.toNat_lt)
  show applyHandleBegin env s _ = _
  rw [applyHandleBegin, hread, ok_bind]
  dsimp only
  rw [maybeStartSkippingChanges, if_pos (.inl henv.skiplsn)]
  rfl

theorem dispatch_commit (cfg : Config) (env : Env) (depth : Nat) (txn : Txn)
    (hlsn : s.remoteFinalLsn = txn.finalLsn.toNat) :
    applyDispatch cfg env (depth + 1) s (Published.commit txn.finalLsn txn.endLsn txn.commitTime).bytes =
      .ok { s with skipXactFinishLsn := 0, isTransactionState := false,
                   inRemoteTransaction := false } := by
  have hread := readMsg_of_reads (reads_commit (d := ⟨txn.finalLsn.toNat, txn.endLsn.toNat, txn.commitTime.toNat⟩)
    txn.finalLsn.toNat_lt txn.endLsn.toNat_lt txn.commitTime.toNat_lt)
  show applyHandleCommit s _ = _
  rw [applyHandleCommit, hread, ok_bind, if_neg (fun hne => hne hlsn.symm), applyHandleCommitInternal_eq]
  rfl

theorem Idle.dispatch_relation (h : Idle s) (cfg : Config) (env : Env) (depth : Nat) (tab : PublishedTable) :
    applyDispatch cfg env (depth + 1) s (Published.relation 0 tab.rel tab.cols).bytes =
      .ok { s with relMap := Function.update s.relMap tab.rel.relid.toNat (some tab.remoteRel) } := by
  have hread := readMsg_of_reads (reads_publishedRel tab.rel tab.cols)
  show applyHandleRelation env s _ (encodeBE 4 _ ++ _) = _
  rw [applyHandleRelation, h.handleStreamed, ok_bind]
  dsimp only
  rw [hread]
  rfl

theorem Following.handleChange {schemaSent : Bool} (h : Following tab schemaSent s)
    (env : Env) (action : LogicalRepMsgType) (msg body : Bytes) (apply : State → Bytes → Result State) :
    applyHandleChange env s action msg body apply = apply (beginReplicationStep s) body := by
  rw [applyHandleChange, isSkippingChanges, h.skip, h.idle.handleStreamed]
  rfl

theorem Following.relOpen (h : Following tab true s) (henv : Delivers env tab) :
    logicalrepRelOpen env (beginReplicationStep s) tab.rel.relid.toNat = .ok tab.remoteRel := by
  have hknown : (beginReplicationStep s).relMap tab.rel.relid.toNat = some tab.remoteRel :=
    h.known rfl
  rw [logicalrepRelOpen, hknown]
  exact if_pos henv.relOpens

theorem kafkaSend_rowChange (tab : PublishedTable) {op : TableOp} {change : RowChange}
    (hchange : tab.rowChange op = some change) (hsends : env.kafkaSends = true) :
    kafkaSend cfg env s change = .ok { s with kafkaSent := s.kafkaSent ++ tab.events cfg.dbname op } := by
  have hevents : tab.events cfg.dbname op = (change.toJson cfg.dbname).toList := by
    rw [PublishedTable.events, hchange]
    rfl
  have hdoc : ∃ doc, change.toJson cfg.dbname = some doc := by
    cases op with
    | truncate cascade restartSeqs => cases hchange
    | insert new | update old new | delete old =>
      obtain rfl := Option.some.inj hchange
      exact ⟨_, congrArg (Option.bind · _) (attnamesToJson_tuple tab _)⟩
  obtain ⟨doc, hdoc⟩ := hdoc
  rw [kafkaSend, hevents, hdoc]
  exact if_pos hsends

theorem Following.dispatch_change (h : Following tab true s) (cfg : Config) (depth : Nat)
    (henv : Delivers env tab) {op : TableOp}
    (hfits : (tab.change op).bytes.length < 2 ^ 30) :
    applyDispatch cfg env (depth + 1) s (tab.change op).bytes =
      .ok { s with isTransactionState := true,
                   kafkaSent := s.kafkaSent ++ tab.events cfg.dbname op } := by
  cases op with
  | insert new =>
    have hread := readMsg_of_reads (reads_publishedInsert hfits)
    show applyHandleInsert cfg env s _ (encodeBE 4 _ ++ _) = _
    rw [applyHandleInsert, h.handleChange, hread, ok_bind]
    dsimp only
    rw [h.relOpen henv, ok_bind]
    exact kafkaSend_rowChange tab rfl henv.kafkaSends
  | update old new =>
    have hread := readMsg_of_reads (reads_publishedUpdate hfits)
    show applyHandleUpdate cfg env s _ (encodeBE 4 _ ++ _) = _
    rw [applyHandleUpdate, h.handleChange, hread, ok_bind]
    dsimp only
    rw [h.relOpen henv, ok_bind]
    exact kafkaSend_rowChange tab rfl henv.kafkaSends
  | delete old =>
    have hread := readMsg_of_reads (reads_publishedDelete hfits)
    show applyHandleDelete cfg env s _ (encodeBE 4 _ ++ _) = _
    rw [applyHandleDelete, h.handleChange, hread, ok_bind]
    dsimp only
    rw [h.relOpen henv, ok_bind]
    exact kafkaSend_rowChange tab rfl henv.kafkaSends
  | truncate cascade restartSeqs =>
    have hread := readMsg_of_reads (reads_publishedTruncate hfits)
    show applyHandleTruncate env s _ (encodeBE 4 _ ++ _) = _
    rw [applyHandleTruncate, h.handleChange, hread, ok_bind]
    dsimp only
    rw [List.map_singleton, List.mapM_cons, h.relOpen henv]
    show Except.ok _ = Except.ok _
    rw [PublishedTable.events]
    simp [PublishedTable.rowChange, beginReplicationStep]

theorem dispatchAll_cons {m : Published} {msgs : List Published} (h : applyDispatch cfg env depth s m.bytes = .ok t) :
    dispatchAll cfg env depth s (m :: msgs) = dispatchAll cfg env depth t msgs := by
  unfold dispatchAll
  rw [List.foldlM_cons, h]
  rfl

theorem dispatchAll_append {msgs msgs' : List Published} (h : dispatchAll cfg env depth s msgs = .ok t) :
    dispatchAll cfg env depth s (msgs ++ msgs') = dispatchAll cfg env depth t msgs' := by
  unfold dispatchAll at h ⊢
  rw [List.foldlM_append, h]
  rfl

/-- The messages of `tab` lead from `s` to `t` and the documents of `ops` are sent on the way. -/
structure Leads (cfg : Config) (tab : PublishedTable) (schemaSent : Bool) (ops : List TableOp)
    (s t : State) : Prop where
  following : Following tab schemaSent t
  sent : t.kafkaSent = s.kafkaSent ++ ops.flatMap (tab.events cfg.dbname)

theorem Following.announced {schemaSent : Bool} (h : Following tab schemaSent s) (cfg : Config)
    (env : Env) (depth : Nat) (invalidated : Bool) (msgs : List Published) :
    ∃ t, dispatchAll cfg env (depth + 1) s
        ((if schemaSent && !invalidated then [] else [.relation 0 tab.rel tab.cols]) ++ msgs) =
          dispatchAll cfg env (depth + 1) t msgs ∧
      Following tab true t ∧ t.remoteFinalLsn = s.remoteFinalLsn ∧ t.kafkaSent = s.kafkaSent := by
  by_cases hsent : (schemaSent && !invalidated) = true
  · rw [if_pos hsent]
    rw [Bool.and_eq_true] at hsent
    exact ⟨s, rfl, ⟨h.idle, h.skip, fun _ => h.known hsent.1⟩, rfl, rfl⟩
  · rw [if_neg hsent]
    exact ⟨_, dispatchAll_cons (h.idle.dispatch_relation cfg env depth tab),
      ⟨⟨h.idle.notStreamed, h.idle.noXid⟩, h.skip, fun _ => Function.update_self _ _ _⟩, rfl, rfl⟩

theorem Following.sending (h : Following tab true s) (tx : Bool) (docs : List CJson) :
    Following tab true { s with isTransactionState := tx, kafkaSent := docs } :=
  ⟨⟨h.idle.notStreamed, h.idle.noXid⟩, h.skip, h.known⟩

theorem Following.dispatch_changes {schemaSent : Bool} (h : Following tab schemaSent s)
    (cfg : Config) (depth : Nat) (henv : Delivers env tab) {steps : List (Bool × TableOp)}
    (hfits : ∀ m ∈ tab.changes schemaSent steps, m.bytes.length < 2 ^ 30) :
    ∃ t, dispatchAll cfg env (depth + 1) s (tab.changes schemaSent steps) = .ok t ∧
      t.remoteFinalLsn = s.remoteFinalLsn ∧
      Leads cfg tab (schemaSent || !steps.isEmpty) (steps.map (·.2)) s t := by
  induction steps generalizing schemaSent s with
  | nil =>
    refine ⟨s, rfl, rfl, ?_, (List.append_nil _).symm⟩
    simpa using h
  | cons step steps ih =>
    obtain ⟨invalidated, op⟩ := step
    obtain ⟨u, hu, hfollow, hlsn, hsent⟩ := h.announced cfg env depth invalidated
      (tab.change op :: tab.changes true steps)
    have hop : (tab.change op).bytes.length < 2 ^ 30 := hfits _ (by simp [PublishedTable.changes])
    have hdisp := hfollow.dispatch_change cfg depth henv hop
    have hnext := hfollow.sending true (u.kafkaSent ++ tab.events cfg.dbname op)
    obtain ⟨t, ht, hlsn', hleads⟩ := ih hnext fun m hm =>
      hfits m (List.mem_append_right _ (List.mem_cons_of_mem _ hm))
    refine ⟨t, ?_, hlsn'.trans hlsn, ?_, ?_⟩
    · rw [PublishedTable.changes, hu, dispatchAll_cons hdisp, ht]
    · simpa using hleads.following
    · rw [hleads.sent, List.map_cons, List.flatMap_cons, hsent, List.append_assoc]

theorem Following.dispatch_transaction {schemaSent : Bool} (h : Following tab schemaSent s)
    (cfg : Config) (depth : Nat) (henv : Delivers env tab) {txn : Txn}
    (hfits : ∀ m ∈ tab.transaction schemaSent txn, m.bytes.length < 2 ^ 30) :
    ∃ t, dispatchAll cfg env (depth + 1) s (tab.transaction schemaSent txn) = .ok t ∧
      Leads cfg tab (schemaSent || !txn.steps.isEmpty) txn.ops s t := by
  have hbegin := dispatch_begin s cfg depth henv txn
  have hopen : Following tab schemaSent { s with
      remoteFinalLsn := txn.finalLsn.toNat, inRemoteTransaction := true } :=
    ⟨⟨h.idle.notStreamed, h.idle.noXid⟩, h.skip, h.known⟩
  obtain ⟨t, ht, hlsn, hleads⟩ := hopen.dispatch_changes cfg depth henv fun m hm =>
    hfits m (List.mem_cons_of_mem _ (List.mem_append_left _ hm))
  have hcommit := dispatch_commit cfg env depth txn hlsn
  refine ⟨{ t with skipXactFinishLsn := 0, isTransactionState := false,
                    inRemoteTransaction := false }, ?_, ?_, hleads.sent⟩
  · rw [PublishedTable.transaction, dispatchAll_cons hbegin, dispatchAll_append ht, dispatchAll_cons hcommit]
    rfl
  · exact ⟨⟨hleads.following.idle.notStreamed, hleads.following.idle.noXid⟩, rfl, hleads.following.known⟩

theorem Following.dispatch_history {schemaSent : Bool} (h : Following tab schemaSent s)
    (cfg : Config) (depth : Nat) (henv : Delivers env tab) {txns : List Txn}
    (hfits : ∀ m ∈ tab.history schemaSent txns, m.bytes.length < 2 ^ 30) :
    ∃ t, dispatchAll cfg env (depth + 1) s (tab.history schemaSent txns) = .ok t ∧
      t.kafkaSent = s.kafkaSent ++ (txns.flatMap Txn.ops).flatMap (tab.events cfg.dbname) := by
  induction txns generalizing schemaSent s with
  | nil => exact ⟨s, rfl, (List.append_nil _).symm⟩
  | cons txn txns ih =>
    obtain ⟨u, hu, hleads⟩ := h.dispatch_transaction cfg depth henv fun m hm =>
      hfits m (List.mem_append_left _ hm)
    obtain ⟨t, ht, hsent⟩ := ih hleads.following fun m hm => hfits m (List.mem_append_right _ hm)
    refine ⟨t, ?_, ?_⟩
    · rw [PublishedTable.history, dispatchAll_append hu, ht]
    · rw [hsent, hleads.sent, List.flatMap_cons, List.flatMap_append, List.append_assoc]

theorem mem_history_of_take {schemaSent : Bool} {txns : List Txn} {n : Nat} {m : Published}
    (h : m ∈ tab.history schemaSent (txns.take n)) : m ∈ tab.history schemaSent txns := by
  induction txns generalizing schemaSent n with
  | nil =>
    rw [List.take_nil] at h
    exact h
  | cons txn txns ih =>
    cases n with
    | zero => cases h
    | succ n =>
      rw [List.take_succ_cons] at h
      rcases List.mem_append.mp h with h | h
      · exact List.mem_append_left _ h
      · exact List.mem_append_right _ (ih h)

theorem PublishedTable.Valid.of_append {T : Multiset Row} {ops ops' : List TableOp}
    (h : tab.Valid T (ops ++ ops')) : tab.Valid T ops := by
  induction ops generalizing T with
  | nil => trivial
  | cons op ops ih => exact ⟨h.1, ih h.2⟩

theorem PublishedTable.TruncatesEmpty.of_append {T : Multiset Row} {ops ops' : List TableOp}
    (h : tab.TruncatesEmpty T (ops ++ ops')) : tab.TruncatesEmpty T ops := by
  induction ops generalizing T with
  | nil => trivial
  | cons op ops ih => exact ⟨h.1, ih h.2⟩

theorem ops_take_append (txns : List Txn) (n : Nat) :
    (txns.take n).flatMap Txn.ops ++ (txns.drop n).flatMap Txn.ops = txns.flatMap Txn.ops := by
  rw [← List.flatMap_append, List.take_append_drop]

theorem following_init (tab : PublishedTable) : Following tab false State.init :=
  ⟨⟨rfl, rfl⟩, rfl, nofun⟩

theorem Published.length_bytes_lt {m : Published} (h : m.write.isSome = true) : m.bytes.length < 2 ^ 30 := by
  unfold Published.write at h
  split at h
  next hfits => exact hfits
  next => cases h

/-- After each transaction the consumer has the publisher's rows, exactly if no row was in the
table when it was truncated. -/
theorem reconstructs_iff (cfg : Config) (depth : Nat) (henv : Delivers env tab) {T : Multiset Row}
    {txns : List Txn} (hvalid : tab.Valid T (txns.flatMap Txn.ops))
    (hwritten : ∀ m ∈ tab.history false txns, m.write.isSome = true) :
    (∀ n, ∃ s, dispatchAll cfg env (depth + 1) State.init (tab.history false (txns.take n)) = .ok s) ∧
      ((∀ n s, dispatchAll cfg env (depth + 1) State.init (tab.history false (txns.take n)) = .ok s →
          s.kafkaSent.foldl consume T = tab.table T ((txns.take n).flatMap Txn.ops)) ↔
        tab.TruncatesEmpty T (txns.flatMap Txn.ops)) := by
  have hrun : ∀ n, ∃ s, dispatchAll cfg env (depth + 1) State.init (tab.history false (txns.take n)) = .ok s ∧
      s.kafkaSent = ((txns.take n).flatMap Txn.ops).flatMap (tab.events cfg.dbname) :=
    fun n => (following_init tab).dispatch_history cfg depth henv fun m hm =>
      Published.length_bytes_lt (hwritten m (mem_history_of_take hm))
  refine ⟨fun n => ?_, fun hall => ?_, fun hempty n s hs => ?_⟩
  · obtain ⟨s, hs, -⟩ := hrun n
    exact ⟨s, hs⟩
  · -- the last transaction decides
    obtain ⟨s, hs, hsent⟩ := hrun txns.length
    have htable := hall txns.length s hs
    rw [hsent, List.take_length] at htable
    exact (consume_ops_eq_iff hvalid).mp htable
  · obtain ⟨t, ht, hsent⟩ := hrun n
    obtain rfl := Except.ok.inj (hs.symm.trans ht)
    rw [← ops_take_append txns n] at hvalid hempty
    rw [hsent]
    exact (consume_ops_eq_iff hvalid.of_append).mpr hempty.of_append

def PublishedTable.sample : PublishedTable where
  rel := .sample
  cols := ⟨none, .none⟩
  full := by decide

def Txn.of (xid : UInt32) (finalLsn : UInt64) (hne : finalLsn ≠ 0) (ops : List TableOp) : Txn where
  xid := xid
  finalLsn := finalLsn
  endLsn := finalLsn + 1
  commitTime := 0
  steps := ops.map fun op => (false, op)
  lsn_ne := hne

def Values.sample (c : Char) : Values := fun _ => some (CStr.lit [c])

def emptiedHistory : List Txn :=
  [.of 4 10 (by decide) [.insert (.sample 'a'), .update (.sample 'a') (.sample 'b')],
    .of 5 20 (by decide) [.delete (.sample 'b'), .truncate false false]]

theorem Delivers.leaderOnly (tab : PublishedTable) : Delivers .leaderOnly tab := ⟨rfl, rfl, rfl⟩

theorem reconstructs_emptiedHistory : ∃ s, dispatchAll .sample .leaderOnly 2 State.init
        (PublishedTable.sample.history false emptiedHistory) = .ok s ∧
      s.kafkaSent.foldl consume 0 = PublishedTable.sample.table 0 (emptiedHistory.flatMap Txn.ops) := by
  have hvalid : PublishedTable.sample.Valid 0 (emptiedHistory.flatMap Txn.ops) :=
    ⟨trivial, by decide, by decide, trivial, trivial⟩
  obtain ⟨hruns, hiff⟩ := reconstructs_iff .sample 1 (Delivers.leaderOnly .sample) hvalid (by decide +kernel)
  obtain ⟨s, hs⟩ := hruns 2
  exact ⟨s, hs, hiff.mpr ⟨trivial, trivial, trivial, by decide, trivial⟩ 2 s hs⟩

def truncatedHistory : List Txn :=
  [.of 4 10 (by decide) [.insert (.sample 'a')], .of 5 20 (by decide) [.truncate false false]]

theorem truncated_row_stays : ∃ s, dispatchAll .sample .leaderOnly 2 State.init
        (PublishedTable.sample.history false truncatedHistory) = .ok s ∧
      PublishedTable.sample.table 0 (truncatedHistory.flatMap Txn.ops) = 0 ∧
      s.kafkaSent.foldl consume 0 = {[some (CStr.lit ['a'])]} := by
  have hfits : ∀ m ∈ PublishedTable.sample.history false truncatedHistory, m.bytes.length < 2 ^ 30 := by decide +kernel
  obtain ⟨s, hs, hsent⟩ := (following_init .sample).dispatch_history .sample 1 (Delivers.leaderOnly .sample) hfits
  refine ⟨s, hs, rfl, ?_⟩
  have hvalid : PublishedTable.sample.Valid 0 (truncatedHistory.flatMap Txn.ops) :=
    ⟨trivial, trivial, trivial⟩
  have hconsume := consume_ops Config.sample.dbname 0 hvalid
  rw [add_zero, add_zero] at hconsume
  rw [hsent]
  exact hconsume

end CdcKafka.Apply
