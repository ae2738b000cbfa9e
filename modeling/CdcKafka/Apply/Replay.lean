import CdcKafka.Apply.Dispatch

/-! Replaying a changes file: the loop reads back exactly the records that were written, and a
replayed change touches nothing but the local transaction, the relation map and Kafka. -/

namespace CdcKafka.Apply
open CdcKafka.Lib CdcKafka.Event CdcKafka.Json CdcKafka.Proto

/-- A message is assembled in a `StringInfo`, which holds less than `MaxAllocSize` bytes. -/
structure Message where
  data : Bytes
  fits : data.length < 2 ^ 30

def LogicalRepMsgType.isChange : LogicalRepMsgType → Bool
  | .insert | .update | .delete | .truncate | .relation | .type => true
  | _ => false

structure IsChangeRecord (r : Bytes) : Prop where
  action : ∃ t rest, LogicalRepMsgType.isChange t = true ∧ r = t.toByte :: rest
  fits : r.length < 2 ^ 31

def spoolBytes (recs : List Bytes) : Bytes := recs.flatMap changeRecord

theorem IsChangeRecord.pos {r : Bytes} (h : IsChangeRecord r) : 0 < r.length := by
  obtain ⟨t, rest, -, rfl⟩ := h.action
  exact Nat.succ_pos _

theorem length_changeRecord (r : Bytes) : (changeRecord r).length = 4 + r.length := by
  simp [changeRecord]

variable {dispatch : State → Bytes → Result State} {s t : State} {cfg : Config} {env : Env}

theorem replayLoop_cons (fuel : Nat) (s : State) {r : Bytes} (hr : IsChangeRecord r) (left : Bytes) :
    replayLoop dispatch (fuel + 1) s (changeRecord r ++ left) = dispatch s r >>= fun t =>
        if t.streamFd.isNone then (if left = [] then pure t else .error .messageLeft)
        else replayLoop dispatch fuel t left := by
  have hlen : decodeLE (encodeLE 4 r.length) = r.length :=
    decodeLE_encodeLE (Nat.lt_trans hr.fits (by norm_num))
  have hpos := hr.pos
  have hfits := hr.fits
  have hsplit : changeRecord r ++ left = encodeLE 4 r.length ++ (r ++ left) := by
    simp [changeRecord]
  have htake : (encodeLE 4 r.length ++ (r ++ left)).take 4 = encodeLE 4 r.length := by
    rw [List.take_append_of_le_length (by simp)]
    exact List.take_of_length_le (by simp)
  have hdrop : (encodeLE 4 r.length ++ (r ++ left)).drop 4 = r ++ left := by
    rw [List.drop_append_of_le_length (by simp), List.drop_of_length_le (by simp), List.nil_append]
  obtain ⟨b, bs, hcons⟩ : ∃ b bs, encodeLE 4 r.length ++ (r ++ left) = b :: bs := ⟨_, _, rfl⟩
  rw [hsplit, hcons, replayLoop]
  rw [← hcons, htake, hdrop, hlen]
  have h4 : ¬ (encodeLE 4 r.length ++ (r ++ left)).length < 4 := by simp
  have hok : ¬ (r.length = 0 ∨ 2 ^ 31 ≤ r.length) := by omega
  have hshort : ¬ (r ++ left).length < r.length := by simp
  rw [if_neg h4, if_neg hok, if_neg hshort, List.take_left, List.drop_left]

theorem replayLoop_eq_foldlM {P : State → Prop} (hP : ∀ s, P s → s.streamFd.isNone = false)
    {recs : List Bytes} (hrecs : ∀ r ∈ recs, IsChangeRecord r)
    (hstep : ∀ s r t, r ∈ recs → P s → dispatch s r = .ok t → P t) (hs : P s) (fuel : Nat)
    (hfuel : recs.length ≤ fuel) :
    replayLoop dispatch fuel s (spoolBytes recs) = recs.foldlM dispatch s := by
  induction recs generalizing s fuel with
  | nil =>
    cases fuel <;> rfl
  | cons r recs ih =>
    obtain ⟨fuel, rfl⟩ : ∃ n, fuel = n + 1 := ⟨fuel - 1, by simp at hfuel; omega⟩
    have hr := hrecs r List.mem_cons_self
    show replayLoop dispatch (fuel + 1) s (changeRecord r ++ spoolBytes recs) = _
    rw [replayLoop_cons fuel s hr, List.foldlM_cons]
    cases hd : dispatch s r with
    | error e => rfl
    | ok t =>
      have ht := hstep s r t List.mem_cons_self hs hd
      have htail := ih (fun r hr => hrecs r (List.mem_cons_of_mem _ hr))
        (fun s r t hr => hstep s r t (List.mem_cons_of_mem _ hr)) ht fuel (by simpa using hfuel)
      show (if t.streamFd.isNone then _ else replayLoop dispatch fuel t (spoolBytes recs)) = _
      rw [hP t ht]
      exact htail

theorem length_le_length_spoolBytes (recs : List Bytes) : recs.length ≤ (spoolBytes recs).length := by
  induction recs with
  | nil => exact Nat.le_refl 0
  | cons r recs ih =>
    show recs.length + 1 ≤ (changeRecord r ++ spoolBytes recs).length
    rw [List.length_append, length_changeRecord]
    omega

def Touches (s t : State) : Prop :=
  ∃ tx rels docs, t = { s with isTransactionState := tx, relMap := rels, kafkaSent := docs }

theorem Touches.refl (s : State) : Touches s s := ⟨_, _, _, rfl⟩

theorem Touches.trans {u : State} (h : Touches s t) (h' : Touches t u) : Touches s u := by
  obtain ⟨tx, rels, docs, rfl⟩ := h
  obtain ⟨tx', rels', docs', rfl⟩ := h'
  exact ⟨tx', rels', docs', rfl⟩

theorem touches_beginReplicationStep (s : State) : Touches s (beginReplicationStep s) :=
  ⟨true, _, _, rfl⟩

theorem touches_kafkaSend {change : RowChange} (h : kafkaSend cfg env s change = .ok t) : Touches s t := by
  unfold kafkaSend at h
  split at h
  · cases h
  · split at h
    · cases h
      exact ⟨_, _, _, rfl⟩
    · cases h

structure Idle (s : State) : Prop where
  notStreamed : s.inStreamedTransaction = false
  noXid : s.streamXid = 0

theorem Idle.touches (h : Idle s) (ht : Touches s t) : Idle t := by
  obtain ⟨tx, rels, docs, rfl⟩ := ht
  exact ⟨h.notStreamed, h.noXid⟩

theorem Idle.leaderApply (h : Idle s) : getTransactionApplyAction s s.streamXid = .leaderApply := by
  simp [getTransactionApplyAction, paFindWorker, h.noXid, h.notStreamed]

theorem Idle.handleStreamed (h : Idle s) (action : LogicalRepMsgType) (msg body : Bytes) :
    handleStreamedTransaction env s action msg body = .ok (s, some body) := by
  unfold handleStreamedTransaction
  rw [h.leaderApply]

theorem Idle.touches_change (h : Idle s) {action : LogicalRepMsgType} {msg body : Bytes}
    {apply : State → Bytes → Result State}
    (happly : ∀ s rest t, apply s rest = .ok t → Touches s t)
    (ht : applyHandleChange env s action msg body apply = .ok t) : Touches s t := by
  unfold applyHandleChange at ht
  split at ht
  · cases ht
    exact Touches.refl s
  · rw [h.handleStreamed] at ht
    exact (touches_beginReplicationStep s).trans (happly _ _ _ ht)

theorem Idle.touches_action (h : Idle s) {action : LogicalRepMsgType}
    (hchange : LogicalRepMsgType.isChange action = true) {msg body : Bytes}
    (ht : applyAction cfg env dispatch s msg body action = .ok t) : Touches s t := by
  cases action with
  | insert | update | delete =>
    simp only [applyAction, applyHandleInsert, applyHandleUpdate, applyHandleDelete] at ht
    refine h.touches_change (fun s rest t hok => ?_) ht
    simp only [bind_eq_ok] at hok
    obtain ⟨msg, -, rel, -, hsend⟩ := hok
    exact touches_kafkaSend hsend
  | truncate =>
    simp only [applyAction, applyHandleTruncate] at ht
    refine h.touches_change (fun s rest t hok => ?_) ht
    simp only [bind_eq_ok, pure_eq_ok] at hok
    obtain ⟨-, -, -, -, rfl⟩ := hok
    exact Touches.refl s
  | relation =>
    simp only [applyAction, applyHandleRelation, h.handleStreamed, bind_eq_ok, pure_eq_ok,
      Except.ok.injEq, exists_eq_left'] at ht
    obtain ⟨rel, -, rfl⟩ := ht
    exact ⟨_, _, _, rfl⟩
  | type =>
    simp only [applyAction, applyHandleType, h.handleStreamed, bind_eq_ok, pure_eq_ok,
      Except.ok.injEq, exists_eq_left'] at ht
    obtain ⟨typ, -, rfl⟩ := ht
    exact Touches.refl _
  | _ => cases hchange

theorem Idle.touches_record (h : Idle s) {r : Bytes} (hr : IsChangeRecord r) {depth : Nat}
    (ht : applyDispatch cfg env depth s r = .ok t) : Touches s t := by
  obtain ⟨action, rest, hchange, rfl⟩ := hr.action
  cases depth with
  | zero => cases ht
  | succ depth =>
    rw [applyDispatch, LogicalRepMsgType.ofByte_toByte] at ht
    exact h.touches_action hchange ht

theorem Idle.touches_foldlM (h : Idle s) {recs : List Bytes} (hrecs : ∀ r ∈ recs, IsChangeRecord r)
    {depth : Nat} (ht : recs.foldlM (applyDispatch cfg env depth) s = .ok t) : Touches s t := by
  induction recs generalizing s with
  | nil =>
    obtain rfl := pure_eq_ok.mp ht
    exact Touches.refl s
  | cons r recs ih =>
    rw [List.foldlM_cons, bind_eq_ok] at ht
    obtain ⟨u, hu, ht⟩ := ht
    have hsu := h.touches_record (hrecs r List.mem_cons_self) hu
    exact hsu.trans (ih (h.touches hsu) (fun r hr => hrecs r (List.mem_cons_of_mem _ hr)) ht)

theorem maybeStartSkippingChanges_eq (env : Env) (s : State) (lsn : Nat) :
    ∃ skip, maybeStartSkippingChanges env s lsn = { s with skipXactFinishLsn := skip } := by
  unfold maybeStartSkippingChanges
  split
  · exact ⟨s.skipXactFinishLsn, rfl⟩
  · exact ⟨lsn, rfl⟩

theorem applySpooledMessages_missing {x lsn : Nat} (hmissing : s.changesFile x = none) :
    applySpooledMessages dispatch env s x lsn = .error (.fileMissing x) := by
  obtain ⟨skip, hskip⟩ := maybeStartSkippingChanges_eq env s lsn
  have hmissing' : (beginReplicationStep { s with skipXactFinishLsn := skip }).changesFile x = none := hmissing
  unfold applySpooledMessages
  rw [hskip]
  dsimp only
  rw [hmissing']

def startReplay (env : Env) (s : State) (xid lsn : Nat) : State :=
  { beginReplicationStep (maybeStartSkippingChanges env s lsn) with
    streamFd := some xid, remoteFinalLsn := lsn, inRemoteTransaction := true }

theorem Idle.startReplay (h : Idle s) (xid lsn : Nat) : Idle (startReplay env s xid lsn) := by
  obtain ⟨skip, hskip⟩ := maybeStartSkippingChanges_eq env s lsn
  unfold Apply.startReplay
  rw [hskip]
  exact ⟨h.notStreamed, h.noXid⟩

theorem changesFile_startReplay (env : Env) (s : State) (lsn : Nat) :
    (beginReplicationStep (maybeStartSkippingChanges env s lsn)).changesFile = s.changesFile := by
  obtain ⟨skip, hskip⟩ := maybeStartSkippingChanges_eq env s lsn
  rw [hskip]
  rfl

theorem applySpooledMessages_of_open {P : State → Prop} (hP : ∀ t, P t → t.streamFd.isNone = false)
    {recs : List Bytes} (hrecs : ∀ r ∈ recs, IsChangeRecord r)
    (hstep : ∀ t r u, r ∈ recs → P t → dispatch t r = .ok u → P u) {xid lsn : Nat}
    (hs : P (startReplay env s xid lsn)) (hfile : s.changesFile xid = some (spoolBytes recs)) :
    applySpooledMessages dispatch env s xid lsn =
      (recs.foldlM dispatch (startReplay env s xid lsn)).map streamCloseFile := by
  have hopen : (beginReplicationStep (maybeStartSkippingChanges env s lsn)).changesFile xid =
      some (spoolBytes recs) := by
    rw [changesFile_startReplay env s lsn, hfile]
  have hloop := replayLoop_eq_foldlM hP hrecs hstep hs _ (length_le_length_spoolBytes recs)
  unfold applySpooledMessages
  simp only [hopen]
  show (replayLoop dispatch (spoolBytes recs).length (startReplay env s xid lsn)
    (spoolBytes recs) >>= fun t => pure (streamCloseFile t)) = _
  rw [hloop]
  cases recs.foldlM dispatch (startReplay env s xid lsn) <;> rfl

theorem applySpooledMessages_eq (h : Idle s) {recs : List Bytes} {xid : Nat} (lsn depth : Nat)
    (hfile : s.changesFile xid = some (spoolBytes recs)) (hrecs : ∀ r ∈ recs, IsChangeRecord r) :
    applySpooledMessages (applyDispatch cfg env depth) env s xid lsn =
      (recs.foldlM (applyDispatch cfg env depth) (startReplay env s xid lsn)).map streamCloseFile := by
  have hstep : ∀ t r u, r ∈ recs → Idle t ∧ t.streamFd.isNone = false →
      applyDispatch cfg env depth t r = .ok u → Idle u ∧ u.streamFd.isNone = false := by
    intro t r u hr ht hu
    have htouch := ht.1.touches_record (hrecs r hr) hu
    refine ⟨ht.1.touches htouch, ?_⟩
    obtain ⟨tx, rels, docs, rfl⟩ := htouch
    exact ht.2
  exact applySpooledMessages_of_open (fun _ ht => ht.2) hrecs hstep ⟨h.startReplay xid lsn, rfl⟩ hfile

end CdcKafka.Apply
