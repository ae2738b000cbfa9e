import CdcKafka.Apply.Segment

/-! One dispatched message and runs of them, for the invariant of the leader apply worker. -/

namespace CdcKafka.Apply
open CdcKafka.Lib CdcKafka.Event CdcKafka.Json CdcKafka.Proto

variable {L : Ledger} {s t : State} {cfg : Config} {env : Env} {depth : Nat} {msg body : Bytes}
  {b : Boundary} {x : Nat} {action : LogicalRepMsgType}

theorem SegmentOpen.same (h : SegmentOpen s b) {c : Boundary} (hstream : c.stream = b.stream)
    (hhash : t.parallelApplyTxnHash = s.parallelApplyTxnHash) (hfd : t.streamFd = s.streamFd) :
    SegmentOpen t c := by
  intro y hy hne
  rw [hstream] at hy
  rw [hhash] at hne
  rw [hfd]
  exact h y hy hne

theorem Inv.segmentChange (h : Inv L s b) (hseg : SegmentOpen s b) (hstream : b.stream = some x)
    (hchange : LogicalRepMsgType.isChange action = true) (hfits : body.length < 2 ^ 30)
    {dispatch : State → Bytes → Result State}
    (ht : applyAction cfg env dispatch s msg body action = .ok t) :
    Inv (L.after cfg s t b body action) t b ∧ SegmentOpen t b := by
  have hdata : ∀ {apply}, ¬ (action = .relation ∨ action = .type) →
      applyHandleChange env s action msg body apply = .ok t →
      Inv (if isSkippingChanges s then L else L.change b body action) t b ∧ SegmentOpen t b := by
    intro apply hrel ht
    unfold applyHandleChange at ht
    split at ht
    next hskip =>
      cases ht
      rw [if_pos hskip]
      exact ⟨h, hseg⟩
    next hskip =>
      rw [if_neg hskip]
      rw [bind_eq_ok] at ht
      obtain ⟨⟨u, again⟩, hu, ht⟩ := ht
      obtain rfl := h.handleStreamed_none hstream hrel hu
      obtain rfl := pure_eq_ok.mp ht
      exact h.handleStreamed hseg hstream hchange hfits hu
  cases action with
  | insert | update | delete | truncate =>
    simp only [applyAction, applyHandleInsert, applyHandleUpdate, applyHandleDelete, applyHandleTruncate] at ht
    exact hdata (by decide) ht
  | relation =>
    simp only [applyAction, applyHandleRelation, bind_eq_ok] at ht
    obtain ⟨⟨u, again⟩, hu, ht⟩ := ht
    obtain ⟨hinv, hopen⟩ := h.handleStreamed hseg hstream rfl hfits hu
    cases again with
    | none =>
      obtain rfl := pure_eq_ok.mp ht
      exact ⟨hinv, hopen⟩
    | some rest =>
      simp only [bind_eq_ok, pure_eq_ok] at ht
      obtain ⟨rel, -, rfl⟩ := ht
      exact ⟨hinv.touches ⟨_, _, _, rfl⟩, hopen.same rfl rfl rfl⟩
  | type =>
    simp only [applyAction, applyHandleType, bind_eq_ok] at ht
    obtain ⟨⟨u, again⟩, hu, ht⟩ := ht
    have hopen := h.handleStreamed hseg hstream rfl hfits hu
    cases again with
    | none =>
      obtain rfl := pure_eq_ok.mp ht
      exact hopen
    | some rest =>
      simp only [bind_eq_ok, pure_eq_ok] at ht
      obtain ⟨typ, -, rfl⟩ := ht
      exact hopen
  | _ => cases hchange

theorem Ledger.after_of_idle (L : Ledger) (hstream : b.stream = none)
    (hchange : LogicalRepMsgType.isChange action = true) :
    L.after cfg s t b body action = L := by
  have hL : L.change b body action = L := by
    unfold Ledger.change
    rw [hstream]
  unfold Ledger.after
  cases action with
  | insert | update | delete | truncate | relation | type => simp [hL]
  | _ => cases hchange

theorem Inv.change (h : Inv L s b) (hseg : SegmentOpen s b)
    (hchange : LogicalRepMsgType.isChange action = true) (hfits : body.length < 2 ^ 30)
    {dispatch : State → Bytes → Result State}
    (ht : applyAction cfg env dispatch s msg body action = .ok t) :
    Inv (L.after cfg s t b body action) t b ∧ SegmentOpen t b := by
  cases hstream : b.stream with
  | none =>
    rw [L.after_of_idle hstream hchange]
    exact ⟨h.touches ((h.idle hstream).touches_action hchange ht), segmentOpen_none hstream⟩
  | some x => exact h.segmentChange hseg hstream hchange hfits ht

theorem Inv.plain {c : Boundary} (hinv : Inv L t c) (hseg : SegmentOpen s b)
    (hstream : c.stream = b.stream) (hplain : LogicalRepMsgType.isPlain action = true)
    {dispatch : State → Bytes → Result State}
    (ht : applyAction cfg env dispatch s msg body action = .ok t) :
    Inv L t c ∧ SegmentOpen t c := by
  obtain ⟨remote, tx, lsn, skip, rfl⟩ := applyAction_plain hplain ht
  exact ⟨hinv, hseg.same hstream rfl rfl⟩

theorem Inv.dispatch (h : Inv L s b) (hseg : SegmentOpen s b) (hfits : msg.length < 2 ^ 30)
    (ht : applyDispatch cfg env depth s msg = .ok t) :
    Inv (L.next cfg s t b msg) t (b.next msg) ∧ SegmentOpen t (b.next msg) := by
  obtain ⟨nested, a, body, action, rfl, rfl, ha, ht⟩ := applyDispatch_ok ht
  have hbody : body.length < 2 ^ 30 := Nat.lt_of_succ_lt hfits
  rw [b.next_of_action ha, L.next_of_action ha]
  cases action with
  | insert | update | delete | truncate | relation | type => exact h.change hseg rfl hbody ht
  | begin => exact (h.begin ht).plain hseg rfl rfl ht
  | beginPrepare => exact (h.beginPrepare ht).plain hseg rfl rfl ht
  | commit => exact (h.commit ht).plain hseg rfl rfl ht
  | prepare => exact (h.prepare ht).plain hseg rfl rfl ht
  | commitPrepared => exact (h.commitPrepared ht).plain hseg rfl rfl ht
  | rollbackPrepared => exact (h.rollbackPrepared ht).plain hseg rfl rfl ht
  | origin =>
    have hsame : t = s := by
      simp only [applyAction, applyHandleOrigin] at ht
      split at ht
      · cases ht
      · cases ht
        rfl
    rw [hsame]
    exact ⟨h, hseg⟩
  | message =>
    cases ht
    exact ⟨h, hseg⟩
  | streamStart =>
    obtain ⟨x, first, hread, -, hopen⟩ := h.streamStart ht
    have hafter : b.after body .streamStart = { b with stream := some x } := by
      rw [Boundary.after, hread]
      rfl
    have hL : L.after cfg s t b body .streamStart = L.start t x first := by
      rw [Ledger.after, hread]
      rfl
    rw [hafter, hL]
    exact hopen
  | streamStop => exact ⟨h.streamStop hseg ht, segmentOpen_none rfl⟩
  -- the other messages of a streamed transaction are refused inside a segment
  | streamAbort =>
    obtain ⟨d, hread, hstream, hinv⟩ := h.streamAbort ht
    have hL : L.after cfg s t b body .streamAbort = L.abort d.xid d.subxid := by
      rw [Ledger.after, hread]
      rfl
    rw [hL]
    exact ⟨hinv, segmentOpen_none hstream⟩
  | streamCommit =>
    obtain ⟨xid, d, hread, hstream, hinv⟩ := h.streamCommit ht
    have hL : L.after cfg s t b body .streamCommit = L.finish xid := by
      rw [Ledger.after, hread]
      rfl
    rw [hL]
    exact ⟨hinv, segmentOpen_none hstream⟩
  | streamPrepare =>
    obtain ⟨d, hread, hstream, hinv⟩ := h.streamPrepare ht
    have hL : L.after cfg s t b body .streamPrepare = L.finish d.xid := by
      rw [Ledger.after, hread]
      rfl
    rw [hL]
    exact ⟨hinv, segmentOpen_none hstream⟩

theorem Inv.replayable_of_leaderApply (h : Inv L s b) (hstream : b.stream = none)
    (hact : getTransactionApplyAction s x = .leaderApply) :
    s.changesFile x = none ∨ ∃ l, Spooled s x l := by
  refine (h.spools x).replayable fun hser => ?_
  rcases (h.findsOwn (.inl hstream)).action_cases h.hash_zero with
    ⟨hnone, -⟩ | ⟨hsend, -⟩ | ⟨-, hpartial⟩
  · rw [hnone] at hser
    cases hser
  · rw [hsend] at hser
    cases hser
  · rw [hact] at hpartial
    cases hpartial

def applyMessages (cfg : Config) (depth : Nat) (s : State) (msgs : List (Env × Message)) :
    Result State :=
  msgs.foldlM (fun s m => applyDispatch cfg m.1 depth s m.2.data) s

def Boundary.over (b : Boundary) (msgs : List (Env × Message)) : Boundary :=
  msgs.foldl (fun b m => b.next m.2.data) b

theorem inv_of_applyMessages {msgs : List (Env × Message)} (h : Inv L s b) (hseg : SegmentOpen s b)
    (ht : applyMessages cfg depth s msgs = .ok t) :
    ∃ M, Inv M t (b.over msgs) ∧ SegmentOpen t (b.over msgs) := by
  induction msgs generalizing L s b with
  | nil =>
    obtain rfl := pure_eq_ok.mp ht
    exact ⟨L, h, hseg⟩
  | cons m msgs ih =>
    unfold applyMessages at ht
    rw [List.foldlM_cons, bind_eq_ok] at ht
    obtain ⟨u, hu, ht⟩ := ht
    obtain ⟨h', hseg'⟩ := h.dispatch hseg m.2.fits hu
    exact ih h' hseg' ht

def Env.leaderOnly : Env where
  skiplsn := 0
  paAllocates := false
  paSends := true
  lookupGXact := false
  finishPreparedTransaction := true
  relOpens := fun _ => true
  kafkaSends := true

def Config.sample : Config := { parallelApply := false, dbname := CStr.lit ['d', 'b'] }

def endsWith (r : Result State) (p : State → Bool) : Bool :=
  match r with
  | .ok s => p s
  | .error _ => false

theorem endsWith_eq_true {r : Result State} {p : State → Bool} (h : endsWith r p = true) :
    ∃ s, r = .ok s ∧ p s = true := by
  cases r with
  | error e => cases h
  | ok s => exact ⟨s, rfl, h⟩

end CdcKafka.Apply
