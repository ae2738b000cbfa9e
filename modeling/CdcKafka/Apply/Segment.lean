import CdcKafka.Apply.Invariant

/-! Segments of streamed transactions: STREAM START, the changes that follow it and
STREAM STOP, for each of the ways in which the leader passes a segment on. -/

namespace CdcKafka.Apply
open CdcKafka.Lib CdcKafka.Event CdcKafka.Json CdcKafka.Proto

variable {L : Ledger} {s t : State} {env : Env} {msg body : Bytes} {b : Boundary} {x : Nat}

theorem Inv.openSegment (h : Inv L s b) (hstream : b.stream = none) (hx : x ≠ 0) :
    Inv L { s with inStreamedTransaction := true, streamXid := x } { b with stream := some x } where
  streamed := rfl
  streamXid := rfl
  stream_ne := fun heq => hx (Option.some.inj heq)
  remote := h.remote
  skip := h.skip
  fd := by
    show ∀ y, s.streamFd = some y → _
    rw [h.fd_none hstream]
    nofun
  cache := by
    show ∀ w, s.streamApplyWorker = some w → _
    rw [h.cache_none hstream]
    nofun
  hash_zero := h.hash_zero
  data := h.data
  spools := h.spools.same rfl rfl rfl rfl rfl

theorem streamStartWorker_ok {first : Bool} (ht : streamStartWorker env s x first = .ok t) :
    t = s ∨ first = true ∧ s.parallelApplyTxnHash x = none ∧
      t = { s with parallelApplyTxnHash :=
              Function.update s.parallelApplyTxnHash x (some { serializeChanges := false }) } := by
  unfold streamStartWorker at ht
  split at ht
  next hfirst =>
    unfold paAllocateWorker at ht
    split at ht
    · split at ht
      · cases ht
      next hnone =>
        cases ht
        exact .inr ⟨hfirst, hnone, rfl⟩
    · cases ht
      exact .inl rfl
  next =>
    cases ht
    exact .inl rfl

theorem Inv.startWorker (h : Inv L s b) (hfd : s.streamFd = none) (hcache : s.streamApplyWorker = none)
    (hx : x ≠ 0) {first : Bool} (hL : first = true → L x = none)
    (ht : streamStartWorker env s x first = .ok t) :
    Inv L t b ∧ t.streamFd = none ∧ t.streamApplyWorker = none := by
  rcases streamStartWorker_ok ht with rfl | ⟨hfirst, hnone, rfl⟩
  · exact ⟨h, hfd, hcache⟩
  · refine ⟨h.local (x := x) ?_ (fun _ _ => rfl) ?_ ?_ ?_ ?_ h.data ?_, hfd, hcache⟩
    · exact { Local.refl x s with hash := fun _ hy => Function.update_of_ne hy _ _ }
    · rw [hfd]
      nofun
    · show ∀ y, s.streamFd = some y → _
      rw [hfd]
      nofun
    · show ∀ w, s.streamApplyWorker = some w → _
      rw [hcache]
      nofun
    · show Function.update s.parallelApplyTxnHash x _ 0 = none
      rw [Function.update_of_ne (Ne.symm hx)]
      exact h.hash_zero
    · rw [hL hfirst]
      refine ⟨fun _ => ?_, nofun, nofun⟩
      rcases (h.spools x).replayable (by rw [hnone]; nofun) with hmissing | ⟨l, hspooled⟩
      · exact .inl hmissing
      · exact .inr ⟨l, hspooled.same rfl rfl rfl rfl⟩

def SegmentOpen (s : State) (b : Boundary) : Prop :=
  ∀ x, b.stream = some x → s.parallelApplyTxnHash x ≠ some { serializeChanges := false } → s.streamFd = some x

theorem segmentOpen_none (hstream : b.stream = none) : SegmentOpen s b := by
  intro x hx
  rw [hstream] at hx
  cases hx

theorem Inv.partialSegment (h : Inv L s b) (hstream : b.stream = some x)
    (hopen : ∀ y, s.streamFd = some y → y = x) {w : ParallelApplyWorkerInfo}
    (hw : s.parallelApplyTxnHash x = some w) (hl : Local x s t) (hfd : t.streamFd = some x)
    (hser : t.parallelApplyTxnHash x = some { serializeChanges := true })
    (hcache : ∀ w, t.streamApplyWorker = some w → w = x) : Inv L t b ∧ SegmentOpen t b := by
  have hx := h.ne_zero_of_worker hw
  refine ⟨h.local hl (fun _ _ => rfl) hopen ?_ ?_ (h.hash_zero_local hl hx) ?_ ?_, ?_⟩
  · intro y hy
    rw [hfd] at hy
    obtain rfl := Option.some.inj hy
    refine ⟨rfl, hstream, ?_⟩
    rw [hser]
    nofun
  · intro w hw
    obtain rfl := hcache w hw
    exact ⟨hstream, by rw [hser]; rfl⟩
  · rw [hfd]
    nofun
  · refine .of_worker (fun hne => (hne hser).elim) ?_ (h.entry_worker hw)
    rw [hser]
    nofun
  · intro y hy _
    rw [hfd, ← hstream, hy]

theorem Inv.queuedSegment (h : Inv L s b) (hstream : b.stream = some x)
    (hsend : s.parallelApplyTxnHash x = some { serializeChanges := false }) (msg : Bytes) :
    Inv L { paSendData s x msg with streamApplyWorker := some x } b ∧
      SegmentOpen { paSendData s x msg with streamApplyWorker := some x } b := by
  constructor
  · exact { h with
      cache := fun w hw => by
        obtain rfl := Option.some.inj hw
        exact ⟨hstream, by show (s.parallelApplyTxnHash x).isSome = true; rw [hsend]; rfl⟩
      spools := h.spools.same rfl rfl rfl rfl rfl }
  · intro y hy hne
    obtain rfl := Option.some.inj (hstream.symm.trans hy)
    exact (hne hsend).elim

theorem streamFd_streamStartInternal {first : Bool} (ht : streamStartInternal s x first = .ok t) :
    t.streamFd = some x ∧ t.streamApplyWorker = s.streamApplyWorker ∧
      t.parallelApplyTxnHash = s.parallelApplyTxnHash := by
  cases first with
  | true =>
    rw [streamStartInternal_first] at ht
    cases ht
    exact ⟨rfl, rfl, rfl⟩
  | false =>
    obtain ⟨rfl, -⟩ := streamStartInternal_next ht
    obtain ⟨hfd, hcache, hhash, -⟩ :=
      subxactInfoRead_frame { beginReplicationStep s with streamFd := some x } x
    exact ⟨hfd, hcache, hhash⟩

def Ledger.open (L : Ledger) (x : Nat) (firstSegment : Bool) : Ledger :=
  if firstSegment then Function.update L x (some (.spooled [])) else L

theorem Inv.spooledSegment (h : Inv L s b) (hstream : b.stream = some x) (hfd : s.streamFd = none)
    (hcache : s.streamApplyWorker = none) (hnone : s.parallelApplyTxnHash x = none) {first : Bool}
    (ht : streamStartInternal s x first = .ok t) :
    Inv (L.open x first) t b ∧ SegmentOpen t b := by
  obtain ⟨hfd', hcache', hhash'⟩ := streamFd_streamStartInternal ht
  have hM : ∀ y, y ≠ x → L.open x first y = L y := by
    intro y hy
    cases first with
    | true => exact Function.update_of_ne hy _ _
    | false => rfl
  have hspool : SpoolAt (L.open x first x) t x := by
    cases first with
    | true =>
      rw [Ledger.open, if_pos rfl, Function.update_self]
      rw [streamStartInternal_first] at ht
      cases ht
      exact .of_spooled hnone (spooled_first s x (h.data hfd))
    | false =>
      obtain ⟨rfl, file, hfile⟩ := streamStartInternal_next ht
      refine (h.spools x).same (by rw [hhash']) ?_ ?_
      · intro hmissing
        rw [hmissing] at hfile
        cases hfile
      · exact fun l hspooled => hspooled.next hfd (h.data hfd)
  refine ⟨h.local (local_streamStartInternal ht) hM ?_ ?_ ?_ ?_ ?_ hspool, ?_⟩
  · rw [hfd]
    nofun
  · intro y hy
    rw [hfd'] at hy
    obtain rfl := Option.some.inj hy
    refine ⟨rfl, hstream, ?_⟩
    rw [hhash', hnone]
    nofun
  · rw [hcache', hcache]
    nofun
  · rw [hhash']
    exact h.hash_zero
  · rw [hfd']
    nofun
  · intro y hy _
    rw [hfd', ← hstream, hy]

theorem Inv.startSegment (h : Inv L s b) (hstream : b.stream = some x) (hfd : s.streamFd = none)
    (hcache : s.streamApplyWorker = none) {first : Bool}
    (ht : streamStartSegment env s x first msg body = .ok t) :
    ∃ M, Inv M t b ∧ SegmentOpen t b ∧ (t.parallelApplyTxnHash x = none ∧ M = L.open x first ∨
        t.parallelApplyTxnHash x ≠ none ∧ M = L) := by
  have hin : s.inStreamedTransaction = true := by rw [h.streamed, hstream]; rfl
  have hopen : ∀ y, s.streamFd = some y → y = x := by
    rw [hfd]
    nofun
  unfold streamStartSegment at ht
  rcases (h.findsOwn (.inr hstream)).action_cases h.hash_zero with
    ⟨hnone, hact⟩ | ⟨hsend, hact⟩ | ⟨hser, hact⟩
  · rw [hact, if_pos hin] at ht
    obtain ⟨hinv, hseg⟩ := h.spooledSegment hstream hfd hcache hnone ht
    obtain ⟨-, -, hhash⟩ := streamFd_streamStartInternal ht
    exact ⟨_, hinv, hseg, .inl ⟨by rw [hhash]; exact hnone, rfl⟩⟩
  · rw [hact] at ht
    dsimp only at ht
    split at ht
    · cases ht
      obtain ⟨hinv, hseg⟩ := h.queuedSegment hstream hsend msg
      refine ⟨_, hinv, hseg, .inr ⟨?_, rfl⟩⟩
      show s.parallelApplyTxnHash x ≠ none
      rw [hsend]
      nofun
    · simp only [bind_eq_ok, pure_eq_ok] at ht
      obtain ⟨u, hu, v, hv, rfl⟩ := ht
      have hswitch := local_paSwitchToPartialSerialize hu
      rw [paSwitchToPartialSerialize_eq] at hu
      cases hu
      have hlocal := hswitch.trans (local_streamWriteChange rfl hv)
      have hv' : v.streamFd = some x ∧ v.parallelApplyTxnHash x = some { serializeChanges := true } := by
        obtain ⟨y, -, rfl⟩ := streamWriteChange_ok hv
        exact ⟨rfl, Function.update_self x _ _⟩
      obtain ⟨hinv, hseg⟩ := h.partialSegment (t := { v with streamApplyWorker := some x }) hstream
        hopen hsend { hlocal with } hv'.1 hv'.2 fun w hw => (Option.some.inj hw).symm
      refine ⟨_, hinv, hseg, .inr ⟨?_, rfl⟩⟩
      show v.parallelApplyTxnHash x ≠ none
      rw [hv'.2]
      nofun
  · rw [hact] at ht
    simp only [bind_eq_ok, pure_eq_ok] at ht
    obtain ⟨u, hu, v, hv, rfl⟩ := ht
    obtain ⟨hfd', -, hhash'⟩ := streamFd_streamStartInternal hu
    have hlocal := (local_streamStartInternal hu).trans (local_streamWriteChange hfd' hv)
    have hv' : v.streamFd = some x ∧ v.parallelApplyTxnHash x = some { serializeChanges := true } := by
      obtain ⟨y, -, rfl⟩ := streamWriteChange_ok hv
      refine ⟨hfd', ?_⟩
      show u.parallelApplyTxnHash x = _
      rw [hhash']
      exact hser
    obtain ⟨hinv, hseg⟩ := h.partialSegment (t := { v with streamApplyWorker := some x }) hstream
      hopen hser { hlocal with } hv'.1 hv'.2 fun w hw => (Option.some.inj hw).symm
    refine ⟨_, hinv, hseg, .inr ⟨?_, rfl⟩⟩
    show v.parallelApplyTxnHash x ≠ none
    rw [hv'.2]
    nofun

theorem Inv.streamStart (h : Inv L s b) (ht : applyHandleStreamStart env s msg body = .ok t) :
    ∃ x first, readMsg readStreamStart body = .ok (x, first) ∧ b.stream = none ∧
      Inv (L.start t x first) t { b with stream := some x } ∧
      SegmentOpen t { b with stream := some x } := by
  unfold applyHandleStreamStart at ht
  split at ht
  · cases ht
  next hout =>
    have hstream := h.stream_none hout
    rw [bind_eq_ok] at ht
    obtain ⟨⟨x, first⟩, hread, ht⟩ := ht
    refine ⟨x, first, hread, hstream, ?_⟩
    dsimp only at ht
    split at ht
    · cases ht
    next hx =>
      rw [bind_eq_ok] at ht
      obtain ⟨u, hu, ht⟩ := ht
      cases first with
      -- a first segment makes nothing of what may be left under the same transaction id
      | true =>
        have hforget : (L.finish x) x = none := Function.update_self x _ _
        obtain ⟨hinv, hfd, hcache⟩ := ((h.forget x).openSegment hstream hx).startWorker
          (h.fd_none hstream) (h.cache_none hstream) hx (fun _ => hforget) hu
        obtain ⟨M, hM, hseg, hcases⟩ := hinv.startSegment rfl hfd hcache ht
        refine ⟨?_, hseg⟩
        rcases hcases with ⟨hnone, rfl⟩ | ⟨hsome, rfl⟩
        · have hL : L.start t x true = (L.finish x).open x true := by
            rw [Ledger.start, if_pos rfl, hnone, Ledger.open, if_pos rfl, Ledger.finish, Function.update_idem]
            rfl
          rw [hL]
          exact hM
        · refine hM.relabel hsome (fun y hy => ?_) fun e he => ?_
          · rw [Ledger.start, if_pos rfl, Ledger.finish, Function.update_of_ne hy, Function.update_of_ne hy]
          · rw [Ledger.start, if_pos rfl, Function.update_self] at he
            obtain rfl := Option.some.inj he
            exact Option.isSome_iff_ne_none.mpr hsome
      | false =>
        have hnot : false = true → L x = none := fun h => by cases h
        obtain ⟨hinv, hfd, hcache⟩ := (h.openSegment hstream hx).startWorker
          (h.fd_none hstream) (h.cache_none hstream) hx hnot hu
        obtain ⟨M, hM, hseg, hcases⟩ := hinv.startSegment rfl hfd hcache ht
        have hL : L.start t x false = M := by
          rcases hcases with ⟨-, rfl⟩ | ⟨-, rfl⟩ <;> rfl
        rw [hL]
        exact ⟨hM, hseg⟩

theorem Inv.closeSegment (h : Inv L s b) (hfd : s.streamFd = none)
    (hcache : s.streamApplyWorker = none) : Inv L (closeSegment s) { b with stream := none } where
  streamed := rfl
  streamXid := rfl
  stream_ne := nofun
  remote := h.remote
  skip := h.skip
  fd := by
    show ∀ y, s.streamFd = some y → _
    rw [hfd]
    nofun
  cache := by
    show ∀ w, s.streamApplyWorker = some w → _
    rw [hcache]
    nofun
  hash_zero := h.hash_zero
  data := h.data
  spools := h.spools.same rfl rfl rfl rfl rfl

theorem Inv.stopped (h : Inv L s b) (hstream : b.stream = some x) (hl : Local x s t)
    (hfd : t.streamFd = none) (hcache : t.streamApplyWorker = none) (hdata : t.subxactData = .empty)
    (hspool : SpoolAt (L x) t x) :
    Inv L (Apply.closeSegment t) { b with stream := none } := by
  have hx : x ≠ 0 := by
    rintro rfl
    exact h.stream_ne hstream
  refine Inv.closeSegment (h.local hl (fun _ _ => rfl) ?_ ?_ ?_ (h.hash_zero_local hl hx)
    (fun _ => hdata) hspool) hfd hcache
  · intro y hy
    exact Option.some.inj ((h.fd y hy).1.symm.trans hstream)
  · rw [hfd]
    nofun
  · rw [hcache]
    nofun

theorem Inv.fd_none_of_queued (h : Inv L s b) (hstream : b.stream = some x)
    (hsend : s.parallelApplyTxnHash x = some { serializeChanges := false }) :
    s.streamFd = none := by
  cases hfd : s.streamFd with
  | none => rfl
  | some y =>
    obtain ⟨hy, hne⟩ := h.fd y hfd
    obtain rfl := Option.some.inj (hstream.symm.trans hy)
    exact (hne hsend).elim

theorem Inv.streamXid_eq (h : Inv L s b) (hstream : b.stream = some x) : s.streamXid = x := by
  rw [h.streamXid, hstream]
  rfl

theorem Inv.stoppedPartial (h : Inv L s b) (hstream : b.stream = some x) {u v : State}
    {w : ParallelApplyWorkerInfo} (hw : s.parallelApplyTxnHash x = some w)
    (hl : Local x s u) (hfd : u.streamFd = some x)
    (hser : u.parallelApplyTxnHash x = some { serializeChanges := true })
    (hv : streamWriteChange u .streamStop body = .ok v) :
    Inv L (Apply.closeSegment { streamStopInternal v v.streamXid with streamApplyWorker := none })
      { b with stream := none } := by
  have hlocal := hl.trans (local_streamWriteChange hfd hv)
  have hxid : v.streamXid = x := hlocal.streamXid.trans (h.streamXid_eq hstream)
  have hhash : v.parallelApplyTxnHash x = some { serializeChanges := true } := by
    obtain ⟨y, -, rfl⟩ := streamWriteChange_ok hv
    exact hser
  rw [hxid]
  have hstop := hlocal.trans (local_streamStopInternal v x)
  refine h.stopped hstream { hstop with } rfl rfl rfl ?_
  refine .of_worker (fun hne => (hne hhash).elim) ?_ (h.entry_worker hw)
  show v.parallelApplyTxnHash x ≠ none
  rw [hhash]
  nofun

theorem Inv.streamStop (h : Inv L s b) (hseg : SegmentOpen s b)
    (ht : applyHandleStreamStop env s msg body = .ok t) : Inv L t { b with stream := none } := by
  unfold applyHandleStreamStop at ht
  split at ht
  · cases ht
  next hnot =>
    have hin : s.inStreamedTransaction = true := by simpa using hnot
    obtain ⟨x, hstream⟩ := Option.isSome_iff_exists.mp (h.streamed.symm.trans hin)
    rw [h.streamXid_eq hstream] at ht
    rcases (h.findsOwn (.inr hstream)).action_cases h.hash_zero with
      ⟨hnone, hact⟩ | ⟨hsend, hact⟩ | ⟨hser, hact⟩
    · rw [hact, if_pos hin] at ht
      cases ht
      have hfd := hseg x hstream (by rw [hnone]; nofun)
      have hcache : s.streamApplyWorker = none := by
        cases hw : s.streamApplyWorker with
        | none => rfl
        | some w =>
          obtain ⟨hwx, hsome⟩ := h.cache w hw
          obtain rfl := Option.some.inj (hstream.symm.trans hwx)
          rw [hnone] at hsome
          cases hsome
      refine h.stopped hstream (local_streamStopInternal s x) rfl hcache rfl ?_
      exact (h.spools x).same rfl id fun l hspooled => hspooled.stop hfd
    · rw [hact] at ht
      dsimp only at ht
      have hfd := h.fd_none_of_queued hstream hsend
      split at ht
      · cases ht
        refine h.stopped hstream { Local.refl x s with } hfd rfl (h.data hfd) ?_
        exact (h.spools x).same rfl id fun l hspooled => hspooled.same rfl rfl rfl rfl
      · simp only [bind_eq_ok, pure_eq_ok] at ht
        obtain ⟨u, hu, v, hv, rfl⟩ := ht
        have hswitch := local_paSwitchToPartialSerialize hu
        rw [paSwitchToPartialSerialize_eq] at hu
        cases hu
        exact h.stoppedPartial hstream hsend hswitch rfl (Function.update_self x _ _) hv
    · rw [hact] at ht
      simp only [bind_eq_ok, pure_eq_ok] at ht
      obtain ⟨v, hv, rfl⟩ := ht
      have hfd := hseg x hstream (by rw [hser]; nofun)
      exact h.stoppedPartial hstream hser (Local.refl x s) hfd hser hv

variable {action : LogicalRepMsgType}

theorem length_of_getMsgInt {n v : Nat} {rest : Bytes} (h : getMsgInt n body = .ok (v, rest)) :
    rest.length ≤ body.length := by
  have hread : (readBytes ProtoError.insufficientData n body >>= fun p =>
      (pure (decodeBE p.1, p.2) : Except ProtoError (Nat × Bytes))) = .ok (v, rest) := h
  unfold readBytes at hread
  split at hread
  · cases hread
    simp
  · cases hread

theorem IsChangeRecord.of_body (hchange : LogicalRepMsgType.isChange action = true)
    (hfits : body.length < 2 ^ 30) {n v : Nat} {rest : Bytes}
    (h : getMsgInt n body = .ok (v, rest)) : IsChangeRecord (action.toByte :: rest) where
  action := ⟨action, rest, hchange, rfl⟩
  fits := by
    have hlen := length_of_getMsgInt h
    rw [List.length_cons]
    omega

theorem Inv.handleStreamed_cases (h : Inv L s b) (hstream : b.stream = some x) {again : Option Bytes}
    (ht : handleStreamedTransaction env s action msg body = .ok (t, again)) :
    ∃ sub rest, getMsgInt 4 body = .ok (sub, rest) ∧ sub ≠ 0 ∧ ((s.parallelApplyTxnHash x = none ∧ again = none ∧
          streamWriteChange (subxactInfoAdd s sub) action rest = .ok t) ∨
        (again = if action = .relation ∨ action = .type then some rest else none) ∧
          ((s.parallelApplyTxnHash x = some { serializeChanges := false } ∧ env.paSends = true ∧
              t = paSendData s x msg) ∨
            (s.parallelApplyTxnHash x = some { serializeChanges := false } ∧
              ∃ u, paSwitchToPartialSerialize s x = .ok u ∧ streamWriteChange u action body = .ok t) ∨
            (s.parallelApplyTxnHash x = some { serializeChanges := true } ∧
              streamWriteChange s action body = .ok t))) := by
  have hin : s.inStreamedTransaction = true := by rw [h.streamed, hstream]; rfl
  unfold handleStreamedTransaction at ht
  rw [h.streamXid_eq hstream] at ht
  cases hread : getMsgInt 4 body with
  | error e =>
    rcases (h.findsOwn (.inr hstream)).action_cases h.hash_zero with
      ⟨-, hact⟩ | ⟨-, hact⟩ | ⟨-, hact⟩ <;> simp [hact, hin, hread] at ht
  | ok p =>
    obtain ⟨sub, rest⟩ := p
    rcases (h.findsOwn (.inr hstream)).action_cases h.hash_zero with
      ⟨hnone, hact⟩ | ⟨hsend, hact⟩ | ⟨hser, hact⟩
    · rw [hact, if_pos hin, hread] at ht
      dsimp only at ht
      split at ht
      · cases ht
      next hsub =>
        simp only [bind_eq_ok, pure_eq_ok, Prod.mk.injEq] at ht
        obtain ⟨u, hu, rfl, rfl⟩ := ht
        exact ⟨sub, rest, rfl, hsub, .inl ⟨hnone, rfl, hu⟩⟩
    · rw [hact, hread] at ht
      dsimp only at ht
      split at ht
      · cases ht
      next hsub =>
        split at ht
        next hsends =>
          cases ht
          exact ⟨sub, rest, rfl, hsub, .inr ⟨rfl, .inl ⟨hsend, hsends, rfl⟩⟩⟩
        next =>
          simp only [bind_eq_ok, pure_eq_ok, Prod.mk.injEq] at ht
          obtain ⟨u, hu, v, hv, rfl, rfl⟩ := ht
          exact ⟨sub, rest, rfl, hsub, .inr ⟨rfl, .inr (.inl ⟨hsend, u, hu, hv⟩)⟩⟩
    · rw [hact, hread] at ht
      dsimp only at ht
      split at ht
      · cases ht
      next hsub =>
        simp only [bind_eq_ok, pure_eq_ok, Prod.mk.injEq] at ht
        obtain ⟨u, hu, rfl, rfl⟩ := ht
        exact ⟨sub, rest, rfl, hsub, .inr ⟨rfl, .inr (.inr ⟨hser, hu⟩)⟩⟩

theorem Inv.handleStreamed_none (h : Inv L s b) (hstream : b.stream = some x)
    (hrel : ¬ (action = .relation ∨ action = .type)) {again : Option Bytes}
    (ht : handleStreamedTransaction env s action msg body = .ok (t, again)) : none = again := by
  obtain ⟨sub, rest, -, -, ⟨-, hnone, -⟩ | ⟨hnone, -⟩⟩ := h.handleStreamed_cases hstream ht
  · exact hnone.symm
  · rw [hnone, if_neg hrel]

theorem subxactInfoAdd_eq (s : State) (sub : Nat) : ∃ data, subxactInfoAdd s sub = { s with subxactData := data } := by
  unfold subxactInfoAdd
  split
  · exact ⟨_, rfl⟩
  · split
    · exact ⟨_, rfl⟩
    · split <;> exact ⟨_, rfl⟩

theorem Inv.spooledChange (h : Inv L s b) (hseg : SegmentOpen s b) (hstream : b.stream = some x)
    (hnone : s.parallelApplyTxnHash x = none) {sub : Nat} (hsub : sub ≠ 0) {rest : Bytes}
    (hr : IsChangeRecord (action.toByte :: rest))
    (ht : streamWriteChange (subxactInfoAdd s sub) action rest = .ok t) :
    Inv (L.write x (sub, action.toByte :: rest)) t b ∧ SegmentOpen t b := by
  have hfd := hseg x hstream (by rw [hnone]; nofun)
  have hspooled : ∀ l, Spooled s x l → Spooled t x (l ++ [(sub, action.toByte :: rest)]) :=
    fun l hl => hl.write hfd (h.streamXid_eq hstream) hsub hr ht
  obtain ⟨data, hadd⟩ := subxactInfoAdd_eq s sub
  rw [hadd] at ht
  have hopen : ({ s with subxactData := data } : State).streamFd = some x := hfd
  have hlocal := local_streamWriteChange hopen ht
  obtain ⟨y, hy, rfl⟩ := streamWriteChange_ok ht
  obtain rfl : x = y := Option.some.inj (hfd.symm.trans hy)
  refine ⟨h.local { hlocal with } (fun _ hy => Function.update_of_ne hy _ _) ?_ ?_ h.cache h.hash_zero ?_ ?_, ?_⟩
  · intro z hz
    exact Option.some.inj (hz.symm.trans hfd)
  · intro z hz
    have hzx : z = x := Option.some.inj (hz.symm.trans hfd)
    refine ⟨hzx, hstream, ?_⟩
    show s.parallelApplyTxnHash x ≠ _
    rw [hnone]
    nofun
  · intro hclosed
    have hcontra : none = some x := hclosed.symm.trans hfd
    cases hcontra
  · rw [Ledger.write, Function.update_self]
    refine (h.spools x).map ?_ rfl (fun hmissing => ?_) hspooled
    · intro e' he'
      obtain ⟨e, he, rfl⟩ := Option.map_eq_some_iff.mp he'
      exact ⟨e, he, rfl, fun _ => rfl⟩
    · refine (Function.update_self x _ _).trans ?_
      show (s.changesFile x).map _ = none
      rw [hmissing]
      rfl
  · intro z hz _
    obtain rfl := Option.some.inj (hstream.symm.trans hz)
    exact hfd

theorem Inv.write (h : Inv L s b) (hw : s.parallelApplyTxnHash x ≠ none)
    (hentry : ∀ e, L x = some e → e.worker = true) (p : Change) : Inv (L.write x p) s b := by
  refine h.relabel hw (fun y hy => Function.update_of_ne hy _ _) fun e he => ?_
  rw [Ledger.write, Function.update_self] at he
  obtain ⟨e', he', rfl⟩ := Option.map_eq_some_iff.mp he
  exact hentry e' he'

theorem Inv.handleStreamed (h : Inv L s b) (hseg : SegmentOpen s b) (hstream : b.stream = some x)
    (hchange : LogicalRepMsgType.isChange action = true) (hfits : body.length < 2 ^ 30)
    {again : Option Bytes}
    (ht : handleStreamedTransaction env s action msg body = .ok (t, again)) :
    Inv (L.change b body action) t b ∧ SegmentOpen t b := by
  have hopen : ∀ y, s.streamFd = some y → y = x := fun y hy =>
    Option.some.inj ((h.fd y hy).1.symm.trans hstream)
  have hcache : ∀ w, s.streamApplyWorker = some w → w = x := fun w hw =>
    Option.some.inj ((h.cache w hw).1.symm.trans hstream)
  obtain ⟨sub, rest, hread, hsub, hcases⟩ := h.handleStreamed_cases hstream ht
  have hL : L.change b body action = L.write x (sub, action.toByte :: rest) := by
    unfold Ledger.change
    rw [hstream, hread]
  rw [hL]
  rcases hcases with ⟨hnone, -, hwrite⟩ | ⟨-, hcases⟩
  · exact h.spooledChange hseg hstream hnone hsub (.of_body hchange hfits hread) hwrite
  · rcases hcases with ⟨hsend, -, rfl⟩ | ⟨hsend, u, hu, hwrite⟩ | ⟨hser, hwrite⟩
    · have hw : s.parallelApplyTxnHash x ≠ none := by
        rw [hsend]
        nofun
      refine ⟨(h.paSent msg).write hw (h.entry_worker hsend) _, ?_⟩
      intro y hy hne
      obtain rfl := Option.some.inj (hstream.symm.trans hy)
      exact (hne hsend).elim
    · have hswitch := local_paSwitchToPartialSerialize hu
      rw [paSwitchToPartialSerialize_eq] at hu
      cases hu
      have hlocal := hswitch.trans (local_streamWriteChange rfl hwrite)
      have ht' : t.streamFd = some x ∧ t.parallelApplyTxnHash x = some { serializeChanges := true } ∧
          t.streamApplyWorker = s.streamApplyWorker := by
        obtain ⟨y, -, rfl⟩ := streamWriteChange_ok hwrite
        exact ⟨rfl, Function.update_self x _ _, rfl⟩
      obtain ⟨hinv, hopened⟩ := h.partialSegment hstream hopen hsend hlocal ht'.1 ht'.2.1
        (by rw [ht'.2.2]; exact hcache)
      exact ⟨hinv.write (by rw [ht'.2.1]; nofun) (h.entry_worker hsend) _, hopened⟩
    · have hfd := hseg x hstream (by rw [hser]; nofun)
      have hlocal := local_streamWriteChange hfd hwrite
      have ht' : t.streamFd = some x ∧ t.parallelApplyTxnHash x = some { serializeChanges := true } ∧
          t.streamApplyWorker = s.streamApplyWorker := by
        obtain ⟨y, -, rfl⟩ := streamWriteChange_ok hwrite
        exact ⟨hfd, hser, rfl⟩
      obtain ⟨hinv, hopened⟩ := h.partialSegment hstream hopen hser hlocal ht'.1 ht'.2.1 (by rw [ht'.2.2]; exact hcache)
      exact ⟨hinv.write (by rw [ht'.2.1]; nofun) (h.entry_worker hser) _, hopened⟩

end CdcKafka.Apply
