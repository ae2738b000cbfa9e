import CdcKafka.Apply.Replay

/-! What the operations on a streamed transaction change: the files and the worker of that
transaction, and nothing of any other. -/

namespace CdcKafka.Apply
open CdcKafka.Lib CdcKafka.Event CdcKafka.Json CdcKafka.Proto

variable {dispatch : State → Bytes → Result State} {s t u : State} {cfg : Config} {env : Env}
  {x winfo : Nat} {action : LogicalRepMsgType} {msg body rest : Bytes}

/-- From `s` to `t` at most the files and the worker of `x` and the local transaction change. -/
structure Local (x : Nat) (s t : State) : Prop where
  inRemoteTransaction : t.inRemoteTransaction = s.inRemoteTransaction
  remoteFinalLsn : t.remoteFinalLsn = s.remoteFinalLsn
  inStreamedTransaction : t.inStreamedTransaction = s.inStreamedTransaction
  streamXid : t.streamXid = s.streamXid
  skipXactFinishLsn : t.skipXactFinishLsn = s.skipXactFinishLsn
  relMap : t.relMap = s.relMap
  kafkaSent : t.kafkaSent = s.kafkaSent
  changesFile : ∀ y, y ≠ x → t.changesFile y = s.changesFile y
  subxactFile : ∀ y, y ≠ x → t.subxactFile y = s.subxactFile y
  hash : ∀ y, y ≠ x → t.parallelApplyTxnHash y = s.parallelApplyTxnHash y

theorem Local.refl (x : Nat) (s : State) : Local x s s :=
  ⟨rfl, rfl, rfl, rfl, rfl, rfl, rfl, fun _ _ => rfl, fun _ _ => rfl, fun _ _ => rfl⟩

theorem Local.trans (h : Local x s t) (h' : Local x t u) : Local x s u where
  inRemoteTransaction := h'.inRemoteTransaction.trans h.inRemoteTransaction
  remoteFinalLsn := h'.remoteFinalLsn.trans h.remoteFinalLsn
  inStreamedTransaction := h'.inStreamedTransaction.trans h.inStreamedTransaction
  streamXid := h'.streamXid.trans h.streamXid
  skipXactFinishLsn := h'.skipXactFinishLsn.trans h.skipXactFinishLsn
  relMap := h'.relMap.trans h.relMap
  kafkaSent := h'.kafkaSent.trans h.kafkaSent
  changesFile := fun y hy => (h'.changesFile y hy).trans (h.changesFile y hy)
  subxactFile := fun y hy => (h'.subxactFile y hy).trans (h.subxactFile y hy)
  hash := fun y hy => (h'.hash y hy).trans (h.hash y hy)

theorem local_streamStartInternal {first : Bool} (h : streamStartInternal s x first = .ok t) : Local x s t := by
  unfold streamStartInternal at h
  rw [bind_eq_ok] at h
  obtain ⟨u, hu, ht⟩ := h
  obtain rfl := pure_eq_ok.mp ht
  unfold streamOpenFile at hu
  split at hu
  next hfirst =>
    cases hu
    rw [if_pos hfirst]
    exact { Local.refl x s with changesFile := fun _ hy => Function.update_of_ne hy _ _ }
  next hfirst =>
    split at hu
    next =>
      cases hu
      rw [if_neg hfirst]
      unfold subxactInfoRead
      split
      · exact { Local.refl x s with }
      · exact { Local.refl x s with }
    next => cases hu

theorem streamStartInternal_first (s : State) (x : Nat) : streamStartInternal s x true =
      .ok { beginReplicationStep s with
            changesFile := Function.update s.changesFile x (some []), streamFd := some x } := rfl

theorem streamStartInternal_next (h : streamStartInternal s x false = .ok t) :
    t = subxactInfoRead { beginReplicationStep s with streamFd := some x } x ∧ ∃ file, s.changesFile x = some file := by
  unfold streamStartInternal at h
  rw [bind_eq_ok] at h
  obtain ⟨u, hu, ht⟩ := h
  obtain rfl := pure_eq_ok.mp ht
  unfold streamOpenFile at hu
  simp only [Bool.false_eq_true, if_false] at hu
  split at hu
  next file hfile =>
    cases hu
    exact ⟨rfl, file, hfile⟩
  next => cases hu

theorem streamWriteChange_ok (h : streamWriteChange s action rest = .ok t) : ∃ y, s.streamFd = some y ∧
      t = { s with changesFile := Function.update s.changesFile y
                     ((s.changesFile y).map (· ++ changeRecord (action.toByte :: rest))) } := by
  unfold streamWriteChange at h
  split at h
  next y hy =>
    cases h
    exact ⟨y, hy, rfl⟩
  next => cases h

theorem local_streamWriteChange (hfd : s.streamFd = some x)
    (h : streamWriteChange s action rest = .ok t) : Local x s t := by
  obtain ⟨y, hy, rfl⟩ := streamWriteChange_ok h
  obtain rfl := Option.some.inj (hfd.symm.trans hy)
  exact { Local.refl x s with changesFile := fun _ hne => Function.update_of_ne hne _ _ }

theorem local_streamStopInternal (s : State) (x : Nat) : Local x s (streamStopInternal s x) :=
  { Local.refl x s with subxactFile := fun _ hy => Function.update_of_ne hy _ _ }

theorem local_streamCleanupFiles (h : streamCleanupFiles s x = .ok t) : Local x s t := by
  unfold streamCleanupFiles at h
  split at h
  next =>
    cases h
    exact { Local.refl x s with
      changesFile := fun _ hy => Function.update_of_ne hy _ _
      subxactFile := fun _ hy => Function.update_of_ne hy _ _ }
  next => cases h

theorem streamCleanupFiles_ok (h : streamCleanupFiles s x = .ok t) :
    t = { s with changesFile := Function.update s.changesFile x none,
                 subxactFile := Function.update s.subxactFile x none } := by
  unfold streamCleanupFiles at h
  split at h
  next =>
    cases h
    rfl
  next => cases h

theorem local_streamAbortInternal {subxid : Nat} (h : streamAbortInternal s x subxid = .ok t) : Local x s t := by
  unfold streamAbortInternal at h
  split at h
  next => exact local_streamCleanupFiles h
  next =>
    have hread : Local x s (subxactInfoRead (beginReplicationStep s) x) := by
      unfold subxactInfoRead
      split
      · exact { Local.refl x s with }
      · exact { Local.refl x s with }
    dsimp only at h
    split at h
    next =>
      cases h
      exact { hread with }
    next =>
      split at h
      next => cases h
      next =>
        cases h
        exact { hread with
          changesFile := fun y hy => (Function.update_of_ne hy _ _).trans (hread.changesFile y hy)
          subxactFile := fun y hy => (Function.update_of_ne hy _ _).trans (hread.subxactFile y hy) }

theorem subxactInfoRead_frame (s : State) (x : Nat) : (subxactInfoRead s x).streamFd = s.streamFd ∧
      (subxactInfoRead s x).streamApplyWorker = s.streamApplyWorker ∧
      (subxactInfoRead s x).parallelApplyTxnHash = s.parallelApplyTxnHash ∧
      (subxactInfoRead s x).changesFile = s.changesFile := by
  unfold subxactInfoRead
  split <;> exact ⟨rfl, rfl, rfl, rfl⟩

theorem streamAbortInternal_frame {subxid : Nat} (h : streamAbortInternal s x subxid = .ok t) :
    t.streamFd = s.streamFd ∧ t.streamApplyWorker = s.streamApplyWorker ∧
      t.parallelApplyTxnHash = s.parallelApplyTxnHash := by
  obtain ⟨hfd, hcache, hhash, -⟩ := subxactInfoRead_frame (beginReplicationStep s) x
  unfold streamAbortInternal at h
  split at h
  · obtain rfl := streamCleanupFiles_ok h
    exact ⟨rfl, rfl, rfl⟩
  · dsimp only at h
    split at h
    · cases h
      exact ⟨hfd, hcache, hhash⟩
    · split at h
      · cases h
      · cases h
        exact ⟨hfd, hcache, hhash⟩

theorem streamAbortInternal_missing {subxid : Nat} (hsub : x ≠ subxid)
    (hnone : s.changesFile x = none) (h : streamAbortInternal s x subxid = .ok t) :
    t.changesFile x = none ∧ t.subxactData = .empty := by
  obtain ⟨-, -, -, hfiles⟩ := subxactInfoRead_frame (beginReplicationStep s) x
  unfold streamAbortInternal at h
  rw [if_neg hsub] at h
  dsimp only at h
  split at h
  · cases h
    exact ⟨(congrFun hfiles x).trans hnone, rfl⟩
  · rw [hfiles] at h
    have hnone' : (beginReplicationStep s).changesFile x = none := hnone
    rw [hnone'] at h
    cases h

theorem local_paSendData (s : State) (x winfo : Nat) (msg : Bytes) :
    Local x s (paSendData s winfo msg) := { Local.refl x s with }

theorem paSwitchToPartialSerialize_eq (s : State) (x : Nat) : paSwitchToPartialSerialize s x =
      .ok { beginReplicationStep s with
            parallelApplyTxnHash :=
              Function.update s.parallelApplyTxnHash x (some { serializeChanges := true })
            changesFile := Function.update s.changesFile x (some [])
            streamFd := some x } := rfl

theorem local_paSwitchToPartialSerialize (h : paSwitchToPartialSerialize s x = .ok t) : Local x s t := by
  rw [paSwitchToPartialSerialize_eq] at h
  cases h
  exact { Local.refl x s with
    changesFile := fun _ hy => Function.update_of_ne hy _ _
    hash := fun _ hy => Function.update_of_ne hy _ _ }

theorem local_streamOpenAndWriteChange (hfd : ∀ y, s.streamFd = some y → y = x)
    (h : streamOpenAndWriteChange s x action rest = .ok t) :
    Local x s t ∧ t.streamFd = none ∧ t.streamApplyWorker = s.streamApplyWorker ∧
      t.subxactData = .empty ∧ t.parallelApplyTxnHash = s.parallelApplyTxnHash := by
  unfold streamOpenAndWriteChange at h
  simp only [bind_eq_ok, pure_eq_ok] at h
  obtain ⟨u, hu, v, hv, rfl⟩ := h
  have hreopen : Local x s u ∧ u.streamFd = some x ∧ u.streamApplyWorker = s.streamApplyWorker ∧
      u.parallelApplyTxnHash = s.parallelApplyTxnHash := by
    unfold streamReopen at hu
    split at hu
    next hnone =>
      obtain ⟨rfl, -⟩ := streamStartInternal_next hu
      refine ⟨local_streamStartInternal hu, ?_⟩
      unfold subxactInfoRead
      split <;> exact ⟨rfl, rfl, rfl⟩
    next hsome =>
      cases hu
      obtain ⟨y, hy⟩ := Option.ne_none_iff_exists'.mp (by simpa using hsome)
      rw [hfd y hy] at hy
      exact ⟨Local.refl x _, hy, rfl, rfl⟩
  obtain ⟨hlocal, hopen, hworker, hhash⟩ := hreopen
  have hwrite := local_streamWriteChange hopen hv
  obtain ⟨y, -, rfl⟩ := streamWriteChange_ok hv
  exact ⟨(hlocal.trans hwrite).trans (local_streamStopInternal _ x), rfl, hworker, rfl, hhash⟩

theorem local_paXactFinish (h : paXactFinish s x = .ok t) :
    Local x s t ∧ t.streamFd = s.streamFd ∧ t.streamApplyWorker = s.streamApplyWorker ∧ t.subxactData = s.subxactData ∧
      t.parallelApplyTxnHash = Function.update s.parallelApplyTxnHash x none ∧
      (t.changesFile = if (s.parallelApplyTxnHash x).any (·.serializeChanges) then
          Function.update s.changesFile x none else s.changesFile) ∧
      t.subxactFile = if (s.parallelApplyTxnHash x).any (·.serializeChanges) then
          Function.update s.subxactFile x none else s.subxactFile := by
  unfold paXactFinish at h
  have hfree : Local x s { s with
      parallelApplyTxnHash := Function.update s.parallelApplyTxnHash x none } :=
    { Local.refl x s with hash := fun _ hy => Function.update_of_ne hy _ _ }
  dsimp only at h
  split at h
  next hser =>
    have hclean := local_streamCleanupFiles h
    obtain rfl := streamCleanupFiles_ok h
    exact ⟨hfree.trans hclean, rfl, rfl, rfl, rfl, (if_pos hser).symm, (if_pos hser).symm⟩
  next hser =>
    cases h
    exact ⟨hfree, rfl, rfl, rfl, rfl, (if_neg hser).symm, (if_neg hser).symm⟩

def FindsOwn (s : State) (x : Nat) : Prop :=
  ∀ w, s.streamApplyWorker = some w → w = x ∧ (s.parallelApplyTxnHash w).isSome = true

theorem FindsOwn.paFindWorker_eq (h : FindsOwn s x) : paFindWorker s x =
      if x ≠ 0 ∧ (s.parallelApplyTxnHash x).isSome = true then some x else none := by
  unfold paFindWorker
  by_cases hx : x = 0
  · simp [hx]
  · cases hw : s.streamApplyWorker with
    | none => simp [hx]
    | some w =>
      obtain ⟨rfl, hsome⟩ := h w hw
      simp [hx, hsome]

theorem FindsOwn.action_cases (h : FindsOwn s x) (hzero : s.parallelApplyTxnHash 0 = none) :
    (s.parallelApplyTxnHash x = none ∧ getTransactionApplyAction s x =
      if s.inStreamedTransaction then .leaderSerialize else .leaderApply) ∨
    (s.parallelApplyTxnHash x = some { serializeChanges := false } ∧
      getTransactionApplyAction s x = .leaderSendToParallel x) ∨
    (s.parallelApplyTxnHash x = some { serializeChanges := true } ∧
      getTransactionApplyAction s x = .leaderPartialSerialize x) := by
  unfold getTransactionApplyAction
  rw [h.paFindWorker_eq]
  cases hw : s.parallelApplyTxnHash x with
  | none => exact .inl ⟨rfl, by simp⟩
  | some w =>
    have hx : x ≠ 0 := by
      rintro rfl
      rw [hzero] at hw
      cases hw
    obtain ⟨serialize⟩ := w
    cases serialize with
    | false => exact .inr (.inl ⟨rfl, by simp [hx, hw]⟩)
    | true => exact .inr (.inr ⟨rfl, by simp [hx, hw]⟩)

end CdcKafka.Apply
