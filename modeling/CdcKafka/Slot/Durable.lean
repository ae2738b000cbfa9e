import CdcKafka.Slot.Horizon

/-! When the protected catalog horizon is not ahead of the durable one. -/

namespace CdcKafka.Slot.Horizon

open CdcKafka.Slot CdcKafka.Lib

variable {base : TransactionId} {s t : ReplicationSlot} {lsn : UInt64} {saveOk : Bool}

def Durable (s : ReplicationSlot) : Prop :=
  transactionIdFollows s.effectiveCatalogXmin s.stateFile.catalogXmin = false

instance (s : ReplicationSlot) : Decidable (Durable s) := inferInstanceAs (Decidable (_ = _))

def KeepsHorizon (s : ReplicationSlot) (lsn : UInt64) (saveOk : Bool) : Prop :=
  saveOk = false → s.TakesXmin lsn → transactionIdPrecedes s.candidateCatalogXmin s.effectiveCatalogXmin = false

def CallAllowed (base : TransactionId) (s : ReplicationSlot) : Call → Prop
  | .increaseXmin _ xmin _ => InWindow base xmin
  | .increaseRestartDecoding currentLsn restartLsn saveOk =>
    s.data.restartLsn < restartLsn → currentLsn ≤ s.data.confirmedFlush → KeepsHorizon s s.data.confirmedFlush saveOk
  | .confirm lsn saveOk => KeepsHorizon s lsn saveOk

def CallsAllowed (base : TransactionId) (s : ReplicationSlot) : List Call → Prop
  | [] => True
  | c :: cs => CallAllowed base s c ∧ ((call s c).2 = true → CallsAllowed base (call s c).1 cs)

def ReachesRemote (s : ReplicationSlot) (remote : RemoteSlot) (env : SyncEnv) : Prop :=
  ∀ t, logicalSlotAdvanceAndCheckSnapState s remote.confirmedLsn env.decoded env.readOk env.confirmOk = (t, true) →
    transactionIdFollows remote.catalogXmin t.data.catalogXmin = false

/-- The ids are of one window, no confirmation with a failing save takes a stale candidate, and
an advance of a synchronized slot reaches the remote slot. -/
def Allowed (base : TransactionId) (s : ReplicationSlot) : Event → Prop
  | .call c => CallAllowed base s c
  | .sync remote _ env => InWindow base remote.catalogXmin ∧
      (¬ remote.Precedes s → remote.IsAhead s → env.snapshotExists = false → CallsAllowed base s env.decoded ∧
          KeepsHorizon (calls s env.decoded).1 remote.confirmedLsn env.confirmOk ∧ ReachesRemote s remote env)
  | .save _ => True
  | .restart => True

structure Inv (base : TransactionId) (s : ReplicationSlot) : Prop where
  data : InWindow base s.data.catalogXmin
  file : InWindow base s.stateFile.catalogXmin
  effective : InWindow base s.effectiveCatalogXmin
  candidate : s.candidateCatalogXmin = 0 ∨ InWindow base s.candidateCatalogXmin
  le_file : rank base s.effectiveCatalogXmin ≤ rank base s.stateFile.catalogXmin
  le_data : rank base s.effectiveCatalogXmin ≤ rank base s.data.catalogXmin

theorem inv_created {d : PersistentData} (h : InWindow base d.catalogXmin) : Inv base (created d) :=
  ⟨h, h, h, .inl rfl, Nat.le_refl _, Nat.le_refl _⟩

theorem Inv.durable (h : Inv base s) : Durable s := by
  rw [Durable, Bool.eq_false_iff, ne_eq, transactionIdFollows_iff h.effective h.file]
  exact Nat.not_lt.mpr h.le_file

theorem Inv.markDirty (h : Inv base s) : Inv base (replicationSlotMarkDirty s) :=
  ⟨h.data, h.file, h.effective, h.candidate, h.le_file, h.le_data⟩

theorem Inv.save (h : Inv base s) (ok : Bool) : Inv base (replicationSlotSave s ok).1 := by
  rw [replicationSlotSave]
  split
  · exact h
  · cases ok with
    | true => exact ⟨h.data, h.data, h.effective, h.candidate, h.le_data, h.le_data⟩
    | false => exact h

theorem save_markDirty (s : ReplicationSlot) (ok : Bool) : replicationSlotSave (replicationSlotMarkDirty s) ok =
      if ok then ({ s with stateFile := s.data, dirty := false }, true) else ({ s with dirty := true }, false) := by
  cases ok <;> rfl

theorem move_stateFile (s : ReplicationSlot) (lsn : UInt64) : (s.move lsn).stateFile = s.stateFile := by
  rw [ReplicationSlot.move]
  split <;> split <;> rfl

theorem move_effective (s : ReplicationSlot) (lsn : UInt64) :
    (s.move lsn).effectiveCatalogXmin = s.effectiveCatalogXmin := by
  rw [ReplicationSlot.move]
  split <;> split <;> rfl

theorem move_take (h : s.TakesXmin lsn) :
    (s.move lsn).data.catalogXmin = s.candidateCatalogXmin ∧ (s.move lsn).candidateCatalogXmin = 0 := by
  rw [ReplicationSlot.move, if_pos h]
  split
  · exact ⟨rfl, rfl⟩
  · exact ⟨rfl, rfl⟩

theorem move_keep (h : ¬ s.TakesXmin lsn) : (s.move lsn).data.catalogXmin = s.data.catalogXmin ∧
      (s.move lsn).candidateCatalogXmin = s.candidateCatalogXmin := by
  rw [ReplicationSlot.move, if_neg h]
  split
  · exact ⟨rfl, rfl⟩
  · exact ⟨rfl, rfl⟩

theorem Inv.move (h : Inv base s) (lsn : UInt64) (hkeep : ¬ s.TakesXmin lsn) : Inv base (s.move lsn) := by
  obtain ⟨hdata, hcandidate⟩ := move_keep hkeep
  refine ⟨?_, ?_, ?_, ?_, ?_, ?_⟩
  · rw [hdata]
    exact h.data
  · rw [move_stateFile]
    exact h.file
  · rw [move_effective]
    exact h.effective
  · rw [hcandidate]
    exact h.candidate
  · rw [move_effective, move_stateFile]
    exact h.le_file
  · rw [move_effective, hdata]
    exact h.le_data

theorem inWindow_candidate (h : Inv base s) (htake : s.TakesXmin lsn) : InWindow base s.candidateCatalogXmin :=
  h.candidate.resolve_left htake.2.2.1

theorem Inv.confirm (h : Inv base s) (hkeeps : KeepsHorizon s lsn saveOk) :
    Inv base (logicalConfirmReceivedLocation s lsn saveOk).1 := by
  rw [logicalConfirmReceivedLocation]
  split
  · by_cases htake : s.TakesXmin lsn
    · have hcandidate := inWindow_candidate h htake
      obtain ⟨hdata, hnone⟩ := move_take htake
      simp only [if_pos (Or.inl htake : s.TakesXmin lsn ∨ s.TakesRestart lsn), save_markDirty]
      cases saveOk with
      | true =>
        simp only [if_true, htake, and_self]
        refine ⟨?_, ?_, ?_, .inl hnone, Nat.le_refl _, Nat.le_refl _⟩ <;>
        · show InWindow base (s.move lsn).data.catalogXmin
          rw [hdata]
          exact hcandidate
      | false =>
        have hahead := hkeeps rfl htake
        rw [Bool.eq_false_iff, ne_eq, transactionIdPrecedes_iff hcandidate h.effective, Nat.not_lt] at hahead
        simp only [Bool.false_eq_true, if_false, false_and]
        refine ⟨?_, ?_, ?_, .inl hnone, ?_, ?_⟩
        · show InWindow base (s.move lsn).data.catalogXmin
          rw [hdata]
          exact hcandidate
        · show InWindow base (s.move lsn).stateFile.catalogXmin
          rw [move_stateFile]
          exact h.file
        · show InWindow base (s.move lsn).effectiveCatalogXmin
          rw [move_effective]
          exact h.effective
        · show rank base (s.move lsn).effectiveCatalogXmin ≤ rank base (s.move lsn).stateFile.catalogXmin
          rw [move_effective, move_stateFile]
          exact h.le_file
        · show rank base (s.move lsn).effectiveCatalogXmin ≤ rank base (s.move lsn).data.catalogXmin
          rw [move_effective, hdata]
          exact hahead
    · have hmoved := h.move lsn htake
      simp only [htake, and_false, if_false, false_or]
      split
      · exact hmoved.markDirty.save saveOk
      · exact hmoved
  · exact ⟨h.data, h.file, h.effective, h.candidate, h.le_file, h.le_data⟩

theorem Inv.setXminCandidate (h : Inv base s) (currentLsn : UInt64) {xmin : TransactionId} (hxmin : InWindow base xmin) :
    Inv base (s.setXminCandidate currentLsn xmin) :=
  ⟨h.data, h.file, h.effective, .inr hxmin, h.le_file, h.le_data⟩

theorem Inv.setRestartCandidate (h : Inv base s) (currentLsn restartLsn : UInt64) :
    Inv base (s.setRestartCandidate currentLsn restartLsn) :=
  ⟨h.data, h.file, h.effective, h.candidate, h.le_file, h.le_data⟩

theorem Inv.call (h : Inv base s) {c : Call} (hallowed : CallAllowed base s c) : Inv base (call s c).1 := by
  cases c with
  | increaseXmin currentLsn xmin saveOk =>
    show Inv base (logicalIncreaseXminForSlot s currentLsn xmin saveOk).1
    have hset := h.setXminCandidate currentLsn hallowed
    rw [logicalIncreaseXminForSlot]
    split
    · exact h
    · next hnewer =>
      split
      · -- a candidate that is taken at once is newer than what the slot has
        refine hset.confirm fun _ _ => ?_
        have hlater : rank base s.data.catalogXmin < rank base xmin := by
          rw [transactionIdPrecedesOrEquals_iff hallowed h.data] at hnewer
          exact Nat.lt_of_not_le hnewer
        show transactionIdPrecedes xmin s.effectiveCatalogXmin = false
        rw [Bool.eq_false_iff, ne_eq, transactionIdPrecedes_iff hallowed h.effective, Nat.not_lt]
        exact h.le_data.trans hlater.le
      · split
        · exact hset
        · exact h
  | increaseRestartDecoding currentLsn restartLsn saveOk =>
    show Inv base (logicalIncreaseRestartDecodingForSlot s currentLsn restartLsn saveOk).1
    have hset := h.setRestartCandidate currentLsn restartLsn
    rw [logicalIncreaseRestartDecodingForSlot]
    split
    · exact h
    · next hnewer =>
      split
      · next hflushed =>
        exact hset.confirm (hallowed (UInt64.not_le.mp hnewer) hflushed)
      · split
        · exact hset
        · exact h
  | confirm lsn saveOk => exact h.confirm hallowed

theorem Inv.calls (h : Inv base s) {cs : List Call} (hallowed : CallsAllowed base s cs) : Inv base (calls s cs).1 := by
  induction cs generalizing s with
  | nil => exact h
  | cons c cs ih =>
    have hcall := h.call hallowed.1
    rw [Horizon.calls]
    split
    · next hok => exact ih hcall (hallowed.2 hok)
    · exact hcall

theorem Inv.advance (h : Inv base s) {moveto : UInt64} {decoded : List Call} (readOk : Bool) {confirmOk : Bool}
    (hcalls : CallsAllowed base s decoded) (hkeeps : KeepsHorizon (Horizon.calls s decoded).1 moveto confirmOk) :
    Inv base (logicalSlotAdvanceAndCheckSnapState s moveto decoded readOk confirmOk).1 := by
  have hdecoded := h.calls hcalls
  rw [logicalSlotAdvanceAndCheckSnapState]
  dsimp only
  split
  · exact hdecoded
  · have hconfirm := hdecoded.confirm hkeeps
    split
    · exact hconfirm
    · exact hconfirm.markDirty

theorem Inv.syncSave (h : Inv base s) {remote : RemoteSlot} (hremote : InWindow base remote.catalogXmin)
    (updatedXminOrLsn updatedConfig saveOk : Bool)
    (hreach : updatedXminOrLsn = true → rank base remote.catalogXmin ≤ rank base s.data.catalogXmin) :
    Inv base (syncSave s remote updatedXminOrLsn updatedConfig saveOk).1 := by
  rw [Horizon.syncSave]
  cases updatedXminOrLsn with
  | false =>
    simp only [Bool.or_false, Bool.and_false, Bool.false_eq_true, if_false]
    split
    · exact h.markDirty.save saveOk
    · exact h
  | true =>
    have hle := hreach rfl
    simp only [Bool.or_true, Bool.and_true, if_true, save_markDirty]
    cases saveOk with
    | true => exact ⟨h.data, h.data, hremote, h.candidate, hle, hle⟩
    | false => exact ⟨h.data, h.file, h.effective, h.candidate, h.le_file, h.le_data⟩

theorem Inv.syncPositions (h : Inv base s) {remote : RemoteSlot} {env : SyncEnv}
    (hremote : InWindow base remote.catalogXmin) (hprecedes : ¬ remote.Precedes s)
    (hadvance : env.snapshotExists = false → CallsAllowed base s env.decoded ∧
      KeepsHorizon (Horizon.calls s env.decoded).1 remote.confirmedLsn env.confirmOk ∧ ReachesRemote s remote env) :
    Inv base (syncPositions s remote env).1 ∧ ((syncPositions s remote env).2 = true →
      rank base remote.catalogXmin ≤ rank base (syncPositions s remote env).1.data.catalogXmin) := by
  rw [Horizon.syncPositions]
  cases hexists : env.snapshotExists with
  | true =>
    have hlater : rank base s.data.catalogXmin ≤ rank base remote.catalogXmin := by
      have hnot : ¬ transactionIdPrecedes remote.catalogXmin s.data.catalogXmin = true := fun hp => hprecedes (.inr hp)
      rw [transactionIdPrecedes_iff hremote h.data, Nat.not_lt] at hnot
      exact hnot
    simp only [if_true]
    exact ⟨⟨hremote, h.file, h.effective, h.candidate, h.le_file, h.le_data.trans hlater⟩, fun _ => Nat.le_refl _⟩
  | false =>
    obtain ⟨hcalls, hkeeps, hreach⟩ := hadvance hexists
    have hinv := h.advance env.readOk hcalls hkeeps
    simp only [Bool.false_eq_true, if_false]
    cases hok : (logicalSlotAdvanceAndCheckSnapState s remote.confirmedLsn env.decoded env.readOk env.confirmOk).2 with
    | false =>
      simp only [Bool.not_false, if_true]
      exact ⟨hinv, fun hcontra => absurd (hok.symm.trans hcontra) (by decide)⟩
    | true =>
      simp only [Bool.not_true, Bool.false_eq_true, if_false]
      refine ⟨hinv, fun _ => ?_⟩
      have hnot := hreach _ (Prod.ext rfl hok)
      rw [Bool.eq_false_iff, ne_eq, transactionIdFollows_iff hremote hinv.data, Nat.not_lt] at hnot
      exact hnot

theorem syncConfig_catalog (s : ReplicationSlot) (remote : RemoteSlot) (remoteDbid : UInt32) :
    (syncConfig s remote remoteDbid).1.data.catalogXmin = s.data.catalogXmin := by
  rw [syncConfig]
  split <;> rfl

theorem Inv.syncConfig (h : Inv base s) (remote : RemoteSlot) (remoteDbid : UInt32) :
    Inv base (syncConfig s remote remoteDbid).1 := by
  rw [Horizon.syncConfig]
  split
  · exact ⟨h.data, h.file, h.effective, h.candidate, h.le_file, h.le_data⟩
  · exact h

theorem Inv.sync (h : Inv base s) {remote : RemoteSlot} {remoteDbid : UInt32} {env : SyncEnv}
    (hallowed : Allowed base s (.sync remote remoteDbid env)) :
    Inv base (updateLocalSyncedSlot s remote remoteDbid env).1 := by
  obtain ⟨hremote, hadvance⟩ := hallowed
  rw [updateLocalSyncedSlot]
  split
  · exact h
  · next hprecedes =>
    by_cases hahead : remote.IsAhead s
    · obtain ⟨hinv, hreach⟩ := h.syncPositions hremote hprecedes (hadvance hprecedes hahead)
      simp only [decide_eq_true hahead, if_true]
      cases hok : (Horizon.syncPositions s remote env).2 with
      | false => exact hinv
      | true =>
        have hconfig := hinv.syncConfig remote remoteDbid
        have hsave := hconfig.syncSave hremote true
          (Horizon.syncConfig (Horizon.syncPositions s remote env).1 remote remoteDbid).2 env.saveOk fun _ => by
            rw [syncConfig_catalog]
            exact hreach hok
        simp only [Bool.not_true, Bool.false_eq_true, if_false]
        split
        · exact hsave
        · exact hsave
    · have hconfig := h.syncConfig remote remoteDbid
      have hsave := hconfig.syncSave hremote false (Horizon.syncConfig s remote remoteDbid).2 env.saveOk
        fun hcontra => by cases hcontra
      simp only [decide_eq_false hahead, Bool.false_eq_true, if_false, Bool.not_true]
      split
      · exact hsave
      · exact hsave

theorem Inv.step (h : Inv base s) {e : Event} (hallowed : Allowed base s e) : Inv base (step s e) := by
  cases e with
  | call c => exact h.call hallowed
  | sync remote remoteDbid env => exact h.sync hallowed
  | save ok => exact h.save ok
  | restart => exact inv_created h.file

/-- In every run whose steps are as `Allowed` says, the horizon in memory never follows that of the
state file. -/
theorem catalog_horizon_durable (base : TransactionId) (d : PersistentData) (hd : InWindow base d.catalogXmin)
    (es : List Event) (s : ReplicationSlot)
    (h : Steps (fun s e t => Allowed base s e ∧ step s e = t) (created d) es s) : Durable s := by
  have hinv : Inv base s := by
    refine h.invariant (P := Inv base) (fun hs hstep => ?_) (inv_created hd)
    obtain ⟨hallowed, rfl⟩ := hstep
    exact hs.step hallowed
  exact hinv.durable

def someConfig : Config := ⟨5, false, 0, false, []⟩

/-- A slot at catalog xmin 10 whose candidate 20 is confirmed and saved. -/
theorem catalog_horizon_durable_confirm :
    ∃ s : ReplicationSlot, Durable s ∧ s.effectiveCatalogXmin = 20 ∧ s.stateFile.catalogXmin = 20 := by
  have hin : ∀ xid : TransactionId, 3 ≤ xid → xid ≤ 100 → InWindow 3 xid := by
    intro xid hnormal hnear
    refine ⟨decide_eq_true hnormal, ?_⟩
    rw [UInt32.le_iff_toNat_le] at hnormal hnear
    rw [rank, UInt32.toNat_sub_of_le _ _ (UInt32.le_iff_toNat_le.mpr hnormal)]
    exact lt_of_le_of_lt (Nat.sub_le _ _) (lt_of_le_of_lt hnear (by decide))
  have hrun : Steps (fun s e t => Allowed 3 s e ∧ step s e = t) (created ⟨10, 100, 200, someConfig⟩)
      [.call (.increaseXmin 300 20 true), .call (.confirm 400 true)]
      { created ⟨20, 100, 400, someConfig⟩ with effectiveCatalogXmin := 20 } := by
    refine .cons ⟨hin 20 (by decide) (by decide), rfl⟩ (.cons ⟨?_, rfl⟩ (.nil _))
    exact fun hfail => by cases hfail
  exact ⟨_, catalog_horizon_durable 3 _ (hin 10 (by decide) (by decide)) _ _ hrun, rfl, rfl⟩

/-- The remote slot has catalog xmin 20 where the local one has reached 10: 10 is saved and 20
becomes the horizon. -/
theorem sync_lets_go_too_much : ∃ (d : PersistentData) (remote : RemoteSlot) (env : SyncEnv),
      ¬ remote.Precedes (created d) ∧ remote.IsAhead (created d) ∧
        (logicalSlotAdvanceAndCheckSnapState (created d) remote.confirmedLsn env.decoded env.readOk
          env.confirmOk).1.data.catalogXmin = d.catalogXmin ∧
        ¬ Durable (step (created d) (.sync remote 5 env)) := by
  refine ⟨⟨10, 100, 200, someConfig⟩, ⟨[], false, false, 100, 300, 0, 20⟩, ⟨false, [], true, true, true, true⟩, ?_⟩
  decide +kernel

end CdcKafka.Slot.Horizon
