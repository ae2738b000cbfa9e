import CdcKafka.TableSync.Handoff

/-! Each committed row change reaches Kafka exactly once when every change is sent under
`should_apply_changes_for_rel`: it is in the copy, or one of the two workers sends it. -/

namespace CdcKafka.TableSync
open CdcKafka.Lib

def CountIs (n : Nat) (P : Prop) : Prop := (P → n = 1) ∧ (¬ P → n = 0)

theorem CountIs.congr {n : Nat} {P Q : Prop} (h : CountIs n P) (hPQ : Q ↔ P) : CountIs n Q := by
  unfold CountIs
  rw [hPQ]
  exact h

theorem CountIs.le_one {n : Nat} {P : Prop} (h : CountIs n P) : n ≤ 1 := by
  by_cases hP : P
  · exact Nat.le_of_eq (h.1 hP)
  · simp [h.2 hP]

theorem CountIs.add {m n : Nat} {P Q R : Prop} (hm : CountIs m P) (hn : CountIs n Q)
    (hPQ : P → ¬ Q) (hR : R ↔ P ∨ Q) : CountIs (m + n) R := by
  by_cases hP : P
  · have hQ := hPQ hP
    exact ⟨fun _ => by rw [hm.1 hP, hn.2 hQ], fun hnot => (hnot (hR.mpr (.inl hP))).elim⟩
  · by_cases hQ : Q
    · exact ⟨fun _ => by rw [hm.2 hP, hn.1 hQ], fun hnot => (hnot (hR.mpr (.inr hQ))).elim⟩
    · refine ⟨fun hyes => ?_, fun _ => by rw [hm.2 hP, hn.2 hQ]⟩
      rcases hR.mp hyes with h | h
      · exact (hP h).elim
      · exact (hQ h).elim

theorem countIs_zero {P : Prop} (hP : ¬ P) : CountIs 0 P := ⟨fun h => (hP h).elim, fun _ => rfl⟩

variable {τ : Type} [DecidableEq τ] {hist : History τ} {s t : State τ} {st st' : Stream}
  {startpos i j : Nat} {T : Txn τ} {rel : τ}

def State.guardedEvents (s : State τ) (i j : Nat) (worker : WorkerType τ) : Nat :=
  s.emitted.countP fun e => e.txn = i ∧ e.idx = j ∧ e.worker = worker ∧ e.guarded = true

def Catalog.pending : Catalog → Bool
  | .init | .datasync | .finishedCopy => true
  | .syncdone _ | .ready _ => false

def SyncWorker.busy : SyncWorker → Bool
  | .catchup .. | .syncdone .. => true
  | _ => false

def SyncWorker.idle : SyncWorker → Bool
  | .catchup .. | .syncdone .. | .exited => false
  | _ => true

def Table.Inv (hist : History τ) (startpos last : Nat) (tbl : Table) : Prop :=
  match tbl.worker with
  | .absent | .started | .datasync | .slot _ =>
    tbl.handoff = none ∧ tbl.catalog.pending = true
  | .copied snap | .syncwait snap =>
    tbl.snapshot = some snap ∧ tbl.handoff = none ∧ tbl.catalog.pending = true
  | .catchup snap target st =>
    tbl.snapshot = some snap ∧ tbl.handoff = none ∧ tbl.catalog.pending = true ∧
      snap ≤ target ∧ last ≤ target ∧ st.Sound hist ∧ snap ≤ st.lastReceived
  | .syncdone snap lsn =>
    tbl.snapshot = some snap ∧ tbl.handoff = none ∧ tbl.catalog.pending = true ∧ snap ≤ lsn ∧ last ≤ lsn
  | .exited =>
    ∃ snap lsn, tbl.snapshot = some snap ∧ tbl.handoff = some lsn ∧ snap ≤ lsn ∧
      startpos ≤ lsn ∧ (tbl.catalog = .syncdone lsn ∨ ∃ l, tbl.catalog = .ready l ∧ lsn ≤ last)

/-- The synchronization worker has sent the change: its part of the log runs from the
snapshot to where it is, and to the hand-off once it is done. -/
def Table.SyncSent (tbl : Table) (i j : Nat) (T : Txn τ) : Prop :=
  match tbl.worker with
  | .catchup snap _ st => snap ≤ T.finalLsn ∧ st.Past i j
  | .syncdone snap lsn => snap ≤ T.finalLsn ∧ T.finalLsn < lsn
  | .exited => ∃ snap lsn, tbl.snapshot = some snap ∧ tbl.handoff = some lsn ∧ snap ≤ T.finalLsn ∧ T.finalLsn < lsn
  | _ => False

def Table.LeaderSent (tbl : Table) (startpos : Nat) (leader : Stream) (i j : Nat) (T : Txn τ) :
    Prop :=
  startpos ≤ T.finalLsn ∧ leader.Past i j ∧ ∃ lsn, tbl.handoff = some lsn ∧ lsn ≤ T.finalLsn

structure State.Inv (hist : History τ) (startpos : Nat) (s : State τ) : Prop where
  sound : s.leader.Sound hist
  start_le : startpos ≤ s.leader.lastReceived
  held : s.waiting ≠ none → s.leader.inTxn = none
  busy : ∀ rel, (s.tables rel).worker.busy = true → s.waiting = some rel
  table : ∀ rel, (s.tables rel).Inv hist startpos s.leader.lastReceived
  sync_count : ∀ i j T rel, hist.txns[i]? = some T → T.changes[j]? = some rel →
    CountIs (s.guardedEvents i j (.tablesync rel)) ((s.tables rel).SyncSent i j T)
  leader_count : ∀ i j T rel, hist.txns[i]? = some T → T.changes[j]? = some rel →
    CountIs (s.guardedEvents i j .apply) ((s.tables rel).LeaderSent startpos s.leader i j T)

theorem inv_init (hist : History τ) (startpos : Nat) : (State.init hist startpos).Inv hist startpos where
  sound := sound_start hist startpos
  start_le := Nat.le_refl _
  held := fun h => (h rfl).elim
  busy := nofun
  table := fun _ => ⟨rfl, rfl⟩
  sync_count := fun _ _ _ _ _ _ => countIs_zero id
  leader_count := fun _ _ _ _ _ _ => countIs_zero fun ⟨_, _, _, hnone, _⟩ => nomatch hnone

theorem State.Inv.setTable (h : s.Inv hist startpos) {tbl : Table} (hinv : tbl.Inv hist startpos s.leader.lastReceived)
    (hbusy : tbl.worker.busy = true → s.waiting = some rel)
    (hsync : ∀ i j T, hist.txns[i]? = some T → (tbl.SyncSent i j T ↔ (s.tables rel).SyncSent i j T))
    (hleader : ∀ i j T, hist.txns[i]? = some T → (tbl.LeaderSent startpos s.leader i j T ↔
        (s.tables rel).LeaderSent startpos s.leader i j T)) :
    (s.setTable rel tbl).Inv hist startpos where
  sound := h.sound
  start_le := h.start_le
  held := h.held
  busy r hr := by
    by_cases heq : r = rel
    · subst heq
      exact hbusy (by simpa [State.setTable] using hr)
    · exact h.busy r (by simpa [State.setTable, heq] using hr)
  table r := by
    show (Function.update s.tables rel tbl r).Inv hist startpos s.leader.lastReceived
    by_cases heq : r = rel
    · subst heq
      simpa using hinv
    · simpa [heq] using h.table r
  sync_count i j T r hi hj := by
    show CountIs (s.guardedEvents i j _) ((Function.update s.tables rel tbl r).SyncSent i j T)
    by_cases heq : r = rel
    · subst heq
      rw [Function.update_self]
      exact (h.sync_count i j T r hi hj).congr (hsync i j T hi)
    · rw [Function.update_of_ne heq]
      exact h.sync_count i j T r hi hj
  leader_count i j T r hi hj := by
    show CountIs (s.guardedEvents i j _) ((Function.update s.tables rel tbl r).LeaderSent startpos s.leader i j T)
    by_cases heq : r = rel
    · subst heq
      rw [Function.update_self]
      exact (h.leader_count i j T r hi hj).congr (hleader i j T hi)
    · rw [Function.update_of_ne heq]
      exact h.leader_count i j T r hi hj

omit [DecidableEq τ] in
theorem Table.not_syncSent {tbl : Table} (h : tbl.worker.idle = true) : ¬ tbl.SyncSent i j T := by
  obtain ⟨catalog, worker, snapshot, handoff⟩ := tbl
  cases worker with
  | catchup _ _ _ | syncdone _ _ | exited => cases h
  | _ => exact id

theorem State.Inv.setTable_idle (h : s.Inv hist startpos) {tbl : Table} (hold : (s.tables rel).worker.idle = true)
    (hinv : tbl.Inv hist startpos s.leader.lastReceived) (hnew : tbl.worker.idle = true)
    (hhandoff : tbl.handoff = (s.tables rel).handoff) :
    (s.setTable rel tbl).Inv hist startpos := by
  refine h.setTable hinv (fun hb => ?_) (fun i j T _ => ?_) (fun i j T _ => ?_)
  · cases hw : tbl.worker <;> simp_all [SyncWorker.busy, SyncWorker.idle]
  · exact iff_of_false (Table.not_syncSent hnew) (Table.not_syncSent hold)
  · unfold Table.LeaderSent
    rw [hhandoff]

theorem State.Inv.setWaiting (h : s.Inv hist startpos) (waiting : Option τ)
    (hheld : waiting ≠ none → s.leader.inTxn = none)
    (hbusy : ∀ r, (s.tables r).worker.busy = true → waiting = some r) :
    State.Inv hist startpos { s with waiting := waiting } :=
  { h with held := hheld, busy := hbusy }

theorem State.Inv.not_busy (h : s.Inv hist startpos) (hw : s.waiting = none) (r : τ) :
    (s.tables r).worker.busy = false := by
  by_contra hb
  have hwait := h.busy r (by simpa using hb)
  rw [hw] at hwait
  cases hwait

theorem Stream.not_past_current (hin : st.inTxn = some j) : ¬ st.Past st.next j := by
  rintro (hlt | ⟨-, k, hk, hlt⟩)
  · exact Nat.lt_irrefl _ hlt
  · rw [hin] at hk
    obtain rfl := Option.some.inj hk
    exact Nat.lt_irrefl _ hlt

theorem Stream.past_of_idle (hin : st.inTxn = none) : st.Past i j ↔ i < st.next := by
  simp [Stream.Past, hin]

omit [DecidableEq τ] in
theorem Stream.Sound.past_iff (h : st.Sound hist) (hin : st.inTxn = none)
    (hi : hist.txns[i]? = some T) : st.Past i j ↔ T.finalLsn < st.lastReceived :=
  (Stream.past_of_idle hin).trans (h.split i T hi)

theorem State.dispatch_change (s : State τ) (worker : WorkerType τ) (hin : st.inTxn = some j)
    (hT : hist.txns[st.next]? = some T) (hj : T.changes[j]? = some rel) :
    s.dispatch hist worker st .change =
      [{ txn := st.next, idx := j, worker := worker,
         guarded := shouldApplyChangesForRel worker rel (s.tables rel).catalog T.finalLsn }] := by
  unfold State.dispatch
  rw [hin, hT]
  simp only [hj]

theorem countIs_dispatch (s : State τ) {ev : StreamEvent} (worker w : WorkerType τ)
    (hs : st.step hist ev = some st') (hi : hist.txns[i]? = some T)
    (hj : T.changes[j]? = some rel) :
    CountIs ((s.dispatch hist worker st ev).countP fun e =>
        e.txn = i ∧ e.idx = j ∧ e.worker = w ∧ e.guarded = true)
      ((ev = .change ∧ i = st.next ∧ st.inTxn = some j) ∧ worker = w ∧
        shouldApplyChangesForRel worker rel (s.tables rel).catalog T.finalLsn = true) := by
  rcases Stream.step_cases hs with ⟨rfl, -, -, -⟩ | ⟨k, T', rfl, hin, hT, hk, -⟩ |
    ⟨T', rfl, -, -, -⟩ | ⟨endLsn, rfl, -, -⟩
  · exact countIs_zero (by simp)
  · obtain ⟨rel', hk'⟩ : ∃ r, T'.changes[k]? = some r := ⟨_, List.getElem?_eq_getElem hk⟩
    rw [State.dispatch_change s worker hin hT hk', List.countP_singleton]
    by_cases hcur : i = st.next ∧ j = k
    · obtain ⟨rfl, rfl⟩ := hcur
      rw [hT] at hi
      obtain rfl := Option.some.inj hi
      obtain rfl := Option.some.inj (hj.symm.trans hk')
      by_cases hw : worker = w ∧ shouldApplyChangesForRel worker rel (s.tables rel).catalog T'.finalLsn = true
      · obtain ⟨rfl, hguard⟩ := hw
        exact ⟨fun _ => by simp [hguard], fun hnot => (hnot ⟨⟨rfl, rfl, hin⟩, rfl, hguard⟩).elim⟩
      · exact ⟨fun hyes => (hw hyes.2).elim, fun _ => by simp [hw]⟩
    · refine ⟨fun ⟨⟨_, hnext, hidx⟩, _⟩ => (hcur ⟨hnext, ?_⟩).elim, fun _ => ?_⟩
      · rw [hin] at hidx
        exact (Option.some.inj hidx).symm
      · simp only [decide_eq_true_eq, ite_eq_right_iff, Nat.one_ne_zero, imp_false]
        rintro ⟨hnext, hidx, -⟩
        exact hcur ⟨hnext.symm, hidx.symm⟩
  · exact countIs_zero (by simp)
  · exact countIs_zero (by simp)

theorem lt_length_of_getElem? {α : Type} {xs : List α} {x : α} (h : xs[j]? = some x) :
    j < xs.length := (List.getElem?_eq_some_iff.mp h).1

theorem Table.Inv.guard_iff {tbl : Table} {last : Nat} (h : tbl.Inv hist startpos last) (hlast : last ≤ T.finalLsn) :
    shouldApplyChangesForRel .apply rel tbl.catalog T.finalLsn = true ↔
      ∃ lsn, tbl.handoff = some lsn ∧ lsn ≤ T.finalLsn := by
  have pending : tbl.handoff = none → tbl.catalog.pending = true →
      (shouldApplyChangesForRel .apply rel tbl.catalog T.finalLsn = true ↔
        ∃ lsn, tbl.handoff = some lsn ∧ lsn ≤ T.finalLsn) := by
    intro hnone hpend
    rw [hnone]
    refine iff_of_false ?_ nofun
    cases hcat : tbl.catalog <;> simp_all [shouldApplyChangesForRel, Catalog.pending]
  obtain ⟨catalog, worker, snapshot, handoff⟩ := tbl
  cases worker with
  | absent | started | datasync | slot _ => exact pending h.1 h.2
  | copied _ | syncwait _ => exact pending h.2.1 h.2.2
  | catchup _ _ _ | syncdone _ _ => exact pending h.2.1 h.2.2.1
  | exited =>
    obtain ⟨snap, lsn, -, hhand, -, -, hcat | ⟨l, hcat, hl⟩⟩ := h
    · obtain rfl : handoff = some lsn := hhand
      obtain rfl : catalog = .syncdone lsn := hcat
      simp [shouldApplyChangesForRel]
    · obtain rfl : handoff = some lsn := hhand
      obtain rfl : catalog = .ready l := hcat
      exact iff_of_true rfl ⟨lsn, rfl, Nat.le_trans hl hlast⟩

omit [DecidableEq τ] in
theorem Table.Inv.mono {tbl : Table} {last last' : Nat} (h : tbl.Inv hist startpos last)
    (hbusy : tbl.worker.busy = false) (hle : last ≤ last') : tbl.Inv hist startpos last' := by
  obtain ⟨catalog, worker, snapshot, handoff⟩ := tbl
  cases worker with
  | absent | started | datasync | slot _ | copied _ | syncwait _ => exact h
  | catchup _ _ _ | syncdone _ _ => cases hbusy
  | exited =>
    obtain ⟨snap, lsn, hsnap, hhand, hle', hstart, hcat⟩ := h
    refine ⟨snap, lsn, hsnap, hhand, hle', hstart, hcat.imp_right ?_⟩
    rintro ⟨l, hl, hlast⟩
    exact ⟨l, hl, Nat.le_trans hlast hle⟩

theorem State.Inv.leader (h : s.Inv hist startpos) {ev : StreamEvent} (hw : s.waiting = none)
    (hs : s.leader.step hist ev = some st') :
    State.Inv hist startpos { s with leader := st', emitted := s.emitted ++ s.dispatch hist .apply s.leader ev } where
  sound := h.sound.step hs
  start_le := Nat.le_trans h.start_le (Stream.le_step hs)
  held hne := (hne hw).elim
  busy := h.busy
  table r := (h.table r).mono (h.not_busy hw r) (Stream.le_step hs)
  sync_count i j T r hi hj := by
    show CountIs (List.countP _ (s.emitted ++ s.dispatch hist .apply s.leader ev)) _
    rw [List.countP_append]
    refine (h.sync_count i j T r hi hj).add (countIs_dispatch s .apply _ hs hi hj) ?_ ?_
    · rintro - ⟨-, hworker, -⟩
      cases hworker
    · simp
  leader_count i j T r hi hj := by
    show CountIs (List.countP _ (s.emitted ++ s.dispatch hist .apply s.leader ev))
      ((s.tables r).LeaderSent startpos st' i j T)
    rw [List.countP_append]
    refine (h.leader_count i j T r hi hj).add (countIs_dispatch s .apply _ hs hi hj) ?_ ?_
    · rintro ⟨-, hpast, -⟩ ⟨⟨-, rfl, hin⟩, -, -⟩
      exact Stream.not_past_current hin hpast
    · unfold Table.LeaderSent
      rw [Stream.past_step hs hi (lt_length_of_getElem? hj)]
      constructor
      · rintro ⟨hstart, hpast | hcur, hhand⟩
        · exact .inl ⟨hstart, hpast, hhand⟩
        · have hle := h.sound.le_final hi (Nat.le_of_eq hcur.2.1.symm)
          exact .inr ⟨hcur, rfl, ((h.table r).guard_iff hle).mpr hhand⟩
      · rintro (⟨hstart, hpast, hhand⟩ | ⟨hcur, -, hguard⟩)
        · exact ⟨hstart, .inl hpast, hhand⟩
        · have hle := h.sound.le_final hi (Nat.le_of_eq hcur.2.1.symm)
          exact ⟨Nat.le_trans h.start_le hle, .inr hcur, ((h.table r).guard_iff hle).mp hguard⟩

theorem State.Inv.sync (h : s.Inv hist startpos) {ev : StreamEvent} {snap target : Nat}
    (hworker : (s.tables rel).worker = .catchup snap target st)
    (hs : st.step hist ev = some st') :
    State.Inv hist startpos
      { s.setTable rel { s.tables rel with worker := .catchup snap target st' } with
        emitted := s.emitted ++ s.dispatch hist (.tablesync rel) st ev } := by
  have hbusy := h.busy rel (by rw [hworker]; rfl)
  have htbl := h.table rel
  unfold Table.Inv at htbl
  rw [hworker] at htbl
  obtain ⟨hsnap, hhand, hpend, hle, hlast, hsound, hreceived⟩ := htbl
  refine ⟨h.sound, h.start_le, h.held, ?_, ?_, ?_, ?_⟩
  · intro r hr
    by_cases heq : r = rel
    · rw [heq]
      exact hbusy
    · exact h.busy r (by simpa [State.setTable, heq] using hr)
  · intro r
    show (Function.update s.tables rel _ r).Inv hist startpos s.leader.lastReceived
    by_cases heq : r = rel
    · subst heq
      rw [Function.update_self]
      exact ⟨hsnap, hhand, hpend, hle, hlast, hsound.step hs, Nat.le_trans hreceived (Stream.le_step hs)⟩
    · rw [Function.update_of_ne heq]
      exact h.table r
  · intro i j T r hi hj
    show CountIs (List.countP _ (s.emitted ++ s.dispatch hist (.tablesync rel) st ev))
      ((Function.update s.tables rel _ r).SyncSent i j T)
    rw [List.countP_append]
    refine (h.sync_count i j T r hi hj).add (countIs_dispatch s (.tablesync rel) _ hs hi hj) ?_ ?_
    · rintro hsent ⟨⟨-, rfl, hin⟩, hw, -⟩
      obtain rfl := WorkerType.tablesync.inj hw
      unfold Table.SyncSent at hsent
      rw [hworker] at hsent
      exact Stream.not_past_current hin hsent.2
    · by_cases heq : r = rel
      · subst heq
        rw [Function.update_self]
        unfold Table.SyncSent
        rw [hworker]
        simp only [Stream.past_step hs hi (lt_length_of_getElem? hj), shouldApplyChangesForRel,
          decide_true, and_true, and_or_left]
        refine or_congr_right (and_iff_right_of_imp fun hcur => ?_)
        exact Nat.le_trans hreceived (hsound.le_final hi (Nat.le_of_eq hcur.2.1.symm))
      · rw [Function.update_of_ne heq]
        simp [Ne.symm heq]
  · intro i j T r hi hj
    show CountIs (List.countP _ (s.emitted ++ s.dispatch hist (.tablesync rel) st ev))
      ((Function.update s.tables rel _ r).LeaderSent startpos s.leader i j T)
    rw [List.countP_append]
    refine (h.leader_count i j T r hi hj).add (countIs_dispatch s (.tablesync rel) _ hs hi hj) ?_ ?_
    · rintro - ⟨-, hw, -⟩
      cases hw
    · have hsame : (Function.update s.tables rel { s.tables rel with worker := .catchup snap target st' } r).handoff =
          (s.tables r).handoff := by
        by_cases heq : r = rel
        · subst heq
          rw [Function.update_self]
        · rw [Function.update_of_ne heq]
      unfold Table.LeaderSent
      rw [hsame]
      simp

theorem State.Inv.syncFinish (h : s.Inv hist startpos) {snap target : Nat}
    (hworker : (s.tables rel).worker = .catchup snap target st) (hin : st.inTxn = none)
    (htarget : target ≤ st.lastReceived) :
    (s.setTable rel { s.tables rel with worker := .syncdone snap st.lastReceived }).Inv hist startpos := by
  have hbusy := h.busy rel (by rw [hworker]; rfl)
  have htbl := h.table rel
  unfold Table.Inv at htbl
  rw [hworker] at htbl
  obtain ⟨hsnap, hhand, hpend, -, hlast, hsound, hreceived⟩ := htbl
  refine h.setTable ⟨hsnap, hhand, hpend, hreceived, Nat.le_trans hlast htarget⟩
    (fun _ => hbusy) (fun i j T hi => ?_) (fun i j T hi => Iff.rfl)
  unfold Table.SyncSent
  rw [hworker]
  exact and_congr_right fun _ => (hsound.past_iff hin hi).symm

theorem State.Inv.syncPersist (h : s.Inv hist startpos) {snap lsn : Nat}
    (hworker : (s.tables rel).worker = .syncdone snap lsn) :
    (s.setTable rel { s.tables rel with worker := .exited, catalog := .syncdone lsn,
                                        handoff := some lsn }).Inv hist startpos := by
  have hbusy := h.busy rel (by rw [hworker]; rfl)
  have hidle := h.held (by rw [hbusy]; nofun)
  have htbl := h.table rel
  unfold Table.Inv at htbl
  rw [hworker] at htbl
  obtain ⟨hsnap, hhand, -, hle, hlast⟩ := htbl
  refine h.setTable ⟨snap, lsn, hsnap, rfl, hle, Nat.le_trans h.start_le hlast, .inl rfl⟩
    nofun (fun i j T hi => ?_) (fun i j T hi => iff_of_false ?_ ?_)
  · unfold Table.SyncSent
    rw [hworker]
    simp [hsnap]
  · rintro ⟨-, hpast, lsn', hlsn, hfinal⟩
    obtain rfl := Option.some.inj hlsn
    have hlt := (h.sound.past_iff hidle hi).mp hpast
    omega
  · rintro ⟨-, -, lsn', hlsn, -⟩
    rw [hhand] at hlsn
    cases hlsn

theorem State.Inv.leaderCatchup (h : s.Inv hist startpos) {snap : Nat}
    (hfree : s.leaderFree = true) (hworker : (s.tables rel).worker = .syncwait snap) :
    State.Inv hist startpos
      { s.setTable rel { s.tables rel with
          worker := .catchup snap (max snap s.leader.lastReceived) (Stream.start hist snap) } with
        waiting := some rel } := by
  obtain ⟨hwait, hidle⟩ : s.waiting = none ∧ s.leader.inTxn = none := by
    simpa [State.leaderFree] using hfree
  have htbl := h.table rel
  unfold Table.Inv at htbl
  rw [hworker] at htbl
  obtain ⟨hsnap, hhand, hpend⟩ := htbl
  have hsound := sound_start hist snap
  have hheld := h.setWaiting (some rel) (fun _ => hidle) fun r hr => by
    rw [h.not_busy hwait r] at hr
    cases hr
  refine hheld.setTable ⟨hsnap, hhand, hpend, Nat.le_max_left _ _, Nat.le_max_right _ _, hsound,
    Nat.le_refl _⟩ (fun _ => rfl) (fun i j T hi => ?_) (fun i j T hi => Iff.rfl)
  unfold Table.SyncSent
  rw [hworker]
  refine iff_of_false ?_ id
  rintro ⟨hle, hpast⟩
  have hlt := (hsound.past_iff rfl hi).mp hpast
  exact Nat.lt_irrefl _ (Nat.lt_of_lt_of_le hlt hle)

theorem State.Inv.leaderReady (h : s.Inv hist startpos) {lsn : Nat}
    (hcat : (s.tables rel).catalog = .syncdone lsn) (hle : lsn ≤ s.leader.lastReceived) :
    (s.setTable rel { s.tables rel with catalog := .ready s.leader.lastReceived }).Inv hist startpos := by
  have htbl := h.table rel
  refine h.setTable ?_ (h.busy rel) (fun i j T hi => Iff.rfl) (fun i j T hi => Iff.rfl)
  unfold Table.Inv at htbl ⊢
  rw [hcat] at htbl
  cases hworker : (s.tables rel).worker with
  | exited =>
    rw [hworker] at htbl
    obtain ⟨snap, lsn', hsnap, hhand, hsl, hstart, hdone | ⟨l, hready, -⟩⟩ := htbl
    · obtain rfl := Catalog.syncdone.inj hdone
      exact ⟨snap, lsn, hsnap, hhand, hsl, hstart, .inr ⟨_, rfl, hle⟩⟩
    · cases hready
  | _ =>
    rw [hworker] at htbl
    simp [Catalog.pending] at htbl

theorem State.Inv.step (h : s.Inv hist startpos) {ev : Event τ} (hs : s.step hist ev = some t) :
    t.Inv hist startpos := by
  cases ev with
  | leader ev =>
    simp only [State.step] at hs
    split at hs
    next hw =>
      obtain ⟨st', hst, rfl⟩ := Option.map_eq_some_iff.mp hs
      exact h.leader (by simpa using hw) hst
    next => cases hs
  | leaderLaunch rel =>
    simp only [State.step] at hs
    split at hs
    next hfree hcat hworker =>
      obtain rfl := Option.some.inj hs
      have htbl := h.table rel
      unfold Table.Inv at htbl
      rw [hworker] at htbl
      exact h.setTable_idle (by rw [hworker]; rfl) htbl rfl rfl
    next => cases hs
  | leaderCatchup rel =>
    simp only [State.step] at hs
    split at hs
    next hfree hworker =>
      obtain rfl := Option.some.inj hs
      exact h.leaderCatchup hfree hworker
    next => cases hs
  | leaderResume =>
    simp only [State.step] at hs
    split at hs
    next rel hw =>
      split at hs
      next lsn hcat =>
        obtain rfl := Option.some.inj hs
        refine h.setWaiting _ (fun hne => (hne rfl).elim) fun r hr => ?_
        obtain rfl : rel = r := Option.some.inj (hw.symm.trans (h.busy r hr))
        have htbl := h.table rel
        unfold Table.Inv at htbl
        rw [hcat] at htbl
        cases hworker : (s.tables rel).worker with
        | catchup _ _ _ | syncdone _ _ =>
          rw [hworker] at htbl
          simp [Catalog.pending] at htbl
        | _ =>
          rw [hworker] at hr
          cases hr
      next => cases hs
    next => cases hs
  | leaderReady rel =>
    simp only [State.step] at hs
    split at hs
    next hfree hcat =>
      rw [Option.ite_none_right_eq_some] at hs
      obtain ⟨hle, hs⟩ := hs
      obtain rfl := Option.some.inj hs
      exact h.leaderReady hcat hle
    next => cases hs
  | syncStart rel =>
    simp only [State.step] at hs
    split at hs
    next hworker =>
      obtain rfl := Option.some.inj hs
      have htbl := h.table rel
      unfold Table.Inv at htbl
      rw [hworker] at htbl
      exact h.setTable_idle (by rw [hworker]; rfl) ⟨htbl.1, rfl⟩ rfl rfl
    next => cases hs
  | syncSlot rel startpos =>
    simp only [State.step] at hs
    split at hs
    next hworker =>
      obtain rfl := Option.some.inj hs
      have htbl := h.table rel
      unfold Table.Inv at htbl
      rw [hworker] at htbl
      exact h.setTable_idle (by rw [hworker]; rfl) htbl rfl rfl
    next => cases hs
  | syncCopy rel =>
    simp only [State.step] at hs
    split at hs
    next hworker =>
      obtain rfl := Option.some.inj hs
      have htbl := h.table rel
      unfold Table.Inv at htbl
      rw [hworker] at htbl
      exact h.setTable_idle (by rw [hworker]; rfl) ⟨rfl, htbl⟩ rfl rfl
    next => cases hs
  | syncWait rel =>
    simp only [State.step] at hs
    split at hs
    next hworker =>
      obtain rfl := Option.some.inj hs
      have htbl := h.table rel
      unfold Table.Inv at htbl
      rw [hworker] at htbl
      exact h.setTable_idle (by rw [hworker]; rfl) ⟨htbl.1, htbl.2.1, rfl⟩ rfl rfl
    next => cases hs
  | sync rel ev =>
    simp only [State.step] at hs
    split at hs
    next snap target st hworker =>
      obtain ⟨st', hst, rfl⟩ := Option.map_eq_some_iff.mp hs
      exact h.sync hworker hst
    next => cases hs
  | syncFinish rel =>
    simp only [State.step] at hs
    split at hs
    next snap target st hworker =>
      rw [Option.ite_none_right_eq_some] at hs
      obtain ⟨⟨hin, htarget⟩, hs⟩ := hs
      obtain rfl := Option.some.inj hs
      exact h.syncFinish hworker hin htarget
    next => cases hs
  | syncPersist rel =>
    simp only [State.step] at hs
    split at hs
    next snap lsn hworker =>
      obtain rfl := Option.some.inj hs
      exact h.syncPersist hworker
    next => cases hs

theorem inv_of_steps {es : List (Event τ)} (h : Steps (Step hist) (State.init hist startpos) es s) :
    s.Inv hist startpos :=
  h.invariant (fun hinv hs => hinv.step hs) (inv_init hist startpos)

theorem State.Inv.guarded_once (h : s.Inv hist startpos) (hi : hist.txns[i]? = some T) (hj : T.changes[j]? = some rel) :
    CountIs ((if s.visible rel T then 1 else 0) + s.guardedEvents i j (.tablesync rel) +
        s.guardedEvents i j .apply)
      (s.visible rel T = true ∨ (s.tables rel).SyncSent i j T ∨ (s.tables rel).LeaderSent startpos s.leader i j T) := by
  have hvisible : CountIs (if s.visible rel T then 1 else 0) (s.visible rel T = true) := by
    constructor <;> intro hv <;> simp [hv]
  have htbl := h.table rel
  have hsync := (h.sync_count i j T rel hi hj)
  have hleader := (h.leader_count i j T rel hi hj)
  refine CountIs.add (hvisible.add hsync ?_ Iff.rfl) hleader ?_ or_assoc.symm
  · unfold State.visible Table.SyncSent
    unfold Table.Inv at htbl
    cases hworker : (s.tables rel).worker with
    | catchup snap _ _ | syncdone snap _ =>
      rw [hworker] at htbl
      simp only [htbl.1, decide_eq_true_eq]
      rintro hlt ⟨hle, -⟩
      omega
    | exited =>
      rw [hworker] at htbl
      obtain ⟨snap, lsn, hsnap, -, -⟩ := htbl
      simp only [hsnap, Option.some.injEq, decide_eq_true_eq]
      rintro hlt ⟨_, _, rfl, -, hle, -⟩
      omega
    | _ => exact fun _ => id
  · rintro hbefore ⟨-, -, lsn, hhand, hle⟩
    unfold State.visible Table.SyncSent at hbefore
    unfold Table.Inv at htbl
    cases hworker : (s.tables rel).worker with
    | exited =>
      rw [hworker] at htbl hbefore
      obtain ⟨snap, lsn', hsnap, hhand', hle', -⟩ := htbl
      obtain rfl := Option.some.inj (hhand.symm.trans hhand')
      simp only [hsnap, hhand, Option.some.injEq, decide_eq_true_eq] at hbefore
      rcases hbefore with hlt | ⟨_, _, rfl, rfl, -, hlt⟩ <;> omega
    | _ =>
      rw [hworker] at htbl
      simp [hhand] at htbl

theorem State.Inv.sent_of_complete (h : s.Inv hist startpos) (hc : s.Complete i rel) :
    s.visible rel T = true ∨ (s.tables rel).SyncSent i j T ∨ (s.tables rel).LeaderSent startpos s.leader i j T := by
  obtain ⟨⟨lsn, hhand⟩, hnext⟩ := hc
  have htbl := h.table rel
  unfold Table.Inv at htbl
  cases hworker : (s.tables rel).worker with
  | exited =>
    rw [hworker] at htbl
    obtain ⟨snap, lsn', hsnap, hhand', -, hstart, -⟩ := htbl
    obtain rfl := Option.some.inj (hhand.symm.trans hhand')
    unfold State.visible Table.SyncSent Table.LeaderSent
    rw [hworker, hsnap]
    by_cases hbefore : T.finalLsn < snap
    · exact .inl (by simpa using hbefore)
    · by_cases hmiddle : T.finalLsn < lsn
      · exact .inr (.inl ⟨snap, lsn, rfl, hhand, by omega, hmiddle⟩)
      · exact .inr (.inr ⟨by omega, .inl hnext, lsn, hhand, by omega⟩)
  | _ =>
    rw [hworker] at htbl
    simp [hhand] at htbl

def Emission.Owned (hist : History τ) (e : Emission τ) : Prop :=
  ∀ T rel, hist.txns[e.txn]? = some T → T.changes[e.idx]? = some rel → e.guarded = true →
    e.worker = .apply ∨ e.worker = .tablesync rel

theorem owned_dispatch {worker : WorkerType τ} {ev : StreamEvent} {e : Emission τ}
    (he : e ∈ s.dispatch hist worker st ev) : e.Owned hist := by
  intro T rel hT hrel hguard
  unfold State.dispatch at he
  split at he
  · split at he
    next k T' hin hT' =>
      split at he
      next rel' hrel' =>
        obtain rfl := List.mem_singleton.mp he
        obtain rfl := Option.some.inj (hT'.symm.trans hT)
        obtain rfl := Option.some.inj (hrel'.symm.trans hrel)
        cases worker with
        | apply => exact .inl rfl
        | tablesync relid =>
          right
          simpa [shouldApplyChangesForRel] using hguard
      next => cases he
    next => cases he
  · cases he

theorem State.step_emitted {ev : Event τ} (hs : s.step hist ev = some t) :
    t.emitted = s.emitted ++ s.sends hist ev := by
  cases ev with
  | leader ev =>
    simp only [State.step] at hs
    split at hs
    next =>
      obtain ⟨st', -, rfl⟩ := Option.map_eq_some_iff.mp hs
      rfl
    next => cases hs
  | sync rel ev =>
    simp only [State.step] at hs
    split at hs
    next snap target st hworker =>
      obtain ⟨st', -, rfl⟩ := Option.map_eq_some_iff.mp hs
      simp [State.sends, hworker]
    next => cases hs
  | _ =>
    simp only [State.step] at hs
    show t.emitted = s.emitted ++ []
    rw [List.append_nil]
    repeat' split at hs
    all_goals first
      | (cases hs; rfl)
      | cases hs

theorem owned_sends {ev : Event τ} {e : Emission τ} (he : e ∈ s.sends hist ev) : e.Owned hist := by
  unfold State.sends at he
  split at he
  · exact owned_dispatch he
  · split at he
    · exact owned_dispatch he
    · cases he
  · cases he

def State.unguardedEvents (s : State τ) (i j : Nat) : Nat :=
  s.emitted.countP fun e => e.txn = i ∧ e.idx = j ∧ e.guarded = false

omit [DecidableEq τ] in
theorem countP_eq_add_of_mem {α : Type} {p q r u : α → Bool} {xs : List α} (h : ∀ x ∈ xs, (if p x then 1 else 0) =
      (if q x then 1 else 0) + (if r x then 1 else 0) + (if u x then 1 else 0)) :
    xs.countP p = xs.countP q + xs.countP r + xs.countP u := by
  induction xs with
  | nil => rfl
  | cons x xs ih =>
    have hx := h x List.mem_cons_self
    have hxs := ih fun y hy => h y (List.mem_cons_of_mem x hy)
    simp only [List.countP_cons]
    omega

theorem State.events_eq (howned : ∀ e ∈ s.emitted, e.Owned hist) (hi : hist.txns[i]? = some T)
    (hj : T.changes[j]? = some rel) :
    s.events i j = s.guardedEvents i j (.tablesync rel) + s.guardedEvents i j .apply + s.unguardedEvents i j := by
  refine countP_eq_add_of_mem fun e he => ?_
  by_cases hat : e.txn = i ∧ e.idx = j
  · obtain ⟨rfl, rfl⟩ := hat
    cases hguard : e.guarded with
    | true =>
      rcases howned e he T rel hi hj hguard with hw | hw <;> simp [hw]
    | false => simp
  · have hdrop : ∀ P : Prop, ¬ (e.txn = i ∧ e.idx = j ∧ P) := fun P h => hat ⟨h.1, h.2.1⟩
    simp [hat, hdrop]

theorem owned_of_steps {es : List (Event τ)}
    (h : Steps (Step hist) (State.init hist startpos) es s) : ∀ e ∈ s.emitted, e.Owned hist := by
  refine h.invariant (P := fun s => ∀ e ∈ s.emitted, e.Owned hist) (fun hinv hs e he => ?_) nofun
  rw [State.step_emitted hs] at he
  rcases List.mem_append.mp he with he | he
  · exact hinv e he
  · exact owned_sends he

theorem deliveries_eq_of_complete {es : List (Event τ)}
    (h : Steps (Step hist) (State.init hist startpos) es s) (hi : hist.txns[i]? = some T)
    (hj : T.changes[j]? = some rel) (hc : s.Complete i rel) :
    s.deliveries i j rel T = 1 + s.unguardedEvents i j := by
  have hinv := inv_of_steps h
  have honce := (hinv.guarded_once hi hj).1 (hinv.sent_of_complete hc)
  have hevents := State.events_eq (owned_of_steps h) hi hj
  unfold State.deliveries
  omega

theorem guarded_of_steps {es : List (Event τ)} (h : Steps (GuardedStep hist) (State.init hist startpos) es s) :
    ∀ e ∈ s.emitted, e.guarded = true := by
  refine h.invariant (P := fun s => ∀ e ∈ s.emitted, e.guarded = true) (fun hinv hs e he => ?_) nofun
  rw [State.step_emitted hs.1] at he
  rcases List.mem_append.mp he with he | he
  · exact hinv e he
  · exact hs.2 e he

theorem deliveredOnce_of_guarded {es : List (Event τ)}
    (h : Steps (GuardedStep hist) (State.init hist startpos) es s) (hi : hist.txns[i]? = some T)
    (hj : T.changes[j]? = some rel) : s.DeliveredOnce i j rel T := by
  have hrun : Steps (Step hist) (State.init hist startpos) es s := h.mono fun hs => hs.1
  have hguard := guarded_of_steps h
  have hnone : s.unguardedEvents i j = 0 := by
    refine List.countP_eq_zero.mpr fun e he => ?_
    simp [hguard e he]
  constructor
  · have hle := ((inv_of_steps hrun).guarded_once hi hj).le_one
    have hevents := State.events_eq (owned_of_steps hrun) hi hj
    unfold State.deliveries
    omega
  · intro hc
    rw [deliveries_eq_of_complete hrun hi hj hc, hnone]

def quietHistory : History Unit where
  txns := [⟨10, 20, [()], by decide⟩, ⟨30, 40, [()], by decide⟩]
  ordered := by decide

def quietRun : List (Event Unit) :=
  [.leaderLaunch (), .syncStart (), .syncSlot () 28, .syncCopy (), .syncWait (),
   .leaderCatchup (), .sync () (.keepalive 28), .syncFinish (), .syncPersist (), .leaderResume,
   .leader .begin, .leader .change, .leader .commit, .leaderReady ()]

theorem deliveredOnce_quietRun : ∃ s, Steps (GuardedStep quietHistory) (State.init quietHistory 25) quietRun s ∧
      s.Complete 0 () ∧ s.Complete 1 () ∧
      ∀ i j T, quietHistory.txns[i]? = some T → T.changes[j]? = some () → s.DeliveredOnce i j () T := by
  have hrun : (quietRun.foldlM (fun (s : State Unit) ev =>
      if s.GuardHolds quietHistory ev then s.step quietHistory ev else none)
      (State.init quietHistory 25)).any (fun s =>
        (s.tables ()).handoff = some 28 ∧ s.leader.next = 2) = true := by decide +kernel
  obtain ⟨s, hs, hend⟩ := (Option.any_eq_true _ _).mp hrun
  obtain ⟨hhand, hnext⟩ := of_decide_eq_true hend
  have hsteps : Steps (GuardedStep quietHistory) (State.init quietHistory 25) quietRun s :=
    (steps_of_foldlM hs).mono fun h => (Option.ite_none_right_eq_some.mp h).symm
  refine ⟨s, hsteps, ⟨⟨28, hhand⟩, by omega⟩, ⟨⟨28, hhand⟩, by omega⟩, ?_⟩
  intro i j T hi hj
  exact deliveredOnce_of_guarded hsteps hi hj

def busyTxn : Txn Unit := ⟨10, 20, [()], by decide⟩

def busyHistory : History Unit := ⟨[busyTxn], by decide⟩

def busyRun : List (Event Unit) :=
  [.leaderLaunch (), .syncStart (), .leader .begin, .leader .change, .leader .commit,
   .syncSlot () 25, .syncCopy (), .syncWait (), .leaderCatchup (), .sync () (.keepalive 25),
   .syncFinish (), .syncPersist (), .leaderResume]

theorem busyRun_delivers_twice : ∃ s, Steps (Step busyHistory) (State.init busyHistory 0) busyRun s ∧
      busyHistory.txns[0]? = some busyTxn ∧ busyTxn.changes[0]? = some () ∧ s.Complete 0 () ∧
      s.deliveries 0 0 () busyTxn = 2 ∧ ¬ s.DeliveredOnce 0 0 () busyTxn := by
  have hrun : (busyRun.foldlM (State.step busyHistory) (State.init busyHistory 0)).any (fun s =>
      (s.tables ()).handoff = some 25 ∧ s.leader.next = 1 ∧ s.deliveries 0 0 () busyTxn = 2) = true := by decide +kernel
  obtain ⟨s, hs, hend⟩ := (Option.any_eq_true _ _).mp hrun
  obtain ⟨hhand, hnext, htwice⟩ := of_decide_eq_true hend
  refine ⟨s, steps_of_foldlM hs, rfl, rfl, ⟨⟨25, hhand⟩, by omega⟩, htwice, ?_⟩
  rintro ⟨hle, -⟩
  omega

end CdcKafka.TableSync
