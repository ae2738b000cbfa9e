import CdcKafka.Launcher.Slots
import CdcKafka.Lib.Table
import Mathlib.Data.Nat.Basic
import Mathlib.Data.Option.Basic
import Mathlib.Order.Basic

/-! Who a slot belongs to while the parties act on slots that are still those of their launch. -/

namespace CdcKafka.Launcher
open Lib Table

variable {cfg : Config} {st st' : State}

structure Matches (w : LogicalRepWorker) (args : LaunchArgs) : Prop where
  type : w.type = args.wtype
  subid : w.subid = args.subid
  relid : w.relid = args.relid

structure SlotsOwned (cfg : Config) (st : State) : Prop where
  attached : ∀ (b : Nat) (x : BackgroundWorker), st.bgworkers[b]? = some x → x.phase = .attached →
    ∃ w, st.workers[x.bgwMainArg]? = some w ∧ w.inUse = true ∧ w.proc = some b ∧ Matches w x.launchedFor
  fileset : ∀ (b : Nat) (x : BackgroundWorker), st.bgworkers[b]? = some x → ∀ f, x.deleted = some f → f = b
  tablesync : ∀ subid, logicalrepSyncWorkerCount st.workers subid ≤ cfg.maxSyncWorkersPerSubscription
  parallel : ∀ subid, logicalrepPaWorkerCount st.workers subid ≤ cfg.maxParallelApplyWorkersPerSubscription

def StillCurrent (st : State) : Event → Prop
  | .register l _ | .cleanupRefused l => ∀ (x : Launch) (w : LogicalRepWorker), st.launches[l]? = some x →
      st.workers[x.slot]? = some w → w.taken = x.taken
  | .waitCleanup l => ∀ (x : Launch) (w : LogicalRepWorker), st.launches[l]? = some x → st.workers[x.slot]? = some w →
      x.taken % 2 ^ 16 = w.generation → w.taken = x.taken
  | .attach b => ∀ (x : BackgroundWorker) (w : LogicalRepWorker), st.bgworkers[b]? = some x →
      st.workers[x.bgwMainArg]? = some w → w.inUse = true → w.proc = none → w.taken = x.taken
  | .deleteStreamFileset b => ∀ (x : BackgroundWorker) (w : LogicalRepWorker), st.bgworkers[b]? = some x →
      st.workers[x.bgwMainArg]? = some w → w.taken = x.taken
  | _ => True

structure Fits (w : LogicalRepWorker) (args : LaunchArgs) (taken : Nat) : Prop where
  le : taken ≤ w.taken
  fits : w.taken = taken → w.inUse = true → Matches w args

structure WorkerSlot (w : LogicalRepWorker) (b : Nat) (x : BackgroundWorker) : Prop where
  fits : Fits w x.launchedFor x.taken
  attached : x.phase = .attached → w.taken = x.taken ∧ w.inUse = true ∧ w.proc = some b
  fileset : w.taken = x.taken → ∀ f, w.streamFileset = some f → f = b

def WorkerOk (workers : List LogicalRepWorker) (b : Nat) (x : BackgroundWorker) : Prop :=
  (∀ f, x.deleted = some f → f = b) ∧ ∃ w, workers[x.bgwMainArg]? = some w ∧ WorkerSlot w b x

def BackgroundWorker.key (x : BackgroundWorker) : Nat × Nat := (x.bgwMainArg, x.taken)

def Launch.key (x : Launch) : Nat × Nat := (x.slot, x.taken)

def PhaseOk (bgworkers : List BackgroundWorker) (x : Launch) (w : LogicalRepWorker) : LaunchPhase → Prop
  | .prepared | .refused => (w.taken = x.taken → w.streamFileset = none) ∧ Entries (fun _ y => y.key ≠ x.key) bgworkers
  | .waiting b | .checked b => ∃ y, bgworkers[b]? = some y ∧ y.key = x.key
  | .sawStopped b => ∃ y, bgworkers[b]? = some y ∧ y.key = x.key ∧ y.phase = .dead
  | .returned => True

structure LaunchSlot (bgworkers : List BackgroundWorker) (w : LogicalRepWorker) (x : Launch) : Prop where
  fits : Fits w x.args x.taken
  phase : PhaseOk bgworkers x w x.phase

def LaunchOk (st : State) (x : Launch) : Prop := ∃ w, st.workers[x.slot]? = some w ∧ LaunchSlot st.bgworkers w x

structure Inv (cfg : Config) (st : State) : Prop where
  worker : Entries (WorkerOk st.workers) st.bgworkers
  launch : Entries (fun _ x => LaunchOk st x) st.launches
  workerKeys : (st.bgworkers.map BackgroundWorker.key).Nodup
  launchKeys : (st.launches.map Launch.key).Nodup
  tablesync : ∀ subid, logicalrepSyncWorkerCount st.workers subid ≤ cfg.maxSyncWorkersPerSubscription
  parallel : ∀ subid, logicalrepPaWorkerCount st.workers subid ≤ cfg.maxParallelApplyWorkersPerSubscription

theorem Inv.slotsOwned (h : Inv cfg st) : SlotsOwned cfg st where
  attached b x hx hphase := by
    obtain ⟨-, w, hw, hslot⟩ := h.worker b x hx
    obtain ⟨htaken, huse, hproc⟩ := hslot.attached hphase
    exact ⟨w, hw, huse, hproc, hslot.fits.fits htaken huse⟩
  fileset b x hx := (h.worker b x hx).1
  tablesync := h.tablesync
  parallel := h.parallel

theorem inv_initial (cfg : Config) (n : Nat) : Inv cfg (initial n) where
  worker := entries_nil
  launch := entries_nil
  workerKeys := List.nodup_nil
  launchKeys := List.nodup_nil
  tablesync subid := by
    have hzero : logicalrepSyncWorkerCount (initial n).workers subid = 0 :=
      List.countP_eq_zero.mpr fun w hw => by rw [List.eq_of_mem_replicate hw]; exact Bool.false_ne_true
    rw [hzero]
    exact Nat.zero_le _
  parallel subid := by
    have hzero : logicalrepPaWorkerCount (initial n).workers subid = 0 :=
      List.countP_eq_zero.mpr fun w hw => by rw [List.eq_of_mem_replicate hw]; exact Bool.false_ne_true
    rw [hzero]
    exact Nat.zero_le _

structure Kept (w w' : LogicalRepWorker) : Prop where
  taken : w'.taken = w.taken
  fileset : w'.streamFileset = w.streamFileset
  inUse : w'.inUse = true → w.inUse = true ∧ w'.type = w.type ∧ w'.subid = w.subid ∧ w'.relid = w.relid

theorem Kept.refl (w : LogicalRepWorker) : Kept w w := ⟨rfl, rfl, fun h => ⟨h, rfl, rfl, rfl⟩⟩

theorem kept_cleanup (w : LogicalRepWorker) : Kept w (logicalrepWorkerCleanup w) :=
  ⟨rfl, rfl, fun h => absurd h Bool.false_ne_true⟩

theorem Fits.kept {w w' : LogicalRepWorker} {args : LaunchArgs} {taken : Nat} (h : Fits w args taken) (hkept : Kept w w') :
    Fits w' args taken := by
  refine ⟨hkept.taken ▸ h.le, fun htaken huse => ?_⟩
  obtain ⟨huse, htype, hsubid, hrelid⟩ := hkept.inUse huse
  have hmatches := h.fits (hkept.taken ▸ htaken) huse
  exact ⟨htype.trans hmatches.type, hsubid.trans hmatches.subid, hrelid.trans hmatches.relid⟩

theorem PhaseOk.fileset {bgworkers : List BackgroundWorker} {x : Launch} {w w' : LogicalRepWorker} {phase : LaunchPhase}
    (h : PhaseOk bgworkers x w phase) (htaken : w'.taken = w.taken) (hfileset : w'.streamFileset = w.streamFileset) :
    PhaseOk bgworkers x w' phase := by
  cases phase with
  | prepared | refused => exact ⟨by rw [htaken, hfileset]; exact h.1, h.2⟩
  | waiting b | checked b | sawStopped b | returned => exact h

def NobodyAttached (st : State) (i : Nat) : Prop :=
  Entries (fun _ x => x.phase = .attached → x.bgwMainArg ≠ i) st.bgworkers

theorem Inv.keep {workers : List LogicalRepWorker} (h : Inv cfg st)
    (hkept : Entries (fun i w => ∃ w', workers[i]? = some w' ∧ Kept w w' ∧ (w' = w ∨ NobodyAttached st i)) st.workers)
    (htablesync : ∀ subid, logicalrepSyncWorkerCount workers subid ≤ logicalrepSyncWorkerCount st.workers subid)
    (hparallel : ∀ subid, logicalrepPaWorkerCount workers subid ≤ logicalrepPaWorkerCount st.workers subid) :
    Inv cfg { st with workers := workers } where
  worker := by
    refine fun b x hx => ?_
    obtain ⟨hdeleted, w, hw, hslot⟩ := h.worker b x hx
    obtain ⟨w', hw', hkept, hfree⟩ := hkept x.bgwMainArg w hw
    refine ⟨hdeleted, w', hw', hslot.fits.kept hkept, fun hphase => ?_, ?_⟩
    · obtain rfl | hfree := hfree
      · exact hslot.attached hphase
      · exact absurd rfl (hfree b x hx hphase)
    · rw [hkept.taken, hkept.fileset]
      exact hslot.fileset
  launch := by
    refine h.launch.mono fun l x hx ⟨w, hw, hslot⟩ => ?_
    obtain ⟨w', hw', hkept, -⟩ := hkept x.slot w hw
    exact ⟨w', hw', hslot.fits.kept hkept, hslot.phase.fileset hkept.taken hkept.fileset⟩
  workerKeys := h.workerKeys
  launchKeys := h.launchKeys
  tablesync subid := Nat.le_trans (htablesync subid) (h.tablesync subid)
  parallel subid := Nat.le_trans (hparallel subid) (h.parallel subid)

theorem Kept.counted {w w' : LogicalRepWorker} (h : Kept w w') (type : LogicalRepWorkerType) (subid : Oid)
    (hcounted : (w'.inUse && decide (w'.type = type) && decide (w'.subid = subid)) = true) :
    (w.inUse && decide (w.type = type) && decide (w.subid = subid)) = true := by
  have huse : w'.inUse = true := (Bool.and_eq_true_iff.mp (Bool.and_eq_true_iff.mp hcounted).1).1
  obtain ⟨huse', htype, hsubid, -⟩ := h.inUse huse
  rw [huse, htype, hsubid] at hcounted
  rw [huse']
  exact hcounted

theorem Inv.setSlot {i : Nat} {w w' : LogicalRepWorker} (h : Inv cfg st) (hw : st.workers[i]? = some w)
    (hkept : Kept w w') (hfree : NobodyAttached st i) : Inv cfg { st with workers := st.workers.set i w' } := by
  refine h.keep (fun j v hv => ?_) (fun subid => countP_set_le hw (hkept.counted .tablesync subid))
    fun subid => countP_set_le hw (hkept.counted .parallelApply subid)
  by_cases hij : i = j
  · obtain rfl := hij
    obtain rfl := Option.some.inj (hw.symm.trans hv)
    exact ⟨_, getElem?_set_same hw, hkept, Or.inr hfree⟩
  · exact ⟨v, (getElem?_set_other hw hij).trans hv, Kept.refl v, Or.inl rfl⟩

theorem Inv.slot_of_attached {b : Nat} {x : BackgroundWorker} {w : LogicalRepWorker} (h : Inv cfg st)
    (hx : st.bgworkers[b]? = some x) (hphase : x.phase = .attached) (hw : st.workers[x.bgwMainArg]? = some w) :
    w.taken = x.taken ∧ w.inUse = true ∧ w.proc = some b := by
  obtain ⟨-, v, hv, hslot⟩ := h.worker b x hx
  obtain rfl := Option.some.inj (hw.symm.trans hv)
  exact hslot.attached hphase

theorem Inv.nobodyAttached {i taken : Nat} {w : LogicalRepWorker} (h : Inv cfg st) (hw : st.workers[i]? = some w)
    (htaken : w.taken = taken) (hnone : Entries (fun _ y => y.key = (i, taken) → y.phase ≠ .attached) st.bgworkers) :
    NobodyAttached st i := by
  intro b x hx hphase hi
  rw [← hi] at hw
  refine hnone b x hx ?_ hphase
  rw [← htaken, (h.slot_of_attached hx hphase hw).1, ← hi]
  rfl

theorem Inv.setLaunch {l : Nat} {x : Launch} (h : Inv cfg st) (hx : st.launches[l]? = some x) (phase : LaunchPhase)
    (hphase : ∀ w, st.workers[x.slot]? = some w → LaunchSlot st.bgworkers w x →
      PhaseOk st.bgworkers { x with phase := phase } w phase) :
    Inv cfg { st with launches := st.launches.set l { x with phase := phase } } where
  worker := h.worker
  launch := by
    obtain ⟨w, hw, hslot⟩ := h.launch l x hx
    refine h.launch.set hx ⟨w, hw, hslot.fits, hphase w hw hslot⟩
  workerKeys := h.workerKeys
  launchKeys := by
    have hkey : Launch.key { x with phase := phase } = x.key := rfl
    rw [map_set_of_key hx hkey]
    exact h.launchKeys
  tablesync := h.tablesync
  parallel := h.parallel

theorem PhaseOk.setWorker {bgworkers : List BackgroundWorker} {b : Nat} {y y' : BackgroundWorker} {x : Launch}
    {w : LogicalRepWorker} {phase : LaunchPhase} (h : PhaseOk bgworkers x w phase) (hy : bgworkers[b]? = some y)
    (hkey : y'.key = y.key) (hdead : y.phase = .dead → y'.phase = .dead) : PhaseOk (bgworkers.set b y') x w phase := by
  have hfind : ∀ (c : Nat) (z : BackgroundWorker), bgworkers[c]? = some z →
      ∃ z', (bgworkers.set b y')[c]? = some z' ∧ z'.key = z.key ∧ (z.phase = .dead → z'.phase = .dead) := by
    intro c z hz
    by_cases hbc : b = c
    · obtain rfl := hbc
      obtain rfl := Option.some.inj (hy.symm.trans hz)
      exact ⟨y', getElem?_set_same hy, hkey, hdead⟩
    · exact ⟨z, (getElem?_set_other hy hbc).trans hz, rfl, id⟩
  cases phase with
  | prepared | refused =>
    refine ⟨h.1, h.2.set hy ?_⟩
    rw [hkey]
    exact h.2 b y hy
  | waiting c | checked c =>
    obtain ⟨z, hz, hzkey⟩ := h
    obtain ⟨z', hz', hzkey', -⟩ := hfind c z hz
    exact ⟨z', hz', hzkey'.trans hzkey⟩
  | sawStopped c =>
    obtain ⟨z, hz, hzkey, hzdead⟩ := h
    obtain ⟨z', hz', hzkey', hzdead'⟩ := hfind c z hz
    exact ⟨z', hz', hzkey'.trans hzkey, hzdead' hzdead⟩
  | returned => trivial

theorem Inv.setWorker {b : Nat} {y y' : BackgroundWorker} (h : Inv cfg st) (hy : st.bgworkers[b]? = some y)
    (hkey : y'.key = y.key) (hdead : y.phase = .dead → y'.phase = .dead) (hok : WorkerOk st.workers b y') :
    Inv cfg { st with bgworkers := st.bgworkers.set b y' } where
  worker := h.worker.set hy hok
  launch := h.launch.mono fun l x hx ⟨w, hw, hslot⟩ => ⟨w, hw, hslot.fits, hslot.phase.setWorker hy hkey hdead⟩
  workerKeys := by
    rw [map_set_of_key hy hkey]
    exact h.workerKeys
  launchKeys := h.launchKeys
  tablesync := h.tablesync
  parallel := h.parallel

theorem Inv.appendWorker {y : BackgroundWorker} (h : Inv cfg st) (hok : WorkerOk st.workers st.bgworkers.length y)
    (hnew : Entries (fun _ z => z.key ≠ y.key) st.bgworkers)
    (hlaunch : Entries (fun _ x => x.key = y.key → x.phase = .returned) st.launches) :
    Inv cfg { st with bgworkers := st.bgworkers ++ [y] } where
  worker := h.worker.append hok
  launch := by
    refine h.launch.mono fun l x hx ⟨w, hw, hslot⟩ => ⟨w, hw, hslot.fits, ?_⟩
    have hphase := hslot.phase
    have hreturned := hlaunch l x hx
    cases hxphase : x.phase with
    | prepared | refused =>
      rw [hxphase] at hphase hreturned
      refine ⟨hphase.1, hphase.2.append fun heq => ?_⟩
      cases hreturned heq.symm
    | waiting c | checked c =>
      rw [hxphase] at hphase
      obtain ⟨z, hz, hzkey⟩ := hphase
      exact ⟨z, getElem?_append_of_some hz y, hzkey⟩
    | sawStopped c =>
      rw [hxphase] at hphase
      obtain ⟨z, hz, hzkey, hzdead⟩ := hphase
      exact ⟨z, getElem?_append_of_some hz y, hzkey, hzdead⟩
    | returned => trivial
  workerKeys := nodup_map_append h.workerKeys hnew
  launchKeys := h.launchKeys
  tablesync := h.tablesync
  parallel := h.parallel

theorem Inv.takeSlot {i : Nat} {w : LogicalRepWorker} {args : LaunchArgs} (h : Inv cfg st) (now : Int)
    (hw : st.workers[i]? = some w) (hfree : w.inUse = false)
    (htablesync : args.wtype = .tablesync →
      logicalrepSyncWorkerCount st.workers args.subid < cfg.maxSyncWorkersPerSubscription)
    (hparallel : args.wtype = .parallelApply →
      logicalrepPaWorkerCount st.workers args.subid < cfg.maxParallelApplyWorkersPerSubscription) :
    Inv cfg { st with
      workers := st.workers.set i (prepare args now w)
      launches := st.launches ++ [⟨args, i, w.taken + 1, .prepared⟩] } where
  worker := by
    refine h.worker.mono fun b x hx ⟨hdeleted, v, hv, hslot⟩ => ⟨hdeleted, ?_⟩
    by_cases hi : i = x.bgwMainArg
    · obtain rfl := hi
      obtain rfl := Option.some.inj (hw.symm.trans hv)
      have hold : x.taken < w.taken + 1 := Nat.lt_succ_of_le hslot.fits.le
      refine ⟨_, getElem?_set_same hw, ⟨hold.le, fun heq => absurd heq hold.ne'⟩, fun hphase => ?_,
        fun heq => absurd heq hold.ne'⟩
      rw [(hslot.attached hphase).2.1] at hfree
      cases hfree
    · exact ⟨v, (getElem?_set_other hw hi).trans hv, hslot⟩
  launch := by
    refine Entries.append (h.launch.mono fun l x hx ⟨v, hv, hslot⟩ => ?_) ⟨_, getElem?_set_same hw, ?_, ?_, ?_⟩
    · by_cases hi : i = x.slot
      · obtain rfl := hi
        obtain rfl := Option.some.inj (hw.symm.trans hv)
        have hold : x.taken < w.taken + 1 := Nat.lt_succ_of_le hslot.fits.le
        refine ⟨_, getElem?_set_same hw, ⟨hold.le, fun heq => absurd heq hold.ne'⟩, ?_⟩
        have hphase := hslot.phase
        cases hxphase : x.phase with
        | prepared | refused =>
          rw [hxphase] at hphase
          exact ⟨fun heq => absurd heq hold.ne', hphase.2⟩
        | waiting c | checked c | sawStopped c =>
          rw [hxphase] at hphase
          exact hphase
        | returned => trivial
      · exact ⟨v, (getElem?_set_other hw hi).trans hv, hslot⟩
    · exact ⟨Nat.le_refl _, fun _ _ => ⟨rfl, rfl, rfl⟩⟩
    · exact fun _ => rfl
    · intro b y hy hkey
      obtain ⟨hslot, htaken⟩ := Prod.mk.inj hkey
      obtain ⟨-, v, hv, hworker⟩ := h.worker b y hy
      rw [hslot, hw] at hv
      obtain rfl := Option.some.inj hv
      have hle := hworker.fits.le
      rw [htaken] at hle
      exact absurd hle (Nat.not_succ_le_self _)
  workerKeys := h.workerKeys
  launchKeys := by
    refine nodup_map_append h.launchKeys fun l x hx hkey => ?_
    obtain ⟨hslot, htaken⟩ := Prod.mk.inj hkey
    obtain ⟨v, hv, hlaunch⟩ := h.launch l x hx
    rw [hslot, hw] at hv
    obtain rfl := Option.some.inj hv
    have hle := hlaunch.fits.le
    rw [htaken] at hle
    exact absurd hle (Nat.not_succ_le_self _)
  tablesync subid := by
    by_cases hcounted : args.wtype = .tablesync ∧ args.subid = subid
    · obtain ⟨htype, rfl⟩ := hcounted
      exact Nat.le_trans (countP_set_le_succ hw) (htablesync htype)
    · refine Nat.le_trans (countP_set_le hw fun hp => absurd ?_ hcounted) (h.tablesync subid)
      obtain ⟨htype, hsubid⟩ := Bool.and_eq_true_iff.mp hp
      exact ⟨of_decide_eq_true (show decide (args.wtype = .tablesync) = true from htype), of_decide_eq_true hsubid⟩
  parallel subid := by
    by_cases hcounted : args.wtype = .parallelApply ∧ args.subid = subid
    · obtain ⟨htype, rfl⟩ := hcounted
      exact Nat.le_trans (countP_set_le_succ hw) (hparallel htype)
    · refine Nat.le_trans (countP_set_le hw fun hp => absurd ?_ hcounted) (h.parallel subid)
      obtain ⟨htype, hsubid⟩ := Bool.and_eq_true_iff.mp hp
      exact ⟨of_decide_eq_true (show decide (args.wtype = .parallelApply) = true from htype), of_decide_eq_true hsubid⟩

theorem Inv.cleanTooLong (h : Inv cfg st) (now : Int) :
    Inv cfg { st with
      workers := st.workers.map fun w => if tookTooLong cfg now w then logicalrepWorkerCleanup w else w } := by
  refine h.keep (fun i w hw => ?_) (fun subid => ?_) fun subid => ?_
  · refine ⟨_, by rw [List.getElem?_map, hw, Option.map_some], ?_⟩
    by_cases hlong : tookTooLong cfg now w = true
    · rw [if_pos hlong]
      refine ⟨kept_cleanup w, Or.inr fun b x hx hphase hi => ?_⟩
      obtain ⟨-, v, hv, hslot⟩ := h.worker b x hx
      rw [hi, hw] at hv
      obtain rfl := Option.some.inj hv
      -- a slot with a process is not cleaned up
      rw [tookTooLong, (hslot.attached hphase).2.2, Option.isNone_some, Bool.and_false, Bool.false_and] at hlong
      cases hlong
    · rw [if_neg hlong]
      exact ⟨Kept.refl w, Or.inl rfl⟩
  · rw [logicalrepSyncWorkerCount, List.countP_map]
    refine List.countP_mono_left fun w _ hp => ?_
    by_cases hlong : tookTooLong cfg now w = true
    · rw [Function.comp_apply, if_pos hlong] at hp
      cases hp
    · rwa [Function.comp_apply, if_neg hlong] at hp
  · rw [logicalrepPaWorkerCount, List.countP_map]
    refine List.countP_mono_left fun w _ hp => ?_
    by_cases hlong : tookTooLong cfg now w = true
    · rw [Function.comp_apply, if_pos hlong] at hp
      cases hp
    · rwa [Function.comp_apply, if_neg hlong] at hp

theorem Inv.collectGarbage {subid : Oid} {fuel : Nat} {nows : Nat → Int} {workers : List LogicalRepWorker} {now : Int}
    (h : Inv cfg st) (hgc : Launcher.collectGarbage cfg subid fuel nows st.workers = some (workers, now)) :
    Inv cfg { st with workers := workers } := by
  induction fuel generalizing st nows with
  | zero => cases hgc
  | succ fuel ih =>
    rw [Launcher.collectGarbage] at hgc
    split at hgc
    · split at hgc
      · have hrest := ih (h.cleanTooLong (nows 0)) hgc
        exact hrest
      · obtain ⟨rfl, -⟩ := Prod.mk.inj (Option.some.inj hgc)
        exact h
    · obtain ⟨rfl, -⟩ := Prod.mk.inj (Option.some.inj hgc)
      exact h

theorem unused_of_slotFor {args : LaunchArgs} {workers : List LogicalRepWorker} {slot : Nat} {w : LogicalRepWorker}
    (h : slotFor cfg args workers = some slot) (hw : workers[slot]? = some w) :
    w.inUse = false ∧
      (args.wtype = .tablesync → logicalrepSyncWorkerCount workers args.subid < cfg.maxSyncWorkersPerSubscription) ∧
      (args.wtype = .parallelApply →
        logicalrepPaWorkerCount workers args.subid < cfg.maxParallelApplyWorkersPerSubscription) := by
  rw [slotFor] at h
  split at h
  · cases h
  · next hsync =>
    split at h
    · cases h
    · next hparallel =>
      refine ⟨?_, fun htype => not_le.mp fun hge => hsync ⟨htype, hge⟩,
        fun htype => not_le.mp fun hge => hparallel ⟨htype, hge⟩⟩
      obtain ⟨hlt, hunused, -⟩ := List.findIdx?_eq_some_iff_getElem.mp h
      rw [List.getElem?_eq_getElem hlt] at hw
      rw [Option.some.inj hw] at hunused
      simpa using hunused

theorem Inv.logicalrepWorkerLaunch {args : LaunchArgs} {nows : Nat → Int} (h : Inv cfg st)
    (hstep : Launcher.logicalrepWorkerLaunch cfg args nows st = some st') : Inv cfg st' := by
  rw [Launcher.logicalrepWorkerLaunch] at hstep
  obtain ⟨-, -, hstep⟩ := Option.bind_eq_some_iff.mp hstep
  obtain ⟨⟨workers, now⟩, hgc, hstep⟩ := Option.bind_eq_some_iff.mp hstep
  have hinv := h.collectGarbage hgc
  dsimp only at hstep
  split at hstep
  · obtain rfl := Option.some.inj hstep
    exact hinv
  · next slot hslot =>
    obtain ⟨w, hw, hstep⟩ := Option.bind_eq_some_iff.mp hstep
    obtain rfl := Option.some.inj hstep
    obtain ⟨hfree, htablesync, hparallel⟩ := unused_of_slotFor hslot hw
    exact hinv.takeSlot now hw hfree htablesync hparallel

theorem Inv.register {l : Nat} {registered : Bool} (h : Inv cfg st) (hcurrent : StillCurrent st (.register l registered))
    (hstep : registerDynamicBackgroundWorker l registered st = some st') : Inv cfg st' := by
  rw [registerDynamicBackgroundWorker] at hstep
  obtain ⟨x, hx, hstep⟩ := Option.bind_eq_some_iff.mp hstep
  obtain ⟨_, hguard, hstep⟩ := Option.bind_eq_some_iff.mp hstep
  have hprepared : x.phase = .prepared := (Option.guard_eq_some' _).mp hguard
  obtain ⟨w, hw, hstep⟩ := Option.bind_eq_some_iff.mp hstep
  have htaken : w.taken = x.taken := hcurrent x w hx hw
  obtain ⟨v, hv, hslot⟩ := h.launch l x hx
  obtain rfl := Option.some.inj (hw.symm.trans hv)
  have hnew := hslot.phase
  rw [hprepared] at hnew
  split at hstep
  · obtain rfl := Option.some.inj hstep
    exact h.setLaunch hx _ fun _ _ _ => trivial
  · split at hstep
    · obtain rfl := Option.some.inj hstep
      -- the launch gives up its claim for the moment in which its worker appears
      have hidle : Inv cfg { st with launches := st.launches.set l { x with phase := .returned } } :=
        h.setLaunch hx _ fun _ _ _ => trivial
      have hworker : Inv cfg { st with
          launches := st.launches.set l { x with phase := .returned }
          bgworkers := st.bgworkers ++ [⟨x.slot, w.type, x.args, x.taken, .registered, none⟩] } := by
        refine hidle.appendWorker ⟨nofun, w, hw, hslot.fits, nofun, fun heq f hf => ?_⟩ hnew.2 ?_
        · rw [hnew.1 heq] at hf
          cases hf
        · intro l' x' hx' hkey
          by_cases hll : l = l'
          · obtain rfl := hll
            obtain rfl := Option.some.inj ((getElem?_set_same hx).symm.trans hx')
            rfl
          · rw [getElem?_set_other hx hll] at hx'
            exact absurd (eq_of_key h.launchKeys hx hx' (show x.key = x'.key from hkey.symm)) hll
      have hwaiting := hworker.setLaunch (getElem?_set_same hx) (.waiting st.bgworkers.length) fun _ _ _ =>
        ⟨_, List.getElem?_concat_length, rfl⟩
      rw [List.set_set] at hwaiting
      exact hwaiting
    · obtain rfl := Option.some.inj hstep
      refine h.setLaunch hx _ fun v hv hslot => ?_
      have hphase := hslot.phase
      rw [hprepared] at hphase
      exact hphase

theorem Inv.cleanupRefused {l : Nat} (h : Inv cfg st) (hcurrent : StillCurrent st (.cleanupRefused l))
    (hstep : Launcher.cleanupRefused l st = some st') : Inv cfg st' := by
  rw [Launcher.cleanupRefused] at hstep
  obtain ⟨x, hx, hstep⟩ := Option.bind_eq_some_iff.mp hstep
  obtain ⟨_, hguard, hstep⟩ := Option.bind_eq_some_iff.mp hstep
  have hrefused : x.phase = .refused := (Option.guard_eq_some' _).mp hguard
  obtain ⟨w, hw, hstep⟩ := Option.bind_eq_some_iff.mp hstep
  obtain rfl := Option.some.inj hstep
  obtain ⟨v, hv, hslot⟩ := h.launch l x hx
  have hnone := hslot.phase
  rw [hrefused] at hnone
  have hfree : NobodyAttached st x.slot :=
    h.nobodyAttached hw (hcurrent x w hx hw) fun b y hy hkey => absurd hkey (hnone.2 b y hy)
  have hclean := h.setSlot hw (kept_cleanup w) hfree
  exact hclean.setLaunch hx _ fun _ _ _ => trivial

theorem Inv.waitCheck {l : Nat} (h : Inv cfg st) (hstep : Launcher.waitCheck l st = some st') : Inv cfg st' := by
  rw [Launcher.waitCheck] at hstep
  obtain ⟨x, hx, hstep⟩ := Option.bind_eq_some_iff.mp hstep
  obtain ⟨w, -, hstep⟩ := Option.bind_eq_some_iff.mp hstep
  split at hstep
  · next bgw hphase =>
    obtain rfl := Option.some.inj hstep
    refine h.setLaunch hx _ fun v hv hslot => ?_
    have hwaiting := hslot.phase
    rw [hphase] at hwaiting
    split
    · trivial
    · exact hwaiting
  · cases hstep

theorem Inv.waitPoll {l : Nat} (h : Inv cfg st) (hstep : Launcher.waitPoll l st = some st') : Inv cfg st' := by
  rw [Launcher.waitPoll] at hstep
  obtain ⟨x, hx, hstep⟩ := Option.bind_eq_some_iff.mp hstep
  dsimp only at hstep
  split at hstep
  · next bgw hphase =>
    obtain ⟨y, hy, hstep⟩ := Option.bind_eq_some_iff.mp hstep
    obtain rfl := Option.some.inj hstep
    refine h.setLaunch hx _ fun v hv hslot => ?_
    have hchecked := hslot.phase
    rw [hphase] at hchecked
    split
    · next hdead =>
      obtain ⟨z, hz, hkey⟩ := hchecked
      obtain rfl := Option.some.inj (hy.symm.trans hz)
      exact ⟨y, hy, hkey, hdead⟩
    · exact hchecked
  · cases hstep

theorem Inv.waitCleanup {l : Nat} (h : Inv cfg st) (hcurrent : StillCurrent st (.waitCleanup l))
    (hstep : Launcher.waitCleanup l st = some st') : Inv cfg st' := by
  rw [Launcher.waitCleanup] at hstep
  obtain ⟨x, hx, hstep⟩ := Option.bind_eq_some_iff.mp hstep
  dsimp only at hstep
  split at hstep
  · next bgw hphase =>
    obtain ⟨w, hw, hstep⟩ := Option.bind_eq_some_iff.mp hstep
    obtain rfl := Option.some.inj hstep
    obtain ⟨v, hv, hslot⟩ := h.launch l x hx
    have hstopped := hslot.phase
    rw [hphase] at hstopped
    obtain ⟨y, hy, hkey, hdead⟩ := hstopped
    split
    · next hgeneration =>
      have hfree : NobodyAttached st x.slot := by
        refine h.nobodyAttached hw (hcurrent x w hx hw hgeneration) fun b z hz hzkey hattached => ?_
        -- the only worker of this launch is the one that has stopped
        obtain rfl := eq_of_key h.workerKeys hy hz (hkey.trans hzkey.symm)
        obtain rfl := Option.some.inj (hy.symm.trans hz)
        rw [hdead] at hattached
        cases hattached
      have hclean := h.setSlot hw (kept_cleanup w) hfree
      exact hclean.setLaunch hx _ fun _ _ _ => trivial
    · exact h.setLaunch hx _ fun _ _ _ => trivial
  · cases hstep

theorem Inv.abandon {l : Nat} (h : Inv cfg st) (hstep : Launcher.abandon l st = some st') : Inv cfg st' := by
  obtain ⟨x, hx, hstep⟩ := Option.bind_eq_some_iff.mp hstep
  obtain rfl := Option.some.inj hstep
  exact h.setLaunch hx _ fun _ _ _ => trivial

theorem Inv.logicalrepWorkerAttach {b : Nat} (h : Inv cfg st) (hcurrent : StillCurrent st (.attach b))
    (hstep : Launcher.logicalrepWorkerAttach b st = some st') : Inv cfg st' := by
  rw [Launcher.logicalrepWorkerAttach] at hstep
  obtain ⟨x, hx, hstep⟩ := Option.bind_eq_some_iff.mp hstep
  obtain ⟨_, hguard, hstep⟩ := Option.bind_eq_some_iff.mp hstep
  have hregistered : x.phase = .registered := (Option.guard_eq_some' _).mp hguard
  obtain ⟨w, hw, hstep⟩ := Option.bind_eq_some_iff.mp hstep
  obtain ⟨hdeleted, v, hv, hslot⟩ := h.worker b x hx
  obtain rfl := Option.some.inj (hw.symm.trans hv)
  have hdead : x.phase ≠ .dead := by
    rw [hregistered]
    exact nofun
  split at hstep
  · obtain rfl := Option.some.inj hstep
    exact h.setWorker hx rfl (fun _ => rfl) ⟨hdeleted, w, hw, hslot.fits, nofun, hslot.fileset⟩
  · next hopen =>
    obtain rfl := Option.some.inj hstep
    rw [Bool.or_eq_true, not_or, Bool.not_eq_true', Bool.not_eq_false, Option.not_isSome_iff_eq_none] at hopen
    obtain ⟨huse, hproc⟩ := hopen
    have htaken : w.taken = x.taken := hcurrent x w hx hw huse hproc
    have hkept : Kept w { w with proc := some b } := ⟨rfl, rfl, fun _ => ⟨huse, rfl, rfl, rfl⟩⟩
    have hfree : NobodyAttached st x.bgwMainArg := by
      intro c y hy hattached hi
      have howned := (h.slot_of_attached hy hattached (hi ▸ hw)).2.2
      rw [hproc] at howned
      cases howned
    have hproc := h.setSlot hw hkept hfree
    refine hproc.setWorker hx rfl (fun heq => absurd heq hdead) ⟨hdeleted, _, getElem?_set_same hw, ?_⟩
    exact ⟨hslot.fits.kept hkept, fun _ => ⟨htaken, huse, rfl⟩, hslot.fileset⟩

theorem Inv.neverAttach {b : Nat} (h : Inv cfg st) (hstep : Launcher.neverAttach b st = some st') : Inv cfg st' := by
  rw [Launcher.neverAttach] at hstep
  obtain ⟨x, hx, hstep⟩ := Option.bind_eq_some_iff.mp hstep
  obtain ⟨_, -, hstep⟩ := Option.bind_eq_some_iff.mp hstep
  obtain rfl := Option.some.inj hstep
  obtain ⟨hdeleted, w, hw, hslot⟩ := h.worker b x hx
  exact h.setWorker hx rfl (fun _ => rfl) ⟨hdeleted, w, hw, hslot.fits, nofun, hslot.fileset⟩

theorem Inv.streamStartInternal {b : Nat} (h : Inv cfg st) (hstep : Launcher.streamStartInternal b st = some st') :
    Inv cfg st' := by
  rw [Launcher.streamStartInternal] at hstep
  obtain ⟨x, hx, hstep⟩ := Option.bind_eq_some_iff.mp hstep
  obtain ⟨_, hguard, hstep⟩ := Option.bind_eq_some_iff.mp hstep
  have hattached : x.phase = .attached := (Option.guard_eq_some' _).mp hguard
  obtain ⟨w, hw, hstep⟩ := Option.bind_eq_some_iff.mp hstep
  obtain ⟨htaken, -, -⟩ := h.slot_of_attached hx hattached hw
  split at hstep
  swap
  · obtain rfl := Option.some.inj hstep
    exact h
  obtain rfl := Option.some.inj hstep
  refine ⟨h.worker.mono fun c y hy ⟨hdeleted, v, hv, hslot⟩ => ⟨hdeleted, ?_⟩,
    h.launch.mono fun l z hz ⟨v, hv, hslot⟩ => ?_, h.workerKeys, h.launchKeys,
    fun subid => Nat.le_trans (countP_set_le hw id) (h.tablesync subid),
    fun subid => Nat.le_trans (countP_set_le hw id) (h.parallel subid)⟩
  · by_cases hi : x.bgwMainArg = y.bgwMainArg
    · rw [← hi] at hv ⊢
      obtain rfl := Option.some.inj (hw.symm.trans hv)
      refine ⟨_, getElem?_set_same hw, ⟨hslot.fits.le, fun heq huse => ?_⟩, hslot.attached, fun heq f hf => ?_⟩
      · obtain ⟨htype, hsubid, hrelid⟩ := hslot.fits.fits heq huse
        exact ⟨htype, hsubid, hrelid⟩
      · obtain rfl := Option.some.inj hf
        exact eq_of_key h.workerKeys hx hy (Prod.ext hi (htaken.symm.trans heq))
    · exact ⟨v, (getElem?_set_other hw hi).trans hv, hslot⟩
  · by_cases hi : x.bgwMainArg = z.slot
    · rw [← hi] at hv
      obtain rfl := Option.some.inj (hw.symm.trans hv)
      have hget : (st.workers.set x.bgwMainArg { w with streamFileset := some b })[z.slot]? =
          some { w with streamFileset := some b } := by
        rw [← hi]
        exact getElem?_set_same hw
      refine ⟨_, hget, ⟨hslot.fits.le, fun heq huse => ?_⟩, ?_⟩
      · obtain ⟨htype, hsubid, hrelid⟩ := hslot.fits.fits heq huse
        exact ⟨htype, hsubid, hrelid⟩
      · have hphase := hslot.phase
        cases hzphase : z.phase with
        | prepared | refused =>
          rw [hzphase] at hphase
          exact ⟨fun heq => absurd (Prod.ext hi (htaken.symm.trans heq)) (hphase.2 b x hx), hphase.2⟩
        | waiting c | checked c | sawStopped c =>
          rw [hzphase] at hphase
          exact hphase
        | returned => trivial
    · exact ⟨v, (getElem?_set_other hw hi).trans hv, hslot⟩

theorem Inv.logicalrepWorkerDetach {b : Nat} (h : Inv cfg st) (hstep : Launcher.logicalrepWorkerDetach b st = some st') :
    Inv cfg st' := by
  rw [Launcher.logicalrepWorkerDetach] at hstep
  obtain ⟨x, hx, hstep⟩ := Option.bind_eq_some_iff.mp hstep
  obtain ⟨_, hguard, hstep⟩ := Option.bind_eq_some_iff.mp hstep
  have hattached : x.phase = .attached := (Option.guard_eq_some' _).mp hguard
  obtain ⟨w, hw, hstep⟩ := Option.bind_eq_some_iff.mp hstep
  obtain rfl := Option.some.inj hstep
  obtain ⟨hdeleted, v, hv, hslot⟩ := h.worker b x hx
  obtain rfl := Option.some.inj (hw.symm.trans hv)
  have hdead : x.phase ≠ .dead := by
    rw [hattached]
    exact nofun
  have hdetached : Inv cfg { st with bgworkers := st.bgworkers.set b { x with phase := .detached } } :=
    h.setWorker hx rfl (fun heq => absurd heq hdead) ⟨hdeleted, w, hw, hslot.fits, nofun, hslot.fileset⟩
  refine hdetached.setSlot hw (kept_cleanup w) fun c y hy hphase hi => ?_
  by_cases hbc : b = c
  · obtain rfl := hbc
    obtain rfl := Option.some.inj ((getElem?_set_same hx).symm.trans hy)
    cases hphase
  · rw [getElem?_set_other hx hbc] at hy
    have howned := (h.slot_of_attached hy hphase (hi ▸ hw)).2.2
    rw [(hslot.attached hattached).2.2] at howned
    exact hbc (Option.some.inj howned)

theorem Inv.deleteStreamFileset {b : Nat} (h : Inv cfg st) (hcurrent : StillCurrent st (.deleteStreamFileset b))
    (hstep : Launcher.deleteStreamFileset b st = some st') : Inv cfg st' := by
  rw [Launcher.deleteStreamFileset] at hstep
  obtain ⟨x, hx, hstep⟩ := Option.bind_eq_some_iff.mp hstep
  obtain ⟨_, -, hstep⟩ := Option.bind_eq_some_iff.mp hstep
  obtain ⟨w, hw, hstep⟩ := Option.bind_eq_some_iff.mp hstep
  obtain rfl := Option.some.inj hstep
  obtain ⟨-, v, hv, hslot⟩ := h.worker b x hx
  obtain rfl := Option.some.inj (hw.symm.trans hv)
  have hown := hslot.fileset (hcurrent x w hx hw)
  exact h.setWorker hx rfl (fun _ => rfl) ⟨hown, w, hw, hslot.fits, nofun, hslot.fileset⟩

theorem Inv.signal (h : Inv cfg st) (stops : List StopCall) (signalled : List Nat) :
    Inv cfg { st with stops := stops, signalled := signalled } :=
  ⟨h.worker, h.launch, h.workerKeys, h.launchKeys, h.tablesync, h.parallel⟩

theorem Inv.stopInternal (h : Inv cfg st) (slot : Nat) (w : LogicalRepWorker) :
    Inv cfg (logicalrepWorkerStopInternal slot w st) := by
  rw [logicalrepWorkerStopInternal]
  split
  · exact h.signal _ _
  · exact h.signal _ _

theorem Inv.logicalrepWorkerStop {subid relid : Oid} (h : Inv cfg st)
    (hstep : Launcher.logicalrepWorkerStop subid relid st = some st') : Inv cfg st' := by
  rw [Launcher.logicalrepWorkerStop] at hstep
  split at hstep
  · obtain rfl := Option.some.inj hstep
    exact h
  · obtain ⟨w, -, hstep⟩ := Option.bind_eq_some_iff.mp hstep
    obtain rfl := Option.some.inj hstep
    exact h.stopInternal _ w

theorem Inv.logicalrepPaWorkerStop {slot generation : Nat} (h : Inv cfg st)
    (hstep : Launcher.logicalrepPaWorkerStop slot generation st = some st') : Inv cfg st' := by
  obtain ⟨w, -, hstep⟩ := Option.bind_eq_some_iff.mp hstep
  split at hstep
  · obtain rfl := Option.some.inj hstep
    exact h.stopInternal slot w
  · obtain rfl := Option.some.inj hstep
    exact h

theorem Inv.stopListed {slot : Nat} (h : Inv cfg st) (hstep : Launcher.stopListed slot st = some st') :
    Inv cfg st' := by
  obtain ⟨w, -, hstep⟩ := Option.bind_eq_some_iff.mp hstep
  split at hstep
  · obtain rfl := Option.some.inj hstep
    exact h.stopInternal slot w
  · obtain rfl := Option.some.inj hstep
    exact h

theorem Inv.stopRecheck {k : Nat} (h : Inv cfg st) (hstep : Launcher.stopRecheck k st = some st') : Inv cfg st' := by
  obtain ⟨call, -, hstep⟩ := Option.bind_eq_some_iff.mp hstep
  obtain ⟨w, -, hstep⟩ := Option.bind_eq_some_iff.mp hstep
  split at hstep
  · split at hstep
    · obtain rfl := Option.some.inj hstep
      exact h.signal _ _
    · split at hstep
      · obtain rfl := Option.some.inj hstep
        exact h
      · obtain rfl := Option.some.inj hstep
        exact h.signal _ _
  · split at hstep
    · obtain rfl := Option.some.inj hstep
      exact h.signal _ _
    · obtain rfl := Option.some.inj hstep
      exact h
  · cases hstep

theorem inv_step {e : Event} (h : Inv cfg st) (hcurrent : StillCurrent st e) (hstep : step cfg st e = some st') :
    Inv cfg st' := by
  cases e with
  | launch args nows => exact h.logicalrepWorkerLaunch hstep
  | register l registered => exact h.register hcurrent hstep
  | cleanupRefused l => exact h.cleanupRefused hcurrent hstep
  | waitCheck l => exact h.waitCheck hstep
  | waitPoll l => exact h.waitPoll hstep
  | waitCleanup l => exact h.waitCleanup hcurrent hstep
  | abandon l => exact h.abandon hstep
  | attach b => exact h.logicalrepWorkerAttach hcurrent hstep
  | neverAttach b => exact h.neverAttach hstep
  | streamStart b => exact h.streamStartInternal hstep
  | detach b => exact h.logicalrepWorkerDetach hstep
  | deleteStreamFileset b => exact h.deleteStreamFileset hcurrent hstep
  | stop subid relid => exact h.logicalrepWorkerStop hstep
  | stopParallel slot generation => exact h.logicalrepPaWorkerStop hstep
  | stopListed slot => exact h.stopListed hstep
  | stopRecheck k => exact h.stopRecheck hstep

/-- In a run in which no slot is taken again under a party that does not check it, slots belong to their workers. -/
theorem slotsOwned_of_run {n : Nat} {es : List Event}
    (h : Steps (fun st e st' => StillCurrent st e ∧ step cfg st e = some st') (initial n) es st) : SlotsOwned cfg st := by
  have hinv : Inv cfg st :=
    h.invariant (P := Inv cfg) (fun hinv ⟨hcurrent, hstep⟩ => inv_step hinv hcurrent hstep) (inv_initial cfg n)
  exact hinv.slotsOwned

def sampleConfig : Config := ⟨2, 2, 60000⟩

def applyFor (subid : Oid) : LaunchArgs := ⟨.apply, 5, subid, 10, InvalidOid, 700⟩

def lateWorker : List Event :=
  [.launch (applyFor 200) fun _ => 0, .register 0 true, .attach 0,
    .launch (applyFor 100) fun _ => 1000, .register 1 true,
    .launch ⟨.tablesync, 5, 200, 10, 16384, 701⟩ fun _ => 60001000, .register 2 true, .attach 1]

def lateExit : List Event :=
  [.launch (applyFor 100) fun _ => 0, .register 0 true, .attach 0, .detach 0,
    .launch (applyFor 200) fun _ => 1000, .register 1 true, .attach 1, .streamStart 1, .deleteStreamFileset 0]

theorem slot_of_another :
    (∃ st, lateWorker.foldlM (step sampleConfig) (initial 2) = some st ∧ ¬ SlotsOwned sampleConfig st) ∧
      ∃ st, lateExit.foldlM (step sampleConfig) (initial 2) = some st ∧ ¬ SlotsOwned sampleConfig st := by
  refine ⟨⟨_, rfl, fun h => ?_⟩, ⟨_, rfl, fun h => ?_⟩⟩
  · obtain ⟨w, hw, -, -, hmatches⟩ := h.attached 1 _ rfl rfl
    obtain rfl := Option.some.inj hw
    cases hmatches.subid
  · cases h.fileset 0 _ rfl 1 rfl

def timelyExit : List Event :=
  [.launch (applyFor 100) fun _ => 0, .register 0 true, .attach 0, .streamStart 0, .detach 0, .deleteStreamFileset 0,
    .launch (applyFor 200) fun _ => 1000, .register 1 true, .attach 1]

theorem timelyExit_owned :
    ∃ st, Steps (fun st e st' => StillCurrent st e ∧ step sampleConfig st e = some st') (initial 2) timelyExit st ∧
      SlotsOwned sampleConfig st := by
  have hrun : ∃ st,
      Steps (fun st e st' => StillCurrent st e ∧ step sampleConfig st e = some st') (initial 2) timelyExit st := by
    refine ⟨_, .cons ⟨trivial, rfl⟩ (.cons ⟨?_, rfl⟩ (.cons ⟨?_, rfl⟩ (.cons ⟨trivial, rfl⟩ (.cons ⟨trivial, rfl⟩
      (.cons ⟨?_, rfl⟩ (.cons ⟨trivial, rfl⟩ (.cons ⟨?_, rfl⟩ (.cons ⟨?_, rfl⟩ (.nil _)))))))))⟩
    · intro x w hx hw
      obtain rfl := Option.some.inj hx
      obtain rfl := Option.some.inj hw
      rfl
    · intro x w hx hw _ _
      obtain rfl := Option.some.inj hx
      obtain rfl := Option.some.inj hw
      rfl
    · intro x w hx hw
      obtain rfl := Option.some.inj hx
      obtain rfl := Option.some.inj hw
      rfl
    · intro x w hx hw
      obtain rfl := Option.some.inj hx
      obtain rfl := Option.some.inj hw
      rfl
    · intro x w hx hw _ _
      obtain rfl := Option.some.inj hx
      obtain rfl := Option.some.inj hw
      rfl
  obtain ⟨st, hst⟩ := hrun
  exact ⟨st, hst, slotsOwned_of_run hst⟩

end CdcKafka.Launcher
