import CdcKafka.Slot.Needed

/-! No WAL that a slot needs is removed, where the pass over the slots misses no position: it
looks at the positions in memory only, it is not repeated when the horizon is calculated again,
and a reservation may end behind it. -/

namespace CdcKafka.Slot.Wal

open CdcKafka.Lib

variable {sv : Server} {s t : State} {sl tl : ReplicationSlot} {i : Nat} {c lsn : UInt64} {k : Checkpoint}

/-- The WAL from `lsn` on is there, and is not about to be removed by a checkpoint that is past
slot `i`. -/
def State.Safe (sv : Server) (s : State) (i : Nat) (lsn : UInt64) : Prop :=
  s.Kept sv lsn ∧ ∀ c, s.checkpointer.cut i = some c → c ≤ sv.segOf lsn

def Checkpoint.horizon : Checkpoint → Option UInt64
  | .invalidating c _ _ | .waiting c _ _ _ | .invalidated c _ | .flushing c _ | .flushed c _ => some c
  | .removing c | .removingFile c _ => some c
  | _ => none

def Checkpoint.redoWritten : Checkpoint → Bool
  | .written | .invalidating _ _ _ | .waiting _ _ _ _ | .invalidated _ _ | .flushing _ _ | .flushed _ _ => true
  | .recomputing | .recalculating => true
  | _ => false

def Scan.minRequired : Scan → UInt64
  | .looking _ m | .looked m => m

structure Inv (sv : Server) (s : State) : Prop where
  slots : ∀ i sl, s.slots i = some sl →
    i < sv.maxReplicationSlots ∧ SlotInv sv (s.Safe sv i) s.startRedo s.checkpointer i sl
  taken : ∀ i, s.checkpointer.heldSlot = some i → ∃ sl, s.slots i = some sl
  since : ∀ n ∈ s.removed, n ≤ s.lastRemovedSegNo ∨ n < sv.segOf s.startRedo
  before : ∀ n ∈ s.removed, n < sv.segOf s.controlRedo
  first : sv.walSegmentSize ≤ s.startRedo
  start : s.startRedo ≤ s.controlRedo
  control : s.controlRedo ≤ s.redoRecPtr
  recptr : sv.walSegmentSize ≤ s.recptr
  horizon : ∀ c, s.checkpointer.horizon = some c → 1 ≤ c ∧ c ≤ sv.segOf s.controlRedo
  written : s.checkpointer.redoWritten = true → s.controlRedo = s.redoRecPtr
  removing : ∀ c n, s.checkpointer = .removingFile c n → n < c ∧ n ≤ s.lastRemovedSegNo
  minimum : FromFirst sv s.replicationSlotMinLsn
  scans : ∀ p sc, s.scans p = some sc → FromFirst sv sc.minRequired

theorem State.Safe.mono {a b : UInt64} (hab : a ≤ b) (h : s.Safe sv i a) : s.Safe sv i b :=
  ⟨fun n hn => UInt64.lt_of_lt_of_le (h.1 n hn) (Server.segOf_mono hab),
    fun c hc => UInt64.le_trans (h.2 c hc) (Server.segOf_mono hab)⟩

namespace Inv

theorem retained (h : Inv sv s) : WalRetained sv s := by
  intro i sl hsl
  have hslot := (h.slots i sl hsl).2
  refine ⟨fun hvalid hne hout => (hslot.memory hvalid hne hout).1, fun hne hreserve => ?_,
    fun hcounts => (hslot.file hcounts).1⟩
  have hstart : s.startRedo ≤ sl.data.restartLsn := (hslot.loop hreserve).since.resolve_left hne
  by_cases hremoved : sv.segOf sl.data.restartLsn ≤ s.lastRemovedSegNo
  · exact .inr hremoved
  · refine .inl fun n hn => ?_
    rcases h.since n hn with hle | hlt
    · exact UInt64.lt_of_le_of_lt hle (UInt64.not_le.mp hremoved)
    · exact UInt64.lt_of_lt_of_le hlt (Server.segOf_mono hstart)

theorem readers (h : Inv sv s) (n : Nat) : Inv sv { s with controlReaders := n } :=
  ⟨h.slots, h.taken, h.since, h.before, h.first, h.start, h.control, h.recptr, h.horizon, h.written, h.removing, h.minimum,
    h.scans⟩

theorem setSlot (h : Inv sv s) (hi : i < sv.maxReplicationSlots)
    (htl : SlotInv sv (s.Safe sv i) s.startRedo s.checkpointer i tl) : Inv sv (s.setSlot i (some tl)) :=
  { h with
    slots := fun j jl hj => by
      by_cases heq : j = i
      · subst heq
        simp only [State.setSlot, Function.update_self, Option.some.injEq] at hj
        subst hj
        exact ⟨hi, htl⟩
      · simp only [State.setSlot, Function.update_of_ne heq] at hj
        exact h.slots j jl hj
    taken := fun j hj => by
      by_cases heq : j = i
      · subst heq
        exact ⟨tl, Function.update_self _ _ _⟩
      · obtain ⟨jl, hjl⟩ := h.taken j hj
        exact ⟨jl, (Function.update_of_ne heq _ _).trans hjl⟩ }

theorem held (h : Inv sv s) (hk : s.checkpointer.heldSlot = some i) :
    ∃ sl, s.slots i = some sl ∧ sl.activePid = some .checkpointer := by
  obtain ⟨sl, hsl⟩ := h.taken i hk
  exact ⟨sl, hsl, (h.slots i sl hsl).2.held hk⟩

theorem onSlot (h : Inv sv s) {f : ReplicationSlot → Option ReplicationSlot} (hstep : s.onSlot i f = some t)
    (hf : ∀ sl tl, s.slots i = some sl → SlotInv sv (s.Safe sv i) s.startRedo s.checkpointer i sl → f sl = some tl →
      SlotInv sv (s.Safe sv i) s.startRedo s.checkpointer i tl) : Inv sv t := by
  obtain ⟨sl, hsl, htl⟩ := Option.bind_eq_some_iff.mp hstep
  obtain ⟨tl, hf', rfl⟩ := Option.map_eq_some_iff.mp htl
  obtain ⟨hi, hslot⟩ := h.slots i sl hsl
  exact h.setSlot hi (hf sl tl hsl hslot hf')

theorem goTo (h : Inv sv s) {k : Checkpoint}
    (hcut : ∀ i sl c, s.slots i = some sl → k.cut i = some c → s.checkpointer.cut i = some c ∨
      s.checkpointer.savingSlot = none ∧ NotBefore sv sl c)
    (hsaving : ∀ i sl, s.slots i = some sl → sl.save.pc .checkpointer ≠ .outside → s.checkpointer.savingSlot = some i →
      k.savingSlot = some i)
    (hheld : ∀ i, k.heldSlot = some i → ∃ sl, s.slots i = some sl ∧ sl.activePid = some .checkpointer)
    (hhorizon : ∀ c, k.horizon = some c → 1 ≤ c ∧ c ≤ sv.segOf s.controlRedo)
    (hwritten : k.redoWritten = true → s.controlRedo = s.redoRecPtr)
    (hremoving : ∀ c n, k = .removingFile c n → n < c ∧ n ≤ s.lastRemovedSegNo) : Inv sv (s.goTo k) where
  slots i sl hsl := by
    obtain ⟨hi, hslot⟩ := h.slots i sl hsl
    refine ⟨hi, hslot.imp (fun hvalid hne hout hsafe => ⟨hsafe.1, fun c hc => ?_⟩)
      (fun hcounts hsafe => ⟨hsafe.1, fun c hc => ?_⟩) (fun p cp hcp hcounts hsafe => ⟨hsafe.1, fun c hc => ?_⟩)
      (hsaving i sl hsl) fun hk => ?_⟩
    · exact (hcut i sl c hsl hc).elim (hsafe.2 c) fun hnot => hnot.2.memory hvalid hne hout
    · exact (hcut i sl c hsl hc).elim (hsafe.2 c) fun hnot => hnot.2.file hcounts
    · refine (hcut i sl c hsl hc).elim (hsafe.2 c) fun hnot => ?_
      -- the copy is one of the owner, and that is still the data
      cases p with
      | checkpointer =>
        have hpc : sl.save.pc .checkpointer ≠ .outside := by
          intro hout
          rw [hout] at hcp
          cases hcp
        have hsome := hslot.saving hpc
        rw [hnot.1] at hsome
        cases hsome
      | owner =>
        obtain rfl := hslot.owned cp hcp
        exact hnot.2.memory hcounts.1 hcounts.2.2 (hslot.outside_of_copy hcp)
    · obtain ⟨jl, hjl, hactive⟩ := hheld i hk
      obtain rfl : sl = jl := Option.some.inj (hsl.symm.trans hjl)
      exact hactive
  taken i hk := (hheld i hk).imp fun sl hsl => hsl.1
  since := h.since
  before := h.before
  first := h.first
  start := h.start
  control := h.control
  recptr := h.recptr
  horizon := hhorizon
  written := hwritten
  removing := hremoving
  minimum := h.minimum
  scans := h.scans

theorem goOn (h : Inv sv s) {k : Checkpoint} (hcut : ∀ i, k.cut i = none)
    (hsaving : ∀ i sl, s.slots i = some sl → sl.save.pc .checkpointer ≠ .outside → s.checkpointer.savingSlot = some i →
      k.savingSlot = some i)
    (hheld : ∀ i, k.heldSlot = some i → ∃ sl, s.slots i = some sl ∧ sl.activePid = some .checkpointer)
    (hhorizon : ∀ c, k.horizon = some c → s.checkpointer.horizon = some c)
    (hwritten : k.redoWritten = true → s.checkpointer.redoWritten = true) : Inv sv (s.goTo k) := by
  refine h.goTo (fun i sl c _ hc => ?_) hsaving hheld (fun c hc => h.horizon c (hhorizon c hc))
    (fun hk => h.written (hwritten hk)) fun c n hk => ?_
  · rw [hcut i] at hc
    cases hc
  · subst hk
    cases hcut 0

/-! ### The computation of the required LSN -/

theorem setScan (h : Inv sv s) (p : Proc) {sc : Option Scan} (hsc : ∀ x, sc = some x → FromFirst sv x.minRequired) :
    Inv sv (s.setScan p sc) :=
  { h with
    scans := fun q x hx => by
      by_cases heq : q = p
      · subst heq
        simp only [State.setScan, Function.update_self] at hx
        exact hsc x hx
      · simp only [State.setScan, Function.update_of_ne heq] at hx
        exact h.scans q x hx }

theorem fromFirst_lower {a b : UInt64} (ha : FromFirst sv a) (hb : FromFirst sv b) : FromFirst sv (lower a b) := by
  rw [lower]
  split
  · exact hb
  · exact ha

theorem fromFirst_requiredLsn {safe : UInt64 → Prop} {startRedo : UInt64} (h : SlotInv sv safe startRedo k i sl) :
    FromFirst sv sl.requiredLsn := by
  rw [ReplicationSlot.requiredLsn]
  split
  · exact .inl rfl
  · split
    · exact h.savedFirst
    · exact h.dataFirst

theorem fromFirst_lowerFor {a : UInt64} {x : Option ReplicationSlot} (ha : FromFirst sv a)
    (hx : ∀ sl, x = some sl → FromFirst sv sl.requiredLsn) : FromFirst sv (lowerFor a x) := by
  cases x with
  | none => exact ha
  | some sl => exact fromFirst_lower ha (hx sl rfl)

theorem computeStart (h : Inv sv s) {p : Proc} (hstep : s.computeStart p = some t) : Inv sv t := by
  rw [State.computeStart] at hstep
  split at hstep
  · cases hstep
    exact (h.setScan p fun x hx => by cases hx; exact .inl rfl).readers _
  · cases hstep

theorem computeLook (h : Inv sv s) {p : Proc} (hstep : s.computeLook sv p = some t) : Inv sv t := by
  rw [State.computeLook] at hstep
  split at hstep
  · next next minRequired hscan =>
    split at hstep
    · cases hstep
      refine h.setScan p fun x hx => ?_
      cases hx
      exact fromFirst_lowerFor (h.scans p _ hscan) fun sl hsl => fromFirst_requiredLsn (h.slots next sl hsl).2
    · cases hstep
  · cases hstep

theorem computeUnlock (h : Inv sv s) {p : Proc} (hstep : s.computeUnlock sv p = some t) : Inv sv t := by
  rw [State.computeUnlock] at hstep
  split at hstep
  · next next minRequired hscan =>
    split at hstep
    · cases hstep
    · cases hstep
      have hfirst : FromFirst sv minRequired := h.scans p _ hscan
      exact (h.setScan p fun x hx => by cases hx; exact hfirst).readers _
  · cases hstep

theorem computed (h : Inv sv s) (p : Proc) : Inv sv (s.computed p) := by
  cases p with
  | other j => exact h
  | owner i =>
    rw [State.computed]
    cases hsl : s.slots i with
    | none => exact h
    | some sl =>
      obtain ⟨hi, hslot⟩ := h.slots i sl hsl
      dsimp only
      split
      · next hstored => exact h.setSlot hi (hslot.computed hstored)
      · exact h
  | checkpointer =>
    rw [State.computed]
    split
    · next hk =>
      exact h.goOn (fun _ => rfl) (fun _ _ _ _ hi => by rw [hk] at hi; cases hi) (fun _ hi => by cases hi)
        (fun _ hc => by cases hc) (fun hw => by cases hw)
    · next hk =>
      exact h.goOn (fun _ => rfl) (fun _ _ _ _ hi => by rw [hk] at hi; cases hi) (fun _ hi => by cases hi)
        (fun _ hc => by cases hc) (fun _ => by rw [hk]; rfl)
    · exact h

theorem computeSet (h : Inv sv s) {p : Proc} (hstep : s.computeSet p = some t) : Inv sv t := by
  rw [State.computeSet] at hstep
  split at hstep
  · next minRequired hscan =>
    cases hstep
    have hset : Inv sv { s.setScan p none with replicationSlotMinLsn := minRequired } :=
      { h.setScan p (fun _ hx => by cases hx) with minimum := h.scans p _ hscan }
    exact hset.computed p
  · cases hstep

/-! ### The checkpointer -/

theorem afterSave_true (k : Checkpoint) (op : SaveOp) : k.afterSave op true = k := by
  cases k with
  | flushing c i => cases op <;> rfl
  | _ => rfl

theorem afterSave_false (hsaving : k.savingSlot = some i) (op : SaveOp) :
    (∃ u, k = .saving i u ∧ k.afterSave op false = .visiting (i + 1) u) ∨
      ∃ c, k = .flushing c i ∧ (k.afterSave op false = .flushed c i ∨ k.afterSave op false = .idle) := by
  cases k with
  | saving j u =>
    obtain rfl : j = i := Option.some.inj hsaving
    exact .inl ⟨u, rfl, rfl⟩
  | flushing c j =>
    obtain rfl : j = i := Option.some.inj hsaving
    refine .inr ⟨c, rfl, ?_⟩
    cases op with
    | finish => exact .inl rfl
    | _ => exact .inr rfl
  | _ => cases hsaving

theorem saveByCheckpointer (h : Inv sv s) {op : SaveOp} (hstep : s.saveByCheckpointer i op = some t) : Inv sv t := by
  rw [State.saveByCheckpointer] at hstep
  split at hstep
  · next hsaving =>
    split at hstep
    · next sl hsl =>
      obtain ⟨tl, htl, rfl⟩ := Option.map_eq_some_iff.mp hstep
      obtain ⟨u, hu, rfl⟩ := saveStep_op htl
      obtain ⟨hi, hslot⟩ := h.slots i sl hsl
      have hsaved : SlotInv sv (s.Safe sv i) s.startRedo s.checkpointer i { sl with save := u } := by
        by_cases hout : sl.reserve = .outside
        · exact hslot.saved hout (.of_step hu) nofun (fun _ => hsaving) id
        · have hloop := hslot.loop hout
          obtain rfl := Saved.eq_of_clean (hloop.outside .checkpointer) hloop.clean hu
          exact hslot.clear id id
      have hset : Inv sv (s.setSlot i (some { sl with save := u })) := h.setSlot hi hsaved
      cases hsaves : ReplicationSlot.Saves { sl with save := u } .checkpointer with
      | true =>
        have hstay : s.checkpointer.afterSave op true = s.checkpointer := afterSave_true _ op
        rw [hstay]
        exact hset
      | false =>
        -- the saver has left the slot
        have hout : ∀ j jl, (s.setSlot i (some { sl with save := u })).slots j = some jl →
            jl.save.pc .checkpointer ≠ .outside → s.checkpointer.savingSlot = some j → False := by
          intro j jl hjl hpc hj
          obtain rfl : i = j := Option.some.inj (hsaving.symm.trans hj)
          simp only [State.setSlot, Function.update_self, Option.some.injEq] at hjl
          subst hjl
          exact hpc (outside_of_not_saves hsaves)
        have hk : (s.setSlot i (some { sl with save := u })).checkpointer = s.checkpointer := rfl
        rcases afterSave_false hsaving op with ⟨u, hold, hnew⟩ | ⟨c, hold, hnew | hnew⟩
        · rw [hnew]
          exact hset.goOn (fun _ => rfl) (fun j jl hjl hpc hj => (hout j jl hjl hpc hj).elim)
            (fun _ hj => by cases hj) (fun _ hc => by cases hc) (fun hw => by cases hw)
        · rw [hnew]
          refine hset.goOn (fun _ => rfl) (fun j jl hjl hpc hj => (hout j jl hjl hpc hj).elim)
            (fun j hj => ?_) (fun c hc => ?_) (fun _ => ?_)
          · refine hset.held ?_
            rw [hk, hold]
            exact hj
          · rw [hk, hold]
            exact hc
          · rw [hk, hold]
            rfl
        · rw [hnew]
          exact hset.goOn (fun _ => rfl) (fun j jl hjl hpc hj => (hout j jl hjl hpc hj).elim)
            (fun _ hj => by cases hj) (fun _ hc => by cases hc) (fun hw => by cases hw)
    · cases hstep
  · cases hstep

theorem visit (h : Inv sv s) {shutdown : Bool} (hstep : s.visit sv shutdown = some t) : Inv sv t := by
  rw [State.visit] at hstep
  split at hstep
  · next j updated hk =>
    have hsaving : s.checkpointer.savingSlot = none := by rw [hk]; rfl
    split at hstep
    · next hj =>
      split at hstep
      · cases hstep
        exact h.goOn (fun _ => rfl) (fun _ _ _ _ hi => by rw [hsaving] at hi; cases hi) (fun _ hi => by cases hi)
          (fun _ hc => by cases hc) (fun hw => by cases hw)
      · next sl hsl =>
        obtain ⟨tl, htl, rfl⟩ := Option.map_eq_some_iff.mp hstep
        have hslot := (h.slots j sl hsl).2
        have hmarked : SlotInv sv (s.Safe sv j) s.startRedo s.checkpointer j tl := by
          cases shutdown with
          | false =>
            cases htl
            exact hslot
          | true =>
            obtain ⟨u, hu, rfl⟩ := saveStep_op htl
            simp only [Save.step] at hu
            split at hu
            · cases hu
              split
              · next hneeds =>
                refine hslot.mark ?_ id id
                by_contra hne
                exact (hslot.loop hne).confirmed hneeds.2.2
              · exact hslot
            · cases hu
        have hnone : (s.setSlot j (some tl)).checkpointer.savingSlot = none := hsaving
        exact (h.setSlot hj hmarked).goOn (fun _ => rfl) (fun _ _ _ _ hi => by rw [hnone] at hi; cases hi)
          (fun _ hi => by cases hi) (fun _ hc => by cases hc) (fun hw => by cases hw)
    · cases hstep
  · cases hstep

theorem endVisits (h : Inv sv s) (hstep : s.endVisits sv = some t) : Inv sv t := by
  rw [State.endVisits] at hstep
  split at hstep
  · next j updated hk =>
    split at hstep
    · cases hstep
    · cases hstep
      exact h.goOn (fun _ => rfl) (fun _ _ _ _ hi => by rw [hk] at hi; cases hi) (fun _ hi => by cases hi)
        (fun _ hc => by cases hc) (fun hw => by cases hw)
  · cases hstep

theorem checkpoint (h : Inv sv s) {redo : UInt64} (hstep : s.checkpoint redo = some t) : Inv sv t := by
  rw [State.checkpoint] at hstep
  split at hstep
  · next hk =>
    split at hstep
    · next hredo =>
      cases hstep
      have hgo : Inv sv (s.goTo (.visiting 0 false)) :=
        h.goOn (fun _ => rfl) (fun _ _ _ _ hi => by rw [hk] at hi; cases hi) (fun _ hi => by cases hi)
          (fun _ hc => by cases hc) (fun hw => by cases hw)
      exact { hgo with control := UInt64.le_trans h.control hredo, written := fun hw => by cases hw }
    · cases hstep
  · cases hstep

theorem writeControl (h : Inv sv s) {recptr : UInt64} (hstep : s.writeControl recptr = some t) : Inv sv t := by
  rw [State.writeControl] at hstep
  split at hstep
  · next hk =>
    split at hstep
    · next hrecptr =>
      cases hstep
      have hstart : s.startRedo ≤ s.redoRecPtr := UInt64.le_trans h.start h.control
      have hset : Inv sv { s with controlRedo := s.redoRecPtr, recptr := recptr } :=
        { h with
          before := fun n hn => UInt64.lt_of_lt_of_le (h.before n hn) (Server.segOf_mono h.control)
          start := hstart
          control := UInt64.le_refl _
          recptr := UInt64.le_trans h.first (UInt64.le_trans hstart hrecptr)
          horizon := fun c hc => ⟨(h.horizon c hc).1, UInt64.le_trans (h.horizon c hc).2 (Server.segOf_mono h.control)⟩
          written := fun _ => rfl }
      exact hset.goTo (fun _ _ _ _ hc => by cases hc)
        (fun _ _ _ _ hi => by rw [show _ = _ from hk] at hi; cases hi) (fun _ hi => by cases hi)
        (fun _ hc => by cases hc) (fun _ => rfl) (fun _ _ hr => by cases hr)
    · cases hstep
  · cases hstep

theorem one_le_horizon (h : Inv sv s) {g : Settings} {unsummarized : UInt64}
    (hu : unsummarized = 0 ∨ sv.walSegmentSize ≤ unsummarized) : 1 ≤ s.horizon sv g unsummarized := by
  have hredo : sv.walSegmentSize ≤ s.redoRecPtr := UInt64.le_trans h.first (UInt64.le_trans h.start h.control)
  exact Server.one_le_keepLogSeg h.recptr h.minimum hu (Server.one_le_segOf hredo)

theorem keepLogSeg (h : Inv sv s) {g : Settings} {unsummarized : UInt64} (hallowed : Allowed sv s (.keepLogSeg g unsummarized))
    (hstep : s.keepLogSeg sv g unsummarized = some t) : Inv sv t := by
  rw [State.keepLogSeg] at hstep
  split at hstep
  · next hu =>
    have hone : 1 ≤ s.horizon sv g unsummarized := h.one_le_horizon hu
    have hle : s.horizon sv g unsummarized ≤ sv.segOf s.redoRecPtr := sv.keepLogSeg_le _ _ _ _ _
    split at hstep
    · next hk =>
      cases hstep
      have hredo : s.controlRedo = s.redoRecPtr := h.written (by rw [hk]; rfl)
      refine (h.goTo (fun i _ c _ hc => ?_) (fun _ _ _ _ hi => by rw [hk] at hi; cases hi) (fun _ hi => by cases hi)
        (fun c hc => ?_) (fun _ => hredo) (fun _ _ hr => by cases hr)).readers _
      · rw [Checkpoint.cut, if_neg (Nat.not_lt_zero i)] at hc
        cases hc
      · cases hc
        exact ⟨hone, hredo ▸ hle⟩
    · next hk =>
      cases hstep
      have hredo : s.controlRedo = s.redoRecPtr := h.written (by rw [hk]; rfl)
      refine h.goTo (fun i sl c hsl hc => ?_) (fun _ _ _ _ hi => by rw [hk] at hi; cases hi) (fun _ hi => by cases hi)
        (fun c hc => ?_) (fun hw => by cases hw) (fun _ _ hr => by cases hr)
      · cases hc
        exact .inr ⟨by rw [hk]; rfl, hallowed hk i sl hsl⟩
      · cases hc
        exact ⟨hone, hredo ▸ hle⟩
    · cases hstep
  · cases hstep

theorem invalidate (h : Inv sv s) (hsl : s.slots i = some sl) (hfree : sl.activePid = none)
    (hnone : s.checkpointer.savingSlot = none) (hhorizon : 1 ≤ c ∧ c ≤ sv.segOf s.controlRedo)
    (hredo : s.controlRedo = s.redoRecPtr) (cause : Cause) :
    Inv sv ((s.setSlot i (some (sl.invalidate cause))).goTo (.invalidated c i)) := by
  obtain ⟨hi, hslot⟩ := h.slots i sl hsl
  have hset : Inv sv (s.setSlot i (some (sl.invalidate cause))) := h.setSlot hi (hslot.invalidate hfree id cause)
  have hsame : (s.setSlot i (some (sl.invalidate cause))).checkpointer.savingSlot = none := hnone
  refine hset.goTo (fun _ _ _ _ hd => by cases hd) (fun _ _ _ _ hj => by rw [hsame] at hj; cases hj)
    (fun j hj => ?_) (fun d hd => by cases hd; exact hhorizon) (fun _ => hredo) (fun _ _ hr => by cases hr)
  obtain rfl : i = j := Option.some.inj hj
  exact ⟨_, Function.update_self _ _ _, rfl⟩

theorem restartPass (h : Inv sv s) (hnone : s.checkpointer.savingSlot = none)
    (hhorizon : 1 ≤ c ∧ c ≤ sv.segOf s.controlRedo) (hredo : s.controlRedo = s.redoRecPtr) (inv : Bool) :
    Inv sv (s.restartPass c inv) := by
  refine (h.goTo (fun i _ d _ hd => ?_) (fun _ _ _ _ hi => by rw [hnone] at hi; cases hi) (fun _ hi => by cases hi)
    (fun d hd => by cases hd; exact hhorizon) (fun _ => hredo) (fun _ _ hr => by cases hr)).readers _
  rw [Checkpoint.cut, if_neg (Nat.not_lt_zero i)] at hd
  cases hd

theorem notBefore_of_test (h : Inv sv s) {idle : Bool} {inv : Bool} (hallowed : Allowed sv s (.test idle))
    (hk : s.checkpointer = .invalidating c i inv) (hsl : s.slots i = some sl)
    (hnone : sl.possiblyObsolete sv c idle = none) : NotBefore sv sl c := by
  obtain ⟨hfile, hupgrade⟩ := hallowed c i inv sl hk hsl hnone
  have hc : c ≤ sv.segOf s.controlRedo := (h.horizon c (by rw [hk]; rfl)).2
  by_cases hup : sv.isBinaryUpgrade = true
  · exact hupgrade hup
  · refine ⟨fun hvalid hne _ => ?_, hfile⟩
    by_contra hlt
    have hstart : sl.data.restartLsn < sv.startOf c := (Server.lt_startOf_iff hc).mpr (UInt64.not_le.mp hlt)
    have hwal : sl.possiblyObsolete sv c idle = some .walRemoved := by
      rw [ReplicationSlot.possiblyObsolete, if_neg fun hlogical => hup hlogical.2, if_neg (by rw [hvalid]; decide),
        determineSlotInvalidationCause, if_pos ⟨hne, hstart⟩]
    cases hnone.symm.trans hwal

theorem test (h : Inv sv s) {idle : Bool} (hallowed : Allowed sv s (.test idle)) (hstep : s.test sv idle = some t) :
    Inv sv t := by
  rw [State.test] at hstep
  split at hstep
  · next c i inv hk =>
    have hnone : s.checkpointer.savingSlot = none := by rw [hk]; rfl
    have hhorizon := h.horizon c (by rw [hk]; rfl)
    have hredo : s.controlRedo = s.redoRecPtr := h.written (by rw [hk]; rfl)
    -- the test goes on to the next slot
    have hnext : (∀ sl, s.slots i = some sl → NotBefore sv sl c) → Inv sv (s.goTo (.invalidating c (i + 1) inv)) := by
      intro hslot
      refine h.goTo (fun j jl d hjl hd => ?_) (fun _ _ _ _ hi => by rw [hnone] at hi; cases hi) (fun _ hi => by cases hi)
        (fun d hd => by cases hd; exact hhorizon) (fun _ => hredo) (fun _ _ hr => by cases hr)
      simp only [Checkpoint.cut, hk] at hd ⊢
      split at hd
      · next hlt =>
        cases hd
        rcases Nat.lt_succ_iff_lt_or_eq.mp hlt with hj | rfl
        · exact .inl (if_pos hj)
        · exact .inr ⟨rfl, hslot jl hjl⟩
      · cases hd
    split at hstep
    · next hi =>
      split at hstep
      · next hempty =>
        cases hstep
        exact hnext fun sl hsl => by cases hempty.symm.trans hsl
      · next sl hsl =>
        split at hstep
        · next hleft =>
          cases hstep
          refine hnext fun jl hjl => ?_
          obtain rfl : sl = jl := Option.some.inj (hsl.symm.trans hjl)
          exact h.notBefore_of_test hallowed hk hsl hleft
        · next cause _ =>
          split at hstep
          · next hfree =>
            cases hstep
            exact (h.invalidate hsl hfree hnone hhorizon hredo cause).readers _
          · cases hstep
            exact (h.goTo (fun _ _ _ _ hd => by cases hd) (fun _ _ _ _ hi => by rw [hnone] at hi; cases hi)
              (fun _ hi => by cases hi) (fun d hd => by cases hd; exact hhorizon) (fun _ => hredo)
              (fun _ _ hr => by cases hr)).readers _
    · cases hstep
  · cases hstep

theorem wake (h : Inv sv s) (hstep : s.wake sv = some t) : Inv sv t := by
  rw [State.wake] at hstep
  split at hstep
  · next c i initialRestartLsn inv hk =>
    have hnone : s.checkpointer.savingSlot = none := by rw [hk]; rfl
    have hhorizon := h.horizon c (by rw [hk]; rfl)
    have hredo : s.controlRedo = s.redoRecPtr := h.written (by rw [hk]; rfl)
    have hrestart : Inv sv (s.restartPass c inv) := h.restartPass hnone hhorizon hredo inv
    split at hstep
    · cases hstep
      exact hrestart
    · next sl hsl =>
      split at hstep
      · cases hstep
        exact hrestart
      · split at hstep
        · cases hstep
          exact hrestart
        · next cause _ =>
          split at hstep
          · next hfree =>
            cases hstep
            exact h.invalidate hsl hfree hnone hhorizon hredo cause
          · cases hstep
  · cases hstep

theorem markInvalidated (h : Inv sv s) (hstep : s.markInvalidated = some t) : Inv sv t := by
  rw [State.markInvalidated] at hstep
  split at hstep
  · next c i hk =>
    split at hstep
    · next sl hsl =>
      obtain ⟨tl, htl, rfl⟩ := Option.map_eq_some_iff.mp hstep
      obtain rfl := saveStep_markDirty htl
      obtain ⟨hi, hslot⟩ := h.slots i sl hsl
      have hheld : s.checkpointer.heldSlot = some i := by rw [hk]; rfl
      have hout : sl.reserve = .outside := by
        by_contra hne
        exact hslot.not_held hne hheld
      have hset : Inv sv (s.setSlot i (some { sl with save := sl.save.mark })) := h.setSlot hi (hslot.mark hout id id)
      have hsame : (s.setSlot i (some { sl with save := sl.save.mark })).checkpointer = .invalidated c i := hk
      refine hset.goOn (fun _ => rfl) (fun _ _ _ _ hj => by rw [hsame] at hj; cases hj)
        (fun j hj => hset.held ?_) (fun d hd => by rw [hsame]; exact hd) fun _ => by rw [hsame]; rfl
      rw [hsame]
      exact hj
    · cases hstep
  · cases hstep

theorem releaseInvalidated (h : Inv sv s) (hstep : s.releaseInvalidated = some t) : Inv sv t := by
  rw [State.releaseInvalidated] at hstep
  split at hstep
  · next c i hk =>
    split at hstep
    · next sl hsl =>
      cases hstep
      obtain ⟨hi, hslot⟩ := h.slots i sl hsl
      have hnone : s.checkpointer.savingSlot = none := by rw [hk]; rfl
      have hhorizon := h.horizon c (by rw [hk]; rfl)
      have hredo : s.controlRedo = s.redoRecPtr := h.written (by rw [hk]; rfl)
      have hheld : s.checkpointer.heldSlot = some i := by rw [hk]; rfl
      have hactive : sl.activePid = some .checkpointer := hslot.held hheld
      have hout : sl.reserve = .outside := by
        by_contra hne
        exact hslot.not_held hne hheld
      have hpc : sl.save.pc .owner = .outside := hslot.unowned (by rw [hactive]; exact nofun)
      -- the checkpointer first leaves the slot, and then nobody has it
      have hleft : Inv sv (s.restartPass c true) := h.restartPass hnone hhorizon hredo true
      have hslot' := (hleft.slots i sl hsl).2
      exact hleft.setSlot hi (hslot'.handOver hout hpc nofun id)
    · cases hstep
  · cases hstep

theorem endPass (h : Inv sv s) (hstep : s.endPass sv = some t) : Inv sv t := by
  rw [State.endPass] at hstep
  split at hstep
  · next c i inv hk =>
    have hnone : s.checkpointer.savingSlot = none := by rw [hk]; rfl
    have hhorizon := h.horizon c (by rw [hk]; rfl)
    have hredo : s.controlRedo = s.redoRecPtr := h.written (by rw [hk]; rfl)
    split at hstep
    · cases hstep
    · next hi =>
      cases hstep
      refine Inv.readers ?_ _
      cases inv with
      | true =>
        exact h.goTo (fun _ _ _ _ hd => by cases hd) (fun _ _ _ _ hj => by rw [hnone] at hj; cases hj)
          (fun _ hj => by cases hj) (fun _ hd => by cases hd) (fun _ => hredo) (fun _ _ hr => by cases hr)
      | false =>
        -- all slots were tested
        refine h.goTo (fun j jl d hjl hd => .inl ?_) (fun _ _ _ _ hj => by rw [hnone] at hj; cases hj)
          (fun _ hj => by cases hj) (fun d hd => by cases hd; exact hhorizon) (fun hw => by cases hw)
          (fun _ _ hr => by cases hr)
        cases hd
        have hj : j < i := Nat.lt_of_lt_of_le (h.slots j jl hjl).1 (Nat.not_lt.mp hi)
        rw [hk]
        exact if_pos hj
  · cases hstep

theorem updateLastRemoved (h : Inv sv s) {segno : UInt64} (hstep : s.updateLastRemoved segno = some t) : Inv sv t := by
  rw [State.updateLastRemoved] at hstep
  split at hstep
  · next c hk =>
    split at hstep
    · next hsegno =>
      cases hstep
      have hone : 1 ≤ c := (h.horizon c (by rw [hk]; rfl)).1
      have hlt : segno < c := Server.lt_of_le_sub_one hone hsegno.1
      have hraise : s.lastRemovedSegNo ≤ (if s.lastRemovedSegNo < segno then segno else s.lastRemovedSegNo) := by
        split
        · next hraised => exact UInt64.le_of_lt hraised
        · exact UInt64.le_refl _
      have hup : Inv sv { s with
          lastRemovedSegNo := if s.lastRemovedSegNo < segno then segno else s.lastRemovedSegNo } :=
        { h with
          since := fun n hn => (h.since n hn).imp_left fun hle => UInt64.le_trans hle hraise
          removing := fun d n hr => by cases hk.symm.trans hr }
      refine hup.goTo (fun j _ d _ hd => .inl ?_) (fun _ _ _ _ hj => by rw [show _ = _ from hk] at hj; cases hj)
        (fun _ hj => by cases hj) (fun d hd => ?_) (fun hw => by cases hw) fun d n hr => ?_
      · cases hd
        simp only [hk]
        rfl
      · cases hd
        exact h.horizon c (by rw [hk]; rfl)
      · cases hr
        refine ⟨hlt, ?_⟩
        dsimp only
        split
        · exact UInt64.le_refl _
        · next hnot => exact UInt64.not_lt.mp hnot
    · cases hstep
  · cases hstep

theorem removeFile (h : Inv sv s) (hstep : s.removeFile = some t) : Inv sv t := by
  rw [State.removeFile] at hstep
  split at hstep
  · next c n hk =>
    cases hstep
    obtain ⟨hlt, hlast⟩ := h.removing c n hk
    have hhorizon := h.horizon c (by rw [hk]; rfl)
    have hgo : Inv sv (s.goTo (.removing c)) := by
      refine h.goTo (fun j _ d _ hd => .inl ?_) (fun _ _ _ _ hj => by rw [hk] at hj; cases hj)
        (fun _ hj => by cases hj) (fun d hd => ?_) (fun hw => by cases hw) (fun _ _ hr => by cases hr)
      · cases hd
        rw [hk]
        rfl
      · cases hd
        exact hhorizon
    have hkept : ∀ i lsn, (s.goTo (.removing c)).Safe sv i lsn →
        State.Safe sv { s.goTo (.removing c) with removed := n :: s.removed } i lsn := by
      refine fun i lsn hsafe => ⟨fun m hm => ?_, hsafe.2⟩
      rcases List.mem_cons.mp hm with rfl | hm
      · exact UInt64.lt_of_lt_of_le hlt (hsafe.2 c rfl)
      · exact hsafe.1 m hm
    exact { hgo with
      slots := fun i sl hsl => by
        obtain ⟨hi, hslot⟩ := hgo.slots i sl hsl
        exact ⟨hi, hslot.imp (fun _ _ _ => hkept i _) (fun _ => hkept i _) (fun _ _ _ _ => hkept i _) (fun _ => id)
          hslot.held⟩
      since := fun m hm => by
        rcases List.mem_cons.mp hm with rfl | hm
        · exact .inl hlast
        · exact h.since m hm
      before := fun m hm => by
        rcases List.mem_cons.mp hm with rfl | hm
        · exact UInt64.lt_of_lt_of_le hlt hhorizon.2
        · exact h.before m hm }
  · cases hstep

theorem endRemoval (h : Inv sv s) (hstep : s.endRemoval = some t) : Inv sv t := by
  rw [State.endRemoval] at hstep
  split at hstep
  · next c hk =>
    cases hstep
    exact h.goOn (fun _ => rfl) (fun _ _ _ _ hi => by rw [hk] at hi; cases hi) (fun _ hi => by cases hi)
      (fun _ hc => by cases hc) (fun hw => by cases hw)
  · cases hstep

/-! ### Slots that come and go, and crashes -/

theorem create (h : Inv sv s) {database : Nat} {persistency : Persistency} {reserve : Bool}
    (hstep : s.create sv i (.create database persistency reserve) = some t) : Inv sv t := by
  rw [State.create] at hstep
  split at hstep
  · next hcreate =>
    cases hstep
    refine h.setSlot hcreate.1 (slotInv_create database persistency reserve fun hk => ?_)
    obtain ⟨sl, hsl⟩ := h.taken i hk
    have hnone := hcreate.2.2
    rw [hsl] at hnone
    cases hnone
  · cases hstep

theorem drop (h : Inv sv s) (hstep : s.drop i = some t) : Inv sv t := by
  rw [State.drop] at hstep
  split at hstep
  · next sl hsl =>
    split at hstep
    · next hdrop =>
      cases hstep
      exact { h with
        slots := fun j jl hj => by
          by_cases heq : j = i
          · subst heq
            simp only [State.setSlot, Function.update_self] at hj
            cases hj
          · simp only [State.setSlot, Function.update_of_ne heq] at hj
            exact h.slots j jl hj
        taken := fun j hj => by
          have hne : j ≠ i := by
            rintro rfl
            exact (h.slots j sl hsl).2.not_held_of_backend hdrop.2.1.1 hj
          obtain ⟨jl, hjl⟩ := h.taken j hj
          exact ⟨jl, (Function.update_of_ne hne _ _).trans hjl⟩ }
    · cases hstep
  · cases hstep

theorem crash (h : Inv sv s) : Inv sv (s.crash sv) := by
  have hslots : ∀ i tl, s.restored i = some tl →
      i < sv.maxReplicationSlots ∧ SlotInv sv ((s.crash sv).Safe sv i) s.controlRedo .idle i tl := by
    intro i tl htl
    obtain ⟨sl, hsl, hrestore⟩ := Option.bind_eq_some_iff.mp htl
    obtain ⟨hi, hslot⟩ := h.slots i sl hsl
    refine ⟨hi, (hslot.restore hrestore).imp (fun _ _ _ hsafe => ⟨hsafe.1, nofun⟩) (fun _ hsafe => ⟨hsafe.1, nofun⟩)
      (fun _ _ _ _ hsafe => ⟨hsafe.1, nofun⟩) (fun _ => id) nofun⟩
  have hminimum : ∀ (l : List Nat) (m : UInt64), FromFirst sv m →
      FromFirst sv (l.foldl (fun m i => lowerFor m (s.restored i)) m) := by
    intro l
    induction l with
    | nil => exact fun m hm => hm
    | cons i l ih =>
      refine fun m hm => ih _ (fromFirst_lowerFor hm fun sl hsl => ?_)
      exact fromFirst_requiredLsn (hslots i sl hsl).2
  exact {
    slots := hslots
    taken := nofun
    since := fun n hn => .inr (h.before n hn)
    before := h.before
    first := UInt64.le_trans h.first h.start
    start := UInt64.le_refl _
    control := UInt64.le_refl _
    recptr := UInt64.le_trans h.first h.start
    horizon := nofun
    written := nofun
    removing := nofun
    minimum := hminimum _ 0 (.inl rfl)
    scans := nofun }

theorem step {e : Event} (h : Inv sv s) (hallowed : Allowed sv s e) (hstep : Wal.step sv s e = some t) : Inv sv t := by
  have hmono : ∀ i {a b : UInt64}, a ≤ b → s.Safe sv i a → s.Safe sv i b := fun _ _ _ hab hsafe => hsafe.mono hab
  cases e with
  | create i database persistency reserve => exact h.create hstep
  | readPosition i lsn =>
    exact h.onSlot hstep fun _ _ _ hslot => hslot.readPosition (UInt64.le_trans h.start h.control)
  | storePosition i => exact h.onSlot hstep fun _ _ _ hslot => hslot.storePosition h.first
  | checkRemoved i =>
    refine h.onSlot hstep fun sl tl hsl hslot => hslot.checkRemoved fun hne hlsn hkept => ?_
    have hstart : s.startRedo ≤ sl.data.restartLsn := (hslot.loop hne).since.resolve_left hlsn
    refine ⟨fun n hn => ?_, fun c hc => hallowed sl c hsl hc hkept⟩
    rcases h.since n hn with hle | hlt
    · exact UInt64.lt_of_le_of_lt hle hkept
    · exact UInt64.lt_of_lt_of_le hlt (Server.segOf_mono hstart)
  | acquire i => exact h.onSlot hstep fun _ _ _ hslot => hslot.acquire
  | release i => exact h.onSlot hstep fun _ _ _ hslot => hslot.release
  | drop i => exact h.drop hstep
  | advance i lsn => exact h.onSlot hstep fun _ _ _ hslot => hslot.advance (hmono i)
  | confirm i lsn => exact h.onSlot hstep fun _ _ _ hslot => hslot.confirm (hmono i)
  | persist i => exact h.onSlot hstep fun _ _ _ hslot => hslot.persist (hmono i)
  | markDirty i => exact h.onSlot hstep fun _ _ _ hslot => hslot.markDirty
  | save p i op =>
    cases p with
    | owner => exact h.onSlot hstep fun _ _ _ hslot => hslot.saveOwn
    | checkpointer => exact h.saveByCheckpointer hstep
  | computeStart p => exact h.computeStart hstep
  | computeLook p => exact h.computeLook hstep
  | computeUnlock p => exact h.computeUnlock hstep
  | computeSet p => exact h.computeSet hstep
  | checkpoint redo => exact h.checkpoint hstep
  | visit shutdown => exact h.visit hstep
  | endVisits => exact h.endVisits hstep
  | writeControl recptr => exact h.writeControl hstep
  | keepLogSeg g unsummarized => exact h.keepLogSeg hallowed hstep
  | test idle => exact h.test hallowed hstep
  | wake => exact h.wake hstep
  | markInvalidated => exact h.markInvalidated hstep
  | releaseInvalidated => exact h.releaseInvalidated hstep
  | endPass => exact h.endPass hstep
  | updateLastRemoved segno => exact h.updateLastRemoved hstep
  | removeFile => exact h.removeFile hstep
  | endRemoval => exact h.endRemoval hstep
  | crash =>
    cases hstep
    exact h.crash

end Inv

theorem inv_started {redo : UInt64} (hredo : sv.walSegmentSize ≤ redo) : Inv sv (started redo) where
  slots _ _ hsl := by cases hsl
  taken _ hk := by cases hk
  since _ hn := by cases hn
  before _ hn := by cases hn
  first := hredo
  start := UInt64.le_refl _
  control := UInt64.le_refl _
  recptr := hredo
  horizon _ hc := by cases hc
  written hw := by cases hw
  removing _ _ hr := by cases hr
  minimum := .inl rfl
  scans _ _ hsc := by cases hsc

/-- In every run from a new cluster in which no position is missed, no WAL that a slot needs is
removed. -/
theorem wal_retained (sv : Server) (redo : UInt64) (hredo : sv.walSegmentSize ≤ redo) (es : List Event) (s : State)
    (h : Steps (fun s e t => Allowed sv s e ∧ step sv s e = some t) (started redo) es s) : WalRetained sv s :=
  (h.invariant (P := Inv sv) (fun hs hstep => hs.step hstep.1 hstep.2) (inv_started hredo)).retained

def oneSlot : Server := ⟨0x100000, 1, false, by decide⟩

def computeBy (p : Proc) : List Event := [.computeStart p, .computeLook p, .computeUnlock p, .computeSet p]

def reserveFrom (lsn : UInt64) : List Event :=
  ([.readPosition 0 lsn, .storePosition 0] : List Event) ++ computeBy (.owner 0) ++ ([.checkRemoved 0] : List Event)

def visitSlot (redo : UInt64) : List Event :=
  [.checkpoint redo, .visit false, .save .checkpointer 0 .check, .endVisits]

theorem wal_retained_one_checkpoint : ∃ s, s.removed = [1] ∧ (s.slots 0).isSome ∧ WalRetained oneSlot s := by
  have hrun : ∃ s, s.removed = [1] ∧ (s.slots 0).isSome ∧
      Steps (fun s e t => Allowed oneSlot s e ∧ step oneSlot s e = some t) (started 0x200000)
        (.create 0 0 .persistent true :: reserveFrom 0x200000 ++ visitSlot 0x400000 ++ computeBy .checkpointer ++
          ([.writeControl 0x400000, .keepLogSeg ⟨none, 0⟩ 0, .test false, .endPass, .updateLastRemoved 1,
            .removeFile] : List Event))
        s := by
    refine ⟨_, rfl, rfl, .cons ⟨trivial, rfl⟩ (.cons ⟨trivial, rfl⟩ (.cons ⟨trivial, rfl⟩ (.cons ⟨trivial, rfl⟩
      (.cons ⟨trivial, rfl⟩ (.cons ⟨trivial, rfl⟩ (.cons ⟨trivial, rfl⟩ (.cons ⟨?_, rfl⟩ (.cons ⟨trivial, rfl⟩
      (.cons ⟨trivial, rfl⟩ (.cons ⟨trivial, rfl⟩ (.cons ⟨trivial, rfl⟩ (.cons ⟨trivial, rfl⟩ (.cons ⟨trivial, rfl⟩
      (.cons ⟨trivial, rfl⟩ (.cons ⟨trivial, rfl⟩ (.cons ⟨trivial, rfl⟩ (.cons ⟨?_, rfl⟩
      (.cons ⟨?_, rfl⟩ (.cons ⟨trivial, rfl⟩ (.cons ⟨trivial, rfl⟩ (.cons ⟨trivial, rfl⟩
      (.nil _))))))))))))))))))))))⟩
    · exact fun sl c _ hc _ => by cases hc
    · exact fun hk => by cases hk
    · intro c i inv sl hk hsl _
      cases hk
      cases hsl
      exact ⟨fun hcounts => absurd rfl hcounts.2.2, fun hup => by cases hup⟩
  obtain ⟨s, hremoved, hslot, hsteps⟩ := hrun
  exact ⟨s, hremoved, hslot, wal_retained oneSlot 0x200000 (by decide) _ s hsteps⟩

def saveOps : List Event :=
  .markDirty 0 :: [SaveOp.check, .lock, .openTmp true, .copy, .write true, .sync true, .close true, .rename true,
    .finish].map (.save .owner 0)

def advancedSinceSaved : List Event :=
  .create 0 0 .persistent true :: reserveFrom 0x100000 ++ saveOps ++ visitSlot 0x500000 ++
    ([.writeControl 0x500000, .advance 0 0x400000, .keepLogSeg ⟨some 1, 0⟩ 0, .test false, .endPass,
      .updateLastRemoved 1, .removeFile, .crash] : List Event)

def reservedBehindPass : List Event :=
  ([.create 0 0 .persistent true, .readPosition 0 0x100000] : List Event) ++ visitSlot 0x300000 ++
    ([.writeControl 0x300000, .keepLogSeg ⟨none, 0⟩ 0, .test false, .endPass] : List Event) ++
    (reserveFrom 0x100000).tail ++ ([.updateLastRemoved 1, .removeFile] : List Event)

/-- `max_slot_wal_keep_size` lets segment 1 go while the slot, whose position in memory is not
affected, stays valid, and then the server crashes; and a reservation that ends behind the pass
finds nothing removed yet. -/
theorem needed_wal_removed :
    (∃ s, Steps (fun s e t => step oneSlot s e = some t) (started 0x100000) advancedSinceSaved s ∧
      s.removed = [1] ∧ (s.slots 0).map (fun sl => (sl.data.restartLsn, sl.data.invalidated)) = some (0x100000, false) ∧
      ¬ WalRetained oneSlot s) ∧
    ∃ s, Steps (fun s e t => step oneSlot s e = some t) (started 0x100000) reservedBehindPass s ∧ s.removed = [1] ∧
      (s.slots 0).map (fun sl => (sl.data.restartLsn, sl.data.invalidated, sl.reserve)) =
        some (0x100000, false, .outside) ∧
      ¬ WalRetained oneSlot s := by
  have hsegment : ¬ (1 : UInt64) < oneSlot.segOf 0x100000 := by decide
  refine ⟨⟨_, steps_of_foldlM rfl, rfl, rfl, fun h => ?_⟩, ⟨_, steps_of_foldlM rfl, rfl, rfl, fun h => ?_⟩⟩
  · exact hsegment ((h 0 _ rfl).memory rfl (by decide) rfl 1 (List.mem_singleton_self 1))
  · exact hsegment ((h 0 _ rfl).memory rfl (by decide) rfl 1 (List.mem_singleton_self 1))

end CdcKafka.Slot.Wal
