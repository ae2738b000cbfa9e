import Mathlib.Data.List.TakeWhile
import CdcKafka.SyncRep.Release

/-! The wait queues: in order of LSN, each with backends that wait, and a backend in one only. -/

namespace CdcKafka.SyncRep

variable {cfg : Config} {s t : State} {me p : Nat} {mode mode' : Mode} {procs : Nat → Proc} {queue : List Nat}

theorem insertFromTail_perm (procs : Nat → Proc) (me : Nat) (l : List Nat) :
    (insertFromTail procs me l).Perm (me :: l) := by
  induction l with
  | nil => exact List.Perm.refl _
  | cons a l ih =>
    rw [insertFromTail]
    split
    · exact List.Perm.refl _
    · exact (ih.cons a).trans (List.Perm.swap me a l)

theorem mem_syncRepQueueInsert : p ∈ syncRepQueueInsert procs me queue ↔ p = me ∨ p ∈ queue := by
  rw [syncRepQueueInsert, List.mem_reverse, (insertFromTail_perm procs me queue.reverse).mem_iff, List.mem_cons,
    List.mem_reverse]

theorem nodup_syncRepQueueInsert (hqueue : queue.Nodup) (hme : me ∉ queue) :
    (syncRepQueueInsert procs me queue).Nodup := by
  rw [syncRepQueueInsert, List.nodup_reverse, (insertFromTail_perm procs me queue.reverse).nodup_iff, List.nodup_cons,
    List.mem_reverse, List.nodup_reverse]
  exact ⟨hme, hqueue⟩

theorem pairwise_insertFromTail {l : List Nat} (h : l.Pairwise fun a b => (procs b).waitLsn ≤ (procs a).waitLsn) :
    (insertFromTail procs me l).Pairwise fun a b => (procs b).waitLsn ≤ (procs a).waitLsn := by
  induction l with
  | nil => exact List.pairwise_singleton _ _
  | cons a l ih =>
    obtain ⟨hhead, htail⟩ := List.pairwise_cons.mp h
    rw [insertFromTail]
    split
    · next hlt =>
      refine .cons (fun b hb => ?_) h
      rcases List.mem_cons.mp hb with rfl | hb
      · exact UInt64.le_of_lt hlt
      · exact UInt64.le_trans (hhead b hb) (UInt64.le_of_lt hlt)
    · next hnot =>
      refine .cons (fun b hb => ?_) (ih htail)
      rcases List.mem_cons.mp ((insertFromTail_perm procs me l).mem_iff.mp hb) with rfl | hb
      · exact UInt64.not_lt.mp hnot
      · exact hhead b hb

def Ordered (procs : Nat → Proc) (queue : List Nat) : Prop :=
  queue.Pairwise fun a b => (procs a).waitLsn ≤ (procs b).waitLsn

theorem ordered_syncRepQueueInsert (h : Ordered procs queue) : Ordered procs (syncRepQueueInsert procs me queue) := by
  rw [Ordered, syncRepQueueInsert, List.pairwise_reverse]
  exact pairwise_insertFromTail (List.pairwise_reverse.mpr h)

theorem Ordered.congr {procs' : Nat → Proc} (h : Ordered procs queue)
    (hprocs : ∀ p ∈ queue, (procs' p).waitLsn = (procs p).waitLsn) : Ordered procs' queue := by
  refine List.Pairwise.imp_of_mem (fun ha hb hle => ?_) h
  rw [hprocs _ ha, hprocs _ hb]
  exact hle

structure Queued (s : State) : Prop where
  ordered : ∀ mode, Ordered s.procs (s.queue mode)
  nodup : ∀ mode, (s.queue mode).Nodup
  waiting : ∀ mode, ∀ p ∈ s.queue mode, (s.procs p).syncRepState = .waiting
  apart : ∀ mode mode' p, p ∈ s.queue mode → p ∈ s.queue mode' → mode = mode'

namespace Queued

theorem not_mem (h : Queued s) (hp : (s.procs p).syncRepState ≠ .waiting) (mode : Mode) : p ∉ s.queue mode :=
  fun hmem => hp (h.waiting mode p hmem)

theorem setProc (h : Queued s) (hp : ∀ mode, p ∉ s.queue mode) (proc : Proc) :
    Queued { s with procs := Function.update s.procs p proc } := by
  have hsame : ∀ mode, ∀ q ∈ s.queue mode, Function.update s.procs p proc q = s.procs q := by
    intro mode q hq
    refine Function.update_of_ne (fun heq => ?_) _ _
    exact hp mode (heq ▸ hq)
  refine ⟨fun mode => (h.ordered mode).congr fun q hq => ?_, h.nodup, fun mode q hq => ?_, h.apart⟩
  · exact congrArg Proc.waitLsn (hsame mode q hq)
  · show (Function.update s.procs p proc q).syncRepState = .waiting
    rw [hsame mode q hq]
    exact h.waiting mode q hq

theorem insert (h : Queued s) (hme : ∀ mode, me ∉ s.queue mode) (hwaiting : (s.procs me).syncRepState = .waiting)
    (mode : Mode) :
    Queued { s with queue := Function.update s.queue mode (syncRepQueueInsert s.procs me (s.queue mode)) } := by
  have hmem : ∀ mode' q, q ∈ Function.update s.queue mode (syncRepQueueInsert s.procs me (s.queue mode)) mode' →
      q = me ∧ mode' = mode ∨ q ∈ s.queue mode' := by
    intro mode' q hq
    by_cases heq : mode' = mode
    · subst heq
      rw [Function.update_self, mem_syncRepQueueInsert] at hq
      exact hq.imp_left fun hq => ⟨hq, rfl⟩
    · rw [Function.update_of_ne heq] at hq
      exact .inr hq
  refine ⟨fun mode' => ?_, fun mode' => ?_, fun mode' q hq => ?_, fun m m' q hq hq' => ?_⟩
  · by_cases heq : mode' = mode
    · subst heq
      simp only [Function.update_self]
      exact ordered_syncRepQueueInsert (h.ordered mode')
    · simp only [Function.update_of_ne heq]
      exact h.ordered mode'
  · by_cases heq : mode' = mode
    · subst heq
      simp only [Function.update_self]
      exact nodup_syncRepQueueInsert (h.nodup mode') (hme mode')
    · simp only [Function.update_of_ne heq]
      exact h.nodup mode'
  · rcases hmem mode' q hq with ⟨rfl, -⟩ | hq
    · exact hwaiting
    · exact h.waiting mode' q hq
  · rcases hmem m q hq with ⟨rfl, rfl⟩ | hold
    · rcases hmem m' q hq' with ⟨-, rfl⟩ | hold'
      · rfl
      · exact absurd hold' (hme m')
    · rcases hmem m' q hq' with ⟨rfl, -⟩ | hold'
      · exact absurd hold (hme m)
      · exact h.apart m m' q hold hold'

theorem waitForLSN (h : Queued s) (hme : (s.procs me).syncRepState = .notWaiting) (lsn : Lsn) (waitMode : Mode)
    (commit : Bool) : Queued (syncRepWaitForLSN s me lsn waitMode commit).1 := by
  have hout := h.not_mem (p := me) (by rw [hme]; decide)
  have hset := h.setProc hout ⟨lsn, .waiting⟩
  rw [syncRepWaitForLSN]
  by_cases hle : lsn ≤ s.lsn (if commit = true then waitMode else waitMode.capAtFlush)
  · simp only [if_pos hle]
    exact h
  · simp only [if_neg hle]
    exact hset.insert hout (by simp) _

theorem sublist (h : Queued s) {queue : Mode → List Nat} {procs : Nat → Proc}
    (hsub : ∀ mode, (queue mode).Sublist (s.queue mode)) (hprocs : ∀ mode, ∀ p ∈ queue mode, procs p = s.procs p) :
    Queued { s with queue := queue, procs := procs } := by
  refine ⟨fun mode => ?_, fun mode => (h.nodup mode).sublist (hsub mode), fun mode p hp => ?_,
    fun m m' p hp hp' => h.apart m m' p ((hsub m).subset hp) ((hsub m').subset hp')⟩
  · have hordered : Ordered s.procs (queue mode) := (h.ordered mode).sublist (hsub mode)
    exact hordered.congr fun p hp => congrArg Proc.waitLsn (hprocs mode p hp)
  · show (procs p).syncRepState = .waiting
    rw [hprocs mode p hp]
    exact h.waiting mode p ((hsub mode).subset hp)

theorem wake (h : Queued s) (mode : Mode) : Queued (syncRepWakeQueue s mode) := by
  refine h.sublist (fun mode' => ?_) fun mode' p hp => ?_
  · by_cases heq : mode' = mode
    · subst heq
      rw [Function.update_self]
      exact List.dropWhile_sublist _
    · rw [Function.update_of_ne heq]
  · refine if_neg fun hwoken => ?_
    have hqueue : p ∈ s.queue mode := (List.takeWhile_sublist _).subset hwoken
    by_cases heq : mode' = mode
    · subst heq
      -- the queue holds a backend once: it is woken or it stays
      rw [Function.update_self] at hp
      have hnodup := h.nodup mode'
      rw [← List.takeWhile_append_dropWhile (p := fun p => !decide (s.lsn mode' < (s.procs p).waitLsn))
        (l := s.queue mode'), List.nodup_append] at hnodup
      exact hnodup.2.2 p hwoken p hp rfl
    · rw [Function.update_of_ne heq] at hp
      exact heq (h.apart mode' mode p hp hqueue)

theorem cancelWait (h : Queued s) (me : Nat) : Queued (syncRepCancelWait s me) := by
  refine h.sublist (fun mode => List.filter_sublist) fun mode p hp => ?_
  have hne : p ≠ me := of_decide_eq_true (List.mem_filter.mp hp).2
  exact Function.update_of_ne hne _ _

theorem setLsn (h : Queued s) (lsn : Mode → Lsn) : Queued { s with lsn := lsn } :=
  ⟨h.ordered, h.nodup, h.waiting, h.apart⟩

theorem setWalSnd (h : Queued s) (i : Nat) (f : WalSnd → WalSnd) : Queued (s.setWalSnd i f) :=
  ⟨h.ordered, h.nodup, h.waiting, h.apart⟩

theorem releaseMode (h : Queued s) (mode : Mode) (position : Lsn) : Queued (releaseMode s mode position).1 := by
  rw [SyncRep.releaseMode]
  split
  · exact (h.setLsn _).wake mode
  · exact h

theorem releaseWaiters (h : Queued s) (cfg : Config) (me : Nat) (stray : Mode → Lsn) :
    Queued (syncRepReleaseWaiters cfg s me stray).1 := by
  rw [syncRepReleaseWaiters]
  split
  · cases syncRepGetSyncRecPtr cfg s.walsnds me stray with
    | none => exact h
    | some positions => exact ((h.releaseMode .write _).releaseMode .flush _).releaseMode .apply _
  · exact h

theorem step {e : Event} {released : List Released} (h : Queued s) (hstep : step cfg s e = some (t, released)) :
    Queued t := by
  cases e with
  | waitForLsn me lsn waitMode commit =>
    simp only [SyncRep.step] at hstep
    split at hstep
    · next hme =>
      have hwait := h.waitForLSN hme lsn waitMode commit
      rw [Option.some.inj hstep] at hwait
      exact hwait
    · cases hstep
  | leave me =>
    simp only [SyncRep.step] at hstep
    split at hstep
    · next hme =>
      cases hstep
      exact h.setProc (h.not_mem (by rw [hme]; decide)) _
    · cases hstep
  | cancelWait me =>
    simp only [SyncRep.step] at hstep
    split at hstep
    · cases hstep
      exact h.cancelWait me
    · cases hstep
  | releaseWaiters i stray =>
    have hrelease := h.releaseWaiters cfg i stray
    rw [Option.some.inj hstep] at hrelease
    exact hrelease
  | start i pid =>
    cases hstep
    exact h.setWalSnd i _
  | setState i state =>
    cases hstep
    exact h.setWalSnd i _
  | initConfig i priority =>
    cases hstep
    exact h.setWalSnd i _
  | reply i position =>
    cases hstep
    exact h.setWalSnd i _
  | stop i =>
    cases hstep
    exact h.setWalSnd i _

end Queued

end CdcKafka.SyncRep

/-! What synchronous commit promises over a whole run. -/

namespace CdcKafka.SyncRep

open CdcKafka.Lib

variable {cfg : Config} {s t u : State} {es : List Event} {mode : Mode} {x : Lsn}

def Step (cfg : Config) (s : State) (e : Event) (t : State) : Prop :=
  Allowed cfg s e ∧ ∃ released, step cfg s e = some (t, released)

end CdcKafka.SyncRep
