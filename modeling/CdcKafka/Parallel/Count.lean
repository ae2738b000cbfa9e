import CdcKafka.Parallel.Handoff

/-! The count of pending stream blocks: each block or subtransaction abort that
the leader announces is taken back by the worker at the STREAM STOP or the abort
that ends it, and only messages replayed from the file may go uncounted. -/

namespace CdcKafka.Parallel
open CdcKafka.Lib

variable {α : Type} {s t : State α}

def Msg.isEnd : Msg α → Bool
  | .streamStop => true
  | .streamAbort _ => true
  | _ => false

def Msg.opens : Msg α → Bool
  | .streamStart _ => true
  | .streamAbort _ => true
  | _ => false

def ends (msgs : List (Msg α)) : Nat := msgs.countP Msg.isEnd

def opens (msgs : List (Msg α)) : Nat := msgs.countP Msg.opens

def WorkerPc.handling : WorkerPc → Nat
  | .readCount _ => 1
  | .checkSpooled _ => 1
  | .subCount _ => 1
  | _ => 0

def WorkerPc.fromQueue : WorkerPc → Bool
  | .readCount .queue => true
  | .checkSpooled .queue => true
  | .subCount .queue => true
  | _ => false

def Msg.credit : Msg α → Nat
  | .streamStart _ => 0
  | .finish _ => 0
  | _ => 1

def LeaderPc.credit (phase : Phase) : LeaderPc α → Nat
  | .idle => if phase = .inChunk then 1 else 0
  | .stopLock => 1
  | .abortLock _ => 1
  | .send m => m.credit
  | .switchOpen m => m.credit
  | _ => 0

def Msg.phaseAfter : Msg α → Phase
  | .streamStart _ => .inChunk
  | .change _ => .inChunk
  | .streamStop => .between
  | .streamAbort _ => .between
  | .finish _ => .done

def LeaderPc.starting : LeaderPc α → Bool
  | .startUnlock => true
  | .startIncr => true
  | _ => false

structure Counted (s : State α) : Prop where
  balance : s.pendingStreamCount + s.consumed = s.announced
  handled : s.consumed + s.skipped + s.worker.handling = ends s.dispatched
  limit : s.announced ≤ ends s.dispatched + ends s.queue + 1
  covered : s.filePos = 0 → ends s.dispatched + ends s.queue ≤ s.announced
  sending : s.serializeChanges = false → s.announced = ends s.dispatched + ends s.queue + s.leader.credit s.phase
  capacity : s.queue.length ≤ queueCapacity
  skipping : s.skipped ≠ 0 → s.filePos ≠ 0 ∧ s.pendingStreamCount = 0
  replayed : s.filePos ≠ 0 → s.serializeChanges = true ∧ s.queue = []
  fromQueue : s.worker.fromQueue = true → s.filePos = 0
  fromFile : s.worker.replays = true → s.worker.handling = 1 → s.filePos ≠ 0
  subs : ∀ src, s.worker = .subCount src → 0 < s.pendingStreamCount
  checks : ∀ src, s.worker = .checkSpooled src → src = .file ∧ s.pendingStreamCount = 0
  phases : ∀ m ∈ s.leader.pending, s.phase = m.phaseAfter
  starting : s.leader.starting = true → s.phase = .inChunk
  idles : s.xactState = .finished → s.worker.handling = 0
  noError : s.worker ≠ .error

theorem counted_init : Counted (State.init : State α) := by
  constructor <;> simp [State.init, ends, WorkerPc.handling, WorkerPc.fromQueue, LeaderPc.credit,
    LeaderPc.pending, LeaderPc.starting]

theorem Counted.lt (h : Counted s) : s.pendingStreamCount + 1 < 2 ^ 32 := by
  have hq : ends s.queue ≤ queueCapacity := Nat.le_trans List.countP_le_length h.capacity
  have hcap : queueCapacity = 1048576 := by decide
  have hbal := h.balance
  have hhand := h.handled
  have hlim := h.limit
  have hone : s.worker.handling ≤ 1 := by
    unfold WorkerPc.handling
    split <;> omega
  by_cases hskip : s.skipped = 0
  · omega
  · have := (h.skipping hskip).2
    omega

theorem ends_append (a b : List (Msg α)) : ends (a ++ b) = ends a + ends b := List.countP_append

theorem ends_cons (m : Msg α) (msgs : List (Msg α)) :
    ends (m :: msgs) = ends msgs + if m.isEnd then 1 else 0 := List.countP_cons

theorem ends_singleton (m : Msg α) : ends [m] = if m.isEnd then 1 else 0 := by
  rw [ends_cons]
  simp [ends]

theorem nextPhase_eq {p q : Phase} {m : Msg α} (h : nextPhase p m = some q) : q = m.phaseAfter := by
  unfold nextPhase at h
  split at h <;> simp_all [Msg.phaseAfter]

theorem credit_firstPc {p q : Phase} {m : Msg α} (h : nextPhase p m = some q) :
    (firstPc false m).credit q = (LeaderPc.idle : LeaderPc α).credit p := by
  unfold nextPhase at h
  split at h
  all_goals cases h
  all_goals rfl

theorem Counted.receive (h : Counted s) {m : Msg α} (hs : s.receive m = some t) : Counted t := by
  unfold State.receive at hs
  split at hs
  next hidle =>
    obtain ⟨p, hp, rfl⟩ := Option.map_eq_some_iff.mp hs
    exact { h with
      sending := fun hser => by
        show s.announced = ends s.dispatched + ends s.queue + (firstPc s.serializeChanges m).credit p
        rw [hser, credit_firstPc hp, ← hidle]
        exact h.sending hser
      phases := fun m' hm' => by
        have hmem : m' ∈ (firstPc s.serializeChanges m).pending := hm'
        rw [pending_firstPc, List.mem_singleton] at hmem
        rw [hmem]
        exact nextPhase_eq hp
      starting := fun hstart => by
        have hno : (firstPc s.serializeChanges m).starting = false := by
          cases s.serializeChanges <;> cases m <;> rfl
        exact absurd (hno.symm.trans hstart) (by decide) }
  next => simp at hs

theorem Counted.move (h : Counted s) (pc : LeaderPc α) (hpending : pc.pending ⊆ s.leader.pending)
    (hcredit : s.serializeChanges = false → pc.credit s.phase = s.leader.credit s.phase)
    (hstart : pc.starting = true → s.leader.starting = true) : Counted { s with leader := pc } :=
  { h with
    sending := fun hser => by
      show s.announced = ends s.dispatched + ends s.queue + pc.credit s.phase
      rw [hcredit hser]
      exact h.sending hser
    phases := fun m hm => h.phases m (hpending hm)
    starting := fun hpc => h.starting (hstart hpc) }

theorem Counted.announce (h : Counted s) (ho : Ordered s) {pc : LeaderPc α}
    (hsends : s.leader.sends = true) (hzero : s.leader.credit s.phase = 0)
    (hone : pc.credit s.phase = 1) (hpending : pc.pending ⊆ s.leader.pending)
    (hstart : pc.starting = false) : Counted { s.announce with leader := pc } := by
  have hser := ho.sends hsends
  have hfile := ho.unspooled hser
  have hcount := h.sending hser
  have hbal := h.balance
  rw [hzero, Nat.add_zero] at hcount
  have hinc : (s.pendingStreamCount + 1) % 2 ^ 32 = s.pendingStreamCount + 1 :=
    Nat.mod_eq_of_lt h.lt
  exact { h with
    balance := by
      show (s.pendingStreamCount + 1) % 2 ^ 32 + s.consumed = s.announced + 1
      omega
    limit := by
      show s.announced + 1 ≤ ends s.dispatched + ends s.queue + 1
      omega
    covered := fun _ => by
      show ends s.dispatched + ends s.queue ≤ s.announced + 1
      omega
    sending := fun _ => by
      show s.announced + 1 = ends s.dispatched + ends s.queue + pc.credit s.phase
      omega
    skipping := fun hskip => by
      have hspool := (h.replayed (h.skipping hskip).1).1
      rw [hser] at hspool
      simp at hspool
    subs := fun _ _ => by
      show 0 < (s.pendingStreamCount + 1) % 2 ^ 32
      omega
    checks := fun src hw => by
      have hsrc := (h.checks src hw).1
      have hready := (ho.replays (by rw [show s.worker = .checkSpooled src from hw, hsrc]; rfl)).2
      rw [hfile.2] at hready
      simp at hready
    phases := fun m hm => h.phases m (hpending hm)
    starting := fun hpc => absurd (hstart.symm.trans hpc) (by decide) }

theorem Counted.sent (h : Counted s) (ho : Ordered s) {m : Msg α} (hpc : s.leader = .send m)
    (hroom : s.queue.length < queueCapacity) :
    Counted { s with queue := s.queue ++ [m], leader := afterSend m } := by
  have hser : s.serializeChanges = false := ho.sends (by rw [hpc]; rfl)
  have hcount := h.sending hser
  have hphase : s.phase = m.phaseAfter := h.phases m (by rw [hpc]; exact List.mem_singleton_self m)
  have hends : ends (s.queue ++ [m]) = ends s.queue + if m.isEnd then 1 else 0 := by
    rw [ends_append, ends_singleton]
  have hcredit : m.credit = (if m.isEnd then 1 else 0) + (afterSend m).credit s.phase := by
    rw [hphase]
    cases m with
    | streamStart b => cases b <;> rfl
    | _ => rfl
  rw [hpc, show (LeaderPc.send m).credit s.phase = m.credit from rfl, hcredit] at hcount
  have hpending : (afterSend m).pending = [] := by
    cases m with
    | streamStart b => cases b <;> rfl
    | _ => rfl
  exact { h with
    limit := by
      show s.announced ≤ ends s.dispatched + ends (s.queue ++ [m]) + 1
      have hlim := h.limit
      omega
    covered := fun _ => by
      show ends s.dispatched + ends (s.queue ++ [m]) ≤ s.announced
      omega
    sending := fun _ => by
      show s.announced = ends s.dispatched + ends (s.queue ++ [m]) + (afterSend m).credit s.phase
      omega
    capacity := by
      show (s.queue ++ [m]).length ≤ queueCapacity
      rw [List.length_append, List.length_singleton]
      exact hroom
    replayed := fun hpos => by
      have hspool := (h.replayed hpos).1
      rw [hser] at hspool
      simp at hspool
    phases := fun m' hm' => by
      have hmem : m' ∈ (afterSend m).pending := hm'
      simp [hpending] at hmem
    starting := fun hstart => by
      cases m with
      | streamStart b => exact hphase
      | _ => simp [afterSend, LeaderPc.starting] at hstart }

theorem Counted.stepLeader (h : Counted s) (ho : Ordered s) {result : SendResult}
    (hs : s.stepLeader result = some t) : Counted t := by
  have hspools := ho.spools
  cases hpc : s.leader with
  | idle => simp [State.stepLeader, hpc] at hs
  | stopLock =>
    simp only [State.stepLeader, hpc, Option.ite_none_left_eq_some, Option.some.injEq] at hs
    obtain ⟨-, rfl⟩ := hs
    have hm := h.move (.send .streamStop) (by simp [hpc, LeaderPc.pending])
      (fun _ => by rw [hpc]; rfl) (fun h => by cases h)
    exact { hm with }
  | abortUnlock subxid =>
    simp only [State.stepLeader, hpc, Option.some.injEq] at hs
    subst hs
    have hm := h.move (.abortIncr subxid) (by simp [hpc, LeaderPc.pending])
      (fun _ => by rw [hpc]; rfl) (fun h => by cases h)
    exact { hm with }
  | abortIncr subxid =>
    simp only [State.stepLeader, hpc, Option.some.injEq] at hs
    subst hs
    exact h.announce ho (by rw [hpc]; rfl) (by rw [hpc]; rfl) rfl (by simp [hpc, LeaderPc.pending]) rfl
  | abortLock subxid =>
    simp only [State.stepLeader, hpc, Option.ite_none_left_eq_some, Option.some.injEq] at hs
    obtain ⟨-, rfl⟩ := hs
    have hm := h.move (.send (.streamAbort subxid)) (by simp [hpc, LeaderPc.pending])
      (fun _ => by rw [hpc]; rfl) (fun h => by cases h)
    exact { hm with }
  | send m =>
    cases result with
    | sent =>
      simp only [State.stepLeader, hpc, Option.ite_none_right_eq_some, Option.some.injEq] at hs
      obtain ⟨hroom, rfl⟩ := hs
      exact h.sent ho hpc hroom
    | timeout partlyWritten =>
      simp only [State.stepLeader, hpc, Option.some.injEq] at hs
      subst hs
      have hm := h.move (.switchOpen m) (by simp [hpc, LeaderPc.pending])
        (fun _ => by rw [hpc]; rfl) (fun h => by cases h)
      exact { hm with }
  | startUnlock =>
    simp only [State.stepLeader, hpc, Option.some.injEq] at hs
    subst hs
    have hm := h.move .startIncr (by simp [LeaderPc.pending]) (fun _ => by rw [hpc]; rfl) (fun _ => by rw [hpc]; rfl)
    exact { hm with }
  | startIncr =>
    simp only [State.stepLeader, hpc, Option.some.injEq] at hs
    subst hs
    have hphase : s.phase = .inChunk := h.starting (by rw [hpc]; rfl)
    exact h.announce ho (by rw [hpc]; rfl) (by rw [hpc]; rfl) (by simp [LeaderPc.credit, hphase])
      (by simp [LeaderPc.pending]) rfl
  | switchOpen m =>
    simp only [State.stepLeader, hpc, Option.some.injEq] at hs
    subst hs
    exact { h with
      sending := fun hser => by cases hser
      replayed := fun hpos => ⟨rfl, (h.replayed hpos).2⟩
      phases := fun m' hm' => by
        apply h.phases m'
        rw [hpc]
        revert hm'
        cases streamLocked m <;> exact id
      starting := fun hstart => by
        revert hstart
        cases streamLocked m <;> exact fun h => by cases h }
  | switchLock m =>
    simp only [State.stepLeader, hpc, Option.ite_none_left_eq_some, Option.some.injEq] at hs
    obtain ⟨-, rfl⟩ := hs
    have hm := h.move (.switchState m) (by simp [hpc, LeaderPc.pending])
      (fun _ => by rw [hpc]; rfl) (fun h => by cases h)
    exact { hm with }
  | switchState m =>
    simp only [State.stepLeader, hpc, Option.some.injEq] at hs
    subst hs
    have hm := h.move (.write m) (by simp [hpc, LeaderPc.pending]) (fun _ => by rw [hpc]; rfl) (fun h => by cases h)
    exact { hm with }
  | write m =>
    simp only [State.stepLeader, hpc, Option.some.injEq] at hs
    subst hs
    have hser : s.serializeChanges = true := hspools (by rw [hpc]; rfl)
    have hm := h.move (afterWrite m) (by cases m <;> simp [afterWrite, LeaderPc.pending])
      (fun hno => by simp [hser] at hno) (by cases m <;> exact fun h => by cases h)
    exact { hm with }
  | setDone =>
    simp only [State.stepLeader, hpc, Option.some.injEq] at hs
    subst hs
    have hm := h.move .finishUnlock (by simp [LeaderPc.pending]) (fun _ => by rw [hpc]; rfl) (fun h => by cases h)
    exact { hm with }
  | finishUnlock =>
    simp only [State.stepLeader, hpc, Option.some.injEq] at hs
    subst hs
    have hm := h.move .finishWait (by simp [LeaderPc.pending]) (fun _ => by rw [hpc]; rfl) (fun h => by cases h)
    exact { hm with }
  | finishWait =>
    simp only [State.stepLeader, hpc, Option.ite_none_right_eq_some, Option.some.injEq] at hs
    obtain ⟨-, rfl⟩ := hs
    exact h.move _ (by simp [LeaderPc.pending]) (fun _ => by rw [hpc]; rfl) (fun h => by cases h)
  | freed => simp [State.stepLeader, hpc] at hs

theorem handling_afterDispatch (m : Msg α) (src : Source) :
    (afterDispatch m src).handling = if m.isEnd then 1 else 0 := by
  cases m <;> cases src <;> rfl

theorem handling_of_fromQueue {pc : WorkerPc} (h : pc.fromQueue = true) : pc.handling = 1 := by
  unfold WorkerPc.fromQueue at h
  split at h <;> first | rfl | simp at h

theorem Counted.moveIdle (h : Counted s) (pc : WorkerPc) (hold : s.worker.handling = 0)
    (hnew : pc.handling = 0) (hne : pc ≠ .error) : Counted { s with worker := pc } :=
  { h with
    handled := by
      show s.consumed + s.skipped + pc.handling = ends s.dispatched
      rw [hnew, ← hold]
      exact h.handled
    fromQueue := fun hpc => by
      have hone := handling_of_fromQueue (show pc.fromQueue = true from hpc)
      omega
    fromFile := fun _ hone => by
      have hpc : pc.handling = 1 := hone
      omega
    subs := fun src hpc => by simp [show pc = .subCount src from hpc, WorkerPc.handling] at hnew
    checks := fun src hpc => by
      simp [show pc = .checkSpooled src from hpc, WorkerPc.handling] at hnew
    idles := fun _ => hnew
    noError := hne }

theorem Ordered.not_finished (ho : Ordered s) {m : Msg α} {rest : List (Msg α)}
    (h : s.received = s.dispatched ++ m :: rest) : s.xactState ≠ .finished := by
  intro hfin
  have hlen := congrArg List.length ((ho.finished hfin).1.trans h)
  simp at hlen

theorem handling_of_finished {m : Msg α} {src : Source} {x : XactState} (hx : x ≠ .finished)
    (h : xactAfter m x = .finished) : (afterDispatch m src).handling = 0 := by
  cases m with
  | finish k => cases src <;> rfl
  | streamStart b => cases b <;> cases src <;> rfl
  | change a => cases src <;> rfl
  | streamStop => exact absurd h hx
  | streamAbort subxid => exact absurd h hx

theorem Counted.dispatchQueue (h : Counted s) (ho : Ordered s) {m : Msg α}
    {queue : List (Msg α)} (hpc : s.worker = .loop) (hq : s.queue = m :: queue) :
    Counted ({ s with queue := queue }.dispatch m .queue) := by
  have horder := ho.order
  rw [hq] at horder
  have hpos : s.filePos = 0 := by
    by_contra hne
    have hnil := (h.replayed hne).2
    simp [hq] at hnil
  have hends : ends (s.dispatched ++ [m]) = ends s.dispatched + if m.isEnd then 1 else 0 := by
    rw [ends_append, ends_singleton]
  have hqueue := ends_cons m queue
  rw [← hq] at hqueue
  have hhand := h.handled
  rw [hpc] at hhand
  exact { h with
    handled := by
      show s.consumed + s.skipped + (afterDispatch m .queue).handling = ends (s.dispatched ++ [m])
      rw [handling_afterDispatch, hends, ← hhand]
      rfl
    limit := by
      show s.announced ≤ ends (s.dispatched ++ [m]) + ends queue + 1
      have hlim := h.limit
      omega
    covered := fun _ => by
      show ends (s.dispatched ++ [m]) + ends queue ≤ s.announced
      have hcov := h.covered hpos
      omega
    sending := fun hser => by
      show s.announced = ends (s.dispatched ++ [m]) + ends queue + s.leader.credit s.phase
      have hsend := h.sending hser
      omega
    capacity := by
      have hcap := h.capacity
      rw [hq] at hcap
      exact Nat.le_of_succ_le hcap
    replayed := fun hne => absurd hpos hne
    fromQueue := fun _ => hpos
    fromFile := fun hrep => by
      have hno : (afterDispatch m .queue).replays = false := by cases m <;> rfl
      exact absurd (hno.symm.trans hrep) (by decide)
    subs := fun src hw => by
      have hno : afterDispatch m .queue ≠ .subCount src := by cases m <;> nofun
      exact absurd hw hno
    checks := fun src hw => by
      have hno : afterDispatch m .queue ≠ .checkSpooled src := by cases m <;> nofun
      exact absurd hw hno
    idles := handling_of_finished (ho.not_finished horder)
    noError := by cases m <;> nofun }

theorem Counted.dispatchFile (h : Counted s) (ho : Ordered s) {m : Msg α}
    (hpc : s.worker = .replay) (hm : s.file[s.filePos]? = some m) :
    Counted ({ s with filePos := s.filePos + 1 }.dispatch m .file) := by
  obtain ⟨hlt, hget⟩ := List.getElem?_eq_some_iff.mp hm
  have hq : s.queue = [] := (ho.replays (by rw [hpc]; rfl)).1
  have hser : s.serializeChanges = true := by
    by_contra hno
    have hfile := (ho.unspooled (by simpa using hno)).1
    simp [hfile] at hlt
  have horder := ho.order
  rw [hq, List.drop_eq_getElem_cons hlt, hget] at horder
  have hends : ends (s.dispatched ++ [m]) = ends s.dispatched + if m.isEnd then 1 else 0 := by
    rw [ends_append, ends_singleton]
  have hhand := h.handled
  rw [hpc] at hhand
  exact { h with
    handled := by
      show s.consumed + s.skipped + (afterDispatch m .file).handling = ends (s.dispatched ++ [m])
      rw [handling_afterDispatch, hends, ← hhand]
      rfl
    limit := by
      show s.announced ≤ ends (s.dispatched ++ [m]) + ends s.queue + 1
      have hlim := h.limit
      omega
    covered := nofun
    sending := fun hno => by
      have hcon : s.serializeChanges = false := hno
      simp [hser] at hcon
    skipping := fun hskip => ⟨nofun, (h.skipping hskip).2⟩
    replayed := fun _ => ⟨hser, hq⟩
    fromQueue := fun hfrom => by
      have hno : (afterDispatch m .file).fromQueue = false := by cases m <;> rfl
      exact absurd (hno.symm.trans hfrom) (by decide)
    fromFile := nofun
    subs := fun src hw => by
      have hno : afterDispatch m .file ≠ .subCount src := by cases m <;> nofun
      exact absurd hw hno
    checks := fun src hw => by
      have hno : afterDispatch m .file ≠ .checkSpooled src := by cases m <;> nofun
      exact absurd hw hno
    idles := handling_of_finished (ho.not_finished horder)
    noError := by cases m <;> nofun }

theorem Counted.pos_of_readCount (h : Counted s) (hpc : s.worker = .readCount .queue) : 0 < s.pendingStreamCount := by
  have hpos := h.fromQueue (by rw [hpc]; rfl)
  have hskip : s.skipped = 0 := by
    by_contra hne
    exact (h.skipping hne).1 hpos
  have hhand := h.handled
  rw [hpc, show (WorkerPc.readCount .queue).handling = 1 from rfl] at hhand
  have hcov := h.covered hpos
  have hbal := h.balance
  omega

theorem Counted.readCount (h : Counted s) {src : Source} (hpc : s.worker = .readCount src) :
    Counted { s with worker := if s.pendingStreamCount = 0 then .checkSpooled src
                               else .subCount src } := by
  have hhand := h.handled
  have hfile := h.fromFile
  have hqueue := h.fromQueue
  have hidle := h.idles
  rw [hpc] at hhand hfile hqueue hidle
  split_ifs with hzero
  · have hsrc : src = .file := by
      cases src with
      | file => rfl
      | queue => exact absurd hzero (Nat.pos_iff_ne_zero.mp (h.pos_of_readCount hpc))
    exact { h with
      handled := hhand
      fromQueue := fun hfrom => by subst hsrc; simp [WorkerPc.fromQueue] at hfrom
      fromFile := fun hrep _ => hfile hrep rfl
      subs := nofun
      checks := fun src' hw => by
        obtain rfl : src = src' := by simpa using hw
        exact ⟨hsrc, hzero⟩
      idles := hidle
      noError := nofun }
  · exact { h with
      handled := hhand
      fromQueue := fun hfrom => hqueue (by cases src <;> first | rfl | simp [WorkerPc.fromQueue] at hfrom)
      fromFile := fun hrep _ => hfile hrep rfl
      subs := fun _ _ => Nat.pos_iff_ne_zero.mpr hzero
      checks := nofun
      idles := hidle
      noError := nofun }

theorem Counted.checkSpooled (h : Counted s) {src : Source} (hpc : s.worker = .checkSpooled src) :
    Counted { s with skipped := s.skipped + 1, worker := src.resume } := by
  obtain ⟨rfl, hzero⟩ := h.checks src hpc
  have hhand := h.handled
  rw [hpc, show (WorkerPc.checkSpooled .file).handling = 1 from rfl] at hhand
  exact { h with
    handled := by
      show s.consumed + (s.skipped + 1) + 0 = ends s.dispatched
      omega
    skipping := fun _ => ⟨h.fromFile (by rw [hpc]; rfl) (by rw [hpc]; rfl), hzero⟩
    fromQueue := nofun
    fromFile := fun _ hone => by
      have hcon : (0 : Nat) = 1 := hone
      simp at hcon
    subs := nofun
    checks := nofun
    idles := fun _ => rfl
    noError := nofun }

theorem Counted.subCount (h : Counted s) {src : Source} (hpc : s.worker = .subCount src)
    {count : Nat} (hcount : count + 1 = s.pendingStreamCount) {pc : WorkerPc}
    (hnew : pc.handling = 0) (hne : pc ≠ .error) :
    Counted { s with pendingStreamCount := count, consumed := s.consumed + 1, worker := pc } := by
  have hhand := h.handled
  rw [hpc, show (WorkerPc.subCount src).handling = 1 from rfl] at hhand
  have hbal := h.balance
  have hunskipped : s.skipped = 0 := by
    by_contra hskip
    have hzero := (h.skipping hskip).2
    omega
  -- the handler is over: what is left is the state the worker resumes in
  have hdone : Counted { s with
      pendingStreamCount := count, consumed := s.consumed + 1, worker := .loop } :=
    { h with
      balance := by
        show count + (s.consumed + 1) = s.announced
        omega
      handled := by
        show s.consumed + 1 + s.skipped + 0 = ends s.dispatched
        omega
      skipping := fun hskip => absurd hunskipped hskip
      fromQueue := nofun
      fromFile := nofun
      subs := nofun
      checks := nofun
      idles := fun _ => rfl
      noError := nofun }
  exact hdone.moveIdle _ rfl hnew hne

theorem resume_handling (src : Source) : src.resume.handling = 0 ∧ src.resume ≠ .error := by
  cases src <;> exact ⟨rfl, nofun⟩

theorem Counted.stepWorker (h : Counted s) (ho : Ordered s) (hs : s.stepWorker = some t) : Counted t := by
  cases hpc : s.worker with
  | loop =>
    simp only [State.stepWorker, hpc] at hs
    split at hs <;> obtain rfl := Option.some.inj hs
    next m queue hq => exact h.dispatchQueue ho hpc hq
    next => exact h.moveIdle _ (by rw [hpc]; rfl) rfl (fun h => by cases h)
  | readFileset =>
    simp only [State.stepWorker, hpc] at hs
    split at hs <;> obtain rfl := Option.some.inj hs
    all_goals exact h.moveIdle _ (by rw [hpc]; rfl) rfl (fun h => by cases h)
  | spoolLock =>
    simp only [State.stepWorker, hpc, Option.ite_none_left_eq_some, Option.some.injEq] at hs
    obtain ⟨-, rfl⟩ := hs
    have hm := h.moveIdle .spoolUnlock (by rw [hpc]; rfl) rfl (fun h => by cases h)
    exact { hm with }
  | spoolUnlock =>
    simp only [State.stepWorker, hpc, Option.some.injEq] at hs
    subst hs
    have hm := h.moveIdle .spoolReread (by rw [hpc]; rfl) rfl (fun h => by cases h)
    exact { hm with }
  | spoolReread =>
    simp only [State.stepWorker, hpc] at hs
    split at hs <;> obtain rfl := Option.some.inj hs
    all_goals exact h.moveIdle _ (by rw [hpc]; rfl) rfl (fun h => by cases h)
  | setReady =>
    simp only [State.stepWorker, hpc, Option.some.injEq] at hs
    subst hs
    have hm := h.moveIdle .loop (by rw [hpc]; rfl) rfl (fun h => by cases h)
    exact { hm with }
  | replay =>
    simp only [State.stepWorker, hpc] at hs
    split at hs <;> obtain rfl := Option.some.inj hs
    next m hm => exact h.dispatchFile ho hpc hm
    next => exact h.moveIdle _ (by rw [hpc]; rfl) rfl (fun h => by cases h)
  | setEmpty =>
    simp only [State.stepWorker, hpc, Option.some.injEq] at hs
    subst hs
    have hm := h.moveIdle .loop (by rw [hpc]; rfl) rfl (fun h => by cases h)
    exact { hm with }
  | readCount src =>
    simp only [State.stepWorker, hpc, Option.some.injEq] at hs
    subst hs
    exact h.readCount hpc
  | checkSpooled src =>
    have hready : s.fileset = .ready := by
      refine (ho.replays ?_).2
      rw [hpc, (h.checks src hpc).1]
      rfl
    rw [State.stepWorker, hpc] at hs
    simp only [if_pos (show s.fileset ≠ .empty by simp [hready]), Option.some.injEq] at hs
    subst hs
    exact h.checkSpooled hpc
  | subCount src =>
    have hpos := h.subs src hpc
    have hlt := h.lt
    have hdec : (s.pendingStreamCount + 2 ^ 32 - 1) % 2 ^ 32 + 1 = s.pendingStreamCount := by omega
    simp only [State.stepWorker, hpc, Option.some.injEq] at hs
    subst hs
    split_ifs
    · exact h.subCount hpc hdec rfl (fun h => by cases h)
    · exact h.subCount hpc hdec (resume_handling src).1 (resume_handling src).2
  | blockLock src =>
    simp only [State.stepWorker, hpc, Option.ite_none_left_eq_some, Option.some.injEq] at hs
    obtain ⟨-, rfl⟩ := hs
    have hm := h.moveIdle (.blockUnlock src) (by rw [hpc]; rfl) rfl (fun h => by cases h)
    exact { hm with }
  | blockUnlock src =>
    simp only [State.stepWorker, hpc, Option.some.injEq] at hs
    subst hs
    have hm := h.moveIdle _ (by rw [hpc]; rfl) (resume_handling src).1 (resume_handling src).2
    exact { hm with }
  | error => simp [State.stepWorker, hpc] at hs

theorem Counted.reuse (h : Counted s) (ho : Ordered s) (hs : s.reuse = some t) : Counted t := by
  unfold State.reuse at hs
  split at hs
  next hfreed hser =>
    obtain rfl := Option.some.inj hs
    have hfin := ho.freed hfreed
    have hq : s.queue = [] := by
      have horder := ho.order
      rw [(ho.finished hfin).1, List.self_eq_append_right] at horder
      exact (List.append_eq_nil_iff.mp horder).1
    have hpos : s.filePos = 0 := by
      by_contra hne
      have hspool := (h.replayed hne).1
      simp [hser] at hspool
    have hskip : s.skipped = 0 := by
      by_contra hne
      exact (h.skipping hne).1 hpos
    have hidle := h.idles hfin
    have hzero : s.pendingStreamCount = 0 := by
      have hcount := h.sending hser
      rw [hq, hfreed] at hcount
      have hhand := h.handled
      have hbal := h.balance
      simp only [ends, List.countP_nil, LeaderPc.credit] at hcount hhand
      omega
    exact { h with
      balance := by
        show s.pendingStreamCount + 0 = 0
        omega
      handled := by
        show 0 + 0 + s.worker.handling = 0
        omega
      limit := Nat.zero_le _
      covered := fun _ => by
        show ends [] + ends s.queue ≤ 0
        simp [hq, ends]
      sending := fun _ => by
        show 0 = ends [] + ends s.queue + 0
        simp [hq, ends]
      skipping := nofun
      phases := nofun
      starting := nofun
      idles := nofun }
  next => simp at hs

theorem Counted.step (h : Counted s) (ho : Ordered s) {e : Event α} (hs : Step s e t) : Counted t := by
  cases e with
  | receive m => exact h.receive hs
  | leader result => exact h.stepLeader ho hs
  | worker => exact h.stepWorker ho hs
  | reuse => exact h.reuse ho hs

theorem counted_of_reachable (h : Reachable s) : Ordered s ∧ Counted s := by
  obtain ⟨es, hes⟩ := h
  exact hes.invariant (P := fun s => Ordered s ∧ Counted s)
    (fun hi hs => ⟨hi.1.step hs, hi.2.step hi.1 hs⟩) ⟨ordered_init, counted_init⟩

theorem opens_eq_ends {msgs : List (Msg α)} {p q : Phase} (h : msgs.foldlM nextPhase p = some q) :
    opens msgs + (LeaderPc.idle : LeaderPc α).credit p =
      ends msgs + (LeaderPc.idle : LeaderPc α).credit q := by
  induction msgs generalizing p with
  | nil =>
    obtain rfl : p = q := by simpa using h
    rfl
  | cons m msgs ih =>
    simp only [List.foldlM_cons, Option.bind_eq_bind, Option.bind_eq_some_iff] at h
    obtain ⟨r, hr, hrest⟩ := h
    have hstep : (if m.opens then 1 else 0) + (LeaderPc.idle : LeaderPc α).credit p =
        (if m.isEnd then 1 else 0) + (LeaderPc.idle : LeaderPc α).credit r := by
      unfold nextPhase at hr
      split at hr
      all_goals cases hr
      all_goals rfl
    have htail := ih hrest
    rw [ends_cons, show opens (m :: msgs) = opens msgs + if m.opens then 1 else 0 from
      List.countP_cons]
    omega

/-- The count is what the leader has announced less what the worker has consumed,
every end of a block is consumed but for some of those replayed from the file, and
the error for a count of zero is never raised. -/
theorem pendingStreamCount_exact (h : Reachable s) :
    s.pendingStreamCount = s.announced - s.consumed ∧ s.consumed ≤ s.announced ∧
      (s.serializeChanges = false → s.leader = .idle → s.announced = opens s.received) ∧
      s.consumed + s.skipped + s.worker.handling = ends s.dispatched ∧
      (s.skipped ≠ 0 → s.filePos ≠ 0) ∧ s.worker ≠ .error := by
  obtain ⟨ho, hc⟩ := counted_of_reachable h
  have hbal := hc.balance
  refine ⟨by omega, by omega, fun hser hidle => ?_, hc.handled, fun hskip => (hc.skipping hskip).1, hc.noError⟩
  have hcount := hc.sending hser
  have horder := ho.order
  rw [hidle] at hcount horder
  rw [(ho.unspooled hser).1] at horder
  have hends : ends s.received = ends s.dispatched + ends s.queue := by
    rw [horder]
    simp only [List.drop_nil, LeaderPc.pending, List.append_nil, ends_append]
  have hopens := opens_eq_ends ho.wellFormed
  have hbegin : (LeaderPc.idle : LeaderPc α).credit .begin = 0 := rfl
  omega

def abortTimeoutRun : List (Event Nat) :=
  ([.receive (.streamStart true), .leader .sent, .leader .sent, .receive .streamStop, .leader .sent,
    .leader .sent, .worker, .worker, .worker, .worker, .receive (.streamAbort 5), .leader .sent,
    .leader .sent, .leader .sent, .leader (.timeout false)] : List (Event Nat)) ++
  List.replicate 3 (Event.leader .sent) ++
  ([.receive (.streamAbort 6), .leader .sent, .receive (.finish .streamCommit)] : List (Event Nat)) ++
  List.replicate 3 (Event.leader .sent) ++ List.replicate 18 Event.worker

theorem pendingStreamCount_abortTimeoutRun :
    ∃ s, abortTimeoutRun.foldlM State.step State.init = some s ∧ s.announced = 2 ∧
      ends s.dispatched = 3 ∧ s.pendingStreamCount = s.announced - s.consumed ∧
      s.worker ≠ .error := by
  have hrun : (abortTimeoutRun.foldlM State.step State.init).any (fun s =>
      decide (s.announced = 2 ∧ ends s.dispatched = 3)) = true := by
    decide +kernel
  obtain ⟨s, hs, hdisp⟩ := (Option.any_eq_true _ _).mp hrun
  obtain ⟨hann, hends⟩ := of_decide_eq_true hdisp
  have hmain := pendingStreamCount_exact ⟨_, steps_of_foldlM hs⟩
  exact ⟨s, hs, hann, hends, hmain.1, hmain.2.2.2.2.2⟩

end CdcKafka.Parallel
