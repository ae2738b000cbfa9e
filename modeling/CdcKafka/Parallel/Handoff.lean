import CdcKafka.Parallel.Protocol

/-! The hand-off from the leader to the parallel worker keeps the order of the
messages: what was dispatched, what is in the queue, what is left of the file and
what the leader is still putting make up what was received. -/

namespace CdcKafka.Parallel
open CdcKafka.Lib

variable {α : Type} {s t : State α}

def phaseOf (msgs : List (Msg α)) : Option Phase := msgs.foldlM nextPhase .begin

theorem nextPhase_finish {p q : Phase} {k : FinishKind}
    (h : nextPhase (α := α) p (.finish k) = some q) : q = .done := by
  cases p <;> simp_all [nextPhase]

theorem nextPhase_done (m : Msg α) : nextPhase .done m = none := rfl

theorem phaseOf_concat {msgs : List (Msg α)} {p q : Phase} {m : Msg α}
    (h : phaseOf msgs = some p) (hm : nextPhase p m = some q) : phaseOf (msgs ++ [m]) = some q := by
  simp only [phaseOf] at h
  simp [phaseOf, List.foldlM_append, h, hm]

theorem phaseOf_finish {before after : List (Msg α)} {k : FinishKind} {p : Phase}
    (h : phaseOf (before ++ .finish k :: after) = some p) : after = [] ∧ p = .done := by
  simp only [phaseOf, List.foldlM_append, List.foldlM_cons, Option.bind_eq_bind, Option.bind_eq_some_iff] at h
  obtain ⟨q, -, r, hr, hafter⟩ := h
  rw [nextPhase_finish hr] at hafter
  cases after with
  | nil => exact ⟨rfl, by simpa [eq_comm] using hafter⟩
  | cons m ms => simp [List.foldlM_cons, nextPhase_done] at hafter

def LeaderPc.pending : LeaderPc α → List (Msg α)
  | .stopLock => [.streamStop]
  | .abortUnlock subxid => [.streamAbort subxid]
  | .abortIncr subxid => [.streamAbort subxid]
  | .abortLock subxid => [.streamAbort subxid]
  | .send m => [m]
  | .switchOpen m => [m]
  | .switchLock m => [m]
  | .switchState m => [m]
  | .write m => [m]
  | _ => []

def LeaderPc.sends : LeaderPc α → Bool
  | .stopLock => true
  | .abortUnlock _ => true
  | .abortIncr _ => true
  | .abortLock _ => true
  | .send _ => true
  | .startUnlock => true
  | .startIncr => true
  | .switchOpen _ => true
  | _ => false

def LeaderPc.spools : LeaderPc α → Bool
  | .switchLock _ => true
  | .switchState _ => true
  | .write _ => true
  | .setDone => true
  | _ => false

def Source.isFile : Source → Bool
  | .queue => false
  | .file => true

def WorkerPc.replays : WorkerPc → Bool
  | .replay => true
  | .setEmpty => true
  | .readCount src => src.isFile
  | .checkSpooled src => src.isFile
  | .subCount src => src.isFile
  | .blockLock src => src.isFile
  | .blockUnlock src => src.isFile
  | _ => false

def WorkerPc.awaits : WorkerPc → Bool
  | .spoolLock => true
  | .spoolUnlock => true
  | .spoolReread => true
  | _ => false

def LeaderPc.switches : LeaderPc α → Bool
  | .switchLock _ => true
  | .switchState _ => true
  | _ => false

def State.spooling (s : State α) : Bool :=
  match s.leader with
  | .write _ => true
  | .setDone => true
  | .idle => s.serializeChanges
  | _ => false

structure Ordered (s : State α) : Prop where
  order : s.received = s.dispatched ++ (s.queue ++ (s.file.drop s.filePos ++ s.leader.pending))
  wellFormed : phaseOf s.received = some s.phase
  sends : s.leader.sends = true → s.serializeChanges = false
  spools : s.leader.spools = true → s.serializeChanges = true
  unspooled : s.serializeChanges = false → s.file = [] ∧ s.fileset = .empty
  switches : s.leader.switches = true → s.fileset = .empty
  spooling : s.spooling = true → s.fileset = .serializeInProgress
  filePos_le : s.filePos ≤ s.file.length
  replays : s.worker.replays = true → s.queue = [] ∧ s.fileset = .ready
  reads : s.worker = .readFileset → s.fileset = .ready → s.queue = []
  awaits : s.worker.awaits = true → s.fileset = .serializeInProgress ∨ s.fileset = .serializeDone
  readies : s.worker = .setReady → s.fileset = .serializeDone
  finished : s.xactState = .finished → s.dispatched = s.received ∧ s.phase = .done
  freed : s.leader = .freed → s.xactState = .finished

theorem ordered_init : Ordered (State.init : State α) := by
  constructor <;> simp [State.init, LeaderPc.pending, LeaderPc.sends, LeaderPc.spools,
    LeaderPc.switches, State.spooling, WorkerPc.replays, WorkerPc.awaits, phaseOf]

theorem Ordered.setCount (h : Ordered s) (count announced consumed skipped : Nat) :
    Ordered { s with pendingStreamCount := count, announced := announced, consumed := consumed,
                     skipped := skipped } :=
  { h with }

theorem pending_firstPc (b : Bool) (m : Msg α) : (firstPc b m).pending = [m] := by
  cases b <;> cases m <;> rfl

theorem firstPc_false (m : Msg α) : (firstPc false m).spools = false ∧ (firstPc false m).switches = false := by
  cases m <;> exact ⟨rfl, rfl⟩

theorem Ordered.receive (h : Ordered s) {m : Msg α} (hs : s.receive m = some t) : Ordered t := by
  unfold State.receive at hs
  split at hs
  next hidle =>
    obtain ⟨p, hp, rfl⟩ := Option.map_eq_some_iff.mp hs
    have hphase : s.phase ≠ .done := by
      intro hdone
      rw [hdone, nextPhase_done] at hp
      simp at hp
    have horder := h.order
    rw [hidle] at horder
    have hspooling := h.spooling
    simp only [State.spooling, hidle] at hspooling
    have hfreed : firstPc s.serializeChanges m ≠ .freed := by
      cases s.serializeChanges <;> cases m <;> nofun
    exact { h with
      order := by
        show s.received ++ [m] = s.dispatched ++ (s.queue ++ (s.file.drop s.filePos ++
          (firstPc s.serializeChanges m).pending))
        rw [pending_firstPc, horder]
        simp only [LeaderPc.pending, List.append_nil, List.append_assoc]
      wellFormed := phaseOf_concat h.wellFormed hp
      sends := fun hsend => by
        cases hser : s.serializeChanges with
        | false => rfl
        | true => simp [hser, firstPc, LeaderPc.sends] at hsend
      spools := fun hspool => by
        cases hser : s.serializeChanges with
        | false => simp [hser, (firstPc_false m).1] at hspool
        | true => rfl
      switches := fun hswitch => by
        cases hser : s.serializeChanges with
        | false => simp [hser, (firstPc_false m).2] at hswitch
        | true => simp [hser, firstPc, LeaderPc.switches] at hswitch
      spooling := fun hspool => by
        cases hser : s.serializeChanges with
        | false =>
          have hwrites := (firstPc_false m).1
          simp only [State.spooling, hser] at hspool
          split at hspool <;> simp_all [LeaderPc.spools]
        | true => exact hspooling hser
      finished := fun hfin => absurd (h.finished hfin).2 hphase
      freed := fun hpc => absurd hpc hfreed }
  next => simp at hs

theorem Ordered.sent (h : Ordered s) {m : Msg α} (hpc : s.leader = .send m) :
    Ordered { s with queue := s.queue ++ [m], leader := afterSend m } := by
  have hser : s.serializeChanges = false := h.sends (by rw [hpc]; rfl)
  obtain ⟨hfile, hempty⟩ := h.unspooled hser
  have hafter : (afterSend m).pending = [] ∧ (afterSend m).spools = false ∧
      (afterSend m).switches = false ∧ afterSend m ≠ .freed := by
    cases m with
    | streamStart b => cases b <;> exact ⟨rfl, rfl, rfl, nofun⟩
    | _ => exact ⟨rfl, rfl, rfl, nofun⟩
  exact { h with
    order := by
      have horder := h.order
      rw [hpc] at horder
      show s.received = s.dispatched ++ (s.queue ++ [m] ++ (s.file.drop s.filePos ++ (afterSend m).pending))
      rw [hafter.1, horder, hfile]
      simp only [LeaderPc.pending, List.drop_nil, List.nil_append, List.append_nil]
    sends := fun _ => hser
    spools := fun hspool => by simp [hafter.2.1] at hspool
    switches := fun _ => hempty
    spooling := fun hspool => by
      simp only [State.spooling, hser] at hspool
      split at hspool <;> simp_all [LeaderPc.spools]
    replays := fun hw => by
      have hready := (h.replays hw).2
      simp [hempty] at hready
    reads := fun _ hready => by simp [hempty] at hready
    freed := fun hfreed => absurd hfreed hafter.2.2.2 }

theorem Ordered.written (h : Ordered s) {m : Msg α} (hpc : s.leader = .write m) :
    Ordered { s with file := s.file ++ [m], leader := afterWrite m } := by
  have hser : s.serializeChanges = true := h.spools (by rw [hpc]; rfl)
  have hprogress : s.fileset = .serializeInProgress := h.spooling (by simp [State.spooling, hpc])
  have hafter : (afterWrite m).pending = [] ∧ (afterWrite m).sends = false ∧
      (afterWrite m).switches = false ∧ afterWrite m ≠ .freed := by
    cases m <;> exact ⟨rfl, rfl, rfl, nofun⟩
  exact { h with
    order := by
      have horder := h.order
      rw [hpc] at horder
      show s.received = s.dispatched ++ (s.queue ++ ((s.file ++ [m]).drop s.filePos ++ (afterWrite m).pending))
      rw [hafter.1, horder, List.drop_append_of_le_length h.filePos_le]
      simp only [LeaderPc.pending, List.append_nil]
    sends := fun hsend => by simp [hafter.2.1] at hsend
    spools := fun _ => hser
    unspooled := fun hno => by simp [hser] at hno
    switches := fun hswitch => by simp [hafter.2.2.1] at hswitch
    spooling := fun _ => hprogress
    filePos_le := Nat.le_trans h.filePos_le (by simp)
    freed := fun hfreed => absurd hfreed hafter.2.2.2 }

theorem Ordered.move (h : Ordered s) (pc : LeaderPc α) (hpending : pc.pending = s.leader.pending)
    (hsends : pc.sends = true → s.serializeChanges = false)
    (hspools : pc.spools = true → s.serializeChanges = true)
    (hswitches : pc.switches = true → s.fileset = .empty)
    (hspooling : ({ s with leader := pc } : State α).spooling = true → s.fileset = .serializeInProgress)
    (hfreed : pc = .freed → s.xactState = .finished) : Ordered { s with leader := pc } :=
  { h with
    order := by
      show s.received = s.dispatched ++ (s.queue ++ (s.file.drop s.filePos ++ pc.pending))
      rw [hpending, h.order]
    sends := hsends
    spools := hspools
    switches := hswitches
    spooling := hspooling
    freed := hfreed }

theorem Ordered.switched (h : Ordered s) {m : Msg α} (hpc : s.leader = .switchOpen m)
    {pc : LeaderPc α} (hpending : pc.pending = [m]) (hswitch : pc.switches = true)
    (hspooling : pc.spools = true) (hsends : pc.sends = false) :
    Ordered { s with serializeChanges := true, file := [], leader := pc } := by
  obtain ⟨hfile, hempty⟩ := h.unspooled (h.sends (by rw [hpc]; rfl))
  have hpos := h.filePos_le
  rw [hfile] at hpos
  exact { h with
    order := by
      have horder := h.order
      rw [hpc, hfile] at horder
      show s.received = s.dispatched ++ (s.queue ++ (([] : List (Msg α)).drop s.filePos ++ pc.pending))
      rw [hpending]
      exact horder
    sends := fun hsend => by simp [hsends] at hsend
    spools := fun _ => rfl
    unspooled := fun hno => by simp at hno
    switches := fun _ => hempty
    spooling := fun hspool => by
      cases pc <;> simp_all [State.spooling, LeaderPc.switches]
    filePos_le := hpos
    freed := fun hfreed => by
      have hpcs : pc = .freed := hfreed
      simp [hpcs, LeaderPc.switches] at hswitch }

theorem Ordered.setFileset (h : Ordered s) {pc : LeaderPc α} {f : FilesetState}
    (hpending : pc.pending = s.leader.pending) (hsends : pc.sends = false)
    (hswitches : pc.switches = false) (hser : s.serializeChanges = true)
    (hfreed : pc ≠ .freed) (hready : s.fileset ≠ .ready) (hdone : s.fileset ≠ .serializeDone)
    (hf : f = .serializeInProgress ∨ f = .serializeDone)
    (hspooling : ({ s with fileset := f, leader := pc } : State α).spooling = true → f = .serializeInProgress) :
    Ordered { s with fileset := f, leader := pc } :=
  { h with
    order := by
      show s.received = s.dispatched ++ (s.queue ++ (s.file.drop s.filePos ++ pc.pending))
      rw [hpending, h.order]
    sends := fun hsend => by simp [hsends] at hsend
    spools := fun _ => hser
    unspooled := fun hno => by simp [hser] at hno
    switches := fun hswitch => by simp [hswitches] at hswitch
    spooling := hspooling
    replays := fun hw => absurd (h.replays hw).2 hready
    reads := fun _ hr => by
      rcases hf with rfl | rfl <;> simp at hr
    awaits := fun _ => hf
    readies := fun hw => absurd (h.readies hw) hdone
    freed := fun hpc => absurd hpc hfreed }

theorem Ordered.stepLeader (h : Ordered s) {result : SendResult} (hs : s.stepLeader result = some t) : Ordered t := by
  have hsends := h.sends
  have hspools := h.spools
  have hswitches := h.switches
  have hprogress := h.spooling
  cases hpc : s.leader with
  | idle => simp [State.stepLeader, hpc] at hs
  | stopLock =>
    simp only [State.stepLeader, hpc, Option.ite_none_left_eq_some, Option.some.injEq] at hs
    obtain ⟨-, rfl⟩ := hs
    rw [hpc] at hsends
    have hm := h.move (.send .streamStop) (by rw [hpc]; rfl) hsends nofun nofun nofun nofun
    exact { hm with }
  | abortUnlock subxid =>
    simp only [State.stepLeader, hpc, Option.some.injEq] at hs
    subst hs
    rw [hpc] at hsends
    have hm := h.move (.abortIncr subxid) (by rw [hpc]; rfl) hsends nofun nofun nofun nofun
    exact { hm with }
  | abortIncr subxid =>
    simp only [State.stepLeader, hpc, Option.some.injEq] at hs
    subst hs
    rw [hpc] at hsends
    exact (h.move (.abortLock subxid) (by rw [hpc]; rfl) hsends nofun nofun nofun nofun).setCount _ _ _ _
  | abortLock subxid =>
    simp only [State.stepLeader, hpc, Option.ite_none_left_eq_some, Option.some.injEq] at hs
    obtain ⟨-, rfl⟩ := hs
    rw [hpc] at hsends
    have hm := h.move (.send (.streamAbort subxid)) (by rw [hpc]; rfl) hsends nofun nofun nofun nofun
    exact { hm with }
  | send m =>
    cases result with
    | sent =>
      simp only [State.stepLeader, hpc, Option.ite_none_right_eq_some, Option.some.injEq] at hs
      obtain ⟨-, rfl⟩ := hs
      exact h.sent hpc
    | timeout partlyWritten =>
      simp only [State.stepLeader, hpc, Option.some.injEq] at hs
      subst hs
      rw [hpc] at hsends
      have hm := h.move (.switchOpen m) (by rw [hpc]; rfl) hsends nofun nofun nofun nofun
      exact { hm with }
  | startUnlock =>
    simp only [State.stepLeader, hpc, Option.some.injEq] at hs
    subst hs
    rw [hpc] at hsends
    have hm := h.move .startIncr (by rw [hpc]; rfl) hsends nofun nofun nofun nofun
    exact { hm with }
  | startIncr =>
    simp only [State.stepLeader, hpc, Option.some.injEq] at hs
    subst hs
    rw [hpc] at hsends
    refine (h.move .idle (by rw [hpc]; rfl) nofun nofun nofun (fun hspool => ?_) nofun).setCount _ _ _ _
    simp [State.spooling, hsends rfl] at hspool
  | switchOpen m =>
    simp only [State.stepLeader, hpc, Option.some.injEq] at hs
    subst hs
    apply h.switched hpc <;> cases streamLocked m <;> rfl
  | switchLock m =>
    simp only [State.stepLeader, hpc, Option.ite_none_left_eq_some, Option.some.injEq] at hs
    obtain ⟨-, rfl⟩ := hs
    rw [hpc] at hspools hswitches
    have hm := h.move (.switchState m) (by rw [hpc]; rfl) nofun hspools hswitches nofun nofun
    exact { hm with }
  | switchState m =>
    simp only [State.stepLeader, hpc, Option.some.injEq] at hs
    subst hs
    rw [hpc] at hspools hswitches
    have hempty := hswitches rfl
    exact h.setFileset (by rw [hpc]; rfl) rfl rfl (hspools rfl) nofun (by simp [hempty])
      (by simp [hempty]) (.inl rfl) fun _ => rfl
  | write m =>
    simp only [State.stepLeader, hpc, Option.some.injEq] at hs
    subst hs
    exact h.written hpc
  | setDone =>
    simp only [State.stepLeader, hpc, Option.some.injEq] at hs
    subst hs
    rw [hpc] at hspools
    have hinProgress := hprogress (by simp [State.spooling, hpc])
    exact h.setFileset (by rw [hpc]; rfl) rfl rfl (hspools rfl) nofun (by simp [hinProgress])
      (by simp [hinProgress]) (.inr rfl) nofun
  | finishUnlock =>
    simp only [State.stepLeader, hpc, Option.some.injEq] at hs
    subst hs
    have hm := h.move .finishWait (by rw [hpc]; rfl) nofun nofun nofun nofun nofun
    exact { hm with }
  | finishWait =>
    simp only [State.stepLeader, hpc, Option.ite_none_right_eq_some, Option.some.injEq] at hs
    obtain ⟨hfin, rfl⟩ := hs
    exact h.move _ (by rw [hpc]; rfl) nofun nofun nofun nofun fun _ => hfin
  | freed => simp [State.stepLeader, hpc] at hs

theorem Ordered.dispatch (h : Ordered s) {m : Msg α} (src : Source) (queue : List (Msg α))
    {pos : Nat} (horder : s.received = s.dispatched ++ m :: (queue ++ (s.file.drop pos ++ s.leader.pending)))
    (hpos : pos ≤ s.file.length) (hfile : src = .file → queue = [] ∧ s.fileset = .ready) :
    Ordered ({ s with queue := queue, filePos := pos }.dispatch m src) := by
  have hworker : (afterDispatch m src).replays = src.isFile ∧
      (afterDispatch m src).awaits = false ∧ afterDispatch m src ≠ .readFileset ∧
      afterDispatch m src ≠ .setReady := by
    cases m <;> cases src <;> exact ⟨rfl, rfl, nofun, nofun⟩
  exact { h with
    order := by
      show s.received = s.dispatched ++ [m] ++ (queue ++ (s.file.drop pos ++ s.leader.pending))
      rw [horder, List.append_assoc, List.singleton_append]
    filePos_le := hpos
    replays := fun hw => by
      cases src with
      | queue => exact absurd (hworker.1.symm.trans hw) (by decide)
      | file => exact hfile rfl
    reads := fun hw => absurd hw hworker.2.2.1
    awaits := fun hw => absurd (hworker.2.1.symm.trans hw) (by decide)
    readies := fun hw => absurd hw hworker.2.2.2
    finished := fun hfin => by
      have hopen : s.xactState ≠ .finished := fun hx => by
        have hlen := congrArg List.length ((h.finished hx).1.trans horder)
        simp at hlen
      have hkind : ∃ k, m = .finish k := by
        cases m with
        | finish k => exact ⟨k, rfl⟩
        | streamStart b => cases b <;> simp_all [State.dispatch, xactAfter]
        | _ => exact absurd hfin hopen
      obtain ⟨k, rfl⟩ := hkind
      have hwf := h.wellFormed
      rw [horder] at hwf
      obtain ⟨hrest, hdone⟩ := phaseOf_finish hwf
      refine ⟨?_, hdone⟩
      show s.dispatched ++ [.finish k] = s.received
      rw [horder, hrest]
    freed := fun hpc => by
      have hlen := congrArg List.length ((h.finished (h.freed hpc)).1.trans horder)
      simp at hlen }

theorem Ordered.moveWorker (h : Ordered s) (pc : WorkerPc)
    (hreplays : pc.replays = true → s.queue = [] ∧ s.fileset = .ready)
    (hreads : pc = .readFileset → s.fileset = .ready → s.queue = [])
    (hawaits : pc.awaits = true → s.fileset = .serializeInProgress ∨ s.fileset = .serializeDone)
    (hreadies : pc = .setReady → s.fileset = .serializeDone) : Ordered { s with worker := pc } :=
  { h with replays := hreplays, reads := hreads, awaits := hawaits, readies := hreadies }

theorem Ordered.resume (h : Ordered s) {src : Source} (hsrc : src.isFile = true → s.queue = [] ∧ s.fileset = .ready) :
    Ordered { s with worker := src.resume } := by
  cases src with
  | queue => exact h.moveWorker _ nofun nofun nofun nofun
  | file => exact h.moveWorker _ (fun _ => hsrc rfl) nofun nofun nofun

theorem Ordered.setByWorker (h : Ordered s) {f : FilesetState} (hf : s.fileset = .serializeDone ∨ s.fileset = .ready) :
    Ordered { s with fileset := f, worker := .loop } :=
  { h with
    unspooled := fun hser => by
      have hempty := (h.unspooled hser).2
      rcases hf with hf | hf <;> simp [hf] at hempty
    switches := fun hsw => by
      have := h.switches hsw
      rcases hf with hf | hf <;> simp [hf] at this
    spooling := fun hsp => by
      have := h.spooling hsp
      rcases hf with hf | hf <;> simp [hf] at this
    replays := nofun
    reads := nofun
    awaits := nofun
    readies := nofun }

theorem Ordered.stepWorker (h : Ordered s) (hs : s.stepWorker = some t) : Ordered t := by
  have hreplays := h.replays
  have hawaits := h.awaits
  cases hpc : s.worker with
  | loop =>
    simp only [State.stepWorker, hpc] at hs
    split at hs <;> obtain rfl := Option.some.inj hs
    next m queue hq =>
      have horder := h.order
      rw [hq] at horder
      exact h.dispatch _ _ horder h.filePos_le nofun
    next hq => exact h.moveWorker _ nofun (fun _ _ => hq) nofun nofun
  | readFileset =>
    simp only [State.stepWorker, hpc] at hs
    split at hs <;> obtain rfl := Option.some.inj hs
    next => exact h.moveWorker _ nofun nofun nofun nofun
    next hf => exact h.moveWorker _ nofun nofun (fun _ => .inl hf) nofun
    next hf => exact h.moveWorker _ nofun nofun nofun fun _ => hf
    next hf => exact h.moveWorker _ (fun _ => ⟨h.reads hpc hf, hf⟩) nofun nofun nofun
  | spoolLock =>
    simp only [State.stepWorker, hpc, Option.ite_none_left_eq_some, Option.some.injEq] at hs
    obtain ⟨-, rfl⟩ := hs
    rw [hpc] at hawaits
    have hm := h.moveWorker .spoolUnlock nofun nofun hawaits nofun
    exact { hm with }
  | spoolUnlock =>
    simp only [State.stepWorker, hpc, Option.some.injEq] at hs
    subst hs
    rw [hpc] at hawaits
    have hm := h.moveWorker .spoolReread nofun nofun hawaits nofun
    exact { hm with }
  | spoolReread =>
    rw [hpc] at hawaits
    simp only [State.stepWorker, hpc] at hs
    split at hs <;> obtain rfl := Option.some.inj hs
    next hf => exact h.moveWorker _ nofun nofun nofun fun _ => hf
    next hf =>
      rcases hawaits rfl with hawait | hawait <;> simp [hf] at hawait
    next => exact h.moveWorker _ nofun nofun nofun nofun
  | setReady =>
    simp only [State.stepWorker, hpc, Option.some.injEq] at hs
    subst hs
    exact h.setByWorker (.inl (h.readies hpc))
  | replay =>
    rw [hpc] at hreplays
    obtain ⟨hq, hready⟩ := hreplays rfl
    simp only [State.stepWorker, hpc] at hs
    split at hs <;> obtain rfl := Option.some.inj hs
    next m hm =>
      obtain ⟨hlt, hget⟩ := List.getElem?_eq_some_iff.mp hm
      have horder := h.order
      rw [hq, List.drop_eq_getElem_cons hlt, hget] at horder
      have hd := h.dispatch .file [] horder hlt fun _ => ⟨rfl, hready⟩
      rw [← hq] at hd
      exact hd
    next => exact h.moveWorker _ (fun _ => ⟨hq, hready⟩) nofun nofun nofun
  | setEmpty =>
    simp only [State.stepWorker, hpc, Option.some.injEq] at hs
    subst hs
    rw [hpc] at hreplays
    obtain ⟨-, hready⟩ := hreplays rfl
    exact h.setByWorker (.inr hready)
  | readCount src =>
    simp only [State.stepWorker, hpc, Option.some.injEq] at hs
    subst hs
    rw [hpc] at hreplays
    split_ifs
    · exact h.moveWorker _ hreplays nofun nofun nofun
    · exact h.moveWorker _ hreplays nofun nofun nofun
  | checkSpooled src =>
    rw [hpc] at hreplays
    simp only [State.stepWorker, hpc] at hs
    split_ifs at hs <;> obtain rfl := Option.some.inj hs
    · exact (h.resume hreplays).setCount _ _ _ _
    · exact h.moveWorker _ nofun nofun nofun nofun
  | subCount src =>
    simp only [State.stepWorker, hpc, Option.some.injEq] at hs
    subst hs
    rw [hpc] at hreplays
    split_ifs
    · exact (h.moveWorker (.blockLock src) hreplays nofun nofun nofun).setCount _ _ _ _
    · exact (h.resume hreplays).setCount _ _ _ _
  | blockLock src =>
    simp only [State.stepWorker, hpc, Option.ite_none_left_eq_some, Option.some.injEq] at hs
    obtain ⟨-, rfl⟩ := hs
    rw [hpc] at hreplays
    have hm := h.moveWorker (.blockUnlock src) hreplays nofun nofun nofun
    exact { hm with }
  | blockUnlock src =>
    simp only [State.stepWorker, hpc, Option.some.injEq] at hs
    subst hs
    rw [hpc] at hreplays
    have hm := h.resume hreplays
    exact { hm with }
  | error => simp [State.stepWorker, hpc] at hs

theorem Ordered.reuse (h : Ordered s) (hs : s.reuse = some t) : Ordered t := by
  unfold State.reuse at hs
  split at hs
  next hfreed hser =>
    obtain rfl := Option.some.inj hs
    have hall := (h.finished (h.freed hfreed)).1
    obtain ⟨hfile, hempty⟩ := h.unspooled hser
    have hq : s.queue = [] := by
      have horder := h.order
      rw [hall, List.self_eq_append_right] at horder
      exact (List.append_eq_nil_iff.mp horder).1
    exact { h with
      order := by
        show [] = [] ++ (s.queue ++ (s.file.drop s.filePos ++ []))
        rw [hq, hfile]
        simp
      wellFormed := rfl
      sends := nofun
      spools := nofun
      switches := nofun
      spooling := fun hspool => by simp [State.spooling, hser] at hspool
      finished := nofun
      freed := nofun }
  next => simp at hs

theorem Ordered.step (h : Ordered s) {e : Event α} (hs : Step s e t) : Ordered t := by
  cases e with
  | receive m => exact h.receive hs
  | leader result => exact h.stepLeader hs
  | worker => exact h.stepWorker hs
  | reuse => exact h.reuse hs

theorem ordered_of_reachable (h : Reachable s) : Ordered s := by
  obtain ⟨es, hes⟩ := h
  exact hes.invariant (fun hs he => hs.step he) ordered_init

def changes (msgs : List (Msg α)) : List α :=
  msgs.filterMap fun
    | .change payload => some payload
    | _ => none

/-- In every interleaving the parallel worker has dispatched a prefix of what the
leader received, and all of it once it has handled the finishing message. -/
theorem dispatched_prefix_received (h : Reachable s) :
    changes s.dispatched <+: changes s.received ∧ s.dispatched <+: s.received ∧
      ∀ k, Msg.finish k ∈ s.dispatched → s.dispatched = s.received := by
  have hord := ordered_of_reachable h
  have hpre : s.dispatched <+: s.received := by
    rw [hord.order]
    exact List.prefix_append _ _
  refine ⟨hpre.filterMap _, hpre, fun k hk => ?_⟩
  obtain ⟨before, after, hsplit⟩ := List.append_of_mem hk
  obtain ⟨rest, hrest⟩ := hpre
  have hwf := hord.wellFormed
  rw [← hrest, hsplit, List.append_assoc, List.cons_append] at hwf
  have hnil : rest = [] := (List.append_eq_nil_iff.mp (phaseOf_finish hwf).1).2
  rw [← hrest, hnil, List.append_nil]

def timeoutRun : List (Event Nat) :=
  ([.receive (.streamStart true), .leader .sent, .leader .sent, .worker, .receive (.change 7),
    .leader .sent, .receive (.change 8), .leader (.timeout true)] : List (Event Nat)) ++
  List.replicate 4 (Event.leader .sent) ++
  ([.receive .streamStop, .leader .sent, .receive (.finish .streamCommit)] : List (Event Nat)) ++
  List.replicate 3 (Event.leader .sent) ++ List.replicate 13 Event.worker

theorem dispatched_prefix_timeoutRun :
    ∃ s, timeoutRun.foldlM State.step State.init = some s ∧ changes s.dispatched = [7, 8] ∧
      s.dispatched = s.received := by
  have hrun : (timeoutRun.foldlM State.step State.init).any (fun s =>
      decide (Msg.finish .streamCommit ∈ s.dispatched ∧ changes s.dispatched = [7, 8])) = true := by
    decide +kernel
  obtain ⟨s, hs, hdisp⟩ := (Option.any_eq_true _ _).mp hrun
  obtain ⟨hfin, hchanges⟩ := of_decide_eq_true hdisp
  have hmain := dispatched_prefix_received ⟨_, steps_of_foldlM hs⟩
  exact ⟨s, hs, hchanges, hmain.2.2 _ hfin⟩

end CdcKafka.Parallel
