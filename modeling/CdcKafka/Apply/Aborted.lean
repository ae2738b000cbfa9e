import CdcKafka.Apply.Sent

/-! Which row changes of rolled back transactions have reached Kafka: none, as long as no prepared
transaction is rolled back after its changes and no worker gets a STREAM ABORT for changes that it
has applied. -/

namespace CdcKafka.Apply
open CdcKafka.Lib CdcKafka.Event CdcKafka.Json CdcKafka.Proto

variable {s t : State} {cfg : Config} {env : Env} {depth : Nat} {msg body : Bytes} {x sub : Nat}
  {action : LogicalRepMsgType}

def paApplyChange (cfg : Config) (env : Env) (w : State) : Bytes → Result (Nat × State)
  | [] => .error (.proto .noDataLeft)
  | a :: body =>
    match getMsgInt 4 body with
    | .error e => .error (.proto e)
    | .ok (currentXid, rest) =>
      if currentXid = 0 then .error .invalidStreamXid
      else (applyDispatch cfg env 1 w (a :: rest)).map fun t => (currentXid, t)

def rowOrigin (x : Nat) : Bytes → Option Origin
  | [] => none
  | a :: body =>
    if (LogicalRepMsgType.ofByte a).any LogicalRepMsgType.isRow then
      (getMsgInt 4 body).toOption.map fun p => (x, p.1)
    else none

def isChangeMessage : Bytes → Bool
  | [] => false
  | a :: _ => (LogicalRepMsgType.ofByte a).any LogicalRepMsgType.isChange

theorem paApplyChange_ok {w : State} {m : Bytes} (h : paApplyChange cfg env w m = .ok (sub, t)) :
    ∃ a body rest, m = a :: body ∧ getMsgInt 4 body = .ok (sub, rest) ∧
      applyDispatch cfg env 1 w (a :: rest) = .ok t := by
  unfold paApplyChange at h
  split at h
  · cases h
  next a body =>
    split at h
    · cases h
    next currentXid rest hread =>
      split at h
      · cases h
      · cases hdisp : applyDispatch cfg env 1 w (a :: rest) with
        | error e =>
          rw [hdisp] at h
          cases h
        | ok u =>
          rw [hdisp] at h
          obtain ⟨rfl, rfl⟩ := Prod.mk.inj (Except.ok.inj h)
          exact ⟨a, body, rest, rfl, hread, hdisp⟩

theorem Idle.paApplyChange (h : Idle s) {m : Bytes} (hm : isChangeMessage m = true)
    (ht : paApplyChange cfg env s m = .ok (sub, t)) :
    Idle t ∧ (newDocs s t ≠ [] → rowOrigin x m = some (x, sub)) := by
  obtain ⟨a, body, rest, rfl, hread, hdisp⟩ := paApplyChange_ok ht
  obtain ⟨nested, a', rest', action, -, hcons, ha, hact⟩ := applyDispatch_ok hdisp
  obtain ⟨rfl, rfl⟩ := List.cons.inj hcons
  have hchange : LogicalRepMsgType.isChange action = true := by
    simpa [isChangeMessage, ha] using hm
  refine ⟨h.touches (h.touches_action hchange hact), fun hdocs => ?_⟩
  obtain ⟨docs, hsent, hnone, -⟩ := h.kafkaSent_action hchange hact
  have hrow : LogicalRepMsgType.isRow action = true := by
    by_contra hnot
    rw [newDocs_eq hsent] at hdocs
    exact hdocs (hnone (by simpa using hnot))
  simp [rowOrigin, ha, hrow, hread, Except.toOption]

structure Observed where
  boundary : Boundary
  ledger : Ledger
  /-- The transaction of the last BEGIN or BEGIN PREPARE. -/
  xid : Nat
  used : List Nat
  aborted : List Origin
  rolledBack : List Nat
  rows : List Origin
  events : List (Origin × CJson)
  /-- The changes that went to parallel apply workers. -/
  handed : List (Nat × Bytes)

def Observed.start : Observed where
  boundary := .start
  ledger := fun _ => none
  xid := 0
  used := []
  aborted := []
  rolledBack := []
  rows := []
  events := []
  handed := []

def Observed.Aborted (g : Observed) (o : Origin) : Prop :=
  o ∈ g.aborted ∨ (o.1, o.1) ∈ g.aborted ∨ o.1 ∈ g.rolledBack

instance (g : Observed) (o : Origin) : Decidable (g.Aborted o) :=
  inferInstanceAs (Decidable (_ ∨ _ ∨ _))

def Observed.use (g : Observed) (x : Nat) : Observed := { g with used := x :: g.used }

def Observed.begin (g : Observed) (x : Nat) : Observed := { g.use x with xid := x }

def Observed.abort (g : Observed) (x sub : Nat) : Observed :=
  { g with aborted := (x, sub) :: g.aborted }

def Observed.rollback (g : Observed) (x : Nat) : Observed :=
  { g.use x with rolledBack := x :: g.rolledBack }

def Observed.send (g : Observed) (events : List (Origin × CJson)) : Observed :=
  { g with events := g.events ++ events }

def Observed.row (g : Observed) (o : Origin) (action : LogicalRepMsgType) : Observed :=
  if LogicalRepMsgType.isRow action then { g with rows := o :: g.rows } else g

def Observed.hand (g : Observed) (x : Nat) (msg : Bytes) : Observed :=
  if (g.ledger x).any (·.worker) then { g with handed := g.handed ++ [(x, msg)] } else g

def Observed.change (g : Observed) (s t : State) (msg body : Bytes) (action : LogicalRepMsgType) :
    Observed :=
  match g.boundary.stream, getMsgInt 4 body with
  | none, _ =>
    (g.row (g.xid, g.xid) action).send ((newDocs s t).map fun doc => ((g.xid, g.xid), doc))
  | some x, .ok (sub, _) => (g.row (x, sub) action).hand x msg
  | some _, .error _ => g

def Observed.note (g : Observed) (cfg : Config) (env : Env) (nested : Nat) (s t : State)
    (msg body : Bytes) (action : LogicalRepMsgType) : Observed :=
  match action with
  | .begin => (readMsg readBegin body).toOption.elim g fun d => g.begin d.xid
  | .beginPrepare => (readMsg readBeginPrepare body).toOption.elim g fun d => g.begin d.xid
  | .streamStart =>
    (readMsg readStreamStart body).toOption.elim g fun p => if p.2 then g.use p.1 else g
  | .streamAbort =>
    (readMsg (readStreamAbort cfg.parallelApply) body).toOption.elim g fun d =>
      g.abort d.xid d.subxid
  | .rollbackPrepared =>
    (readMsg readRollbackPrepared body).toOption.elim g fun d => g.rollback d.xid
  | .streamCommit =>
    (readMsg readStreamCommit body).toOption.elim g fun p =>
      g.send ((g.ledger p.1).elim [] (leaderEvents cfg env nested s p.1 p.2.commitLsn))
  | .streamPrepare =>
    (readMsg readPrepareCommon body).toOption.elim g fun d =>
      g.send ((g.ledger d.xid).elim [] (leaderEvents cfg env nested s d.xid d.prepareLsn))
  | .insert | .update | .delete | .truncate =>
    if isSkippingChanges s then g else g.change s t msg body action
  | .relation | .type => g.change s t msg body action
  | _ => g

def Observed.move (g : Observed) (b : Boundary) (L : Ledger) : Observed :=
  { g with boundary := b, ledger := L }

def Observed.next (g : Observed) (cfg : Config) (env : Env) (depth : Nat) (s t : State) :
    Bytes → Observed
  | [] => g
  | a :: body =>
    ((LogicalRepMsgType.ofByte a).elim g
      (g.note cfg env (depth - 1) s t (a :: body) body)).move (g.boundary.next (a :: body))
        (g.ledger.next cfg s t g.boundary (a :: body))

/-- What the publisher never does: begin a transaction twice, go on with one that is not being
streamed, send a row change of a subtransaction it has aborted or of no transaction at all, roll
back a prepared transaction inside another one. -/
def Observed.acceptsAction (g : Observed) (cfg : Config) (body : Bytes) : LogicalRepMsgType → Bool
  | .begin => (readMsg readBegin body).toOption.all fun d => d.xid ∉ g.used
  | .beginPrepare => (readMsg readBeginPrepare body).toOption.all fun d => d.xid ∉ g.used
  | .streamStart => (readMsg readStreamStart body).toOption.all fun p =>
      if p.2 then p.1 ∉ g.used else (g.ledger p.1).isSome
  | .streamAbort => (readMsg (readStreamAbort cfg.parallelApply) body).toOption.all fun d =>
      (g.ledger d.xid).isSome
  | .streamCommit => (readMsg readStreamCommit body).toOption.all fun p => (g.ledger p.1).isSome
  | .streamPrepare => (readMsg readPrepareCommon body).toOption.all fun d =>
      (g.ledger d.xid).isSome
  | .rollbackPrepared => !g.boundary.txn &&
      (readMsg readRollbackPrepared body).toOption.all fun d => (g.ledger d.xid).isNone
  | .insert | .update | .delete =>
    match g.boundary.stream with
    | some x => (getMsgInt 4 body).toOption.all fun p => (x, p.1) ∉ g.aborted
    | none => g.boundary.txn
  | _ => true

def Observed.accepts (g : Observed) (cfg : Config) : Bytes → Bool
  | [] => true
  | a :: body => (LogicalRepMsgType.ofByte a).all (g.acceptsAction cfg body)

def Observed.undoneBy (g : Observed) (cfg : Config) (s : State) (body : Bytes) :
    LogicalRepMsgType → Bool
  | .streamAbort => (readMsg (readStreamAbort cfg.parallelApply) body).toOption.all fun d =>
      (s.parallelApplyTxnHash d.xid).isNone || g.rows.all fun o => o.1 ≠ d.xid || (o.2 ≠ d.subxid && d.xid ≠ d.subxid)
  | .rollbackPrepared => (readMsg readRollbackPrepared body).toOption.all fun d =>
      g.rows.all fun o => o.1 ≠ d.xid || o ∈ g.aborted
  | _ => true

def Observed.undone (g : Observed) (cfg : Config) (s : State) : Bytes → Bool
  | [] => true
  | a :: body => (LogicalRepMsgType.ofByte a).all (g.undoneBy cfg s body)

def observe (cfg : Config) (depth : Nat) (r : State × Observed) (m : Env × Message) :
    Result (State × Observed) := do
  let t ← applyDispatch cfg m.1 depth r.1 m.2.data
  pure (t, r.2.next cfg m.1 depth r.1 t m.2.data)

def Along (cfg : Config) (depth : Nat) (P : State → Observed → Bytes → Bool) :
    State × Observed → List (Env × Message) → Bool
  | _, [] => true
  | r, m :: msgs =>
    P r.1 r.2 m.2.data && match observe cfg depth r m with
      | .ok r' => Along cfg depth P r' msgs
      | .error _ => true

def Observed.Running (g : Observed) (x : Nat) : Prop :=
  x ∈ g.used ∧ x ∉ g.rolledBack ∧ (x, x) ∉ g.aborted

def Observed.Kept (g : Observed) (o : Origin) : Prop :=
  o ∈ g.rows ∧ o.1 ∈ g.used ∧ ¬ g.Aborted o

structure Recorded (g : Observed) : Prop where
  segment : ∀ x, g.boundary.stream = some x → (g.ledger x).isSome = true
  events : ∀ e ∈ g.events, g.Kept e.1 ∧ g.ledger e.1.1 = none
  handed : ∀ m ∈ g.handed, isChangeMessage m.2 = true ∧
    ∀ o, rowOrigin m.1 m.2 = some o → g.Kept o ∧ ∀ e, g.ledger o.1 = some e → e.worker = true
  running : ∀ x e, g.ledger x = some e → g.Running x
  spooled : ∀ x e, g.ledger x = some e → e.worker = false → ∀ p ∈ e.changes, isRowRecord p.2 = true → g.Kept (x, p.1)
  owner : g.boundary.txn = true → g.Running g.xid ∧ g.ledger g.xid = none
  abortedUsed : ∀ o ∈ g.aborted, o.1 ∈ g.used
  rolledBackUsed : ∀ x ∈ g.rolledBack, x ∈ g.used

variable {g g' : Observed} {b : Boundary} {L : Ledger}

theorem rowOrigin_fst {m : Bytes} {o : Origin} (h : rowOrigin x m = some o) : o.1 = x := by
  unfold rowOrigin at h
  split at h
  · cases h
  · split at h
    · obtain ⟨p, -, rfl⟩ := Option.map_eq_some_iff.mp h
      rfl
    · cases h

structure Grows (g g' : Observed) : Prop where
  used : g.used ⊆ g'.used
  rows : g.rows ⊆ g'.rows
  aborted : g'.aborted = g.aborted
  rolledBack : g'.rolledBack = g.rolledBack

theorem Observed.Kept.grow {o : Origin} (h : g.Kept o) (hg : Grows g g') : g'.Kept o := by
  obtain ⟨hrow, hused, hkept⟩ := h
  refine ⟨hg.rows hrow, hg.used hused, ?_⟩
  unfold Observed.Aborted at hkept ⊢
  rw [hg.aborted, hg.rolledBack]
  exact hkept

theorem Observed.Running.grow (h : g.Running x) (hg : Grows g g') : g'.Running x := by
  obtain ⟨hused, hrolled, haborted⟩ := h
  refine ⟨hg.used hused, ?_, ?_⟩
  · rw [hg.rolledBack]
    exact hrolled
  · rw [hg.aborted]
    exact haborted

theorem Observed.Running.kept (h : g.Running x) (hrow : (x, sub) ∈ g.rows)
    (hsub : (x, sub) ∉ g.aborted) : g.Kept (x, sub) := by
  obtain ⟨hused, hrolled, haborted⟩ := h
  refine ⟨hrow, hused, ?_⟩
  rintro (hmem | hmem | hmem)
  · exact hsub hmem
  · exact haborted hmem
  · exact hrolled hmem

theorem Recorded.grow (h : Recorded g) (hg : Grows g g') (hledger : g'.ledger = g.ledger)
    (hevents : ∀ e ∈ g'.events, e ∈ g.events ∨ g'.Kept e.1 ∧ g.ledger e.1.1 = none)
    (hhanded : g'.handed = g.handed)
    (hsegment : ∀ x, g'.boundary.stream = some x → (g.ledger x).isSome = true)
    (howner : g'.boundary.txn = true → g'.Running g'.xid ∧ g.ledger g'.xid = none) :
    Recorded g' where
  segment := by
    rw [hledger]
    exact hsegment
  events := by
    rw [hledger]
    intro e he
    rcases hevents e he with hold | hnew
    · obtain ⟨hkept, hnone⟩ := h.events e hold
      exact ⟨hkept.grow hg, hnone⟩
    · exact hnew
  handed := by
    rw [hhanded, hledger]
    intro m hm
    obtain ⟨hchange, hrow⟩ := h.handed m hm
    exact ⟨hchange, fun o ho => ⟨(hrow o ho).1.grow hg, (hrow o ho).2⟩⟩
  running := by
    rw [hledger]
    exact fun x e hx => (h.running x e hx).grow hg
  spooled := by
    rw [hledger]
    exact fun x e hx hw p hp hrow => (h.spooled x e hx hw p hp hrow).grow hg
  owner := by
    rw [hledger]
    exact howner
  abortedUsed := by
    rw [hg.aborted]
    exact fun o ho => hg.used (h.abortedUsed o ho)
  rolledBackUsed := by
    rw [hg.rolledBack]
    exact fun x hx => hg.used (h.rolledBackUsed x hx)

theorem Recorded.ledger_of_fresh (h : Recorded g) (hx : x ∉ g.used) : g.ledger x = none := by
  cases hL : g.ledger x with
  | none => rfl
  | some e => exact (hx (h.running x e hL).1).elim

theorem Recorded.close (h : Recorded g) (hstream : ∀ x, b.stream = some x → g.boundary.stream = some x)
    (htxn : b.txn = true → g.boundary.txn = true) : Recorded (g.move b g.ledger) :=
  h.grow ⟨fun _ hx => hx, fun _ ho => ho, rfl, rfl⟩ rfl (fun _ he => .inl he) rfl
    (fun x hx => h.segment x (hstream x hx)) (fun htrue => h.owner (htxn htrue))

theorem Recorded.begin (h : Recorded g) (hx : x ∉ g.used) (hstream : b.stream = g.boundary.stream) :
    Recorded ((g.begin x).move b g.ledger) := by
  refine h.grow ⟨List.subset_cons_self _ _, fun _ ho => ho, rfl, rfl⟩ rfl (fun _ he => .inl he) rfl
    (fun y hy => h.segment y (hstream.symm.trans hy)) fun _ => ⟨⟨?_, ?_, ?_⟩, h.ledger_of_fresh hx⟩
  · exact List.mem_cons_self
  · exact fun hmem => hx (h.rolledBackUsed x hmem)
  · exact fun hmem => hx (h.abortedUsed _ hmem)

theorem Observed.Kept.rollback {o : Origin} (h : g.Kept o) (hne : o.1 ≠ x) : (g.rollback x).Kept o := by
  obtain ⟨hrow, hused, hkept⟩ := h
  refine ⟨hrow, List.mem_cons_of_mem x hused, ?_⟩
  rintro (hmem | hmem | hmem)
  · exact hkept (.inl hmem)
  · exact hkept (.inr (.inl hmem))
  · rcases List.mem_cons.mp hmem with heq | hmem
    · exact hne heq
    · exact hkept (.inr (.inr hmem))

theorem Recorded.rollback (h : Recorded g) (htxn : b.txn = false)
    (hstream : b.stream = g.boundary.stream) (hnone : g.ledger x = none)
    (hrows : ∀ o ∈ g.rows, o.1 = x → o ∈ g.aborted) : Recorded ((g.rollback x).move b g.ledger) := by
  have hkept : ∀ o, g.Kept o → (g.rollback x).Kept o := by
    intro o ho
    refine ho.rollback fun heq => ?_
    exact ho.2.2 (.inl (hrows o ho.1 heq))
  have hne : ∀ y e, g.ledger y = some e → y ≠ x := by
    rintro y e hy rfl
    rw [hnone] at hy
    cases hy
  exact {
    segment := fun y hy => h.segment y (hstream.symm.trans hy)
    events := fun e he => ⟨hkept _ (h.events e he).1, (h.events e he).2⟩
    handed := fun m hm => ⟨(h.handed m hm).1, fun o ho =>
      ⟨hkept o ((h.handed m hm).2 o ho).1, ((h.handed m hm).2 o ho).2⟩⟩
    running := fun y e hy => by
      obtain ⟨hused, hrolled, haborted⟩ := h.running y e hy
      exact ⟨List.mem_cons_of_mem x hused, fun hmem => (List.mem_cons.mp hmem).elim (hne y e hy) hrolled, haborted⟩
    spooled := fun y e hy hw p hp hrow => hkept _ (h.spooled y e hy hw p hp hrow)
    owner := fun htrue => by
      have hfalse : true = false := htrue.symm.trans htxn
      cases hfalse
    abortedUsed := fun o ho => List.mem_cons_of_mem x (h.abortedUsed o ho)
    rolledBackUsed := fun y hy => by
      rcases List.mem_cons.mp hy with rfl | hy
      · exact List.mem_cons_self
      · exact List.mem_cons_of_mem x (h.rolledBackUsed y hy) }

theorem Ledger.finish_some {L : Ledger} {y : Nat} {e : SpoolEntry} (h : L.finish x y = some e) : L y = some e := by
  unfold Ledger.finish at h
  by_cases hy : y = x
  · subst hy
    rw [Function.update_self] at h
    cases h
  · rwa [Function.update_of_ne hy] at h

theorem Ledger.finish_none {L : Ledger} {y : Nat} (h : L y = none) : L.finish x y = none := by
  cases hL : L.finish x y with
  | none => rfl
  | some e =>
    rw [Ledger.finish_some hL] at h
    cases h

theorem Recorded.firstSegment (h : Recorded g) (hx : x ∉ g.used) (hstream : b.stream = some x)
    (htxn : b.txn = g.boundary.txn) {e : SpoolEntry} (he : e.changes = []) :
    Recorded ((g.use x).move b (Function.update g.ledger x (some e))) := by
  have hgrows : Grows g ((g.use x).move b (Function.update g.ledger x (some e))) :=
    ⟨List.subset_cons_self _ _, fun _ ho => ho, rfl, rfl⟩
  -- what was recorded is of other transactions
  have hother : ∀ y, y ∈ g.used → Function.update g.ledger x (some e) y = g.ledger y := by
    intro y hy
    refine Function.update_of_ne ?_ _ _
    rintro rfl
    exact hx hy
  exact {
    segment := by
      intro y hy
      obtain rfl := Option.some.inj (hstream.symm.trans hy)
      show (Function.update g.ledger x (some e) x).isSome = true
      rw [Function.update_self]
      rfl
    events := by
      intro ev hev
      obtain ⟨hkept, hnone⟩ := h.events ev hev
      exact ⟨hkept.grow hgrows, (hother _ hkept.2.1).trans hnone⟩
    handed := by
      intro m hm
      obtain ⟨hchange, hrow⟩ := h.handed m hm
      refine ⟨hchange, fun o ho => ⟨(hrow o ho).1.grow hgrows, fun e' he' => ?_⟩⟩
      exact (hrow o ho).2 e' ((hother _ (hrow o ho).1.2.1).symm.trans he')
    running := by
      intro y e' hy
      by_cases hyx : y = x
      · subst hyx
        exact ⟨List.mem_cons_self, fun hmem => hx (h.rolledBackUsed y hmem), fun hmem => hx (h.abortedUsed _ hmem)⟩
      · exact (h.running y e' ((Function.update_of_ne hyx _ _).symm.trans hy)).grow hgrows
    spooled := by
      intro y e' hy hw p hp hrow
      by_cases hyx : y = x
      · subst hyx
        have hself : e' = e := (Option.some.inj ((Function.update_self y _ _).symm.trans hy)).symm
        rw [hself, he] at hp
        cases hp
      · exact (h.spooled y e' ((Function.update_of_ne hyx _ _).symm.trans hy) hw p hp hrow).grow hgrows
    owner := by
      intro htrue
      obtain ⟨hrun, hnone⟩ := h.owner (htxn.symm.trans htrue)
      exact ⟨hrun.grow hgrows, (hother _ hrun.1).trans hnone⟩
    abortedUsed := fun o ho => List.mem_cons_of_mem x (h.abortedUsed o ho)
    rolledBackUsed := fun y hy => List.mem_cons_of_mem x (h.rolledBackUsed y hy) }

theorem Recorded.nextSegment (h : Recorded g) (hx : (g.ledger x).isSome = true)
    (hstream : b.stream = some x) (htxn : b.txn = g.boundary.txn) :
    Recorded (g.move b g.ledger) := by
  refine h.grow ⟨fun _ hx => hx, fun _ ho => ho, rfl, rfl⟩ rfl (fun _ he => .inl he) rfl ?_
    fun htrue => h.owner (htxn.symm.trans htrue)
  intro y hy
  obtain rfl := Option.some.inj (hstream.symm.trans hy)
  exact hx

theorem Recorded.finish (h : Recorded g) {evs : List (Origin × CJson)}
    (hevs : ∀ ev ∈ evs, ev.1.1 = x ∧ g.Kept ev.1) (hstream : b.stream = none)
    (htxn : b.txn = g.boundary.txn) : Recorded ((g.send evs).move b (g.ledger.finish x)) where
  segment := by
    intro y hy
    have hsome : none = some y := hstream.symm.trans hy
    cases hsome
  events := by
    intro ev hev
    rcases List.mem_append.mp hev with hold | hnew
    · obtain ⟨hkept, hnone⟩ := h.events ev hold
      exact ⟨hkept, Ledger.finish_none hnone⟩
    · obtain ⟨htop, hkept⟩ := hevs ev hnew
      refine ⟨hkept, ?_⟩
      show g.ledger.finish x ev.1.1 = none
      rw [htop]
      exact Function.update_self x _ _
  handed := by
    intro m hm
    obtain ⟨hchange, hrow⟩ := h.handed m hm
    exact ⟨hchange, fun o ho => ⟨(hrow o ho).1, fun e he => (hrow o ho).2 e (Ledger.finish_some he)⟩⟩
  running := fun y e hy => h.running y e (Ledger.finish_some hy)
  spooled := fun y e hy => h.spooled y e (Ledger.finish_some hy)
  owner := by
    intro htrue
    obtain ⟨hrun, hnone⟩ := h.owner (htxn.symm.trans htrue)
    exact ⟨hrun, Ledger.finish_none hnone⟩
  abortedUsed := h.abortedUsed
  rolledBackUsed := h.rolledBackUsed

theorem Observed.Kept.abort {o : Origin} (h : g.Kept o) (hne : o.1 = x → o.2 ≠ sub ∧ x ≠ sub) :
    (g.abort x sub).Kept o := by
  obtain ⟨hrow, hused, hkept⟩ := h
  refine ⟨hrow, hused, ?_⟩
  rintro (hmem | hmem | hmem)
  · rcases List.mem_cons.mp hmem with heq | hmem
    · exact (hne (congrArg Prod.fst heq)).1 (congrArg Prod.snd heq)
    · exact hkept (.inl hmem)
  · rcases List.mem_cons.mp hmem with heq | hmem
    · obtain ⟨htop, hsub⟩ := Prod.mk.inj heq
      exact (hne htop).2 (htop.symm.trans hsub)
    · exact hkept (.inr (.inl hmem))
  · exact hkept (.inr (.inr hmem))

theorem Observed.Running.abort {y : Nat} (h : g.Running y) (hne : y = x → x ≠ sub) : (g.abort x sub).Running y := by
  obtain ⟨hused, hrolled, haborted⟩ := h
  refine ⟨hused, hrolled, fun hmem => ?_⟩
  rcases List.mem_cons.mp hmem with heq | hmem
  · obtain ⟨htop, hsub⟩ := Prod.mk.inj heq
    exact hne htop (htop.symm.trans hsub)
  · exact haborted hmem

theorem Ledger.abort_some {L : Ledger} {e : SpoolEntry} (h : L.abort x sub x = some e) :
    x ≠ sub ∧ ∃ e₀, L x = some e₀ ∧ e.worker = e₀.worker ∧
      (e.worker = false → e.changes = beforeSub e₀.changes sub) := by
  unfold Ledger.abort at h
  split at h
  · unfold Ledger.finish at h
    rw [Function.update_self] at h
    cases h
  next hsub =>
    rw [Function.update_self] at h
    obtain ⟨e₀, he₀, rfl⟩ := Option.map_eq_some_iff.mp h
    refine ⟨hsub, e₀, he₀, ?_, ?_⟩
    · split <;> rfl
    · intro hw
      split at hw
      next htrue =>
        rw [htrue] at hw
        cases hw
      next hfalse =>
        rw [if_neg hfalse]
        rfl

theorem Recorded.abort (h : Recorded g) {e₀ : SpoolEntry} (hL : g.ledger x = some e₀)
    (hrows : e₀.worker = true → ∀ o ∈ g.rows, o.1 = x → o.2 ≠ sub ∧ x ≠ sub)
    (hstream : b.stream = none) (htxn : b.txn = g.boundary.txn) :
    Recorded ((g.abort x sub).move b (g.ledger.abort x sub)) := by
  have hother : ∀ y, y ≠ x → g.ledger.abort x sub y = g.ledger y :=
    fun y hy => g.ledger.abort_of_ne sub y hy
  have hne : ∀ y, g.ledger y = none → y ≠ x := by
    rintro y hy rfl
    rw [hL] at hy
    cases hy
  exact {
    segment := by
      intro y hy
      have hsome : none = some y := hstream.symm.trans hy
      cases hsome
    events := by
      intro ev hev
      obtain ⟨hkept, hnone⟩ := h.events ev hev
      have htop := hne _ hnone
      exact ⟨hkept.abort fun heq => (htop heq).elim, (hother _ htop).trans hnone⟩
    handed := by
      intro m hm
      obtain ⟨hchange, hrow⟩ := h.handed m hm
      refine ⟨hchange, fun o ho => ?_⟩
      obtain ⟨hkept, hworker⟩ := hrow o ho
      by_cases htop : o.1 = x
      · have hw : e₀.worker = true := hworker e₀ (by rw [htop]; exact hL)
        refine ⟨hkept.abort (hrows hw o hkept.1), fun e he => ?_⟩
        rw [htop] at he
        obtain ⟨-, e₁, he₁, hsame, -⟩ := Ledger.abort_some he
        obtain rfl := Option.some.inj (hL.symm.trans he₁)
        exact hsame.trans hw
      · exact ⟨hkept.abort fun heq => (htop heq).elim, fun e he => hworker e ((hother _ htop).symm.trans he)⟩
    running := by
      intro y e hy
      by_cases hyx : y = x
      · subst hyx
        obtain ⟨hsub, e₁, he₁, -, -⟩ := Ledger.abort_some hy
        exact (h.running y e₁ he₁).abort fun _ => hsub
      · exact (h.running y e ((hother y hyx).symm.trans hy)).abort fun heq => (hyx heq).elim
    spooled := by
      intro y e hy hw p hp hrow
      by_cases hyx : y = x
      · subst hyx
        obtain ⟨hsub, e₁, he₁, hsame, hcut⟩ := Ledger.abort_some hy
        rw [hcut hw] at hp
        have hmem : p ∈ e₁.changes := (isPrefix_beforeSub e₁.changes sub).subset hp
        have hkept := h.spooled y e₁ he₁ (hsame.symm.trans hw) p hmem hrow
        exact hkept.abort fun _ => ⟨ne_of_mem_beforeSub hp, hsub⟩
      · have hkept := h.spooled y e ((hother y hyx).symm.trans hy) hw p hp hrow
        exact hkept.abort fun heq => (hyx heq).elim
    owner := by
      intro htrue
      obtain ⟨hrun, hnone⟩ := h.owner (htxn.symm.trans htrue)
      have htop := hne _ hnone
      exact ⟨hrun.abort fun heq => (htop heq).elim, (hother _ htop).trans hnone⟩
    abortedUsed := by
      intro o ho
      rcases List.mem_cons.mp ho with rfl | ho
      · exact (h.running x e₀ hL).1
      · exact h.abortedUsed o ho
    rolledBackUsed := h.rolledBackUsed }

/-! ### Changes -/

theorem grows_row (g : Observed) (o : Origin) (action : LogicalRepMsgType) : Grows g (g.row o action) := by
  unfold Observed.row
  split
  · exact ⟨fun _ hx => hx, List.subset_cons_self _ _, rfl, rfl⟩
  · exact ⟨fun _ hx => hx, fun _ ho => ho, rfl, rfl⟩

structure RowOnly (g g' : Observed) : Prop where
  boundary : g'.boundary = g.boundary
  ledger : g'.ledger = g.ledger
  xid : g'.xid = g.xid
  events : g'.events = g.events
  handed : g'.handed = g.handed

theorem rowOnly_row (g : Observed) (o : Origin) (action : LogicalRepMsgType) : RowOnly g (g.row o action) := by
  unfold Observed.row
  split <;> exact ⟨rfl, rfl, rfl, rfl, rfl⟩

theorem mem_row {o : Origin} (hrow : LogicalRepMsgType.isRow action = true) : o ∈ (g.row o action).rows := by
  rw [Observed.row, if_pos hrow]
  exact List.mem_cons_self

theorem Recorded.row (h : Recorded g) (o : Origin) (action : LogicalRepMsgType) : Recorded (g.row o action) := by
  have hgrows := grows_row g o action
  have honly := rowOnly_row g o action
  refine h.grow hgrows honly.ledger ?_ honly.handed ?_ ?_
  · rw [honly.events]
    exact fun _ he => .inl he
  · rw [honly.boundary]
    exact h.segment
  · rw [honly.boundary, honly.xid]
    exact fun htxn => ⟨(h.owner htxn).1.grow hgrows, (h.owner htxn).2⟩

theorem Recorded.sent (h : Recorded g) (docs : List CJson) (action : LogicalRepMsgType)
    (hdocs : docs ≠ [] → LogicalRepMsgType.isRow action = true)
    (htxn : LogicalRepMsgType.isRow action = true → g.boundary.txn = true) :
    Recorded ((g.row (g.xid, g.xid) action).send (docs.map fun doc => ((g.xid, g.xid), doc))) := by
  have honly := rowOnly_row g (g.xid, g.xid) action
  have hrow := h.row (g.xid, g.xid) action
  refine hrow.grow ⟨fun _ hx => hx, fun _ ho => ho, rfl, rfl⟩ rfl ?_ rfl hrow.segment hrow.owner
  intro e he
  rcases List.mem_append.mp he with hold | hnew
  · exact .inl hold
  · obtain ⟨doc, hdoc, rfl⟩ := List.mem_map.mp hnew
    have haction := hdocs (List.ne_nil_of_mem hdoc)
    obtain ⟨hrun, hnone⟩ := h.owner (htxn haction)
    have hkept : (g.row (g.xid, g.xid) action).Kept (g.xid, g.xid) :=
      (hrun.grow (grows_row _ _ _)).kept (mem_row haction) (hrun.grow (grows_row _ _ _)).2.2
    exact .inr ⟨hkept, by rw [honly.ledger]; exact hnone⟩

theorem Ledger.write_some {L : Ledger} {p : Change} {y : Nat} {e : SpoolEntry} (h : L.write x p y = some e) :
    ∃ e₀, L y = some e₀ ∧ e.worker = e₀.worker ∧ (e.changes = e₀.changes ∨ y = x ∧ e.changes = e₀.changes ++ [p]) := by
  unfold Ledger.write at h
  by_cases hy : y = x
  · subst hy
    rw [Function.update_self] at h
    obtain ⟨e₀, he₀, rfl⟩ := Option.map_eq_some_iff.mp h
    exact ⟨e₀, he₀, rfl, .inr ⟨rfl, rfl⟩⟩
  · rw [Function.update_of_ne hy] at h
    exact ⟨e, h, rfl, .inl rfl⟩

theorem Ledger.write_none {L : Ledger} (p : Change) {y : Nat} (h : L y = none) : L.write x p y = none := by
  cases hL : L.write x p y with
  | none => rfl
  | some e =>
    obtain ⟨e₀, he₀, -⟩ := Ledger.write_some hL
    rw [h] at he₀
    cases he₀

theorem Ledger.write_isSome {L : Ledger} (p : Change) {y : Nat} (h : (L y).isSome = true) :
    (L.write x p y).isSome = true := by
  unfold Ledger.write
  by_cases hy : y = x
  · subst hy
    rw [Function.update_self, Option.isSome_map]
    exact h
  · rw [Function.update_of_ne hy]
    exact h

theorem Recorded.written (h : Recorded g) {p : Change} (b : Boundary)
    (hstream : b.stream = g.boundary.stream) (htxn : b.txn = g.boundary.txn)
    (hp : isRowRecord p.2 = true → g.Kept (x, p.1)) :
    Recorded (g.move b (g.ledger.write x p)) where
  segment := fun y hy => Ledger.write_isSome p (h.segment y (hstream.symm.trans hy))
  events := fun e he => ⟨(h.events e he).1, Ledger.write_none p (h.events e he).2⟩
  handed := by
    intro m hm
    obtain ⟨hchange, hrow⟩ := h.handed m hm
    refine ⟨hchange, fun o ho => ⟨(hrow o ho).1, fun e he => ?_⟩⟩
    obtain ⟨e₀, he₀, hsame, -⟩ := Ledger.write_some he
    exact hsame.trans ((hrow o ho).2 e₀ he₀)
  running := by
    intro y e hy
    obtain ⟨e₀, he₀, -⟩ := Ledger.write_some hy
    exact h.running y e₀ he₀
  spooled := by
    intro y e hy hw q hq hrow
    obtain ⟨e₀, he₀, hsame, hchanges⟩ := Ledger.write_some hy
    have hold := h.spooled y e₀ he₀ (hsame.symm.trans hw) q
    rcases hchanges with heq | ⟨rfl, heq⟩
    · rw [heq] at hq
      exact hold hq hrow
    · rw [heq] at hq
      rcases List.mem_append.mp hq with hq | hq
      · exact hold hq hrow
      · obtain rfl := List.mem_singleton.mp hq
        exact hp hrow
  owner := fun htrue => ⟨(h.owner (htxn.symm.trans htrue)).1, Ledger.write_none p (h.owner (htxn.symm.trans htrue)).2⟩
  abortedUsed := h.abortedUsed
  rolledBackUsed := h.rolledBackUsed

theorem Recorded.hand (h : Recorded g) (hchange : isChangeMessage msg = true)
    (hkept : ∀ o, rowOrigin x msg = some o → g.Kept o) : Recorded (g.hand x msg) := by
  unfold Observed.hand
  split
  next hworker =>
    refine { h with handed := ?_ }
    intro m hm
    rcases List.mem_append.mp hm with hm | hm
    · exact h.handed m hm
    · obtain rfl := List.mem_singleton.mp hm
      refine ⟨hchange, fun o ho => ⟨hkept o ho, fun e he => ?_⟩⟩
      have hfst : o.1 = x := rowOrigin_fst ho
      have htop : g.ledger x = some e := by
        rw [← hfst]
        exact he
      rw [htop] at hworker
      exact hworker
  next => exact h

theorem Observed.next_of_action (g : Observed) {a : UInt8} (nested : Nat)
    (ha : LogicalRepMsgType.ofByte a = some action) :
    g.next cfg env (nested + 1) s t (a :: body) =
      (g.note cfg env nested s t (a :: body) body action).move (g.boundary.after body action)
        (g.ledger.after cfg s t g.boundary body action) := by
  rw [Observed.next, ha, g.boundary.next_of_action ha, g.ledger.next_of_action ha]
  rfl

theorem Observed.move_eq_self (hb : g.boundary = b) (hL : g.ledger = L) : g.move b L = g := by
  subst hb hL
  rfl

theorem Observed.change_cases (g : Observed) (cfg : Config) (env : Env) (nested : Nat) (s t : State)
    (msg body : Bytes) (hchange : LogicalRepMsgType.isChange action = true) :
    (isSkippingChanges s = true ∧ g.note cfg env nested s t msg body action = g ∧
        g.ledger.after cfg s t g.boundary body action = g.ledger) ∨
      (g.note cfg env nested s t msg body action = g.change s t msg body action ∧
        g.ledger.after cfg s t g.boundary body action = g.ledger.change g.boundary body action) := by
  cases action with
  | insert | update | delete | truncate =>
    by_cases hskip : isSkippingChanges s = true
    · exact .inl ⟨hskip, by simp [Observed.note, hskip], by simp [Ledger.after, hskip]⟩
    · exact .inr ⟨by simp [Observed.note, hskip], by simp [Ledger.after, hskip]⟩
  | relation | type => exact .inr ⟨rfl, rfl⟩
  | _ => cases hchange

structure Clean (s : State) (g : Observed) : Prop where
  inv : Inv g.ledger s g.boundary
  segment : SegmentOpen s g.boundary
  sent : g.events.map (·.2) = s.kafkaSent
  recorded : Recorded g

theorem Clean.changeOutside (h : Clean s g) (hstream : g.boundary.stream = none)
    (hchange : LogicalRepMsgType.isChange action = true)
    (htxn : LogicalRepMsgType.isRow action = true → g.boundary.txn = true) {nested : Nat}
    {dispatch : State → Bytes → Result State}
    (ht : applyAction cfg env dispatch s msg body action = .ok t) :
    Recorded ((g.note cfg env nested s t msg body action).move g.boundary
        (g.ledger.after cfg s t g.boundary body action)) ∧
      (g.note cfg env nested s t msg body action).events.map (·.2) = t.kafkaSent := by
  obtain ⟨docs, hdocs, hrow, hskip⟩ := (h.inv.idle hstream).kafkaSent_action hchange ht
  rcases g.change_cases cfg env nested s t msg body hchange with
    ⟨hskipping, hnote, hledger⟩ | ⟨hnote, hledger⟩
  · rw [hnote, hledger, hdocs, hskip hskipping, List.append_nil]
    exact ⟨h.recorded, h.sent⟩
  · have hchanged : g.change s t msg body action = (g.row (g.xid, g.xid) action).send
        (docs.map fun doc => ((g.xid, g.xid), doc)) := by
      rw [← newDocs_eq hdocs]
      unfold Observed.change
      rw [hstream]
    have hsame : g.ledger.change g.boundary body action = g.ledger := by
      unfold Ledger.change
      rw [hstream]
    have honly := rowOnly_row g (g.xid, g.xid) action
    have hrecorded := h.recorded.sent docs action (fun hne => by
      by_contra hnot
      exact hne (hrow (by simpa using hnot))) htxn
    rw [hnote, hledger, hchanged, hsame]
    constructor
    · have hmove : ((g.row (g.xid, g.xid) action).send
          (docs.map fun doc => ((g.xid, g.xid), doc))).move g.boundary g.ledger =
          (g.row (g.xid, g.xid) action).send (docs.map fun doc => ((g.xid, g.xid), doc)) :=
        Observed.move_eq_self honly.boundary honly.ledger
      rw [hmove]
      exact hrecorded
    · have hevents : ((g.row (g.xid, g.xid) action).send (docs.map fun doc => ((g.xid, g.xid), doc))).events =
          g.events ++ docs.map fun doc => ((g.xid, g.xid), doc) := by
        rw [← honly.events]
        rfl
      have hback : (docs.map fun doc => ((g.xid, g.xid), doc)).map Prod.snd = docs := by
        rw [List.map_map]
        exact List.map_id docs
      rw [hevents, List.map_append, hback, h.sent, hdocs]

theorem Observed.hand_frame (g : Observed) (x : Nat) (msg : Bytes) :
    (g.hand x msg).boundary = g.boundary ∧ (g.hand x msg).ledger = g.ledger ∧
      (g.hand x msg).events = g.events ∧ Grows g (g.hand x msg) := by
  unfold Observed.hand
  split <;> exact ⟨rfl, rfl, rfl, fun _ hx => hx, fun _ ho => ho, rfl, rfl⟩

theorem Clean.changeInside (h : Clean s g) (hstream : g.boundary.stream = some x)
    {a : UInt8} (ha : LogicalRepMsgType.ofByte a = some action)
    (hchange : LogicalRepMsgType.isChange action = true)
    (hlive : LogicalRepMsgType.isRow action = true → ∀ sub rest, getMsgInt 4 body = .ok (sub, rest) →
      (x, sub) ∉ g.aborted) {nested : Nat} {dispatch : State → Bytes → Result State}
    (ht : applyAction cfg env dispatch s (a :: body) body action = .ok t) :
    Recorded ((g.note cfg env nested s t (a :: body) body action).move g.boundary
        (g.ledger.after cfg s t g.boundary body action)) ∧
      (g.note cfg env nested s t (a :: body) body action).events.map (·.2) = t.kafkaSent := by
  rw [kafkaSent_segmentChange h.inv hstream hchange ht]
  rcases g.change_cases cfg env nested s t (a :: body) body hchange with
    ⟨-, hnote, hledger⟩ | ⟨hnote, hledger⟩
  · rw [hnote, hledger]
    exact ⟨h.recorded, h.sent⟩
  · rw [hnote, hledger]
    unfold Observed.change Ledger.change
    rw [hstream]
    cases hread : getMsgInt 4 body with
    | error e => exact ⟨h.recorded, h.sent⟩
    | ok p =>
      obtain ⟨sub, rest⟩ := p
      dsimp only
      have honly := rowOnly_row g (x, sub) action
      have hgrows := grows_row g (x, sub) action
      obtain ⟨hboundary, hledger, hevents, hgrows'⟩ := (g.row (x, sub) action).hand_frame x (a :: body)
      obtain ⟨e, hL⟩ := Option.isSome_iff_exists.mp (h.recorded.segment x hstream)
      -- the row change is one of a transaction that is still running
      have hkept : LogicalRepMsgType.isRow action = true → (g.row (x, sub) action).Kept (x, sub) := by
        intro haction
        refine ((h.recorded.running x e hL).grow hgrows).kept (mem_row haction) ?_
        rw [hgrows.aborted]
        exact hlive haction sub rest hread
      have hhand : Recorded ((g.row (x, sub) action).hand x (a :: body)) := by
        refine (h.recorded.row (x, sub) action).hand ?_ ?_
        · simp [isChangeMessage, ha, hchange]
        · intro o ho
          by_cases haction : LogicalRepMsgType.isRow action = true
          · have horigin : o = (x, sub) := by
              simpa [rowOrigin, ha, haction, hread, Except.toOption, eq_comm] using ho
            rw [horigin]
            exact hkept haction
          · simp [rowOrigin, ha, haction] at ho
      have hwritten := hhand.written (x := x) (p := (sub, action.toByte :: rest)) g.boundary
        (by rw [hboundary, honly.boundary]) (by rw [hboundary, honly.boundary]) (fun hrow => by
          refine Observed.Kept.grow (hkept ?_) hgrows'
          simpa [isRowRecord] using hrow)
      rw [hledger, honly.ledger] at hwritten
      exact ⟨hwritten, by rw [hevents, honly.events]; exact h.sent⟩

theorem Recorded.leaderEvents (h : Recorded g) (hinv : Inv g.ledger s g.boundary)
    (hstream : g.boundary.stream = none) {e : SpoolEntry} (hL : g.ledger x = some e) {nested lsn : Nat} :
    ∀ ev ∈ leaderEvents cfg env nested s x lsn e, ev.1.1 = x ∧ g.Kept ev.1 := by
  intro ev hev
  unfold Apply.leaderEvents at hev
  split at hev
  · cases hev
  next hworker =>
    have hfalse : e.worker = false := by simpa using hworker
    have hidle : Idle (startReplay env s x lsn) := (hinv.idle hstream).startReplay x lsn
    obtain ⟨p, hp, horigin, hrow⟩ := hidle.mem_replayEvents (hinv.records hL hfalse) hev
    rw [horigin]
    exact ⟨rfl, h.spooled x e hL hfalse p hp hrow⟩

theorem Clean.start (h : Clean s g) {nested : Nat} (haccepts : g.acceptsAction cfg body .streamStart = true)
    (ht : applyHandleStreamStart env s msg body = .ok t) :
    Recorded ((g.note cfg env nested s t msg body .streamStart).move (g.boundary.after body .streamStart)
        (g.ledger.after cfg s t g.boundary body .streamStart)) ∧
      (g.note cfg env nested s t msg body .streamStart).events.map (·.2) = t.kafkaSent := by
  rw [kafkaSent_streamStart ht]
  obtain ⟨x, first, hread, -, -, -⟩ := h.inv.streamStart ht
  simp only [Observed.acceptsAction, Observed.note, Boundary.after, Ledger.after, hread,
    Except.toOption, Option.all_some, Option.elim_some, Option.map_some] at haccepts ⊢
  cases first with
  | true =>
    have hfresh : x ∉ g.used := by simpa using haccepts
    have hfirst := h.recorded.firstSegment hfresh (b := { g.boundary with stream := some x }) rfl rfl
      (e := { worker := (t.parallelApplyTxnHash x).isSome, changes := [] }) rfl
    exact ⟨hfirst, h.sent⟩
  | false => exact ⟨h.recorded.nextSegment (by simpa using haccepts) rfl rfl, h.sent⟩

theorem Inv.worker_of_entry (h : Inv L s b) {e : SpoolEntry} (hL : L x = some e)
    (hw : e.worker = true) : (s.parallelApplyTxnHash x).isNone = false := by
  have hsome := (h.spools x).handed e hL hw
  cases hhash : s.parallelApplyTxnHash x with
  | none => exact (hsome hhash).elim
  | some w => rfl

theorem Clean.abort (h : Clean s g) {nested : Nat} (haccepts : g.acceptsAction cfg body .streamAbort = true)
    (hundone : g.undoneBy cfg s body .streamAbort = true)
    (ht : applyHandleStreamAbort cfg env s msg body = .ok t) :
    Recorded ((g.note cfg env nested s t msg body .streamAbort).move (g.boundary.after body .streamAbort)
        (g.ledger.after cfg s t g.boundary body .streamAbort)) ∧
      (g.note cfg env nested s t msg body .streamAbort).events.map (·.2) = t.kafkaSent := by
  rw [kafkaSent_streamAbort ht]
  obtain ⟨d, hread, hstream, -⟩ := h.inv.streamAbort ht
  simp only [Observed.acceptsAction, Observed.undoneBy, Observed.note, Boundary.after, Ledger.after,
    hread, Except.toOption, Option.all_some, Option.elim_some] at haccepts hundone ⊢
  obtain ⟨e, hL⟩ := Option.isSome_iff_exists.mp haccepts
  refine ⟨h.recorded.abort hL ?_ hstream rfl, h.sent⟩
  intro hw o ho htop
  rw [h.inv.worker_of_entry hL hw, Bool.false_or] at hundone
  have hrow := List.all_eq_true.mp hundone o ho
  simpa [htop] using hrow

theorem Clean.rollbackPrepared (h : Clean s g) {nested : Nat}
    (haccepts : g.acceptsAction cfg body .rollbackPrepared = true)
    (hundone : g.undoneBy cfg s body .rollbackPrepared = true)
    (ht : applyHandleRollbackPrepared env s body = .ok t) :
    Recorded ((g.note cfg env nested s t msg body .rollbackPrepared).move (g.boundary.after body .rollbackPrepared)
      (g.ledger.after cfg s t g.boundary body .rollbackPrepared)) := by
  unfold applyHandleRollbackPrepared at ht
  rw [bind_eq_ok] at ht
  obtain ⟨d, hread, -⟩ := ht
  simp only [Observed.acceptsAction, Observed.undoneBy, Observed.note, Boundary.after, Ledger.after,
    hread, Except.toOption, Option.all_some, Option.elim_some, Bool.and_eq_true] at haccepts hundone ⊢
  obtain ⟨htxn, hnone⟩ := haccepts
  have hclosed : g.boundary.txn = false := by simpa using htxn
  refine h.recorded.rollback hclosed rfl (by simpa using hnone) ?_
  intro o ho htop
  have hrow := List.all_eq_true.mp hundone o ho
  simpa [htop] using hrow

theorem Clean.streamCommit (h : Clean s g) {nested : Nat} (haccepts : g.acceptsAction cfg body .streamCommit = true)
    (ht : applyHandleStreamCommit (applyDispatch cfg env nested) env s msg body = .ok t) :
    Recorded ((g.note cfg env nested s t msg body .streamCommit).move (g.boundary.after body .streamCommit)
        (g.ledger.after cfg s t g.boundary body .streamCommit)) ∧
      (g.note cfg env nested s t msg body .streamCommit).events.map (·.2) = t.kafkaSent := by
  obtain ⟨x, d, hread, hstream, -⟩ := h.inv.streamCommit ht
  simp only [Observed.acceptsAction, Observed.note, Boundary.after, Ledger.after, hread,
    Except.toOption, Option.all_some, Option.elim_some] at haccepts ⊢
  obtain ⟨e, hL⟩ := Option.isSome_iff_exists.mp haccepts
  rw [h.inv.kafkaSent_streamCommit hread hL ht, hL, Option.elim_some]
  refine ⟨h.recorded.finish (h.recorded.leaderEvents h.inv hstream hL) hstream rfl, ?_⟩
  show (g.events ++ _).map _ = _
  rw [List.map_append, h.sent]

theorem Clean.streamPrepare (h : Clean s g) {nested : Nat} (haccepts : g.acceptsAction cfg body .streamPrepare = true)
    (ht : applyHandleStreamPrepare (applyDispatch cfg env nested) env s msg body = .ok t) :
    Recorded ((g.note cfg env nested s t msg body .streamPrepare).move (g.boundary.after body .streamPrepare)
        (g.ledger.after cfg s t g.boundary body .streamPrepare)) ∧
      (g.note cfg env nested s t msg body .streamPrepare).events.map (·.2) = t.kafkaSent := by
  obtain ⟨d, hread, hstream, -⟩ := h.inv.streamPrepare ht
  simp only [Observed.acceptsAction, Observed.note, Boundary.after, Ledger.after, hread,
    Except.toOption, Option.all_some, Option.elim_some] at haccepts ⊢
  obtain ⟨e, hL⟩ := Option.isSome_iff_exists.mp haccepts
  rw [h.inv.kafkaSent_streamPrepare hread hL ht, hL, Option.elim_some]
  refine ⟨h.recorded.finish (h.recorded.leaderEvents h.inv hstream hL) hstream rfl, ?_⟩
  show (g.events ++ _).map _ = _
  rw [List.map_append, h.sent]

theorem kafkaSent_plain (hplain : LogicalRepMsgType.isPlain action = true) {dispatch : State → Bytes → Result State}
    (ht : applyAction cfg env dispatch s msg body action = .ok t) : t.kafkaSent = s.kafkaSent := by
  obtain ⟨remote, tx, lsn, skip, rfl⟩ := applyAction_plain hplain ht
  rfl

theorem Clean.dispatch (h : Clean s g) (hfits : msg.length < 2 ^ 30)
    (haccepts : g.accepts cfg msg = true) (hundone : g.undone cfg s msg = true)
    (ht : applyDispatch cfg env depth s msg = .ok t) :
    Clean t (g.next cfg env depth s t msg) := by
  obtain ⟨hinv, hseg⟩ := h.inv.dispatch h.segment hfits ht
  obtain ⟨nested, a, body, action, rfl, rfl, ha, ht⟩ := applyDispatch_ok ht
  rw [g.boundary.next_of_action ha] at hinv hseg
  rw [g.ledger.next_of_action ha] at hinv
  simp only [Observed.accepts, Observed.undone, ha, Option.all_some] at haccepts hundone
  rw [g.next_of_action nested ha]
  suffices hrest : Recorded ((g.note cfg env nested s t (a :: body) body action).move
        (g.boundary.after body action) (g.ledger.after cfg s t g.boundary body action)) ∧
      (g.note cfg env nested s t (a :: body) body action).events.map (·.2) = t.kafkaSent from
    ⟨hinv, hseg, hrest.2, hrest.1⟩
  cases action with
  | insert | update | delete =>
    cases hstream : g.boundary.stream with
    | none =>
      refine h.changeOutside hstream rfl (fun _ => ?_) ht
      simpa [Observed.acceptsAction, hstream] using haccepts
    | some x =>
      refine h.changeInside hstream ha rfl (fun _ sub rest hread => ?_) ht
      simpa [Observed.acceptsAction, hstream, hread, Except.toOption] using haccepts
  | truncate | relation | type =>
    cases hstream : g.boundary.stream with
    | none => exact h.changeOutside hstream rfl (fun hrow => by cases hrow) ht
    | some x => exact h.changeInside hstream ha rfl (fun hrow => by cases hrow) ht
  | begin =>
    rw [kafkaSent_plain rfl ht]
    simp only [applyAction, applyHandleBegin, bind_eq_ok] at ht
    obtain ⟨d, hread, -⟩ := ht
    simp only [Observed.acceptsAction, Observed.note, hread, Except.toOption, Option.all_some,
      Option.elim_some, decide_eq_true_eq] at haccepts ⊢
    exact ⟨h.recorded.begin haccepts rfl, h.sent⟩
  | beginPrepare =>
    rw [kafkaSent_plain rfl ht]
    simp only [applyAction, applyHandleBeginPrepare, bind_eq_ok] at ht
    obtain ⟨d, hread, -⟩ := ht
    simp only [Observed.acceptsAction, Observed.note, hread, Except.toOption, Option.all_some,
      Option.elim_some, decide_eq_true_eq] at haccepts ⊢
    exact ⟨h.recorded.begin haccepts rfl, h.sent⟩
  | commit | prepare =>
    rw [kafkaSent_plain rfl ht]
    exact ⟨h.recorded.close (fun _ hx => hx) (fun h => by cases h), h.sent⟩
  | commitPrepared =>
    rw [kafkaSent_plain rfl ht]
    exact ⟨h.recorded.close (fun _ hx => hx) id, h.sent⟩
  | rollbackPrepared =>
    rw [kafkaSent_plain rfl ht]
    refine ⟨h.rollbackPrepared haccepts hundone ht, ?_⟩
    simp only [applyAction, applyHandleRollbackPrepared, bind_eq_ok] at ht
    obtain ⟨d, hread, -⟩ := ht
    simp only [Observed.note, hread, Except.toOption, Option.elim_some]
    exact h.sent
  | origin =>
    have hsame : t = s := by
      simp only [applyAction, applyHandleOrigin] at ht
      split at ht
      · cases ht
      · cases ht
        rfl
    rw [hsame]
    exact ⟨h.recorded, h.sent⟩
  | message =>
    cases ht
    exact ⟨h.recorded, h.sent⟩
  | streamStart => exact h.start haccepts ht
  | streamStop =>
    rw [kafkaSent_streamStop ht]
    exact ⟨h.recorded.close (fun _ h => by cases h) id, h.sent⟩
  | streamAbort => exact h.abort haccepts hundone ht
  | streamCommit => exact h.streamCommit haccepts ht
  | streamPrepare => exact h.streamPrepare haccepts ht

theorem Clean.run {msgs : List (Env × Message)} {r r' : State × Observed} (h : Clean r.1 r.2)
    (haccepts : Along cfg depth (fun _ g m => g.accepts cfg m) r msgs = true)
    (hundone : Along cfg depth (fun s g m => g.undone cfg s m) r msgs = true)
    (hrun : msgs.foldlM (observe cfg depth) r = .ok r') : Clean r'.1 r'.2 := by
  induction msgs generalizing r with
  | nil =>
    obtain rfl := pure_eq_ok.mp hrun
    exact h
  | cons m msgs ih =>
    rw [List.foldlM_cons, bind_eq_ok] at hrun
    obtain ⟨r₁, hr₁, hrun⟩ := hrun
    rw [Along, hr₁, Bool.and_eq_true] at haccepts hundone
    have hnext : Clean r₁.1 r₁.2 := by
      simp only [observe, bind_eq_ok, pure_eq_ok] at hr₁
      obtain ⟨t, ht, rfl⟩ := hr₁
      exact h.dispatch m.2.fits haccepts.1 hundone.1 ht
    exact ih hnext haccepts.2 hundone.2 hrun

def sampleRel (xid : Nat) : Bytes :=
  writeRel xid 1 (CStr.lit ['p']) (CStr.lit ['t']) (byteOf 'd')
    [{ attname := CStr.lit ['a'], flags := 0, atttypid := 23, atttypmod := 0 }]

end CdcKafka.Apply
