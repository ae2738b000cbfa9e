import CdcKafka.TableSync.Progress

/-! `LogicalRepSyncTableStart` of `tablesync.c`: the calls that may end it, and the relation it opens,
closes and names to `kafka_close_copy`. -/

namespace CdcKafka.SyncState.Start

inductive Call
  | startTransactionCommand (site : Nat)
  | commitTransactionCommand (site : Nat)
  | getSubscriptionRelState
  | walrcvConnect
  | replicationSlotDropAtPubNode
  | reploriginByName
  | reploriginSessionSetup
  | reploriginSessionGetProgress
  | updateSubscriptionRelState (site : Nat)
  | pgstatReportStat
  | tableOpen
  /-- `BEGIN` or `COMMIT` on the publisher. -/
  | walrcvExec (site : Nat)
  | walrcvCreateSlot
  /-- "replication origin already exists" -/
  | originAlreadyExists
  | reploriginCreate
  | reploriginAdvance
  | switchToUntrustedUser
  | pgClassAclcheck
  | checkEnableRls
  | getTransactionSnapshot
  | copyTable
  | commandCounterIncrement
  | waitForWorkerStateChange
deriving DecidableEq

structure Env where
  /-- What `GetSubscriptionRelState` returns. -/
  relstate : RelState
  runAsOwner : Bool
  slotLsn : Nat
  originProgress : Nat
  raises : Call → Bool

inductive Releaser
  | tableClose
  | kafkaCloseCopy
deriving DecidableEq

/-- A relation that is passed to `table_close` or to `kafka_close_copy`, and whether it is open then. -/
structure Release where
  releaser : Releaser
  rel : Option Nat
  isOpen : Bool
deriving DecidableEq

structure StartState where
  /-- `relstate` and `relstate_lsn`, in shared memory. -/
  worker : RelState
  catalog : RelState
  originStartpos : Nat
  rel : Option Nat
  opened : Nat
  openRels : List Nat
  releases : List Release

inductive Exit
  /-- `finish_sync_worker` -/
  | finished
  | raised (call : Call)
deriving DecidableEq

abbrev StartM := EStateM Exit StartState

variable (env : Env)

def attempt (call : Call) : StartM Unit := fun s =>
  if env.raises call then .error (.raised call) s else .ok () s

def attempts : List Call → StartM Unit
  | [] => pure ()
  | call :: calls => do
    attempt env call
    attempts calls

def commit (site : Nat) : StartM Unit := do
  attempt env (.commitTransactionCommand site)
  modify fun s => { s with openRels := [] }

def StartState.relOpen (s : StartState) : Bool := s.rel.any (s.openRels.contains ·)

def tableOpen : StartM Unit := do
  attempt env .tableOpen
  modify fun s => { s with rel := some s.opened, opened := s.opened + 1, openRels := s.opened :: s.openRels }

def tableClose : StartM Unit := modify fun s =>
  { s with releases := s.releases ++ [⟨.tableClose, s.rel, s.relOpen⟩], openRels := s.openRels.filter (s.rel ≠ some ·) }

def kafkaCloseCopy : StartM Unit := modify fun s =>
  { s with releases := s.releases ++ [⟨.kafkaCloseCopy, s.rel, s.relOpen⟩] }

def fetchState : StartM Unit := do
  attempts env [.startTransactionCommand 0, .getSubscriptionRelState]
  commit env 0
  modify fun s => { s with worker := env.relstate, catalog := env.relstate }
  match env.relstate.state with
  | .syncdone | .ready | .unknown => throw .finished
  | _ => pure ()

def resumeFinishedCopy : StartM Unit := do
  attempts env [.startTransactionCommand 1, .reploriginByName, .reploriginSessionSetup, .reploriginSessionGetProgress]
  modify fun s => { s with originStartpos := env.originProgress }
  commit env 1

def setDatasync : StartM Unit := do
  modify fun s => { s with worker := ⟨.datasync, 0⟩ }
  attempts env [.startTransactionCommand 2, .updateSubscriptionRelState 0]
  modify fun s => { s with catalog := s.worker }
  commit env 2
  attempts env [.pgstatReportStat, .startTransactionCommand 3]

def setUpOrigin : StartM Unit := do
  attempts env [.walrcvExec 0, .walrcvCreateSlot]
  modify fun s => { s with originStartpos := env.slotLsn }
  attempts env [.reploriginByName, .originAlreadyExists, .reploriginCreate, .reploriginAdvance, .reploriginSessionSetup]

def switchUser : StartM Unit := if env.runAsOwner then pure () else attempt env .switchToUntrustedUser

def copyData : StartM Unit := do
  switchUser env
  attempts env [.pgClassAclcheck, .checkEnableRls, .getTransactionSnapshot, .copyTable, .walrcvExec 1]

def copyPhase : StartM Unit := do
  setDatasync env
  tableOpen env
  setUpOrigin env
  copyData env
  tableClose
  attempts env [.commandCounterIncrement, .updateSubscriptionRelState 1]
  modify fun s => { s with catalog := ⟨.finishedcopy, s.worker.lsn⟩ }
  commit env 3

/-- What is left to do, by the state that was found: after `DATASYNC` a slot may be left over. -/
def syncPhase : StartM Unit :=
  match env.relstate.state with
  | .finishedcopy => resumeFinishedCopy env
  | .datasync => do
    attempt env .replicationSlotDropAtPubNode
    copyPhase env
  | _ => copyPhase env

/-- All that comes before `kafka_close_copy`. The result of the wait is not looked at. -/
def untilCatchup : StartM Unit := do
  fetchState env
  attempt env .walrcvConnect
  syncPhase env
  modify fun s => { s with worker := ⟨.syncwait, s.originStartpos⟩ }
  attempt env .waitForWorkerStateChange

def logicalRepSyncTableStart : StartM Unit := do
  untilCatchup env
  kafkaCloseCopy

def StartState.init : StartState := ⟨⟨.unknown, 0⟩, ⟨.unknown, 0⟩, 0, none, 0, [], []⟩

def stateOf {α : Type} : EStateM.Result Exit StartState α → StartState
  | .ok _ s => s
  | .error _ s => s

def final : StartState := stateOf (logicalRepSyncTableStart env .init)

def ReleasesOpen (s : StartState) : Prop := ∀ release ∈ s.releases, release.isOpen = true

def Ends {α : Type} (P : StartState → Prop) (m : StartM α) (Q : StartState → Prop) : Prop :=
  ∀ s, P s → match m s with
    | .ok _ s' => Q s'
    | .error _ s' => ReleasesOpen s'

section Ends

variable {env} {α β : Type} {P Q R : StartState → Prop} {m : StartM α} {f : α → StartM β}

theorem Ends.bind (hm : Ends P m Q) (hf : ∀ a, Ends Q (f a) R) : Ends P (m >>= f) R := by
  intro s hs
  have hstep := hm s hs
  change match EStateM.bind m f s with
    | .ok _ s' => R s'
    | .error _ s' => ReleasesOpen s'
  unfold EStateM.bind
  cases hresult : m s with
  | ok a s' =>
    rw [hresult] at hstep
    exact hf a s' hstep
  | error exit s' =>
    rw [hresult] at hstep
    exact hstep

theorem ends_pure (a : α) : Ends P (pure a : StartM α) P := fun _ hs => hs

theorem ends_throw (hP : ∀ s, P s → ReleasesOpen s) (exit : Exit) : Ends P (throw exit : StartM α) Q :=
  fun s hs => hP s hs

theorem ends_modify {g : StartState → StartState} (h : ∀ s, P s → Q (g s)) : Ends P (modify g : StartM Unit) Q :=
  fun s hs => h s hs

theorem ends_attempt (hP : ∀ s, P s → ReleasesOpen s) (call : Call) : Ends P (attempt env call) P := by
  intro s hs
  unfold attempt
  split
  · next heq =>
    split at heq
    · cases heq
    · cases heq
      exact hs
  · next heq =>
    split at heq
    · cases heq
      exact hP s hs
    · cases heq

theorem ends_attempts (hP : ∀ s, P s → ReleasesOpen s) (calls : List Call) : Ends P (attempts env calls) P := by
  induction calls with
  | nil => exact ends_pure ()
  | cons call calls ih => exact (ends_attempt hP call).bind fun _ => ih

end Ends

def Unopened (s : StartState) : Prop := s.rel = none ∧ ReleasesOpen s

def Opened (s : StartState) : Prop := s.relOpen = true ∧ ReleasesOpen s

def NotOpen (s : StartState) : Prop := s.relOpen = false ∧ ReleasesOpen s

theorem ends_commit {site : Nat} {P : StartState → Prop} (hP : ∀ s, P s → ReleasesOpen s)
    (hclosed : ∀ s, P s → P { s with openRels := [] }) : Ends P (commit env site) P :=
  (ends_attempt hP _).bind fun _ => ends_modify hclosed

theorem ends_fetchState : Ends Unopened (fetchState env) Unopened := by
  have hopen : ∀ s, Unopened s → ReleasesOpen s := fun s hs => hs.2
  refine (ends_attempts hopen _).bind fun _ => (ends_commit env hopen fun s hs => hs).bind fun _ => ?_
  refine Ends.bind (Q := Unopened) (ends_modify fun s hs => hs) fun _ => ?_
  split
  · exact ends_throw hopen _
  · exact ends_throw hopen _
  · exact ends_throw hopen _
  · exact ends_pure ()

theorem ends_resumeFinishedCopy : Ends Unopened (resumeFinishedCopy env) Unopened := by
  have hopen : ∀ s, Unopened s → ReleasesOpen s := fun s hs => hs.2
  refine (ends_attempts hopen _).bind fun _ => ?_
  exact Ends.bind (Q := Unopened) (ends_modify fun s hs => hs) fun _ => ends_commit env hopen fun s hs => hs

theorem ends_setDatasync : Ends Unopened (setDatasync env) Unopened := by
  have hopen : ∀ s, Unopened s → ReleasesOpen s := fun s hs => hs.2
  refine Ends.bind (Q := Unopened) (ends_modify fun s hs => hs) fun _ => (ends_attempts hopen _).bind fun _ => ?_
  refine Ends.bind (Q := Unopened) (ends_modify fun s hs => hs) fun _ => ?_
  exact (ends_commit env hopen fun s hs => hs).bind fun _ => ends_attempts hopen _

theorem ends_tableOpen : Ends Unopened (tableOpen env) Opened := by
  refine (ends_attempt (fun s hs => hs.2) _).bind fun _ => ends_modify fun s hs => ⟨?_, hs.2⟩
  simp [StartState.relOpen]

theorem ends_setUpOrigin : Ends Opened (setUpOrigin env) Opened := by
  have hopen : ∀ s, Opened s → ReleasesOpen s := fun s hs => hs.2
  refine (ends_attempts hopen _).bind fun _ => ?_
  exact Ends.bind (Q := Opened) (ends_modify fun s hs => hs) fun _ => ends_attempts hopen _

theorem ends_copyData : Ends Opened (copyData env) Opened := by
  have hopen : ∀ s, Opened s → ReleasesOpen s := fun s hs => hs.2
  have hswitch : Ends Opened (switchUser env) Opened := by
    rw [switchUser]
    split
    · exact ends_pure ()
    · exact ends_attempt hopen _
  exact hswitch.bind fun _ => ends_attempts hopen _

theorem ends_tableClose : Ends Opened tableClose NotOpen := by
  refine ends_modify fun s hs => ⟨?_, ?_⟩
  · obtain ⟨hrel, -⟩ := hs
    rw [StartState.relOpen] at hrel ⊢
    dsimp only
    cases hvar : s.rel with
    | none => rfl
    | some rel => simp
  · intro release hrelease
    rcases List.mem_append.mp hrelease with hbefore | hlast
    · exact hs.2 release hbefore
    · rw [List.mem_singleton.mp hlast]
      exact hs.1

theorem ends_copyPhase : Ends Unopened (copyPhase env) NotOpen := by
  have hopen : ∀ s, NotOpen s → ReleasesOpen s := fun s hs => hs.2
  refine (ends_setDatasync env).bind fun _ => (ends_tableOpen env).bind fun _ => (ends_setUpOrigin env).bind fun _ => ?_
  refine (ends_copyData env).bind fun _ => ends_tableClose.bind fun _ => (ends_attempts hopen _).bind fun _ => ?_
  refine Ends.bind (Q := NotOpen) (ends_modify fun s hs => hs) fun _ => ends_commit env hopen fun s hs => ⟨?_, hs.2⟩
  cases hvar : s.rel <;> simp [StartState.relOpen]

theorem Unopened.notOpen {s : StartState} (h : Unopened s) : NotOpen s :=
  ⟨by rw [StartState.relOpen, h.1]; rfl, h.2⟩

theorem ends_syncPhase : Ends Unopened (syncPhase env) NotOpen := by
  rw [syncPhase]
  split
  · have hresume := ends_resumeFinishedCopy env
    intro s hs
    have hend := hresume s hs
    cases hresult : resumeFinishedCopy env s with
    | ok a s' =>
      rw [hresult] at hend
      exact Unopened.notOpen hend
    | error exit s' =>
      rw [hresult] at hend
      exact hend
  · exact (ends_attempt (fun s hs => hs.2) _).bind fun _ => ends_copyPhase env
  · exact ends_copyPhase env

theorem ends_untilCatchup : Ends Unopened (untilCatchup env) NotOpen := by
  have hopen : ∀ s, NotOpen s → ReleasesOpen s := fun s hs => hs.2
  refine (ends_fetchState env).bind fun _ => (ends_attempt (fun s hs => hs.2) _).bind fun _ => ?_
  refine (ends_syncPhase env).bind fun _ => ?_
  exact Ends.bind (Q := NotOpen) (ends_modify fun s hs => hs) fun _ => ends_attempt hopen _

def Comes {α : Type} (m : StartM α) (c : Prop) : Prop := ∀ s, (∃ a s', m s = .ok a s') ↔ c

def Quiet (calls : List Call) : Prop := ∀ call ∈ calls, env.raises call = false

section Comes

variable {α β : Type} {m : StartM α} {f : α → StartM β} {c d : Prop}

theorem Comes.bind (hm : Comes m c) (hf : ∀ a, Comes (f a) d) : Comes (m >>= f) (c ∧ d) := by
  intro s
  change (∃ b s', EStateM.bind m f s = .ok b s') ↔ c ∧ d
  rw [← hm s]
  unfold EStateM.bind
  cases hresult : m s with
  | ok a s' =>
    dsimp only
    rw [hf a s']
    exact ⟨fun h => ⟨⟨a, s', rfl⟩, h⟩, fun h => h.2⟩
  | error exit s' =>
    refine iff_of_false ?_ ?_
    · rintro ⟨b, t, h⟩
      cases h
    · rintro ⟨⟨a, t, h⟩, -⟩
      cases h

theorem comes_pure (a : α) : Comes (pure a : StartM α) True := fun s => iff_of_true ⟨a, s, rfl⟩ trivial

theorem comes_throw (exit : Exit) : Comes (throw exit : StartM α) False := by
  refine fun s => iff_of_false ?_ id
  rintro ⟨a, t, h⟩
  cases h

theorem comes_modify (g : StartState → StartState) : Comes (modify g : StartM Unit) True :=
  fun s => iff_of_true ⟨(), g s, rfl⟩ trivial

theorem comes_attempt (call : Call) : Comes (attempt env call) (env.raises call = false) := by
  intro s
  unfold attempt
  cases hraises : env.raises call with
  | false => exact iff_of_true ⟨(), s, rfl⟩ rfl
  | true =>
    refine iff_of_false ?_ (fun h => by cases h)
    rintro ⟨a, t, h⟩
    cases h

theorem comes_attempts (calls : List Call) : Comes (attempts env calls) (Quiet env calls) := by
  induction calls with
  | nil => exact fun s => iff_of_true ⟨(), s, rfl⟩ fun call hcall => absurd hcall List.not_mem_nil
  | cons call calls ih =>
    intro s
    rw [Quiet, List.forall_mem_cons]
    exact ((comes_attempt env call).bind fun _ => ih) s

theorem Comes.iff (hm : Comes m c) (h : c ↔ d) : Comes m d := fun s => (hm s).trans h

end Comes

def Env.Pending : Prop :=
  env.relstate.state ≠ .syncdone ∧ env.relstate.state ≠ .ready ∧ env.relstate.state ≠ .unknown

def Env.copyCalls : List Call :=
  ([.startTransactionCommand 2, .updateSubscriptionRelState 0, .commitTransactionCommand 2, .pgstatReportStat,
    .startTransactionCommand 3, .tableOpen, .walrcvExec 0, .walrcvCreateSlot, .reploriginByName, .originAlreadyExists,
    .reploriginCreate, .reploriginAdvance, .reploriginSessionSetup] : List Call) ++
  (if env.runAsOwner then [] else [.switchToUntrustedUser] : List Call) ++
  ([.pgClassAclcheck, .checkEnableRls, .getTransactionSnapshot, .copyTable, .walrcvExec 1, .commandCounterIncrement,
    .updateSubscriptionRelState 1, .commitTransactionCommand 3] : List Call)

def Env.phaseCalls : List Call :=
  match env.relstate.state with
  | .finishedcopy =>
    [.startTransactionCommand 1, .reploriginByName, .reploriginSessionSetup, .reploriginSessionGetProgress,
      .commitTransactionCommand 1]
  | .datasync => .replicationSlotDropAtPubNode :: env.copyCalls
  | _ => env.copyCalls

def Env.calls : List Call :=
  ([.startTransactionCommand 0, .getSubscriptionRelState, .commitTransactionCommand 0, .walrcvConnect] : List Call) ++
    env.phaseCalls ++ ([.waitForWorkerStateChange] : List Call)

theorem quiet_nil : Quiet env [] ↔ True := iff_of_true (fun _ hcall => absurd hcall List.not_mem_nil) trivial

theorem quiet_cons {call : Call} {calls : List Call} :
    Quiet env (call :: calls) ↔ env.raises call = false ∧ Quiet env calls := List.forall_mem_cons

theorem quiet_append {calls calls' : List Call} : Quiet env (calls ++ calls') ↔ Quiet env calls ∧ Quiet env calls' :=
  List.forall_mem_append

theorem comes_commit (site : Nat) : Comes (commit env site) (env.raises (.commitTransactionCommand site) = false) :=
  ((comes_attempt env _).bind fun _ => comes_modify _).iff (and_iff_left trivial)

theorem comes_fetchState : Comes (fetchState env)
      (Quiet env [.startTransactionCommand 0, .getSubscriptionRelState, .commitTransactionCommand 0] ∧ env.Pending) := by
  have hmatch : Comes (match env.relstate.state with
      | .syncdone | .ready | .unknown => throw .finished
      | _ => pure () : StartM Unit) env.Pending := by
    rw [Env.Pending]
    cases env.relstate.state with
    | syncdone => exact (comes_throw _).iff (by simp)
    | ready => exact (comes_throw _).iff (by simp)
    | unknown => exact (comes_throw _).iff (by simp)
    | init => exact (comes_pure ()).iff (by simp)
    | datasync => exact (comes_pure ()).iff (by simp)
    | finishedcopy => exact (comes_pure ()).iff (by simp)
    | syncwait => exact (comes_pure ()).iff (by simp)
    | catchup => exact (comes_pure ()).iff (by simp)
  refine ((comes_attempts env _).bind fun _ => (comes_commit env _).bind fun _ =>
    (comes_modify _).bind fun _ => hmatch).iff ?_
  simp only [quiet_cons, quiet_nil, and_true, true_and, and_assoc]

theorem comes_resumeFinishedCopy : Comes (resumeFinishedCopy env)
      (Quiet env [.startTransactionCommand 1, .reploriginByName, .reploriginSessionSetup, .reploriginSessionGetProgress,
        .commitTransactionCommand 1]) := by
  refine ((comes_attempts env _).bind fun _ => (comes_modify _).bind fun _ => comes_commit env _).iff ?_
  simp only [quiet_cons, quiet_nil, and_true, true_and, and_assoc]

theorem comes_switchUser :
    Comes (switchUser env) (Quiet env (if env.runAsOwner then [] else [.switchToUntrustedUser])) := by
  rw [switchUser]
  split
  · exact (comes_pure ()).iff (quiet_nil env).symm
  · exact (comes_attempt env _).iff (by rw [quiet_cons, quiet_nil, and_true])

theorem comes_copyPhase : Comes (copyPhase env) (Quiet env env.copyCalls) := by
  have hset : Comes (setDatasync env) _ := (comes_modify _).bind fun _ => (comes_attempts env _).bind fun _ =>
    (comes_modify _).bind fun _ => (comes_commit env _).bind fun _ => comes_attempts env _
  have hopen : Comes (tableOpen env) _ := (comes_attempt env _).bind fun _ => comes_modify _
  have horigin : Comes (setUpOrigin env) _ := (comes_attempts env _).bind fun _ =>
    (comes_modify _).bind fun _ => comes_attempts env _
  have hcopy : Comes (copyData env) _ := (comes_switchUser env).bind fun _ => comes_attempts env _
  refine (hset.bind fun _ => hopen.bind fun _ => horigin.bind fun _ => hcopy.bind fun _ => (comes_modify _).bind fun _ =>
    (comes_attempts env _).bind fun _ => (comes_modify _).bind fun _ => comes_commit env _).iff ?_
  rw [Env.copyCalls, quiet_append, quiet_append]
  simp only [quiet_cons, quiet_nil, and_true, true_and, and_assoc]

theorem comes_syncPhase : Comes (syncPhase env) (Quiet env env.phaseCalls) := by
  rw [syncPhase, Env.phaseCalls]
  split
  · exact comes_resumeFinishedCopy env
  · refine ((comes_attempt env _).bind fun _ => comes_copyPhase env).iff ?_
    exact (quiet_cons env).symm
  · exact comes_copyPhase env

theorem comes_untilCatchup : Comes (untilCatchup env) (env.Pending ∧ Quiet env env.calls) := by
  refine ((comes_fetchState env).bind fun _ => (comes_attempt env _).bind fun _ => (comes_syncPhase env).bind fun _ =>
    (comes_modify _).bind fun _ => comes_attempt env _).iff ?_
  rw [Env.calls, quiet_append, quiet_append]
  simp only [quiet_cons, quiet_nil, and_true, true_and]
  tauto

/-- The function reaches `kafka_close_copy`: the relation is not done and no call raises an error. -/
def Env.ReachesEnd : Prop := env.Pending ∧ Quiet env env.calls

/-- Every relation that is released is open, exactly when the function never reaches
`kafka_close_copy`. -/
theorem releases_open_iff : (∀ release ∈ (final env).releases, release.isOpen = true) ↔ ¬ env.ReachesEnd := by
  have hend := ends_untilCatchup env StartState.init ⟨rfl, fun release hrelease => absurd hrelease List.not_mem_nil⟩
  have hcomes := comes_untilCatchup env StartState.init
  have hfinal : final env = stateOf (EStateM.bind (untilCatchup env) (fun _ => kafkaCloseCopy) .init) := rfl
  rw [hfinal, EStateM.bind]
  cases hresult : untilCatchup env .init with
  | ok a s =>
    rw [hresult] at hend
    have hreaches : env.ReachesEnd := hcomes.mp ⟨a, s, hresult⟩
    refine iff_of_false (fun hall => ?_) (not_not_intro hreaches)
    have hlast := hall ⟨.kafkaCloseCopy, s.rel, s.relOpen⟩ (List.mem_append_right _ (List.mem_singleton.mpr rfl))
    exact Bool.false_ne_true (hend.1.symm.trans hlast)
  | error exit s =>
    rw [hresult] at hend
    refine iff_of_true hend fun hreaches => ?_
    obtain ⟨a, s', hok⟩ := hcomes.mpr hreaches
    rw [hresult] at hok
    cases hok

/-- A restart from FINISHEDCOPY in which nothing fails: the pointer is null. -/
theorem null_relation_released : ¬ ∀ env : Env, ∀ release ∈ (final env).releases, release.isOpen = true := by
  intro h
  have hreleases : (final ⟨⟨.finishedcopy, 0⟩, false, 0, 100, fun _ => false⟩).releases =
      [⟨.kafkaCloseCopy, none, false⟩] := rfl
  have hopen := h ⟨⟨.finishedcopy, 0⟩, false, 0, 100, fun _ => false⟩ ⟨.kafkaCloseCopy, none, false⟩
    (by rw [hreleases]; exact List.mem_singleton.mpr rfl)
  cases hopen

end CdcKafka.SyncState.Start
