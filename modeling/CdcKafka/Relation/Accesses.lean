import CdcKafka.Lib.LinearLookup
import CdcKafka.Relation.Map

/-! The arrays that the JSON encoders of the apply worker index, over runs of RELATION, INSERT,
UPDATE and DELETE messages: the names come from the relation map, the values from the tuples. -/

namespace CdcKafka.RelMap
open CdcKafka.Lib CdcKafka.Event CdcKafka.Proto

structure Access where
  index : Nat
  length : Nat
deriving DecidableEq

def Access.Inside (a : Access) : Prop := a.index < a.length

instance (a : Access) : Decidable a.Inside := inferInstanceAs (Decidable (_ < _))

def loopAccesses (lengths : List Nat) (ncols : Nat) : List Access :=
  (List.range ncols).flatMap fun i => lengths.map (Access.mk i)

/-- `colvalues` has the `ncols` elements that `logicalrep_read_tuple` allocates; `attnames` has as
many as the RELATION message had. -/
def rowAccesses : RowChange → List Access
  | .insert rel newtup => loopAccesses [rel.attnames.length, newtup.length] newtup.length
  | .update rel oldtup newtup =>
    loopAccesses [rel.attnames.length, newtup.length] newtup.length ++ match oldtup with
      | some oldtup => loopAccesses [oldtup.length] oldtup.length
      | none => []
  | .delete rel oldtup => loopAccesses [rel.attnames.length, oldtup.length] oldtup.length

theorem loopAccesses_inside {lengths : List Nat} {ncols : Nat} :
    (∀ a ∈ loopAccesses lengths ncols, a.Inside) ↔ ∀ length ∈ lengths, ncols ≤ length := by
  simp only [loopAccesses, List.mem_flatMap, List.mem_range, List.mem_map]
  constructor
  · intro h length hlength
    by_contra hlt
    have hlast : (Access.mk length length).Inside :=
      h _ ⟨length, by omega, length, hlength, rfl⟩
    exact absurd hlast (Nat.lt_irrefl length)
  · rintro h a ⟨i, hi, length, hlength, rfl⟩
    exact Nat.lt_of_lt_of_le hi (h length hlength)

theorem rowAccesses_inside (c : RowChange) : (∀ a ∈ rowAccesses c, a.Inside) ↔ c.Fits := by
  cases c with
  | insert rel newtup => simp [rowAccesses, loopAccesses_inside, RowChange.Fits]
  | update rel oldtup newtup =>
    simp only [rowAccesses, List.forall_mem_append, loopAccesses_inside, RowChange.Fits]
    cases oldtup with
    | none => simp
    | some oldtup => simp [loopAccesses_inside]
  | delete rel oldtup => simp [rowAccesses, loopAccesses_inside, RowChange.Fits]

inductive RowError
  | proto (err : ProtoError)
  | rel (err : RelError)
  | kafkaNotInitialized
deriving DecidableEq

structure RowState where
  map : MapState
  accesses : List Access

abbrev RowM := EStateM RowError RowState

def reading {α : Type} (r : MsgReader α) (s : Bytes) : RowM α := fun st =>
  match r s with
  | .ok (a, _) => .ok a st
  | .error err => .error (.proto err) st

def onMap {α : Type} (m : MapM α) : RowM α := fun st =>
  match m st.map with
  | .ok a map => .ok a { st with map }
  | .error err map => .error (.rel err) { st with map }

def checkKafkaInit (kafkaReady : Bool) : RowM Unit := fun st =>
  if kafkaReady then .ok () st else .error .kafkaNotInitialized st

def toJson (kafkaReady : Bool) (c : RowChange) : RowM Unit := do
  checkKafkaInit kafkaReady
  modify fun st => { st with accesses := st.accesses ++ rowAccesses c }

def handleRow (read : MsgReader (Nat × (RemoteRel → RowChange))) (loc : Local)
    (kafkaReady : Bool) (s : Bytes) : RowM Unit := do
  let (relid, change) ← reading read s
  let rel ← onMap (logicalrepRelOpen loc relid)
  toJson kafkaReady (change rel.remoterel.remoterel)
  onMap (logicalrepRelClose relid)

inductive RowKind
  | insert | update | delete

def RowKind.read : RowKind → MsgReader (Nat × (RemoteRel → RowChange))
  | .insert => do
    let (relid, newtup) ← readInsert
    pure (relid, fun rel => .insert rel newtup)
  | .update => do
    let (relid, oldtup, newtup) ← readUpdate
    pure (relid, fun rel => .update rel oldtup newtup)
  | .delete => do
    let (relid, oldtup) ← readDelete
    pure (relid, fun rel => .delete rel oldtup)

def applyHandleInsert : Local → Bool → Bytes → RowM Unit := handleRow RowKind.insert.read
def applyHandleUpdate : Local → Bool → Bytes → RowM Unit := handleRow RowKind.update.read
def applyHandleDelete : Local → Bool → Bytes → RowM Unit := handleRow RowKind.delete.read

def applyHandleRelation (s : Bytes) : RowM Unit := do
  let rel ← reading readRel s
  onMap (logicalrepRelmapUpdate rel)

inductive Input
  | relation (s : Bytes)
  | row (kind : RowKind) (s : Bytes) (loc : Local) (kafkaReady : Bool)
  | invalidate (reloid : Nat)

def Input.step : Input → RowM Unit
  | .relation s => applyHandleRelation s
  | .row .insert s loc kafkaReady => applyHandleInsert loc kafkaReady s
  | .row .update s loc kafkaReady => applyHandleUpdate loc kafkaReady s
  | .row .delete s loc kafkaReady => applyHandleDelete loc kafkaReady s
  | .invalidate reloid => onMap (RelMap.invalidate reloid)

def RowState.init : RowState := ⟨MapState.init, []⟩

def stateOf {ε σ α : Type} : EStateM.Result ε σ α → σ
  | .ok _ s => s
  | .error _ s => s

def rowRun (inputs : List Input) : RowState := stateOf ((inputs.forM Input.step).run .init)

theorem step_row (kind : RowKind) (s : Bytes) (loc : Local) (kafkaReady : Bool) :
    (Input.row kind s loc kafkaReady).step = handleRow kind.read loc kafkaReady s := by
  cases kind <;> rfl

def MapState.rels (s : MapState) : LinearHash LogicalRepRelation :=
  s.relMap.map LogicalRepRelMapEntry.remoterel

def MapState.rel? (s : MapState) (remoteid : Nat) : Option LogicalRepRelation :=
  s.rels.lookup LogicalRepRelation.remoteid remoteidHash remoteid

def KeepsRels {α : Type} (m : MapM α) : Prop := ∀ s, (stateOf (m s)).rels = s.rels

theorem KeepsRels.pure {α : Type} (a : α) : KeepsRels (Pure.pure a : MapM α) := fun _ => rfl

theorem KeepsRels.throw {α : Type} (err : RelError) : KeepsRels (throw err : MapM α) :=
  fun _ => rfl

theorem KeepsRels.bind {α β : Type} {m : MapM α} {f : α → MapM β} (hm : KeepsRels m)
    (hf : ∀ a, KeepsRels (f a)) : KeepsRels (m >>= f) := by
  intro s
  have hs := hm s
  change (stateOf (EStateM.bind m f s)).rels = s.rels
  unfold EStateM.bind
  cases hresult : m s with
  | ok a s' =>
    rw [hresult] at hs
    exact (hf a s').trans hs
  | error err s' =>
    rw [hresult] at hs
    exact hs

theorem KeepsRels.ite {α : Type} {p : Prop} [Decidable p] {m m' : MapM α} (hm : KeepsRels m)
    (hm' : KeepsRels m') : KeepsRels (if p then m else m') := by
  split
  · exact hm
  · exact hm'

theorem KeepsRels.when {α : Type} {p : Prop} [Decidable p] {m : MapM PUnit} {rest : MapM α}
    (hm : KeepsRels m) (hrest : KeepsRels rest) :
    KeepsRels (if p then m >>= fun _ => rest else rest) :=
  .ite (hm.bind fun _ => hrest) hrest

theorem keepsRels_modifyEntry (remoteid : Nat) {f : LogicalRepRelMapEntry → LogicalRepRelMapEntry}
    (hf : ∀ e, (f e).remoterel = e.remoterel) : KeepsRels (modifyEntry remoteid f) :=
  fun s => LinearHash.map_modify hf s.relMap _ _

theorem keepsRels_findEntry (remoteid : Nat) : KeepsRels (findEntry remoteid) := by
  refine KeepsRels.bind (fun _ => rfl) fun s => ?_
  split
  · exact .pure _
  · exact .throw _

theorem keepsRels_invalidate (reloid : Nat) : KeepsRels (RelMap.invalidate reloid) := by
  intro s
  change (logicalrepRelmapInvalidateCb s.relMap reloid).map LogicalRepRelMapEntry.remoterel = s.rels
  have hentry : ∀ e, (invalidateEntry e).remoterel = e.remoterel := fun _ => rfl
  unfold logicalrepRelmapInvalidateCb
  split
  · exact congrArg (LinearHash.mk s.relMap.hctl) (LinearHash.map_scanUpdateFirst hentry _ _)
  · refine congrArg (LinearHash.mk s.relMap.hctl) ?_
    rw [List.map_map]
    congr 1
    funext chain
    rw [Function.comp_apply, List.map_map]
    rfl

theorem keepsRels_acceptInvalidationMessages (pending : List Nat) : KeepsRels (acceptInvalidationMessages pending) := by
  induction pending with
  | nil => exact .pure _
  | cons reloid pending ih => exact (keepsRels_invalidate reloid).bind fun _ => ih

theorem keepsRels_openByOid (loc : Local) (remoteid : Nat) (entry : LogicalRepRelMapEntry) :
    KeepsRels (openByOid loc remoteid entry) := by
  unfold openByOid
  refine (keepsRels_acceptInvalidationMessages _).bind fun _ => ?_
  split
  · exact keepsRels_modifyEntry _ fun _ => rfl
  · exact keepsRels_modifyEntry _ fun _ => rfl

theorem keepsRels_report (remoterel : RemoteRel) (missing generated : List CStr) :
    KeepsRels (logicalrepReportMissingOrGenAttrs remoterel missing generated) := by
  unfold logicalrepReportMissingOrGenAttrs
  exact .when (.throw _) (.ite (.throw _) (.pure _))

theorem keepsRels_rebuild (loc : Local) (remoteid : Nat) (remoterel : LogicalRepRelation) :
    KeepsRels (rebuild loc remoteid remoterel) := by
  dsimp only [rebuild]
  refine .bind ?_ fun _ => ?_
  · exact keepsRels_modifyEntry _ fun _ => rfl
  refine (keepsRels_acceptInvalidationMessages _).bind fun _ => ?_
  refine .when (.throw _) ?_
  refine .bind ?_ fun _ => ?_
  · exact keepsRels_modifyEntry _ fun _ => rfl
  refine .when (.throw _) ?_
  refine .bind ?_ fun _ => ?_
  · exact keepsRels_modifyEntry _ fun _ => rfl
  refine (keepsRels_report _ _ _).bind fun _ => ?_
  refine (keepsRels_acceptInvalidationMessages _).bind fun _ => ?_
  split
  · exact .throw _
  · exact keepsRels_modifyEntry _ fun _ => rfl

theorem keepsRels_logicalrepRelClose (remoteid : Nat) :
    KeepsRels (logicalrepRelClose remoteid) := keepsRels_modifyEntry _ fun _ => rfl

structure ReturnsEntry (remoteid : Nat) (m : MapM LogicalRepRelMapEntry) : Prop where
  keeps : KeepsRels m
  entry : ∀ s entry s', m s = .ok entry s' → s'.rel? remoteid = some entry.remoterel

theorem ReturnsEntry.bind {α : Type} {remoteid : Nat} {m : MapM α}
    {f : α → MapM LogicalRepRelMapEntry} (hm : KeepsRels m)
    (hf : ∀ a, ReturnsEntry remoteid (f a)) : ReturnsEntry remoteid (m >>= f) := by
  refine ⟨hm.bind fun a => (hf a).keeps, ?_⟩
  intro s entry s' hs
  change EStateM.bind m f s = .ok entry s' at hs
  unfold EStateM.bind at hs
  cases hresult : m s with
  | ok a s'' =>
    rw [hresult] at hs
    exact (hf a).entry s'' entry s' hs
  | error err s'' =>
    rw [hresult] at hs
    cases hs

theorem ReturnsEntry.when {remoteid : Nat} {p : Prop} [Decidable p] {m : MapM PUnit}
    {rest : MapM LogicalRepRelMapEntry} (hm : KeepsRels m) (hrest : ReturnsEntry remoteid rest) :
    ReturnsEntry remoteid (if p then m >>= fun _ => rest else rest) := by
  split
  · exact .bind hm fun _ => hrest
  · exact hrest

theorem returnsEntry_findEntry (remoteid : Nat) : ReturnsEntry remoteid (findEntry remoteid) := by
  refine ⟨keepsRels_findEntry remoteid, ?_⟩
  intro s entry s' hs
  have hlookup : s.rel? remoteid = (s.relMap.find? (hasRemoteid remoteid) (remoteidHash remoteid)).map
        LogicalRepRelMapEntry.remoterel :=
    LinearHash.lookup_map LogicalRepRelation.remoteid remoteidHash s.relMap remoteid
  cases hfound : s.relMap.find? (hasRemoteid remoteid) (remoteidHash remoteid) with
  | some found =>
    simp only [findEntry, MonadState.get, getThe, MonadStateOf.get, bind, EStateM.bind] at hs
    delta EStateM.get at hs
    simp only [hfound] at hs
    cases hs
    rw [hlookup, hfound]
    rfl
  | none =>
    simp only [findEntry, MonadState.get, getThe, MonadStateOf.get, bind, EStateM.bind] at hs
    delta EStateM.get at hs
    simp only [hfound] at hs
    cases hs

theorem returnsEntry_logicalrepRelOpen (loc : Local) (remoteid : Nat) :
    ReturnsEntry remoteid (logicalrepRelOpen loc remoteid) := by
  dsimp only [logicalrepRelOpen]
  refine .bind (keepsRels_findEntry _) fun entry => ?_
  refine .when (.throw _) ?_
  refine .when (keepsRels_openByOid _ _ _) ?_
  refine .bind (keepsRels_findEntry _) fun entry => ?_
  refine .when (keepsRels_rebuild _ _ _) ?_
  refine .bind (keepsRels_findEntry _) fun entry => ?_
  exact .when (keepsRels_modifyEntry _ fun _ => rfl) (returnsEntry_findEntry _)

def Input.described : Input → Option LogicalRepRelation
  | .relation s =>
    match readRel s with
    | .ok (rel, _) => some rel
    | .error _ => none
  | _ => none

def lastRelation (inputs : List Input) (relid : Nat) : Option LogicalRepRelation :=
  (inputs.filterMap Input.described).reverse.find? fun rel => rel.remoteid = relid

theorem lastRelation_append (inputs : List Input) (input : Input) (relid : Nat) :
    lastRelation (inputs ++ [input]) relid = match input.described with
      | some rel => if rel.remoteid = relid then some rel else lastRelation inputs relid
      | none => lastRelation inputs relid := by
  unfold lastRelation
  rw [List.filterMap_append, List.reverse_append, List.find?_append, List.filterMap_cons, List.filterMap_nil]
  cases hrel : input.described with
  | none => rfl
  | some rel =>
    by_cases hid : rel.remoteid = relid
    · simp [hid]
    · simp [hid]

structure Describes (inputs : List Input) (st : RowState) : Prop where
  sized : st.map.rels.Sized
  rel : ∀ relid, st.map.rel? relid = lastRelation inputs relid

theorem Describes.init : Describes [] .init := by
  refine ⟨LinearHash.sized_map.mpr (LinearHash.Sized.create 7), fun relid => ?_⟩
  have hmap := LinearHash.lookup_map (g := LogicalRepRelMapEntry.remoterel)
    LogicalRepRelation.remoteid remoteidHash (LinearHash.create 128) relid
  rw [LinearHash.lookup_create] at hmap
  exact hmap

theorem Describes.of_rels_eq {inputs : List Input} {input : Input} {st st' : RowState}
    (h : Describes inputs st) (hrels : st'.map.rels = st.map.rels)
    (hinput : input.described = none) : Describes (inputs ++ [input]) st' := by
  refine ⟨by rw [hrels]; exact h.sized, fun relid => ?_⟩
  rw [lastRelation_append, hinput, ← h.rel relid, MapState.rel?, MapState.rel?, hrels]

theorem Describes.relation {inputs : List Input} {input : Input} {st st' : RowState}
    {rel : LogicalRepRelation} (h : Describes inputs st) (hinput : input.described = some rel)
    (hst : onMap (logicalrepRelmapUpdate rel) st = .ok () st') :
    Describes (inputs ++ [input]) st' := by
  cases hst
  have hhash : ∀ relMap : Map, relMap.enter entryHash (hasRemoteid rel.remoteid) (remoteidHash rel.remoteid)
        (freshEntry rel) =
      relMap.enter (fun e => remoteidHash e.remoterel.remoteid)
        (fun e => e.remoterel.remoteid = (freshEntry rel).remoterel.remoteid)
        (remoteidHash (freshEntry rel).remoterel.remoteid) (freshEntry rel) := fun _ => rfl
  have hsized : st.map.relMap.Sized := LinearHash.sized_map.mp h.sized
  refine ⟨LinearHash.sized_map.mpr ?_, fun relid => ?_⟩
  · exact hsized.enter (fun e : LogicalRepRelMapEntry => e.remoterel.remoteid) remoteidHash (freshEntry rel)
  · have hold := h.rel relid
    unfold MapState.rel? MapState.rels at hold ⊢
    rw [LinearHash.lookup_map] at hold ⊢
    simp only [hhash]
    rw [LinearHash.lookup_enter (fun e : LogicalRepRelMapEntry => e.remoterel.remoteid)
      remoteidHash hsized, lastRelation_append, hinput]
    by_cases hid : rel.remoteid = relid
    · simp [freshEntry, hid]
    · simpa [freshEntry, hid] using hold

def encoded (read : MsgReader (Nat × (RemoteRel → RowChange))) (loc : Local) (kafkaReady : Bool)
    (s : Bytes) (st : RowState) : Option RowChange :=
  match read s with
  | .error _ => none
  | .ok ((relid, change), _) =>
    match logicalrepRelOpen loc relid st.map with
    | .error _ _ => none
    | .ok rel _ => if kafkaReady then some (change rel.remoterel.remoterel) else none

theorem handleRow_state (read : MsgReader (Nat × (RemoteRel → RowChange))) (loc : Local)
    (kafkaReady : Bool) (s : Bytes) (st : RowState) :
    (stateOf (handleRow read loc kafkaReady s st)).map.rels = st.map.rels ∧
      (stateOf (handleRow read loc kafkaReady s st)).accesses =
        st.accesses ++ (encoded read loc kafkaReady s st).elim [] rowAccesses := by
  simp only [handleRow, encoded, reading, bind, EStateM.bind]
  cases hread : read s with
  | error err => simp [stateOf]
  | ok result =>
    obtain ⟨⟨relid, change⟩, rest⟩ := result
    have hopen := (returnsEntry_logicalrepRelOpen loc relid).keeps st.map
    simp only [onMap]
    cases hresult : logicalrepRelOpen loc relid st.map with
    | error err map =>
      rw [hresult] at hopen
      simpa [stateOf] using hopen
    | ok rel map =>
      rw [hresult] at hopen
      cases kafkaReady with
      | false => simpa [stateOf, toJson, checkKafkaInit, bind, EStateM.bind] using hopen
      | true =>
        have hclose := keepsRels_logicalrepRelClose relid map
        exact ⟨hclose.trans hopen, rfl⟩

def Input.Fits (inputs : List Input) (st : RowState) : Input → Prop
  | .row kind s loc kafkaReady =>
    ∀ relid change rest entry map rel, kind.read s = .ok ((relid, change), rest) →
      logicalrepRelOpen loc relid st.map = .ok entry map → kafkaReady = true →
      lastRelation inputs relid = some rel → (change rel.remoterel).Fits
  | _ => True

theorem fits_row_iff {inputs : List Input} {st : RowState} (h : Describes inputs st)
    (kind : RowKind) (s : Bytes) (loc : Local) (kafkaReady : Bool) :
    (Input.row kind s loc kafkaReady).Fits inputs st ↔
      ∀ c, encoded kind.read loc kafkaReady s st = some c → c.Fits := by
  -- the entry that is opened is the one of the last RELATION message
  have hentry : ∀ {relid entry map}, logicalrepRelOpen loc relid st.map = .ok entry map →
      lastRelation inputs relid = some entry.remoterel := by
    intro relid entry map hopen
    obtain ⟨hkeeps, hreturns⟩ := returnsEntry_logicalrepRelOpen loc relid
    have hrels := hkeeps st.map
    rw [hopen] at hrels
    have hrel := hreturns _ _ _ hopen
    rw [← h.rel relid, ← hrel, MapState.rel?, MapState.rel?]
    exact congrArg (fun rels : LinearHash LogicalRepRelation =>
      rels.lookup LogicalRepRelation.remoteid remoteidHash relid) hrels.symm
  unfold encoded
  constructor
  · intro hfits c hc
    split at hc
    · cases hc
    · next relid change rest hread =>
      split at hc
      · cases hc
      · next entry map hopen =>
        cases kafkaReady with
        | false => cases hc
        | true =>
          cases hc
          exact hfits relid change rest entry map _ hread hopen rfl (hentry hopen)
  · intro hfits relid change rest entry map rel hread hopen hready hlast
    have hsame : entry.remoterel = rel := Option.some.inj ((hentry hopen).symm.trans hlast)
    apply hfits
    rw [hread]
    simp only [hopen, hready, if_true, hsame]

theorem step_accesses {inputs : List Input} {st : RowState} (h : Describes inputs st) (input : Input) :
    (∀ a ∈ (stateOf (input.step st)).accesses, a.Inside) ↔ (∀ a ∈ st.accesses, a.Inside) ∧ input.Fits inputs st := by
  cases input with
  | relation s =>
    have hsame : (stateOf ((Input.relation s).step st)).accesses = st.accesses := by
      simp only [Input.step, applyHandleRelation, reading, bind, EStateM.bind]
      cases readRel s <;> rfl
    rw [hsame]
    simp [Input.Fits]
  | invalidate reloid =>
    have hsame : (stateOf ((Input.invalidate reloid).step st)).accesses = st.accesses := rfl
    rw [hsame]
    simp [Input.Fits]
  | row kind s loc kafkaReady =>
    rw [step_row, (handleRow_state kind.read loc kafkaReady s st).2, List.forall_mem_append, fits_row_iff h]
    cases hc : encoded kind.read loc kafkaReady s st with
    | none => simp
    | some c => simp [rowAccesses_inside]

theorem Describes.step {inputs : List Input} {st st' : RowState} (h : Describes inputs st)
    (input : Input) (hstep : input.step st = .ok () st') :
    Describes (inputs ++ [input]) st' := by
  cases input with
  | relation s =>
    simp only [Input.step, applyHandleRelation, reading, bind, EStateM.bind] at hstep
    cases hread : readRel s with
    | error err =>
      rw [hread] at hstep
      cases hstep
    | ok result =>
      rw [hread] at hstep
      exact h.relation (by simp only [Input.described, hread]) hstep
  | invalidate reloid =>
    have hrels : st'.map.rels = st.map.rels := by
      cases hstep
      exact keepsRels_invalidate reloid st.map
    exact h.of_rels_eq hrels rfl
  | row kind s loc kafkaReady =>
    rw [step_row] at hstep
    have hrels := (handleRow_state kind.read loc kafkaReady s st).1
    rw [hstep] at hrels
    exact h.of_rels_eq hrels rfl

def EachFits (inputs : List Input) (st : RowState) : List Input → Prop
  | [] => True
  | input :: rest =>
    input.Fits inputs st ∧ ∀ st', input.step st = .ok () st' → EachFits (inputs ++ [input]) st' rest

theorem forM_accesses {inputs : List Input} {st : RowState} (h : Describes inputs st) (rest : List Input) :
    (∀ a ∈ (stateOf ((rest.forM Input.step).run st)).accesses, a.Inside) ↔
      (∀ a ∈ st.accesses, a.Inside) ∧ EachFits inputs st rest := by
  induction rest generalizing inputs st with
  | nil =>
    rw [EachFits, and_true]
    rfl
  | cons input rest ih =>
    have hstep := step_accesses h input
    rw [EachFits]
    simp only [List.forM, EStateM.run, bind, EStateM.bind]
    cases hresult : input.step st with
    | error err st' =>
      rw [hresult] at hstep
      simpa using hstep
    | ok u st' =>
      rw [hresult] at hstep
      have hrest := ih (h.step input hresult)
      change (∀ a ∈ st'.accesses, a.Inside) ↔ _ at hstep
      rw [hstep, and_assoc] at hrest
      simp only [EStateM.Result.ok.injEq, true_and, forall_eq']
      exact hrest

/-- Every index of a run is inside its array exactly if every tuple that is encoded has no more
columns than the last RELATION message for its relation. -/
theorem rowRun_inside_iff (inputs : List Input) :
    (∀ a ∈ (rowRun inputs).accesses, a.Inside) ↔ EachFits [] .init inputs := by
  have hrun := forM_accesses Describes.init inputs
  have hnone : ∀ a ∈ RowState.init.accesses, a.Inside := fun a ha => by cases ha
  exact hrun.trans (and_iff_right hnone)

def sampleRelMessage : Bytes :=
  [0, 0, 64, 0] ++ ascii ['s'] ++ [0] ++ ascii ['t'] ++ [0] ++ ascii ['d'] ++ [0, 1] ++
    [1] ++ ascii ['i', 'd'] ++ [0] ++ [0, 0, 0, 23] ++ [0, 0, 0, 0]

def wideInsertMessage : Bytes :=
  [0, 0, 64, 0] ++ ascii ['N'] ++ [0, 2] ++
    ascii ['t'] ++ [0, 0, 0, 1] ++ ascii ['1'] ++ ascii ['t'] ++ [0, 0, 0, 1] ++ ascii ['2']

/-- The name of the second column is read past the end of `attnames`. -/
theorem wide_insert_reads_past_attnames : ¬ ∀ inputs, ∀ a ∈ (rowRun inputs).accesses, a.Inside := by
  intro h
  have hpast : ⟨1, 1⟩ ∈ (rowRun [.relation sampleRelMessage,
      .row .insert wideInsertMessage .sample true]).accesses := by decide +kernel
  exact absurd (h _ _ hpast) (Nat.lt_irrefl 1)

end CdcKafka.RelMap
