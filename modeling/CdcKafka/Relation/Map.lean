import CdcKafka.Lib.LinearHash
import CdcKafka.Proto.Message

/-! The subscriber's map from the publisher's relations to its own: entries made by
RELATION messages, opened by the row changes, and invalidated by changes of the local
relations. -/

namespace CdcKafka.RelMap
open CdcKafka.Lib CdcKafka.Event CdcKafka.Proto

def rot (x k : UInt32) : UInt32 := (x <<< k) ||| (x >>> (32 - k))

def hashBytesUint32 (k : UInt32) : UInt32 :=
  let b : UInt32 := 0x9e3779b9 + 4 + 3923095
  let c := b
  let a := b + k
  let c := (c ^^^ b) - rot b 14
  let a := (a ^^^ c) - rot c 11
  let b := (b ^^^ a) - rot a 25
  let c := (c ^^^ b) - rot b 16
  let a := (a ^^^ c) - rot c 4
  let b := (b ^^^ a) - rot a 14
  (c ^^^ b) - rot b 24

def remoteidHash (remoteid : Nat) : Nat := (hashBytesUint32 (UInt32.ofNat remoteid)).toNat

structure LocalIndex where
  idxoid : Nat
  isPartial : Bool
  keyHasEqual : List Bool
  typeHasEq : List Bool
  /-- The leftmost column, `0` for an expression. -/
  keycol : Int
  amgettuple : Bool

inductive RelKind
  | relation | partitioned | other
deriving DecidableEq

structure LocalAttr where
  attname : CStr
  attisdropped : Bool
  attgenerated : Bool

structure LocalRel where
  relid : Nat
  relkind : RelKind
  desc : List LocalAttr
  identityKey : List Int
  primaryKey : List Int
  replicaIndex : Nat
  primaryKeyIndex : Nat
  indexes : List LocalIndex

abbrev AttrMap := List Int

structure LogicalRepRelMapEntry where
  remoterel : LogicalRepRelation
  localrelvalid : Bool
  localreloid : Nat
  localrel : Option Nat
  attrmap : Option AttrMap
  updatable : Bool
  localindexoid : Nat
  state : UInt8
  statelsn : Nat
deriving DecidableEq

inductive RelError
  | noEntry (remoteid : Nat)
  | alreadyOpen (remoteid : Nat)
  | doesNotExist (nspname relname : CStr)
  | wrongRelkind (nspname relname : CStr)
  | missingColumns (nspname relname : CStr) (columns : List CStr)
  | generatedColumns (nspname relname : CStr) (columns : List CStr)
  | systemColumns (nspname relname : CStr)
deriving DecidableEq

abbrev Map := LinearHash LogicalRepRelMapEntry

structure MapState where
  relMap : Map
  calls : List (Map × Nat)

abbrev MapM := EStateM RelError MapState

def invalidateEntry (entry : LogicalRepRelMapEntry) : LogicalRepRelMapEntry :=
  { entry with localrelvalid := false }

def logicalrepRelmapInvalidateCb (relMap : Map) (reloid : Nat) : Map :=
  if reloid ≠ 0 then
    { relMap with
      buckets := LinearHash.scanUpdateFirst (fun entry => entry.localreloid = reloid)
        invalidateEntry relMap.buckets }
  else { relMap with buckets := relMap.buckets.map (List.map invalidateEntry) }

def invalidate (reloid : Nat) : MapM Unit :=
  modify fun s => ⟨logicalrepRelmapInvalidateCb s.relMap reloid, s.calls ++ [(s.relMap, reloid)]⟩

def acceptInvalidationMessages : List Nat → MapM Unit
  | [] => pure ()
  | reloid :: pending => do
    invalidate reloid
    acceptInvalidationMessages pending

def freshEntry (remoterel : LogicalRepRelation) : LogicalRepRelMapEntry where
  remoterel := remoterel
  localrelvalid := false
  localreloid := 0
  localrel := none
  attrmap := none
  updatable := false
  localindexoid := 0
  state := 0
  statelsn := 0

def hasRemoteid (remoteid : Nat) (entry : LogicalRepRelMapEntry) : Bool :=
  entry.remoterel.remoteid = remoteid

def entryHash (entry : LogicalRepRelMapEntry) : Nat := remoteidHash entry.remoterel.remoteid

def logicalrepRelmapUpdate (remoterel : LogicalRepRelation) : MapM Unit :=
  modify fun s =>
    { s with
      relMap := s.relMap.enter entryHash (hasRemoteid remoterel.remoteid)
        (remoteidHash remoterel.remoteid) (freshEntry remoterel) }

def findEntry (remoteid : Nat) : MapM LogicalRepRelMapEntry := do
  match (← get).relMap.find? (hasRemoteid remoteid) (remoteidHash remoteid) with
  | some entry => pure entry
  | none => throw (.noEntry remoteid)

def modifyEntry (remoteid : Nat) (f : LogicalRepRelMapEntry → LogicalRepRelMapEntry) : MapM Unit :=
  modify fun s =>
    { s with relMap := s.relMap.modify (hasRemoteid remoteid) (remoteidHash remoteid) f }

def logicalrepRelAttByName (remoterel : RemoteRel) (attname : CStr) : Int :=
  match remoterel.attnames.findIdx? (· = attname) with
  | some i => i
  | none => -1

def makeAttrMap (remoterel : RemoteRel) (desc : List LocalAttr) : AttrMap :=
  desc.map fun att =>
    if att.attisdropped then -1 else logicalrepRelAttByName remoterel att.attname

def missingAtts (remoterel : RemoteRel) (attrmap : AttrMap) : List CStr :=
  remoterel.attnames.zipIdx.filterMap fun (name, i) =>
    if (i : Int) ∈ attrmap then none else some name

def generatedAtts (remoterel : RemoteRel) (desc : List LocalAttr) : List CStr :=
  remoterel.attnames.zipIdx.filterMap fun (name, i) =>
    if desc.any fun att => !att.attisdropped && att.attgenerated &&
        logicalrepRelAttByName remoterel att.attname = i
    then some name else none

def logicalrepReportMissingOrGenAttrs (remoterel : RemoteRel) (missing generated : List CStr) :
    MapM Unit := do
  if missing ≠ [] then throw (.missingColumns remoterel.nspname remoterel.relname missing)
  if generated ≠ [] then throw (.generatedColumns remoterel.nspname remoterel.relname generated)

def replicaIdentityFull : UInt8 := UInt8.ofNat 'f'.toNat

def updatableBy (remoterel : LogicalRepRelation) (attrmap : AttrMap) :
    List Int → Except RelError Bool
  | [] => .ok true
  | attnum :: idkey =>
    if attnum ≤ 0 then
      .error (.systemColumns remoterel.remoterel.nspname remoterel.remoterel.relname)
    else
      let remoteatt := attrmap.getD (attnum - 1).toNat (-1)
      if remoteatt < 0 ∨ remoteatt.toNat ∉ remoterel.attkeys then .ok false
      else updatableBy remoterel attrmap idkey

def logicalrepRelMarkUpdatable (remoterel : LogicalRepRelation) (localrel : LocalRel)
    (attrmap : AttrMap) : Except RelError Bool :=
  let idkey := if localrel.identityKey = [] then localrel.primaryKey else localrel.identityKey
  if idkey = [] ∧ remoterel.replident ≠ replicaIdentityFull then .ok false
  else updatableBy remoterel attrmap idkey

def isIndexUsableForReplicaIdentityFull (idx : LocalIndex) (attrmap : AttrMap) : Bool :=
  !idx.isPartial && idx.keyHasEqual.all id && idx.typeHasEq.all id && decide (idx.keycol ≠ 0) &&
    decide (0 ≤ attrmap.getD (idx.keycol - 1).toNat (-1)) && idx.amgettuple

def getRelationIdentityOrPK (localrel : LocalRel) : Nat :=
  if localrel.replicaIndex ≠ 0 then localrel.replicaIndex else localrel.primaryKeyIndex

def findLogicalRepLocalIndex (localrel : LocalRel) (remoterel : LogicalRepRelation)
    (attrmap : AttrMap) : Nat :=
  if localrel.relkind = .partitioned then 0
  else if getRelationIdentityOrPK localrel ≠ 0 then getRelationIdentityOrPK localrel
  else if remoterel.replident = replicaIdentityFull then
    match localrel.indexes.find? (isIndexUsableForReplicaIdentityFull · attrmap) with
    | some idx => idx.idxoid
    | none => 0
  else 0

/-- What one call finds in the local catalogs, and the invalidations it processes on its way:
while the relation is opened by its OID, while it is looked up by its name, and while the
derived data are rebuilt. -/
structure Local where
  tryTableOpen : Nat → Bool
  pendingOpen : List Nat
  rangeVarGetRelid : CStr → CStr → Nat
  pendingLookup : List Nat
  tableOpen : Nat → LocalRel
  pendingRebuild : List Nat
  getSubscriptionRelState : Nat → UInt8 × Nat

def subrelStateReady : UInt8 := UInt8.ofNat 'r'.toNat

def openByOid (loc : Local) (remoteid : Nat) (entry : LogicalRepRelMapEntry) : MapM Unit := do
  acceptInvalidationMessages loc.pendingOpen
  if loc.tryTableOpen entry.localreloid then
    modifyEntry remoteid fun e =>
      { e with localrel := if e.localrelvalid then some entry.localreloid else none }
  else
    modifyEntry remoteid fun e => { e with localrel := none, localrelvalid := false }

def rebuild (loc : Local) (remoteid : Nat) (remoterel : LogicalRepRelation) : MapM Unit := do
  modifyEntry remoteid fun e => { e with attrmap := none }
  acceptInvalidationMessages loc.pendingLookup
  let nspname := remoterel.remoterel.nspname
  let relname := remoterel.remoterel.relname
  let relid := loc.rangeVarGetRelid nspname relname
  if relid = 0 then throw (.doesNotExist nspname relname)
  let localrel := loc.tableOpen relid
  modifyEntry remoteid fun e => { e with localrel := some relid, localreloid := relid }
  if localrel.relkind = .other then throw (.wrongRelkind nspname relname)
  let attrmap := makeAttrMap remoterel.remoterel localrel.desc
  modifyEntry remoteid fun e => { e with attrmap := some attrmap }
  logicalrepReportMissingOrGenAttrs remoterel.remoterel (missingAtts remoterel.remoterel attrmap)
    (generatedAtts remoterel.remoterel localrel.desc)
  acceptInvalidationMessages loc.pendingRebuild
  match logicalrepRelMarkUpdatable remoterel localrel attrmap with
  | .error err => throw err
  | .ok updatable =>
    modifyEntry remoteid fun e =>
      { e with
        updatable
        localindexoid := findLogicalRepLocalIndex localrel remoterel attrmap
        localrelvalid := true }

def logicalrepRelOpen (loc : Local) (remoteid : Nat) : MapM LogicalRepRelMapEntry := do
  let entry ← findEntry remoteid
  if entry.localrel ≠ none then throw (.alreadyOpen remoteid)
  if entry.localrelvalid then openByOid loc remoteid entry
  let entry ← findEntry remoteid
  if !entry.localrelvalid then rebuild loc remoteid entry.remoterel
  let entry ← findEntry remoteid
  if entry.state ≠ subrelStateReady then
    let (state, statelsn) := loc.getSubscriptionRelState entry.localreloid
    modifyEntry remoteid fun e => { e with state, statelsn }
  findEntry remoteid

def logicalrepRelClose (remoteid : Nat) : MapM Unit :=
  modifyEntry remoteid fun e => { e with localrel := none }

inductive Op
  | update (remoterel : LogicalRepRelation)
  | open (remoteid : Nat) (loc : Local)
  | close (remoteid : Nat)
  | invalidate (reloid : Nat)

def Op.step : Op → MapM Unit
  | .update remoterel => logicalrepRelmapUpdate remoterel
  | .open remoteid loc => discard (logicalrepRelOpen loc remoteid)
  | .close remoteid => logicalrepRelClose remoteid
  | .invalidate reloid => RelMap.invalidate reloid

def MapState.init : MapState := ⟨LinearHash.create 128, []⟩

def run (ops : List Op) : MapState :=
  match (ops.forM Op.step).run .init with
  | .ok _ s => s
  | .error _ s => s

def Invalidated (relMap : Map) (reloid : Nat) : Prop :=
  ∀ entry ∈ relMap.entries, entry.localreloid = reloid → entry.localrelvalid = false

def FirstOnly (relMap : Map) (reloid : Nat) : Prop :=
  ∀ entry ∈ (relMap.entries.dropWhile fun entry => entry.localreloid ≠ reloid).tail,
    entry.localreloid = reloid → entry.localrelvalid = false

theorem invalidated_all (relMap : Map) (reloid : Nat) : Invalidated (logicalrepRelmapInvalidateCb relMap 0) reloid := by
  intro entry hentry _
  have hmem : entry ∈ (relMap.buckets.map (List.map invalidateEntry)).flatten := hentry
  rw [← List.map_flatten] at hmem
  obtain ⟨old, _, rfl⟩ := List.mem_map.mp hmem
  rfl

theorem entries_invalidateCb {relMap : Map} {reloid : Nat} (h : reloid ≠ 0) :
    (logicalrepRelmapInvalidateCb relMap reloid).entries =
      LinearHash.updateFirst (fun entry => entry.localreloid = reloid) invalidateEntry
        relMap.entries := by
  rw [logicalrepRelmapInvalidateCb, if_pos h]
  exact LinearHash.flatten_scanUpdateFirst _ _ _

theorem invalidated_iff_firstOnly {relMap : Map} {reloid : Nat} (h : reloid ≠ 0) :
    Invalidated (logicalrepRelmapInvalidateCb relMap reloid) reloid ↔ FirstOnly relMap reloid := by
  have hsplit := LinearHash.updateFirst_eq
    (fun entry : LogicalRepRelMapEntry => decide (entry.localreloid = reloid)) invalidateEntry
    relMap.entries
  simp only [Invalidated, FirstOnly, entries_invalidateCb h, hsplit, decide_not]
  constructor
  · intro hinv entry hentry
    exact hinv entry (List.mem_append_right _ hentry)
  · intro hfirst entry hentry hreloid
    rcases List.mem_append.mp hentry with hentry | hentry
    · rcases List.mem_append.mp hentry with hentry | hentry
      · -- the entries passed over belong to other relations
        have hother := List.mem_takeWhile_imp hentry
        simp [hreloid] at hother
      · obtain ⟨old, _, rfl⟩ := List.mem_map.mp hentry
        rfl
    · exact hfirst entry hentry hreloid

/-- In every run, each call of the callback invalidates the relation exactly if none of its
entries but the first was still valid. -/
theorem invalidates_iff (ops : List Op) : ∀ call ∈ (run ops).calls,
      (Invalidated (logicalrepRelmapInvalidateCb call.1 call.2) call.2 ↔ call.2 = 0 ∨ FirstOnly call.1 call.2) := by
  rintro ⟨relMap, reloid⟩ _
  rcases eq_or_ne reloid 0 with rfl | h
  · simp [invalidated_all]
  · simp [h, invalidated_iff_firstOnly h]

def Local.sample : Local where
  tryTableOpen := fun _ => true
  pendingOpen := []
  rangeVarGetRelid := fun _ _ => 20000
  pendingLookup := []
  tableOpen := fun relid =>
    { relid
      relkind := .relation
      desc := [⟨.lit ['i', 'd'], false, false⟩]
      identityKey := []
      primaryKey := [1]
      replicaIndex := 0
      primaryKeyIndex := 20001
      indexes := [] }
  pendingRebuild := []
  getSubscriptionRelState := fun _ => (subrelStateReady, 0)

def sampleRel (remoteid : Nat) : LogicalRepRelation where
  remoteid := remoteid
  remoterel := ⟨.lit ['s'], .lit ['t'], [.lit ['i', 'd']]⟩
  replident := UInt8.ofNat 'd'.toNat
  atttyps := [23]
  attkeys := [0]

def writtenOps (remoteid : Nat) : List Op :=
  [.update (sampleRel remoteid), .open remoteid .sample, .close remoteid]

def lastCall (ops : List Op) : Map × Nat := (run ops).calls.getLastD (LinearHash.create 128, 0)

theorem invalidates_iff_oneTable :
    Invalidated (logicalrepRelmapInvalidateCb (lastCall (writtenOps 16384 ++ [.invalidate 20000])).1 20000) 20000 ∧
      ∃ entry ∈ (lastCall (writtenOps 16384 ++ [.invalidate 20000])).1.entries,
        entry.localreloid = 20000 ∧ entry.localrelvalid = true := by
  refine ⟨?_, by decide +kernel⟩
  have hcall : lastCall (writtenOps 16384 ++ [.invalidate 20000]) ∈
      (run (writtenOps 16384 ++ [.invalidate 20000])).calls := by decide +kernel
  have hreloid : (lastCall (writtenOps 16384 ++ [.invalidate 20000])).2 = 20000 := by decide +kernel
  have hfirst : FirstOnly (lastCall (writtenOps 16384 ++ [.invalidate 20000])).1 20000 := by
    unfold FirstOnly
    decide +kernel
  have hiff := invalidates_iff _ _ hcall
  rw [hreloid] at hiff
  exact hiff.mpr (.inr hfirst)

/-- The published table is dropped and created again, so a second remote relation is mapped to the
local table: when that is altered, one of the two entries stays valid. -/
theorem stays_valid_after_invalidation : ¬ ∀ ops, ∀ call ∈ (run ops).calls,
      Invalidated (logicalrepRelmapInvalidateCb call.1 call.2) call.2 := by
  intro h
  have hstale : ∃ call ∈ (run (writtenOps 16384 ++ writtenOps 16390 ++ [.invalidate 20000])).calls,
      ∃ entry ∈ (logicalrepRelmapInvalidateCb call.1 call.2).entries,
        entry.localreloid = call.2 ∧ entry.localrelvalid = true := by decide +kernel
  obtain ⟨call, hcall, entry, hentry, hreloid, hvalid⟩ := hstale
  have hinvalid := h _ call hcall entry hentry hreloid
  rw [hvalid] at hinvalid
  cases hinvalid

end CdcKafka.RelMap
