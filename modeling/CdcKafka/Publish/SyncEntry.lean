import CdcKafka.Lib.OrderFree
import Mathlib.Data.Finset.Basic

/-! What a relation is published as: `get_rel_sync_entry` and what it computes from the publications. -/

namespace CdcKafka.RelSync

abbrev Oid := Nat

abbrev InvalidOid : Oid := 0

abbrev Outcome := Except Unit (Option Bool)

inductive Condition (Row : Type)
  | raises
  | const (value : Option Bool)
  | expr (eval : Row → Outcome)

variable {Row : Type}

structure PublicationActions where
  pubinsert : Bool
  pubupdate : Bool
  pubdelete : Bool
  pubtruncate : Bool
deriving DecidableEq

inductive PublishGencolsType
  | none
  | stored
deriving DecidableEq

structure Publication where
  oid : Oid
  alltables : Bool
  pubviaroot : Bool
  pubactions : PublicationActions
  pubgencolsType : PublishGencolsType
deriving DecidableEq

/-- A row of `pg_publication_rel`; a filter is the list of the conditions that its OR joins. -/
structure PublicationRel (Row : Type) where
  prqual : Option (List (Condition Row))
  prattrs : Option (List Int)

inductive Attgenerated
  | stored
  | virtual
deriving DecidableEq

structure Attribute where
  attnum : Int
  attisdropped : Bool
  attgenerated : Option Attgenerated

structure Catalog (Row : Type) where
  publicationRel : Oid → Oid → Option (PublicationRel Row)
  publicationNamespace : Oid → Oid → Bool
  relNamespace : Oid → Oid
  relIsPartitioned : Oid → Bool
  relIsPartition : Oid → Bool
  partitionAncestors : Oid → List Oid
  tupleDesc : Oid → List Attribute

variable (cat : Catalog Row)

/-- Whether the publication is among `GetRelationPublications` or `GetSchemaPublications` of the relation. -/
def Catalog.inPublication (relid puboid : Oid) : Bool :=
  (cat.publicationRel relid puboid).isSome || cat.publicationNamespace (cat.relNamespace relid) puboid

inductive EntryError
  | noAncestor
  | rowFilter
  | differentGencols
  | differentColumnLists
deriving DecidableEq

def ancestorStep (puboid : Oid) (st : Oid × Nat × Nat) (ancestor : Oid) : Oid × Nat × Nat :=
  if cat.inPublication ancestor puboid then (ancestor, st.2.2 + 1, st.2.2 + 1) else (st.1, st.2.1, st.2.2 + 1)

def getTopMostAncestorInPublication (puboid : Oid) (ancestors : List Oid) : Oid × Nat :=
  let st := ancestors.foldl (ancestorStep cat puboid) (InvalidOid, 0, 0)
  (st.1, st.2.1)

structure Target where
  publish : Bool
  pubRelid : Oid
  ancestorLevel : Nat

def publicationTarget (relid : Oid) (pub : Publication) : Except EntryError Target :=
  if pub.alltables then
    if pub.pubviaroot && cat.relIsPartition relid then
      match (cat.partitionAncestors relid).getLast? with
      | none => .error .noAncestor
      | some root => .ok ⟨true, root, (cat.partitionAncestors relid).length⟩
    else .ok ⟨true, relid, 0⟩
  else
    let topmost :=
      if cat.relIsPartition relid then getTopMostAncestorInPublication cat pub.oid (cat.partitionAncestors relid)
      else (InvalidOid, 0)
    let ancestorPublished := topmost.1 != InvalidOid
    let publish := cat.inPublication relid pub.oid || ancestorPublished
    if ancestorPublished && pub.pubviaroot then .ok ⟨publish, topmost.1, topmost.2⟩
    else .ok ⟨publish, relid, 0⟩

def PublicationActions.or (a b : PublicationActions) : PublicationActions where
  pubinsert := a.pubinsert || b.pubinsert
  pubupdate := a.pubupdate || b.pubupdate
  pubdelete := a.pubdelete || b.pubdelete
  pubtruncate := a.pubtruncate || b.pubtruncate

structure LoopState where
  pubactions : PublicationActions
  publishAsRelid : Oid
  publishAncestorLevel : Nat
  relPublications : List Publication

def LoopState.publish (st : LoopState) (pub : Publication) (pubRelid : Oid) (ancestorLevel : Nat) : LoopState :=
  let st := { st with pubactions := st.pubactions.or pub.pubactions }
  if st.publishAncestorLevel > ancestorLevel then st
  else if st.publishAncestorLevel < ancestorLevel then
    -- an ancestor higher up: what was found below it is discarded
    { st with publishAsRelid := pubRelid, publishAncestorLevel := ancestorLevel, relPublications := [pub] }
  else { st with relPublications := st.relPublications ++ [pub] }

def publicationStep (relid : Oid) (st : LoopState) (pub : Publication) : Except EntryError LoopState := do
  let target ← publicationTarget cat relid pub
  if target.publish && (!cat.relIsPartitioned relid || pub.pubviaroot) then
    return st.publish pub target.pubRelid target.ancestorLevel
  else return st

inductive PubAction
  | insert
  | update
  | delete
deriving DecidableEq

def PublicationActions.publishes (a : PublicationActions) : PubAction → Bool
  | .insert => a.pubinsert
  | .update => a.pubupdate
  | .delete => a.pubdelete

def publicationFilter (relid : Oid) (pub : Publication) : Option (List (Condition Row)) :=
  if !pub.alltables && !cat.publicationNamespace (cat.relNamespace relid) pub.oid then
    (cat.publicationRel relid pub.oid).bind PublicationRel.prqual
  else none

structure FilterLists (Row : Type) where
  rfnodes : PubAction → List (List (Condition Row))
  noFilter : PubAction → Bool

def collectFilters (relid : Oid) : List Publication → FilterLists Row → Option (FilterLists Row)
  | [], st => some st
  | pub :: pubs, st =>
    match publicationFilter cat relid pub with
    | none =>
      let noFilter := fun action => st.noFilter action || pub.pubactions.publishes action
      if noFilter .insert && noFilter .update && noFilter .delete then none
      else collectFilters relid pubs { st with noFilter := noFilter }
    | some filter =>
      collectFilters relid pubs
        { st with rfnodes := fun action =>
            if pub.pubactions.publishes action && !st.noFilter action then st.rfnodes action ++ [filter]
            else st.rfnodes action }

def rfnodesOf (relid : Oid) (pubs : List Publication) (action : PubAction) : List (List (Condition Row)) :=
  match collectFilters cat relid pubs ⟨fun _ => [], fun _ => false⟩ with
  | none => []
  | some st => if st.noFilter action then [] else st.rfnodes action

def simplifyOrArguments : List (Condition Row) → List (Row → Outcome) → Bool →
    Except EntryError (Option (List (Row → Outcome) × Bool))
  | [], newargs, haveNull => .ok (some (newargs, haveNull))
  | .raises :: _, _, _ => .error .rowFilter
  | .const none :: args, newargs, _ => simplifyOrArguments args newargs true
  | .const (some true) :: _, _, _ => .ok none
  | .const (some false) :: args, newargs, haveNull => simplifyOrArguments args newargs haveNull
  | .expr eval :: args, newargs, haveNull => simplifyOrArguments args (newargs ++ [eval]) haveNull

def execBoolOr (row : Row) : List (Row → Outcome) → Bool → Outcome
  | [], anynull => .ok (if anynull then none else some false)
  | arg :: args, anynull =>
    match arg row with
    | .error e => .error e
    | .ok none => execBoolOr row args true
    | .ok (some true) => .ok (some true)
    | .ok (some false) => execBoolOr row args anynull

def nullConst (_ : Row) : Outcome := .ok none

def execOrClause (clause : Option (List (Row → Outcome) × Bool)) (row : Row) : Outcome :=
  match clause with
  | none => .ok (some true)
  | some (newargs, haveNull) =>
    match if haveNull then newargs ++ [nullConst] else newargs with
    | [] => .ok (some false)
    | [arg] => arg row
    | args => execBoolOr row args false

def execPrepareExpr (args : List (Condition Row)) : Except EntryError (Row → Outcome) := do
  let simplified ← simplifyOrArguments args [] false
  return execOrClause simplified

def prepareAction (rfnodes : List (List (Condition Row))) : Except EntryError (Option (Row → Outcome)) :=
  if rfnodes.isEmpty then .ok none else do return some (← execPrepareExpr rfnodes.flatten)

def byAction {α : Type} (insert update delete : α) : PubAction → α
  | .insert => insert
  | .update => update
  | .delete => delete

def pgoutputRowFilterInit (relid : Oid) (pubs : List Publication) :
    Except EntryError (PubAction → Option (Row → Outcome)) := do
  let insert ← prepareAction (rfnodesOf cat relid pubs .insert)
  let update ← prepareAction (rfnodesOf cat relid pubs .update)
  let delete ← prepareAction (rfnodesOf cat relid pubs .delete)
  return byAction insert update delete

def checkAndFetchColumnList (relid : Oid) (pub : Publication) : Option (List Int) :=
  if pub.alltables then none else (cat.publicationRel relid pub.oid).bind PublicationRel.prattrs

def gencolStep (relid : Oid) (gencols : Option PublishGencolsType) (pub : Publication) :
    Except EntryError (Option PublishGencolsType) :=
  if (checkAndFetchColumnList cat relid pub).isSome then .ok gencols
  else
    match gencols with
    | none => .ok (some pub.pubgencolsType)
    | some type => if type = pub.pubgencolsType then .ok (some type) else .error .differentGencols

def checkAndInitGencol (relid : Oid) (pubs : List Publication) : Except EntryError PublishGencolsType :=
  if (cat.tupleDesc relid).any fun att => att.attgenerated.isSome then do
    let gencols ← pubs.foldlM (gencolStep cat relid) none
    return gencols.getD .none
  else .ok .none

def Attribute.published (att : Attribute) (gencols : PublishGencolsType) : Bool :=
  !att.attisdropped && match att.attgenerated with
    | none => true
    | some .virtual => false
    | some .stored => gencols = .stored

def pubFormColsMap (desc : List Attribute) (gencols : PublishGencolsType) : Finset Int :=
  ((desc.filter fun att => att.published gencols).map Attribute.attnum).toFinset

structure ColumnState where
  columns : Option (Finset Int)
  foundPubCollist : Bool
  relcols : Finset Int

def columnListStep (relid : Oid) (several : Bool) (gencols : PublishGencolsType) (st : ColumnState) (pub : Publication) :
    Except EntryError ColumnState :=
  let list := checkAndFetchColumnList cat relid pub
  let cols := (list.getD []).toFinset
  let relcols :=
    if cols = ∅ ∧ st.relcols = ∅ ∧ several = true then pubFormColsMap (cat.tupleDesc relid) gencols else st.relcols
  let cols := if cols = ∅ then relcols else cols
  let found := st.foundPubCollist || list.isSome
  match st.columns with
  | none => .ok ⟨some cols, found, relcols⟩
  | some columns => if columns = cols then .ok ⟨some columns, found, relcols⟩ else .error .differentColumnLists

def pgoutputColumnListInit (relid : Oid) (pubs : List Publication) (gencols : PublishGencolsType) :
    Except EntryError (Finset Int) := do
  let st ← pubs.foldlM (columnListStep cat relid (decide (pubs.length > 1)) gencols) ⟨none, false, ∅⟩
  return if st.foundPubCollist then st.columns.getD ∅ else ∅

structure RelationSyncEntry (Row : Type) where
  publishAsRelid : Oid
  pubactions : PublicationActions
  exprstate : PubAction → Option (Row → Outcome)
  includeGencolsType : PublishGencolsType
  columns : Finset Int

def publishesRows (actions : PublicationActions) : Bool :=
  actions.pubinsert || actions.pubupdate || actions.pubdelete

def entryOf (st : LoopState) : Except EntryError (RelationSyncEntry Row) :=
  if publishesRows st.pubactions then do
    let exprstate ← pgoutputRowFilterInit cat st.publishAsRelid st.relPublications
    let gencols ← checkAndInitGencol cat st.publishAsRelid st.relPublications
    let columns ← pgoutputColumnListInit cat st.publishAsRelid st.relPublications gencols
    return ⟨st.publishAsRelid, st.pubactions, exprstate, gencols, columns⟩
  else .ok ⟨st.publishAsRelid, st.pubactions, fun _ => none, .none, ∅⟩

def getRelSyncEntry (publications : List Publication) (relid : Oid) : Except EntryError (RelationSyncEntry Row) := do
  let st ← publications.foldlM (publicationStep cat relid) ⟨⟨false, false, false, false⟩, relid, 0, []⟩
  entryOf cat st

def pgoutputRowFilterExecExpr (state : Row → Outcome) (row : Row) : Except Unit Bool :=
  (state row).map fun value => value.getD false

def accepts (state : Option (Row → Outcome)) (row : Row) : Except Unit Bool :=
  match state with
  | none => .ok true
  | some state => pgoutputRowFilterExecExpr state row

end CdcKafka.RelSync
