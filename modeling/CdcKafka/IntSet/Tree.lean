import CdcKafka.IntSet.Simple8b

/-! The sets of 64-bit integers of `integerset.c`: newly added values in a buffer, the others packed into the leaf items of
a B-tree that grows on its right edge. -/

namespace CdcKafka.IntSet

open Lib

def MAX_INTERNAL_ITEMS : ℕ := 64

def MAX_LEAF_ITEMS : ℕ := 64

def MAX_TREE_LEVELS : ℕ := 11

def MAX_VALUES_PER_LEAF_ITEM : ℕ := 1 + SIMPLE8B_MAX_VALUES_PER_CODEWORD

def MAX_BUFFERED_VALUES : ℕ := MAX_VALUES_PER_LEAF_ITEM * 2

structure NodePtr where
  level : ℕ
  number : ℕ
deriving DecidableEq, Inhabited

structure LeafItem where
  first : UInt64
  codeword : UInt64
deriving Inhabited

structure LeafNode where
  next : Option NodePtr
  items : List LeafItem
deriving Inhabited

/-- A key value of an internal node and the pointer that stands beside it. -/
structure Downlink where
  value : UInt64
  child : NodePtr
deriving Inhabited

inductive IterSource where
  | null
  | iterValuesBuf
  | bufferedValues
deriving DecidableEq

structure IterState where
  active : Bool
  values : IterSource
  numValues : ℕ
  valueno : ℕ
  node : Option NodePtr
  itemno : ℕ
  valuesBuf : List UInt64

structure IntegerSet where
  leaves : List LeafNode
  internals : ℕ → List (List Downlink)
  numEntries : UInt64
  highestValue : UInt64
  numLevels : ℕ
  root : Option NodePtr
  rightmostNodes : ℕ → Option NodePtr
  leftmostLeaf : Option NodePtr
  bufferedValues : List UInt64
  iter : IterState

def intsetCreate : IntegerSet where
  leaves := []
  internals _ := []
  numEntries := 0
  highestValue := 0
  numLevels := 0
  root := none
  rightmostNodes _ := none
  leftmostLeaf := none
  bufferedValues := []
  iter := ⟨false, .null, 0, 0, none, 0, []⟩

namespace IntegerSet

def leaf (s : IntegerSet) (p : NodePtr) : LeafNode := s.leaves.getD p.number default

def internal (s : IntegerSet) (p : NodePtr) : List Downlink := (s.internals p.level).getD p.number []

def setLeaf (s : IntegerSet) (p : NodePtr) (n : LeafNode) : IntegerSet :=
  { s with leaves := s.leaves.set p.number n }

def setInternal (s : IntegerSet) (p : NodePtr) (n : List Downlink) : IntegerSet :=
  { s with internals := Function.update s.internals p.level ((s.internals p.level).set p.number n) }

def newLeafPtr (s : IntegerSet) : NodePtr := ⟨0, s.leaves.length⟩

def newInternalPtr (s : IntegerSet) (level : ℕ) : NodePtr := ⟨level, (s.internals level).length⟩

def allocLeaf (s : IntegerSet) : IntegerSet := { s with leaves := s.leaves ++ [⟨none, []⟩] }

def allocInternal (s : IntegerSet) (level : ℕ) (link : Downlink) : IntegerSet :=
  { s with internals := Function.update s.internals level (s.internals level ++ [[link]]) }

def setRightmost (s : IntegerSet) (level : ℕ) (p : NodePtr) : IntegerSet :=
  { s with rightmostNodes := Function.update s.rightmostNodes level (some p) }

def rightmost (s : IntegerSet) (level : ℕ) : NodePtr := (s.rightmostNodes level).getD default

end IntegerSet

def firstValue (s : IntegerSet) (p : NodePtr) : UInt64 :=
  if p.level = 0 then (s.leaf p).items.headI.first else (s.internal p).headI.value

def newRoot (s : IntegerSet) (level : ℕ) : IntegerSet :=
  let oldroot := s.root.getD default
  let p := s.newInternalPtr level
  { (s.allocInternal level ⟨firstValue s oldroot, oldroot⟩).setRightmost level p with
    numLevels := s.numLevels + 1
    root := some p }

def addDownlink (s : IntegerSet) (level : ℕ) (link : Downlink) : IntegerSet :=
  s.setInternal (s.rightmost level) (s.internal (s.rightmost level) ++ [link])

/-- `intset_update_upper`. A root that was just created has one item, so that the downlink fits. -/
def updateUpper (s : IntegerSet) (level : ℕ) (child : NodePtr) (childKey : UInt64) : Except String IntegerSet :=
  if s.numLevels ≤ level then
    if s.numLevels = MAX_TREE_LEVELS then
      .error "could not expand integer set, maximum number of levels reached"
    else .ok (addDownlink (newRoot s level) level ⟨childKey, child⟩)
  else if (s.internal (s.rightmost level)).length < MAX_INTERNAL_ITEMS then
    .ok (addDownlink s level ⟨childKey, child⟩)
  else
    updateUpper ((s.allocInternal level ⟨childKey, child⟩).setRightmost level (s.newInternalPtr level)) (level + 1)
      (s.newInternalPtr level) childKey
termination_by s.numLevels - level
decreasing_by
  have hlevels : ((s.allocInternal level ⟨childKey, child⟩).setRightmost level (s.newInternalPtr level)).numLevels =
    s.numLevels := rfl
  omega

def addLeafItem (s : IntegerSet) (item : LeafItem) : IntegerSet :=
  s.setLeaf (s.rightmost 0) { s.leaf (s.rightmost 0) with items := (s.leaf (s.rightmost 0)).items ++ [item] }

def linkNewLeaf (s : IntegerSet) : IntegerSet :=
  ((s.setLeaf (s.rightmost 0) { s.leaf (s.rightmost 0) with next := some s.newLeafPtr }).allocLeaf).setRightmost 0
    s.newLeafPtr

def placeItem (s : IntegerSet) (item : LeafItem) : Except String IntegerSet :=
  if MAX_LEAF_ITEMS ≤ (s.leaf (s.rightmost 0)).items.length then
    (updateUpper (linkNewLeaf s) 1 s.newLeafPtr item.first).map fun s' => addLeafItem s' item
  else .ok (addLeafItem s item)

def flushLoop (s : IntegerSet) : List UInt64 → Except String (IntegerSet × List UInt64)
  | [] => .ok (s, [])
  | first :: values =>
    if MAX_VALUES_PER_LEAF_ITEM ≤ (first :: values).length then
      (placeItem s ⟨first, (simple8bEncode values first).1⟩).bind fun s' =>
        flushLoop s' (values.drop (simple8bEncode values first).2)
    else .ok (s, first :: values)
termination_by values => values.length
decreasing_by
  rw [List.length_drop, List.length_cons]
  omega

def createFirstLeaf (s : IntegerSet) : IntegerSet :=
  match s.rightmostNodes 0 with
  | some _ => s
  | none =>
    { s.allocLeaf.setRightmost 0 s.newLeafPtr with
      root := some s.newLeafPtr
      leftmostLeaf := some s.newLeafPtr
      numLevels := 1 }

def flushBufferedValues (s : IntegerSet) : Except String IntegerSet :=
  (flushLoop (createFirstLeaf s) s.bufferedValues).map fun r => { r.1 with bufferedValues := r.2 }

def bufferValue (s : IntegerSet) (x : UInt64) : IntegerSet :=
  { s with
    bufferedValues := s.bufferedValues ++ [x]
    numEntries := s.numEntries + 1
    highestValue := x }

def addMember (s : IntegerSet) (x : UInt64) : Except String IntegerSet :=
  if s.iter.active then .error "cannot add new values to integer set while iteration is in progress"
  else if x ≤ s.highestValue ∧ 0 < s.numEntries then .error "cannot add value to integer set out of order"
  else if MAX_BUFFERED_VALUES ≤ s.bufferedValues.length then (flushBufferedValues s).map fun s' => bufferValue s' x
  else .ok (bufferValue s x)

def binsrchRight (nextkey : Bool) (item key : UInt64) : Bool :=
  if nextkey then decide (key ≤ item) else decide (key < item)

def binsrchUint64 (item : UInt64) (arr : List UInt64) (nextkey : Bool) : ℕ :=
  bisect (fun mid => binsrchRight nextkey item (arr.getD mid 0)) 0 arr.length

def binsrchLeaf (item : UInt64) (arr : List LeafItem) (nextkey : Bool) : ℕ :=
  bisect (fun mid => binsrchRight nextkey item (arr.getD mid default).first) 0 arr.length

def stepDown (s : IntegerSet) (x : UInt64) (node : NodePtr) : Option NodePtr :=
  let links := s.internal node
  let itemno := binsrchUint64 x (links.map Downlink.value) true
  if itemno = 0 then none else some (links.getD (itemno - 1) default).child

def descend (s : IntegerSet) (x : UInt64) : ℕ → NodePtr → Option NodePtr
  | 0, node => some node
  | level + 1, node => (stepDown s x node).bind (descend s x level)

def searchLeaf (s : IntegerSet) (x : UInt64) (node : NodePtr) : Bool :=
  let items := (s.leaf node).items
  let itemno := binsrchLeaf x items true
  let item := items.getD (itemno - 1) default
  if itemno = 0 then false
  else if item.first = x then true
  else simple8bContains item.codeword x item.first

def searchBuffer (s : IntegerSet) (x : UInt64) : Bool :=
  let itemno := binsrchUint64 x s.bufferedValues false
  if s.bufferedValues.length ≤ itemno then false else decide (s.bufferedValues.getD itemno 0 = x)

def isMember (s : IntegerSet) (x : UInt64) : Bool :=
  if 0 < s.bufferedValues.length ∧ s.bufferedValues.getD 0 0 ≤ x then searchBuffer s x
  else
    match s.root with
    | none => false
    | some root =>
      match descend s x (s.numLevels - 1) root with
      | none => false
      | some node => searchLeaf s x node

def beginIterate (s : IntegerSet) : IntegerSet :=
  { s with
    iter :=
      { s.iter with
        active := true
        node := s.leftmostLeaf
        itemno := 0
        valueno := 0
        numValues := 0
        values := .iterValuesBuf } }

def iterArray (s : IntegerSet) (it : IterState) : List UInt64 :=
  match it.values with
  | .null => []
  | .iterValuesBuf => it.valuesBuf
  | .bufferedValues => s.bufferedValues

def decodeItem (it : IterState) (item : LeafItem) : IterState :=
  { it with
    itemno := it.itemno + 1
    valuesBuf := item.first :: simple8bDecode item.codeword item.first
    numValues := (simple8bDecode item.codeword item.first).length + 1
    valueno := 0 }

/-- The loop of `intset_iterate_next`; without a result where it does not end within the given turns. -/
def iterLoop (s : IntegerSet) : ℕ → IterState → Option (Option UInt64 × IterState)
  | 0, _ => none
  | turns + 1, it =>
    if it.valueno < it.numValues then
      some (some ((iterArray s it).getD it.valueno 0), { it with valueno := it.valueno + 1 })
    else
      match it.node with
      | some node =>
        if it.itemno < (s.leaf node).items.length then
          iterLoop s turns (decodeItem it ((s.leaf node).items.getD it.itemno default))
        else iterLoop s turns { it with node := (s.leaf node).next, itemno := 0 }
      | none =>
        if it.values = .iterValuesBuf then
          iterLoop s turns { it with values := .bufferedValues, numValues := s.bufferedValues.length, valueno := 0 }
        else some (none, { it with active := false })

def iterateNext (s : IntegerSet) : Option (Option UInt64 × IntegerSet) :=
  (iterLoop s (s.leaves.length + 4) s.iter).map fun r => (r.1, { s with iter := r.2 })

end CdcKafka.IntSet

/-! The tree of an integer set. The nodes of a level, in their order, are the chunks of what the level holds: the downlinks
to the nodes of the level below, with their first values, and the items at the bottom. -/

namespace CdcKafka.IntSet

open Lib

def linksTo (level : ℕ) (keys : List UInt64) : List Downlink := keys.mapIdx fun i v => ⟨v, ⟨level, i⟩⟩

def linkKeys (chunks : List (List Downlink)) : List UInt64 := chunks.map fun c => c.headI.value

def itemKeys (chunks : List (List LeafItem)) : List UInt64 := chunks.map fun c => c.headI.first

theorem linksTo_concat (level : ℕ) (keys : List UInt64) (v : UInt64) :
    linksTo level (keys ++ [v]) = linksTo level keys ++ [⟨v, ⟨level, keys.length⟩⟩] := List.mapIdx_concat

theorem map_value_linksTo (level : ℕ) (keys : List UInt64) : (linksTo level keys).map Downlink.value = keys := by
  apply List.ext_getElem
  · rw [List.length_map, linksTo, List.length_mapIdx]
  · intro i _ _
    simp only [linksTo, List.getElem_map, List.getElem_mapIdx]

def Indexed (s : IntegerSet) : ℕ → ℕ → List UInt64 → Prop
  | 0, level, keys => keys.length = 1 ∧ s.root = some ⟨level, 0⟩ ∧ ∀ l, level < l → s.internals l = []
  | levels + 1, level, keys =>
    ∃ full last, s.internals (level + 1) = full ++ [last] ∧ FullChunks MAX_INTERNAL_ITEMS full last ∧
      (full ++ [last]).flatten = linksTo level keys ∧
      s.rightmostNodes (level + 1) = some ⟨level + 1, full.length⟩ ∧
      Indexed s levels (level + 1) (linkKeys (full ++ [last]))

structure SameAbove (level : ℕ) (s s' : IntegerSet) : Prop where
  root : s'.root = s.root
  internals : ∀ l, level < l → s'.internals l = s.internals l
  rightmostNodes : ∀ l, level < l → s'.rightmostNodes l = s.rightmostNodes l

theorem SameAbove.mono {level level' : ℕ} {s s' : IntegerSet} (h : SameAbove level s s') (hle : level ≤ level') :
    SameAbove level' s s' :=
  ⟨h.root, fun l hl => h.internals l (hle.trans_lt hl), fun l hl => h.rightmostNodes l (hle.trans_lt hl)⟩

theorem Indexed.congr {s s' : IntegerSet} {levels level : ℕ} {keys : List UInt64} (h : Indexed s levels level keys)
    (hsame : SameAbove level s s') : Indexed s' levels level keys := by
  induction levels generalizing level keys with
  | zero =>
    obtain ⟨hlen, hroot, habove⟩ := h
    exact ⟨hlen, hsame.root.trans hroot, fun l hl => (hsame.internals l hl).trans (habove l hl)⟩
  | succ levels ih =>
    obtain ⟨full, last, hnodes, hfilled, hlinks, hright, hup⟩ := h
    exact ⟨full, last, (hsame.internals _ (Nat.lt_succ_self _)).trans hnodes, hfilled, hlinks,
      (hsame.rightmostNodes _ (Nat.lt_succ_self _)).trans hright, ih hup (hsame.mono (Nat.le_succ _))⟩

section RightEdge

variable {α : Type*} {full : List α} {last a : α}

theorem getD_concat (d : α) : (full ++ [last]).getD full.length d = last := by
  rw [List.getD_append_right _ _ _ _ (le_refl _), Nat.sub_self]
  rfl

theorem set_concat : (full ++ [last]).set full.length a = full ++ [a] := by
  rw [List.set_append_right _ _ (le_refl _), Nat.sub_self]
  rfl

end RightEdge

theorem headI_append {α : Type*} [Inhabited α] {c : List α} (h : c ≠ []) (a : α) : (c ++ [a]).headI = c.headI := by
  cases c with
  | nil => exact absurd rfl h
  | cons b c => rfl

theorem linkKeys_grow {full : List (List Downlink)} {last : List Downlink} (h : last ≠ []) (link : Downlink) :
    linkKeys (full ++ [last ++ [link]]) = linkKeys (full ++ [last]) := by
  rw [linkKeys, linkKeys, List.map_append, List.map_append, List.map_singleton, List.map_singleton, headI_append h]

theorem linkKeys_extend (chunks : List (List Downlink)) (link : Downlink) :
    linkKeys (chunks ++ [[link]]) = linkKeys chunks ++ [link.value] := by
  rw [linkKeys, List.map_append]
  rfl

theorem internal_concat {s : IntegerSet} {level : ℕ} {full : List (List Downlink)} {last : List Downlink}
    (h : s.internals level = full ++ [last]) : s.internal ⟨level, full.length⟩ = last := by
  rw [IntegerSet.internal, h, getD_concat]

theorem internals_addDownlink {s : IntegerSet} {level : ℕ} {full : List (List Downlink)} {last : List Downlink}
    (hnodes : s.internals level = full ++ [last]) (hright : s.rightmostNodes level = some ⟨level, full.length⟩)
    (link : Downlink) :
    (addDownlink s level link).internals = Function.update s.internals level (full ++ [last ++ [link]]) := by
  have hp : s.rightmost level = ⟨level, full.length⟩ := by rw [IntegerSet.rightmost, hright, Option.getD_some]
  rw [addDownlink, hp, internal_concat hnodes, IntegerSet.setInternal]
  dsimp only
  rw [hnodes, set_concat]

structure SameBelow (level : ℕ) (s s' : IntegerSet) : Prop where
  leaves : s'.leaves = s.leaves
  numEntries : s'.numEntries = s.numEntries
  highestValue : s'.highestValue = s.highestValue
  leftmostLeaf : s'.leftmostLeaf = s.leftmostLeaf
  bufferedValues : s'.bufferedValues = s.bufferedValues
  iter : s'.iter = s.iter
  internals : ∀ l, l ≤ level → s'.internals l = s.internals l
  rightmostNodes : ∀ l, l ≤ level → s'.rightmostNodes l = s.rightmostNodes l

theorem SameBelow.trans {level : ℕ} {s s' s'' : IntegerSet} (h : SameBelow level s s') (h' : SameBelow level s' s'') :
    SameBelow level s s'' where
  leaves := h'.leaves.trans h.leaves
  numEntries := h'.numEntries.trans h.numEntries
  highestValue := h'.highestValue.trans h.highestValue
  leftmostLeaf := h'.leftmostLeaf.trans h.leftmostLeaf
  bufferedValues := h'.bufferedValues.trans h.bufferedValues
  iter := h'.iter.trans h.iter
  internals l hl := (h'.internals l hl).trans (h.internals l hl)
  rightmostNodes l hl := (h'.rightmostNodes l hl).trans (h.rightmostNodes l hl)

theorem SameBelow.mono {level level' : ℕ} {s s' : IntegerSet} (h : SameBelow level' s s') (hle : level ≤ level') :
    SameBelow level s s' :=
  { h with
    internals := fun l hl => h.internals l (hl.trans hle)
    rightmostNodes := fun l hl => h.rightmostNodes l (hl.trans hle) }

theorem sameBelow_addDownlink {s : IntegerSet} {level : ℕ} {number : ℕ}
    (hright : s.rightmostNodes (level + 1) = some ⟨level + 1, number⟩) (link : Downlink) :
    SameBelow level s (addDownlink s (level + 1) link) := by
  have hp : s.rightmost (level + 1) = ⟨level + 1, number⟩ := by rw [IntegerSet.rightmost, hright, Option.getD_some]
  refine ⟨rfl, rfl, rfl, rfl, rfl, rfl, fun l hl => ?_, fun l hl => rfl⟩
  rw [addDownlink, hp]
  exact Function.update_of_ne (show l ≠ level + 1 by omega) _ _

def pushNode (s : IntegerSet) (level : ℕ) (link : Downlink) : IntegerSet :=
  (s.allocInternal level link).setRightmost level (s.newInternalPtr level)

theorem sameBelow_pushNode (s : IntegerSet) (level : ℕ) (link : Downlink) :
    SameBelow level s (pushNode s (level + 1) link) := by
  refine ⟨rfl, rfl, rfl, rfl, rfl, rfl, fun l hl => ?_, fun l hl => ?_⟩
  · exact Function.update_of_ne (by omega) _ _
  · exact Function.update_of_ne (by omega) _ _

theorem sameAbove_pushNode (s : IntegerSet) (level : ℕ) (link : Downlink) :
    SameAbove level s (pushNode s level link) := by
  refine ⟨rfl, fun l hl => ?_, fun l hl => ?_⟩
  · exact Function.update_of_ne (by omega) _ _
  · exact Function.update_of_ne (by omega) _ _

structure Inserted (s s' : IntegerSet) (level : ℕ) (keys : List UInt64) : Prop where
  below : SameBelow level s s'
  indexed : ∃ levels, s'.numLevels = level + levels + 1 ∧ Indexed s' levels level keys

theorem updateUpper_root {s : IntegerSet} {level : ℕ} {v key : UInt64} (h : Indexed s 0 level [v])
    (hlevels : s.numLevels = level + 1) (hfirst : firstValue s ⟨level, 0⟩ = v) (hroom : level < 10) :
    ∃ s', updateUpper s (level + 1) ⟨level, 1⟩ key = .ok s' ∧ Inserted s s' level [v, key] := by
  obtain ⟨-, hroot, habove⟩ := h
  have hnone : s.internals (level + 1) = [] := habove _ (Nat.lt_succ_self _)
  have hmax : s.numLevels ≠ MAX_TREE_LEVELS := by
    rw [hlevels, MAX_TREE_LEVELS]
    omega
  have hgrown : (newRoot s (level + 1)).internals = Function.update s.internals (level + 1) ([] ++ [[⟨v, ⟨level, 0⟩⟩]]) := by
    rw [newRoot, hroot, Option.getD_some, hfirst]
    dsimp only [IntegerSet.setRightmost, IntegerSet.allocInternal]
    rw [hnone]
  have hnodes : (newRoot s (level + 1)).internals (level + 1) = [] ++ [[⟨v, ⟨level, 0⟩⟩]] := by
    rw [hgrown, Function.update_self]
  have hptr : s.newInternalPtr (level + 1) = ⟨level + 1, 0⟩ := by
    rw [IntegerSet.newInternalPtr, hnone, List.length_nil]
  have hright : (newRoot s (level + 1)).rightmostNodes (level + 1) = some ⟨level + 1, 0⟩ := by
    rw [← hptr]
    exact Function.update_self _ _ _
  have hbelow : SameBelow level s (newRoot s (level + 1)) := by
    refine ⟨rfl, rfl, rfl, rfl, rfl, rfl, fun l hl => ?_, fun l hl => ?_⟩
    · exact Function.update_of_ne (by omega) _ _
    · exact Function.update_of_ne (by omega) _ _
  rw [updateUpper, if_pos hlevels.le, if_neg hmax]
  have hinternals := internals_addDownlink hnodes hright ⟨key, ⟨level, 1⟩⟩
  refine ⟨_, rfl, hbelow.trans (sameBelow_addDownlink hright _), 1, ?_, [], [⟨v, ⟨level, 0⟩⟩, ⟨key, ⟨level, 1⟩⟩],
    ?_, ?_, rfl, hright, rfl, ?_, fun l hl => ?_⟩
  · exact congrArg (· + 1) hlevels
  · rw [hinternals, Function.update_self]
    rfl
  · exact ⟨List.forall_mem_nil _, List.cons_ne_nil _ _, (by decide : 2 ≤ MAX_INTERNAL_ITEMS)⟩
  · exact congrArg some hptr
  · rw [hinternals, Function.update_of_ne (by omega), hgrown, Function.update_of_ne (by omega)]
    exact habove l (by omega)

theorem rightmost_eq {s : IntegerSet} {level : ℕ} {p : NodePtr} (h : s.rightmostNodes level = some p) :
    s.rightmost level = p := by
  rw [IntegerSet.rightmost, h, Option.getD_some]

theorem updateUpper_room {s : IntegerSet} {levels level : ℕ} {keys : List UInt64} {key : UInt64}
    {full : List (List Downlink)} {last : List Downlink} (hnodes : s.internals (level + 1) = full ++ [last])
    (hfilled : FullChunks MAX_INTERNAL_ITEMS full last) (hlinks : (full ++ [last]).flatten = linksTo level keys)
    (hright : s.rightmostNodes (level + 1) = some ⟨level + 1, full.length⟩)
    (hup : Indexed s levels (level + 1) (linkKeys (full ++ [last]))) (hlevels : s.numLevels = level + (levels + 1) + 1)
    (hroom : last.length < MAX_INTERNAL_ITEMS) :
    ∃ s', updateUpper s (level + 1) ⟨level, keys.length⟩ key = .ok s' ∧ Inserted s s' level (keys ++ [key]) := by
  have hinner : ¬ s.numLevels ≤ level + 1 := by omega
  have hlast : s.internal (s.rightmost (level + 1)) = last := by
    rw [rightmost_eq hright, internal_concat hnodes]
  have hinternals := internals_addDownlink hnodes hright ⟨key, ⟨level, keys.length⟩⟩
  rw [updateUpper, if_neg hinner, hlast, if_pos hroom]
  refine ⟨_, rfl, sameBelow_addDownlink hright _, levels + 1, hlevels, full, last ++ [⟨key, ⟨level, keys.length⟩⟩], ?_,
    hfilled.grow hroom _, ?_, hright, ?_⟩
  · rw [hinternals, Function.update_self]
  · rw [linksTo_concat, ← hlinks, List.flatten_append, List.flatten_append, List.flatten_singleton,
      List.flatten_singleton, List.append_assoc]
  · rw [linkKeys_grow hfilled.last_ne]
    refine hup.congr ⟨rfl, fun l hl => ?_, fun l hl => rfl⟩
    rw [hinternals, Function.update_of_ne (by omega)]

theorem room_above {level n : ℕ} (h : (n + 1) * MAX_INTERNAL_ITEMS + 1 ≤ 64 ^ (10 - level)) :
    n + 1 + 1 ≤ 64 ^ (10 - (level + 1)) := by
  rw [MAX_INTERNAL_ITEMS] at h
  rcases Nat.lt_or_ge level 10 with hlt | hge
  · have hsucc : 10 - level = 10 - (level + 1) + 1 := by omega
    rw [hsucc, pow_succ] at h
    omega
  · rw [Nat.sub_eq_zero_of_le hge, pow_zero] at h
    omega

theorem updateUpper_inserted {levels level : ℕ} {s : IntegerSet} {keys : List UInt64} {key : UInt64}
    (h : Indexed s levels level keys) (hlevels : s.numLevels = level + levels + 1)
    (hfirst : firstValue s ⟨level, 0⟩ = keys.headI) (hroom : keys.length + 1 ≤ 64 ^ (10 - level)) :
    ∃ s', updateUpper s (level + 1) ⟨level, keys.length⟩ key = .ok s' ∧ Inserted s s' level (keys ++ [key]) := by
  induction levels generalizing level s keys with
  | zero =>
    obtain ⟨v, rfl⟩ := List.length_eq_one_iff.mp h.1
    refine updateUpper_root h hlevels hfirst (Nat.lt_of_not_le fun hge => ?_)
    rw [Nat.sub_eq_zero_of_le hge, List.length_singleton, pow_zero] at hroom
    omega
  | succ levels ih =>
    obtain ⟨full, last, hnodes, hfilled, hlinks, hright, hup⟩ := h
    by_cases hlast : last.length < MAX_INTERNAL_ITEMS
    · exact updateUpper_room hnodes hfilled hlinks hright hup hlevels hlast
    · -- the new parent is one more node of its level, and is inserted above it in turn
      have hinner : ¬ s.numLevels ≤ level + 1 := by omega
      have hparent : s.internal (s.rightmost (level + 1)) = last := by
        rw [rightmost_eq hright, internal_concat hnodes]
      have hnew : s.newInternalPtr (level + 1) = ⟨level + 1, (linkKeys (full ++ [last])).length⟩ := by
        rw [IntegerSet.newInternalPtr, hnodes, linkKeys, List.length_map]
      have hnodes' : (pushNode s (level + 1) ⟨key, ⟨level, keys.length⟩⟩).internals (level + 1) =
          full ++ [last] ++ [[⟨key, ⟨level, keys.length⟩⟩]] := by
        rw [← hnodes]
        exact Function.update_self _ _ _
      have hcount : (full.length + 1) * MAX_INTERNAL_ITEMS = keys.length := by
        have hflat := hfilled.length_flatten
        have hmax := le_antisymm hfilled.last_le (Nat.le_of_not_lt hlast)
        rw [hlinks, linksTo, List.length_mapIdx, hmax] at hflat
        rw [hflat, Nat.succ_mul]
      have hlen : (linkKeys (full ++ [last])).length = full.length + 1 := by
        rw [linkKeys, List.length_map, List.length_append, List.length_singleton]
      have hfirst' : firstValue (pushNode s (level + 1) ⟨key, ⟨level, keys.length⟩⟩) ⟨level + 1, 0⟩ =
          (linkKeys (full ++ [last])).headI := by
        rw [firstValue, if_neg (Nat.succ_ne_zero level), IntegerSet.internal, hnodes']
        cases full with
        | nil => rfl
        | cons c full => rfl
      obtain ⟨s', hs', hbelow, levels', hlevels', hup'⟩ := ih (hup.congr (sameAbove_pushNode s (level + 1) _))
        (by rw [show (pushNode s (level + 1) _).numLevels = s.numLevels from rfl, hlevels]; omega) hfirst'
        (by rw [hlen]; exact room_above (by rw [hcount]; exact hroom))
      rw [updateUpper, if_neg hinner, hparent, if_neg hlast, hnew]
      rw [pushNode, hnew] at hs'
      refine ⟨s', hs', (sameBelow_pushNode s level _).trans (hbelow.mono (Nat.le_succ _)), levels' + 1,
        by omega, full ++ [last], [⟨key, ⟨level, keys.length⟩⟩], ?_, hfilled.extend hlast _, ?_, ?_, ?_⟩
      · rw [hbelow.internals _ (le_refl _), hnodes']
      · rw [linksTo_concat, ← hlinks, List.flatten_append, List.flatten_singleton]
      · rw [hbelow.rightmostNodes _ (le_refl _), pushNode, hnew, hlen, List.length_append, List.length_singleton]
        exact Function.update_self _ _ _
      · rw [linkKeys_extend]
        exact hup'

end CdcKafka.IntSet
