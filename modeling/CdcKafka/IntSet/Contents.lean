import Mathlib.Data.List.Range
import CdcKafka.IntSet.CodewordValues
import CdcKafka.IntSet.Tree

/-! The leaves of an integer set, and how a flush of the buffer adds items to them. -/

namespace CdcKafka.IntSet

open Lib

def itemValues (item : LeafItem) : List UInt64 := item.first :: simple8bDecode item.codeword item.first

def treeValues (chunks : List (List LeafItem)) : List UInt64 := chunks.flatten.flatMap itemValues

def leafChain (full : List (List LeafItem)) (last : List LeafItem) : List LeafNode :=
  full.mapIdx (fun i c => ⟨some ⟨0, i + 1⟩, c⟩) ++ [⟨none, last⟩]

theorem length_leafChain (full : List (List LeafItem)) (last : List LeafItem) :
    (leafChain full last).length = full.length + 1 := by
  rw [leafChain, List.length_append, List.length_mapIdx, List.length_singleton]

theorem map_items_leafChain (full : List (List LeafItem)) (last : List LeafItem) :
    (leafChain full last).map LeafNode.items = full ++ [last] := by
  rw [leafChain, List.map_append, List.map_singleton]
  congr 1
  apply List.ext_getElem
  · rw [List.length_map, List.length_mapIdx]
  · intro i _ _
    rw [List.getElem_map, List.getElem_mapIdx]

theorem leafChain_items (full : List (List LeafItem)) (last : List LeafItem) (i : ℕ) :
    ((leafChain full last).getD i default).items = (full ++ [last]).getD i [] := by
  rw [← map_items_leafChain full last]
  exact (List.getD_map (leafChain full last) default LeafNode.items).symm

theorem leafChain_concat (full : List (List LeafItem)) (last items : List LeafItem) : leafChain (full ++ [last]) items =
      full.mapIdx (fun i c => ⟨some ⟨0, i + 1⟩, c⟩) ++ [⟨some ⟨0, full.length + 1⟩, last⟩] ++ [⟨none, items⟩] := by
  rw [leafChain, List.mapIdx_concat]

theorem leafChain_set (full : List (List LeafItem)) (last : List LeafItem) (n : LeafNode) :
    (leafChain full last).set full.length n = full.mapIdx (fun i c => ⟨some ⟨0, i + 1⟩, c⟩) ++ [n] := by
  have hset := @set_concat _ (full.mapIdx fun i c => (⟨some ⟨0, i + 1⟩, c⟩ : LeafNode)) ⟨none, last⟩ n
  rwa [List.length_mapIdx] at hset

theorem leafChain_getD_last (full : List (List LeafItem)) (last : List LeafItem) :
    (leafChain full last).getD full.length default = ⟨none, last⟩ := by
  have hget := @getD_concat _ (full.mapIdx fun i c => (⟨some ⟨0, i + 1⟩, c⟩ : LeafNode)) ⟨none, last⟩ default
  rwa [List.length_mapIdx] at hget

structure Tree (s : IntegerSet) (full : List (List LeafItem)) (last : List LeafItem) : Prop where
  leaves : s.leaves = leafChain full last
  right : s.rightmostNodes 0 = some ⟨0, full.length⟩
  left : s.leftmostLeaf = some ⟨0, 0⟩
  indexed : ∃ levels, s.numLevels = levels + 1 ∧ Indexed s levels 0 (itemKeys (full ++ [last]))

structure SameHeader (s s' : IntegerSet) : Prop where
  numEntries : s'.numEntries = s.numEntries
  highestValue : s'.highestValue = s.highestValue
  bufferedValues : s'.bufferedValues = s.bufferedValues
  iter : s'.iter = s.iter

theorem SameHeader.trans {s s' s'' : IntegerSet} (h : SameHeader s s') (h' : SameHeader s' s'') : SameHeader s s'' :=
  ⟨h'.numEntries.trans h.numEntries, h'.highestValue.trans h.highestValue, h'.bufferedValues.trans h.bufferedValues,
    h'.iter.trans h.iter⟩

section

variable {s : IntegerSet} {full : List (List LeafItem)} {last : List LeafItem}

theorem Tree.leaf_right (h : Tree s full last) : s.leaf (s.rightmost 0) = ⟨none, last⟩ := by
  rw [rightmost_eq h.right, IntegerSet.leaf, h.leaves, leafChain_getD_last]

theorem Tree.newLeafPtr (h : Tree s full last) : s.newLeafPtr = ⟨0, full.length + 1⟩ := by
  rw [IntegerSet.newLeafPtr, h.leaves, length_leafChain]

theorem Tree.leaves_addLeafItem (h : s.leaves = leafChain full last)
    (hright : s.rightmostNodes 0 = some ⟨0, full.length⟩) (item : LeafItem) :
    (addLeafItem s item).leaves = leafChain full (last ++ [item]) := by
  have hleaf : s.leaf ⟨0, full.length⟩ = ⟨none, last⟩ := by rw [IntegerSet.leaf, h, leafChain_getD_last]
  rw [addLeafItem, rightmost_eq hright, hleaf, IntegerSet.setLeaf]
  dsimp only
  rw [h, leafChain_set, leafChain]

theorem itemKeys_grow (h : last ≠ []) (item : LeafItem) :
    itemKeys (full ++ [last ++ [item]]) = itemKeys (full ++ [last]) := by
  rw [itemKeys, itemKeys, List.map_append, List.map_append, List.map_singleton, List.map_singleton, headI_append h]

theorem Indexed.addLeafItem {levels level : ℕ} {keys : List UInt64} (h : Indexed s levels level keys)
    (item : LeafItem) : Indexed (addLeafItem s item) levels level keys :=
  h.congr ⟨rfl, fun _ _ => rfl, fun _ _ => rfl⟩

theorem Indexed.of_single {keys keys' : List UInt64} (h : Indexed s 0 0 keys) (hlen : keys'.length = keys.length) :
    Indexed s 0 0 keys' := ⟨hlen.trans h.1, h.2⟩

theorem placeItem_room (h : Tree s full last) (hroom : last.length < MAX_LEAF_ITEMS)
    (hempty : last = [] → s.numLevels = 1) (item : LeafItem) :
    ∃ s', placeItem s item = .ok s' ∧ Tree s' full (last ++ [item]) ∧ SameHeader s s' := by
  have hnot : ¬ MAX_LEAF_ITEMS ≤ (s.leaf (s.rightmost 0)).items.length := by
    rw [h.leaf_right]
    exact Nat.not_le.mpr hroom
  rw [placeItem, if_neg hnot]
  refine ⟨_, rfl, ⟨Tree.leaves_addLeafItem h.leaves h.right item, h.right, h.left, ?_⟩, rfl, rfl, rfl, rfl⟩
  obtain ⟨levels, hlevels, hindexed⟩ := h.indexed
  refine ⟨levels, hlevels, Indexed.addLeafItem ?_ item⟩
  by_cases hlast : last = []
  · obtain rfl : levels = 0 := by have := hempty hlast; omega
    refine hindexed.of_single ?_
    rw [itemKeys, itemKeys, List.length_map, List.length_map, List.length_append, List.length_append,
      List.length_singleton, List.length_singleton]
  · rwa [itemKeys_grow hlast]

theorem placeItem_full (h : Tree s full last) (hfilled : FullChunks MAX_LEAF_ITEMS full last)
    (hfull : ¬ last.length < MAX_LEAF_ITEMS) (hcount : (full ++ [last]).flatten.length < 2 ^ 64) (item : LeafItem) :
    ∃ s', placeItem s item = .ok s' ∧ Tree s' (full ++ [last]) [item] ∧ SameHeader s s' := by
  obtain ⟨levels, hlevels, hindexed⟩ := h.indexed
  have hmust : MAX_LEAF_ITEMS ≤ (s.leaf (s.rightmost 0)).items.length := by
    rw [h.leaf_right]
    exact Nat.le_of_not_lt hfull
  have hlinked : (linkNewLeaf s).leaves = leafChain (full ++ [last]) [] := by
    rw [leafChain_concat, linkNewLeaf, h.leaf_right, h.newLeafPtr, rightmost_eq h.right]
    dsimp only [IntegerSet.setRightmost, IntegerSet.allocLeaf, IntegerSet.setLeaf]
    rw [h.leaves, leafChain_set]
  have hright : (linkNewLeaf s).rightmostNodes 0 = some ⟨0, (full ++ [last]).length⟩ := by
    rw [List.length_append, List.length_singleton, ← h.newLeafPtr]
    exact @Function.update_self ℕ (fun _ => Option NodePtr) _ 0 (some s.newLeafPtr) s.rightmostNodes
  have hsame : SameAbove 0 s (linkNewLeaf s) := ⟨rfl, fun l _ => rfl, fun l hl => Function.update_of_ne (by omega) _ _⟩
  have hlen : (itemKeys (full ++ [last])).length = full.length + 1 := by
    rw [itemKeys, List.length_map, List.length_append, List.length_singleton]
  have hfirst : firstValue (linkNewLeaf s) ⟨0, 0⟩ = (itemKeys (full ++ [last])).headI := by
    rw [firstValue, if_pos rfl, IntegerSet.leaf, hlinked, leafChain_items]
    cases full with
    | nil => rfl
    | cons c full => rfl
  have hroom : (itemKeys (full ++ [last])).length + 1 ≤ 64 ^ (10 - 0) := by
    have hflat := hfilled.length_flatten
    have hpow : (64 : ℕ) ^ (10 - 0) = 2 ^ 60 := by decide
    rw [MAX_LEAF_ITEMS] at hflat hfull
    rw [hlen, hpow]
    omega
  obtain ⟨s', hs', hbelow, levels', hlevels', hindexed'⟩ := @updateUpper_inserted levels 0 (linkNewLeaf s) _ item.first
    (hindexed.congr hsame) (hlevels.trans (by omega)) hfirst hroom
  rw [hlen, ← h.newLeafPtr] at hs'
  rw [placeItem, if_pos hmust, hs']
  have hleaves' := Tree.leaves_addLeafItem (hbelow.leaves.trans hlinked)
    ((hbelow.rightmostNodes 0 (le_refl _)).trans hright) item
  refine ⟨_, rfl, ⟨hleaves', (hbelow.rightmostNodes 0 (le_refl _)).trans hright, hbelow.leftmostLeaf.trans h.left,
    levels', hlevels'.trans (by omega), Indexed.addLeafItem ?_ item⟩,
    hbelow.numEntries, hbelow.highestValue, hbelow.bufferedValues, hbelow.iter⟩
  rw [itemKeys, List.map_append]
  exact hindexed'

theorem placeItem_spec (h : Tree s full last)
    (hready : FullChunks MAX_LEAF_ITEMS full last ∨ full = [] ∧ last = [] ∧ s.numLevels = 1)
    (hcount : (full ++ [last]).flatten.length < 2 ^ 64) (item : LeafItem) :
    ∃ s' full' last', placeItem s item = .ok s' ∧ Tree s' full' last' ∧ FullChunks MAX_LEAF_ITEMS full' last' ∧
      SameHeader s s' ∧ (full' ++ [last']).flatten = (full ++ [last]).flatten ++ [item] := by
  rcases hready with hfilled | ⟨rfl, rfl, hlevels⟩
  · by_cases hroom : last.length < MAX_LEAF_ITEMS
    · obtain ⟨s', hs', htree, hsame⟩ := placeItem_room h hroom (fun hnil => absurd hnil hfilled.last_ne) item
      refine ⟨s', _, _, hs', htree, hfilled.grow hroom item, hsame, ?_⟩
      rw [List.flatten_append, List.flatten_append, List.flatten_singleton, List.flatten_singleton, List.append_assoc]
    · obtain ⟨s', hs', htree, hsame⟩ := placeItem_full h hfilled hroom hcount item
      refine ⟨s', _, _, hs', htree, hfilled.extend hroom item, hsame, ?_⟩
      rw [List.flatten_append, List.flatten_singleton]
  · obtain ⟨s', hs', htree, hsame⟩ := placeItem_room h (by decide) (fun _ => hlevels) item
    exact ⟨s', _, _, hs', htree, ⟨List.forall_mem_nil _, List.cons_ne_nil _ _, (by decide : 1 ≤ MAX_LEAF_ITEMS)⟩, hsame, rfl⟩

end

theorem length_le_treeValues (chunks : List (List LeafItem)) : chunks.flatten.length ≤ (treeValues chunks).length := by
  rw [treeValues]
  induction chunks.flatten with
  | nil => exact le_refl _
  | cons item items ih =>
    rw [List.flatMap_cons, List.length_append, itemValues, List.length_cons, List.length_cons]
    omega

theorem treeValues_place {chunks chunks' : List (List LeafItem)} {item : LeafItem}
    (h : chunks'.flatten = chunks.flatten ++ [item]) : treeValues chunks' = treeValues chunks ++ itemValues item := by
  rw [treeValues, h, List.flatMap_append, List.flatMap_singleton, treeValues]

theorem itemValues_encode {first : UInt64} {values : List UInt64}
    (h : MAX_VALUES_PER_LEAF_ITEM ≤ (first :: values).length) :
    itemValues ⟨first, (simple8bEncode values first).1⟩ ++ values.drop (simple8bEncode values first).2 =
      first :: values := by
  have hlen : SIMPLE8B_MAX_VALUES_PER_CODEWORD ≤ values.length := by
    rw [MAX_VALUES_PER_LEAF_ITEM, List.length_cons] at h
    omega
  rw [itemValues, decode_encode hlen, List.cons_append, List.take_append_drop]

theorem flushLoop_spec {xs values : List UInt64} {s : IntegerSet} {full : List (List LeafItem)} {last : List LeafItem}
    (h : Tree s full last)
    (hready : FullChunks MAX_LEAF_ITEMS full last ∨
      (full = [] ∧ last = [] ∧ s.numLevels = 1) ∧ MAX_VALUES_PER_LEAF_ITEM ≤ values.length)
    (hxs : treeValues (full ++ [last]) ++ values = xs) (hlen : xs.length ≤ 2 ^ 64) :
    ∃ s' rest full' last', flushLoop s values = .ok (s', rest) ∧ Tree s' full' last' ∧
      FullChunks MAX_LEAF_ITEMS full' last' ∧ SameHeader s s' ∧ rest.length < MAX_VALUES_PER_LEAF_ITEM ∧
      treeValues (full' ++ [last']) ++ rest = xs := by
  induction hn : values.length using Nat.strongRecOn generalizing s values full last with
  | ind n ih =>
    cases values with
    | nil =>
      have hfilled := hready.resolve_right fun hfresh => absurd hfresh.2 (by decide)
      exact ⟨s, [], full, last, by rw [flushLoop], h, hfilled, ⟨rfl, rfl, rfl, rfl⟩, by decide, hxs⟩
    | cons first values =>
      rw [flushLoop]
      split
      · next henough =>
        have hcount : (full ++ [last]).flatten.length < 2 ^ 64 := by
          have hitems := length_le_treeValues (full ++ [last])
          have htotal := congrArg List.length hxs
          rw [List.length_append, List.length_cons] at htotal
          omega
        obtain ⟨s', full', last', hs', htree, hfilled, hsame, hflat⟩ :=
          placeItem_spec h (hready.imp_right And.left) hcount ⟨first, (simple8bEncode values first).1⟩
        rw [hs', Except.bind]
        have hxs' : treeValues (full' ++ [last']) ++ values.drop (simple8bEncode values first).2 = xs := by
          rw [treeValues_place hflat, List.append_assoc, itemValues_encode henough, hxs]
        have hshort : (values.drop (simple8bEncode values first).2).length < n := by
          rw [List.length_drop, ← hn, List.length_cons]
          omega
        obtain ⟨s'', rest, full'', last'', hs'', htree', hfilled', hsame', hrest⟩ :=
          ih _ hshort htree (Or.inl hfilled) hxs' rfl
        exact ⟨s'', rest, full'', last'', hs'', htree', hfilled', hsame.trans hsame', hrest⟩
      · next hfew =>
        have hfilled := hready.resolve_right fun hfresh => hfew hfresh.2
        exact ⟨s, first :: values, full, last, rfl, h, hfilled, ⟨rfl, rfl, rfl, rfl⟩, Nat.lt_of_not_le hfew, hxs⟩

end CdcKafka.IntSet

/-! What an integer set holds, and how a value is added to it. -/

namespace CdcKafka.IntSet

open Lib

inductive Stored (s : IntegerSet) : List UInt64 → Prop
  | empty (leaves : s.leaves = []) (internals : ∀ l, s.internals l = []) (right : s.rightmostNodes 0 = none)
      (left : s.leftmostLeaf = none) (root : s.root = none) : Stored s []
  | tree {full : List (List LeafItem)} {last : List LeafItem} (tree : Tree s full last)
      (filled : FullChunks MAX_LEAF_ITEMS full last) : Stored s (treeValues (full ++ [last]))

structure Holds (s : IntegerSet) (xs : List UInt64) : Prop where
  entries : s.numEntries = UInt64.ofNat xs.length
  highest : xs ≠ [] → s.highestValue ∈ xs
  stored : ∃ ts, Stored s ts ∧ ts ++ s.bufferedValues = xs
  buffered : s.bufferedValues.length ≤ MAX_BUFFERED_VALUES
  ascending : Ascending UInt64.toNat xs

structure SameTree (s s' : IntegerSet) : Prop where
  leaves : s'.leaves = s.leaves
  internals : s'.internals = s.internals
  numLevels : s'.numLevels = s.numLevels
  root : s'.root = s.root
  rightmostNodes : s'.rightmostNodes = s.rightmostNodes
  leftmostLeaf : s'.leftmostLeaf = s.leftmostLeaf

theorem Stored.congr {s s' : IntegerSet} {ts : List UInt64} (h : Stored s ts) (hsame : SameTree s s') : Stored s' ts := by
  cases h with
  | empty leaves internals right left root =>
    exact .empty (hsame.leaves.trans leaves) (fun l => (congrFun hsame.internals l).trans (internals l))
      ((congrFun hsame.rightmostNodes 0).trans right) (hsame.leftmostLeaf.trans left) (hsame.root.trans root)
  | tree tree filled =>
    obtain ⟨levels, hlevels, hindexed⟩ := tree.indexed
    refine .tree ⟨hsame.leaves.trans tree.leaves, (congrFun hsame.rightmostNodes 0).trans tree.right,
      hsame.leftmostLeaf.trans tree.left, levels, hsame.numLevels.trans hlevels, hindexed.congr ?_⟩ filled
    exact ⟨hsame.root, fun l _ => congrFun hsame.internals l, fun l _ => congrFun hsame.rightmostNodes l⟩

theorem holds_create : Holds intsetCreate [] where
  entries := rfl
  highest h := absurd rfl h
  stored := ⟨[], .empty rfl (fun _ => rfl) rfl rfl rfl, rfl⟩
  buffered := Nat.zero_le _
  ascending := List.Pairwise.nil

theorem length_le_of_ascending {xs : List UInt64} (h : Ascending UInt64.toNat xs) : xs.length ≤ 2 ^ 64 := by
  have hnodup : (xs.map UInt64.toNat).Nodup := (List.pairwise_map.mpr h).imp fun hlt => hlt.ne
  have hrange : ∀ n ∈ xs.map UInt64.toNat, n ∈ List.range (2 ^ 64) := by
    refine List.forall_mem_map.mpr fun x _ => List.mem_range.mpr x.toNat_lt
  have hsub := (List.subperm_of_subset hnodup hrange).length_le
  rwa [List.length_map, List.length_range] at hsub

theorem createFirstLeaf_spec {s : IntegerSet} {ts : List UInt64} (h : Stored s ts) :
    ∃ full last, Tree (createFirstLeaf s) full last ∧ treeValues (full ++ [last]) = ts ∧
      SameHeader s (createFirstLeaf s) ∧ (FullChunks MAX_LEAF_ITEMS full last ∨
        full = [] ∧ last = [] ∧ (createFirstLeaf s).numLevels = 1) := by
  rw [createFirstLeaf]
  cases h with
  | empty leaves internals right left root =>
    have hptr : s.newLeafPtr = ⟨0, 0⟩ := by rw [IntegerSet.newLeafPtr, leaves, List.length_nil]
    rw [right]
    refine ⟨[], [], ⟨?_, ?_, congrArg some hptr, 0, rfl, rfl, congrArg some hptr, fun l _ => internals l⟩, rfl,
      ⟨rfl, rfl, rfl, rfl⟩, Or.inr ⟨rfl, rfl, rfl⟩⟩
    · exact congrArg (· ++ [(⟨none, []⟩ : LeafNode)]) leaves
    · exact (@Function.update_self ℕ (fun _ => Option NodePtr) _ 0 (some s.newLeafPtr) s.rightmostNodes).trans
        (congrArg some hptr)
  | tree tree filled =>
    rw [tree.right]
    exact ⟨_, _, tree, rfl, ⟨rfl, rfl, rfl, rfl⟩, Or.inl filled⟩

theorem flushBufferedValues_spec {s : IntegerSet} {xs : List UInt64} (h : Holds s xs)
    (hfull : MAX_BUFFERED_VALUES ≤ s.bufferedValues.length) :
    ∃ s', flushBufferedValues s = .ok s' ∧ Holds s' xs ∧ s'.iter = s.iter ∧
      s'.bufferedValues.length < MAX_BUFFERED_VALUES := by
  obtain ⟨ts, hstored, hxs⟩ := h.stored
  obtain ⟨full, last, htree, hvalues, hsame, hready⟩ := createFirstLeaf_spec hstored
  have henough : MAX_VALUES_PER_LEAF_ITEM ≤ s.bufferedValues.length := by
    rw [MAX_BUFFERED_VALUES] at hfull
    omega
  obtain ⟨s', rest, full', last', hs', htree', hfilled, hsame', hshort, hvalues'⟩ :=
    flushLoop_spec htree (hready.imp_right fun hfresh => ⟨hfresh, henough⟩)
      ((congrArg (· ++ s.bufferedValues) hvalues).trans hxs) (length_le_of_ascending h.ascending)
  have hheader := hsame.trans hsame'
  have hrest : rest.length < MAX_BUFFERED_VALUES := by
    rw [MAX_BUFFERED_VALUES]
    omega
  refine ⟨{ s' with bufferedValues := rest }, ?_, ⟨hheader.numEntries.trans h.entries, ?_, ?_, hrest.le, h.ascending⟩,
    hheader.iter, hrest⟩
  · rw [flushBufferedValues, hs', Except.map]
  · exact fun hne => hheader.highestValue ▸ h.highest hne
  · exact ⟨_, (Stored.tree htree' hfilled).congr ⟨rfl, rfl, rfl, rfl, rfl, rfl⟩, hvalues'⟩

theorem bufferValue_holds {s : IntegerSet} {xs : List UInt64} {x : UInt64} (h : Holds s xs)
    (hroom : s.bufferedValues.length < MAX_BUFFERED_VALUES) (hx : ∀ v ∈ xs, v < x) :
    Holds (bufferValue s x) (xs ++ [x]) where
  entries := by
    rw [List.length_append, List.length_singleton, UInt64.ofNat_add, ← h.entries]
    rfl
  highest _ := List.mem_append_right _ (List.mem_singleton_self x)
  stored := by
    obtain ⟨ts, hstored, hxs⟩ := h.stored
    refine ⟨ts, hstored.congr ⟨rfl, rfl, rfl, rfl, rfl, rfl⟩, ?_⟩
    rw [← hxs, List.append_assoc]
    rfl
  buffered := by
    rw [bufferValue, List.length_append, List.length_singleton]
    exact hroom
  ascending := List.pairwise_append.mpr ⟨h.ascending, List.pairwise_singleton _ _, fun v hv w hw =>
      List.mem_singleton.mp hw ▸ UInt64.lt_iff_toNat_lt.mp (hx v hv)⟩

theorem addMember_spec {s : IntegerSet} {xs : List UInt64} {x : UInt64} (h : Holds s xs)
    (hactive : s.iter.active = false) (hx : ∀ v ∈ xs, v < x) :
    ∃ s', addMember s x = .ok s' ∧ Holds s' (xs ++ [x]) ∧ s'.iter = s.iter := by
  have hordered : ¬ (x ≤ s.highestValue ∧ 0 < s.numEntries) := by
    rintro ⟨hle, hsome⟩
    have hne : xs ≠ [] := by
      rintro rfl
      rw [h.entries] at hsome
      exact absurd hsome (by decide)
    exact absurd (hx _ (h.highest hne)) (UInt64.not_lt.mpr hle)
  rw [addMember, hactive, if_neg Bool.false_ne_true, if_neg hordered]
  split
  · next hfull =>
    obtain ⟨s', hs', hholds, hiter, hroom⟩ := flushBufferedValues_spec h hfull
    rw [hs']
    exact ⟨_, rfl, bufferValue_holds hholds hroom hx, hiter⟩
  · next hroom => exact ⟨_, rfl, bufferValue_holds h (Nat.lt_of_not_le hroom) hx, rfl⟩

end CdcKafka.IntSet
