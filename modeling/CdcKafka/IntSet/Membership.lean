import CdcKafka.IntSet.Contents

/-! The search for a value: in the buffer, or down the levels to the one leaf item whose values can contain it. -/

namespace CdcKafka.IntSet

open Lib

def linkKey (link : Downlink) : ℕ := link.value.toNat

def itemKey (item : LeafItem) : ℕ := item.first.toNat

theorem binsrchUint64_eq_rank {x : UInt64} {arr : List UInt64} (h : Ascending UInt64.toNat arr) :
    binsrchUint64 x arr true = rank UInt64.toNat x.toNat arr :=
  h.bisect_eq_rank fun i hi => by
    rw [binsrchRight, if_pos rfl, decide_eq_true_iff, List.getD_eq_getElem _ _ hi, UInt64.le_iff_toNat_le]

theorem binsrchLeaf_eq_rank {x : UInt64} {arr : List LeafItem} (h : Ascending itemKey arr) :
    binsrchLeaf x arr true = rank itemKey x.toNat arr :=
  h.bisect_eq_rank fun i hi => by
    rw [binsrchRight, if_pos rfl, decide_eq_true_iff, List.getD_eq_getElem _ _ hi, UInt64.le_iff_toNat_le, itemKey]

theorem searchBuffer_iff {s : IntegerSet} {x : UInt64} (h : Ascending UInt64.toNat s.bufferedValues) :
    searchBuffer s x = true ↔ x ∈ s.bufferedValues := by
  have hfound := @Ascending.mem_iff_bisect _ _ _ UInt64.toNat x.toNat _ h
    (fun mid => binsrchRight false x (s.bufferedValues.getD mid 0)) fun i hi => by
      rw [binsrchRight, if_neg Bool.false_ne_true, decide_eq_true_iff, List.getD_eq_getElem _ _ hi,
        UInt64.lt_iff_toNat_lt]
  have hmem : (∃ a ∈ s.bufferedValues, a.toNat = x.toNat) ↔ x ∈ s.bufferedValues :=
    ⟨fun ⟨a, ha, hax⟩ => UInt64.toNat_inj.mp hax ▸ ha, fun hx => ⟨x, hx, rfl⟩⟩
  rw [← hmem, hfound, searchBuffer, binsrchUint64]
  split
  · next hend => exact iff_of_false Bool.false_ne_true fun ⟨hr, _⟩ => absurd hr (Nat.not_lt.mpr hend)
  · next hend =>
    rw [decide_eq_true_iff, List.getD_eq_getElem _ _ (Nat.lt_of_not_le hend), ← UInt64.toNat_inj]
    exact ⟨fun heq => ⟨Nat.lt_of_not_le hend, heq⟩, fun ⟨_, heq⟩ => heq⟩

theorem linksTo_ascending {level : ℕ} {keys : List UInt64} (h : Ascending UInt64.toNat keys) :
    Ascending linkKey (linksTo level keys) := by
  rw [← map_value_linksTo level keys] at h
  exact (ascending_map Downlink.value).mp h

theorem rank_linksTo {level : ℕ} {keys : List UInt64} {x : ℕ} :
    rank linkKey x (linksTo level keys) = rank UInt64.toNat x keys := by
  conv_rhs => rw [← map_value_linksTo level keys]
  exact (rank_map Downlink.value).symm

theorem linkKeys_eq (chunks : List (List Downlink)) : linkKeys chunks = (chunks.map List.headI).map Downlink.value := by
  rw [linkKeys, List.map_map]
  rfl

theorem stepDown_eq {s : IntegerSet} {x : UInt64} {node : NodePtr} (h : Ascending linkKey (s.internal node)) :
    stepDown s x node = if rank linkKey x.toNat (s.internal node) = 0 then none
      else some ((s.internal node).getD (rank linkKey x.toNat (s.internal node) - 1) default).child := by
  have hvalues : Ascending UInt64.toNat ((s.internal node).map Downlink.value) := (ascending_map Downlink.value).mpr h
  rw [stepDown, binsrchUint64_eq_rank hvalues, rank_map]
  rfl

theorem descend_succ (s : IntegerSet) (x : UInt64) (levels : ℕ) (node : NodePtr) :
    descend s x (levels + 1) node = (descend s x levels node).bind (stepDown s x) := by
  induction levels generalizing node with
  | zero =>
    rw [descend, descend]
    exact Option.bind_fun_some _
  | succ levels ih =>
    rw [descend, descend, Option.bind_assoc]
    congr 1
    funext child
    exact ih child

theorem internal_getD {s : IntegerSet} {level number : ℕ} {chunks : List (List Downlink)}
    (h : s.internals level = chunks) : s.internal ⟨level, number⟩ = chunks.getD number [] := by
  rw [IntegerSet.internal, h]

theorem linksTo_child {level n : ℕ} {keys : List UInt64} (h : n < keys.length) :
    ((linksTo level keys).getD n default).child = ⟨level, n⟩ := by
  have hlen : n < (linksTo level keys).length := by rwa [linksTo, List.length_mapIdx]
  rw [List.getD_eq_getElem _ _ hlen]
  simp only [linksTo, List.getElem_mapIdx]

theorem flatten_getD {α : Type*} [Inhabited α] {before behind : List (List α)} {c : List α} {m : ℕ} (h : m < c.length) :
    (before ++ c :: behind).flatten.getD (before.flatten.length + m) default = c.getD m default := by
  rw [List.flatten_append, List.flatten_cons, List.getD_append_right _ _ _ _ (Nat.le_add_right _ _),
    Nat.add_sub_cancel_left, List.getD_append _ _ _ _ h]

theorem stepDown_found {s : IntegerSet} {x : UInt64} {level k n : ℕ} {keys : List UInt64}
    {chunks : List (List Downlink)} (hnodes : s.internals (level + 1) = chunks) (hne : ∀ c ∈ chunks, c ≠ [])
    (hlinks : chunks.flatten = linksTo level keys) (hasc : Ascending UInt64.toNat keys)
    (hk : rank UInt64.toNat x.toNat (linkKeys chunks) = k + 1) (hn : rank UInt64.toNat x.toNat keys = n + 1) :
    stepDown s x ⟨level + 1, k⟩ = some ⟨level, n⟩ := by
  have hflat : Ascending linkKey chunks.flatten := hlinks ▸ linksTo_ascending hasc
  rw [linkKeys_eq, rank_map] at hk
  obtain ⟨before, c, behind, hchunks, rfl, hle, -, -, hrank⟩ := rank_flatten hflat hne hk
  rw [hlinks, rank_linksTo, hn] at hrank
  have hnode : s.internal ⟨level + 1, before.length⟩ = c := by
    rw [internal_getD hnodes, hchunks, List.getD_append_right _ _ _ _ (le_refl _), Nat.sub_self]
    rfl
  have hmem : c ∈ chunks := hchunks ▸ List.mem_append_right _ List.mem_cons_self
  have hc : Ascending linkKey c := (List.pairwise_flatten.mp hflat).1 c hmem
  have hpos : rank linkKey x.toNat c ≠ 0 := fun hzero =>
    absurd (lt_of_rank_eq_zero hzero _ (headI_mem (hne c hmem))) (not_lt.mpr hle)
  have hlen : rank linkKey x.toNat c ≤ c.length := rank_le_length
  have hkeys : rank UInt64.toNat x.toNat keys ≤ keys.length := rank_le_length
  have hat : n = before.flatten.length + (rank linkKey x.toNat c - 1) := by omega
  -- the downlink that is taken has the number of the child
  have hget : c.getD (rank linkKey x.toNat c - 1) default = (linksTo level keys).getD n default := by
    rw [← hlinks, hchunks, hat, flatten_getD (by omega)]
  rw [stepDown_eq (hnode.symm ▸ hc), hnode, if_neg hpos, hget, linksTo_child (by omega)]

theorem stepDown_none {s : IntegerSet} {x : UInt64} {level k : ℕ} {keys : List UInt64} {chunks : List (List Downlink)}
    (hnodes : s.internals (level + 1) = chunks) (hlinks : chunks.flatten = linksTo level keys)
    (hasc : Ascending UInt64.toNat keys) (hzero : rank UInt64.toNat x.toNat keys = 0) :
    stepDown s x ⟨level + 1, k⟩ = none := by
  have hflat : Ascending linkKey chunks.flatten := hlinks ▸ linksTo_ascending hasc
  rw [← @rank_linksTo level, ← hlinks] at hzero
  have hsub : (s.internal ⟨level + 1, k⟩).Sublist chunks.flatten := by
    rw [internal_getD hnodes]
    rcases Nat.lt_or_ge k chunks.length with hlt | hge
    · rw [List.getD_eq_getElem _ _ hlt]
      exact List.sublist_flatten_of_mem (List.getElem_mem hlt)
    · rw [List.getD_eq_default _ _ hge]
      exact List.nil_sublist _
  have hnone : rank linkKey x.toNat (s.internal ⟨level + 1, k⟩) = 0 :=
    rank_eq_zero fun link hlink => lt_of_rank_eq_zero hzero link (hsub.subset hlink)
  rw [stepDown_eq (hflat.sublist hsub), if_pos hnone]

theorem linkKeys_ascending {level : ℕ} {keys : List UInt64} {chunks : List (List Downlink)}
    (hne : ∀ c ∈ chunks, c ≠ []) (hlinks : chunks.flatten = linksTo level keys) (hasc : Ascending UInt64.toNat keys) :
    Ascending UInt64.toNat (linkKeys chunks) := by
  have hflat : Ascending linkKey chunks.flatten := hlinks ▸ linksTo_ascending hasc
  rw [linkKeys_eq]
  exact (ascending_map Downlink.value).mpr (hflat.heads hne)

theorem descend_found {s : IntegerSet} {levels level : ℕ} {keys : List UInt64} (h : Indexed s levels level keys)
    (hasc : Ascending UInt64.toNat keys) (x : UInt64) :
    ∃ root, s.root = some root ∧
      (∀ n, rank UInt64.toNat x.toNat keys = n + 1 → descend s x levels root = some ⟨level, n⟩) ∧
      (rank UInt64.toNat x.toNat keys = 0 → descend s x levels root = none ∨ levels = 0 ∧ root = ⟨level, 0⟩) := by
  induction levels generalizing level keys with
  | zero =>
    obtain ⟨hlen, hroot, -⟩ := h
    have hrank : rank UInt64.toNat x.toNat keys ≤ keys.length := rank_le_length
    refine ⟨_, hroot, fun n hn => ?_, fun _ => Or.inr ⟨rfl, rfl⟩⟩
    obtain rfl : n = 0 := by omega
    rfl
  | succ levels ih =>
    obtain ⟨full, last, hnodes, hfilled, hlinks, -, hup⟩ := h
    have hne := hfilled.ne_nil
    obtain ⟨root, hroot, hfound, hnone⟩ := ih hup (linkKeys_ascending hne hlinks hasc)
    refine ⟨root, hroot, fun n hn => ?_, fun hzero => Or.inl ?_⟩
    · cases hk : rank UInt64.toNat x.toNat (linkKeys (full ++ [last])) with
      | zero =>
        have hflat : Ascending linkKey (full ++ [last]).flatten := hlinks ▸ linksTo_ascending hasc
        rw [linkKeys_eq, rank_map] at hk
        have hzero := rank_flatten_eq_zero hflat hk
        rw [hlinks, rank_linksTo, hn] at hzero
        exact absurd hzero (Nat.succ_ne_zero n)
      | succ k =>
        rw [descend_succ, hfound k hk, Option.bind_some]
        exact stepDown_found hnodes hne hlinks hasc hk hn
    · rw [descend_succ]
      cases hk : rank UInt64.toNat x.toNat (linkKeys (full ++ [last])) with
      | zero =>
        rcases hnone hk with hnone | ⟨rfl, rfl⟩
        · rw [hnone, Option.bind_none]
        · rw [descend, Option.bind_some]
          exact stepDown_none hnodes hlinks hasc hzero
      | succ k =>
        rw [hfound k hk, Option.bind_some]
        exact stepDown_none hnodes hlinks hasc hzero

def itemContains (item : LeafItem) (x : UInt64) : Bool :=
  if item.first = x then true else simple8bContains item.codeword x item.first

theorem itemContains_iff {item : LeafItem} {x : UInt64} (h : Ascending UInt64.toNat (itemValues item)) :
    itemContains item x = true ↔ x ∈ itemValues item := by
  obtain ⟨-, hpacked⟩ := List.pairwise_cons.mp h
  rw [itemContains, itemValues, List.mem_cons]
  split
  · next heq => exact iff_of_true rfl (Or.inl heq.symm)
  · next hne => rw [contains_iff (fun heq => hne heq.symm) hpacked, or_iff_right fun heq => hne heq.symm]

theorem searchLeaf_eq {s : IntegerSet} {x : UInt64} {node : NodePtr} {items : List LeafItem}
    (hitems : (s.leaf node).items = items) (h : Ascending itemKey items) :
    searchLeaf s x node = if rank itemKey x.toNat items = 0 then false
      else itemContains (items.getD (rank itemKey x.toNat items - 1) default) x := by
  rw [searchLeaf, hitems, binsrchLeaf_eq_rank h]
  rfl

theorem treeValues_eq (chunks : List (List LeafItem)) :
    treeValues chunks = (chunks.flatten.map itemValues).flatten := List.flatMap_def

theorem itemValues_ne {items : List LeafItem} : ∀ c ∈ items.map itemValues, c ≠ [] :=
  List.forall_mem_map.mpr fun _ _ => List.cons_ne_nil _ _

theorem rank_heads (x : ℕ) (items : List LeafItem) :
    rank UInt64.toNat x ((items.map itemValues).map List.headI) = rank itemKey x items := by
  rw [rank_map, rank_map]
  rfl

theorem mem_items_iff {items : List LeafItem} {x : UInt64}
    (hasc : Ascending UInt64.toNat (items.map itemValues).flatten) {m : ℕ}
    (hm : rank itemKey x.toNat items = m + 1) :
    x ∈ (items.map itemValues).flatten ↔ x ∈ itemValues (items.getD m default) := by
  rw [← rank_heads] at hm
  obtain ⟨before, c, behind, hsplit, rfl, hle, hbefore, hbehind, -⟩ := rank_flatten hasc itemValues_ne hm
  have hc : itemValues (items.getD before.length default) = c := by
    have hget := @List.getD_map _ _ items default before.length itemValues
    rw [hsplit, List.getD_append_right _ _ _ _ (le_refl _), Nat.sub_self] at hget
    exact hget.symm
  rw [hc]
  exact mem_flatten_iff_of_rank hsplit hbefore hle hbehind rfl

theorem items_ascending {items : List LeafItem} (hasc : Ascending UInt64.toNat (items.map itemValues).flatten) :
    Ascending itemKey items := by
  have hheads := hasc.heads itemValues_ne
  rw [ascending_map, ascending_map] at hheads
  exact hheads

theorem leaf_items {s : IntegerSet} {full : List (List LeafItem)} {last : List LeafItem} (h : Tree s full last) (k : ℕ) :
    (s.leaf ⟨0, k⟩).items = (full ++ [last]).getD k [] := by
  rw [IntegerSet.leaf, h.leaves, leafChain_items]

def searchTree (s : IntegerSet) (x : UInt64) : Bool :=
  match s.root with
  | none => false
  | some root =>
    match descend s x (s.numLevels - 1) root with
    | none => false
    | some node => searchLeaf s x node

theorem searchTree_iff {s : IntegerSet} {full : List (List LeafItem)} {last : List LeafItem} {x : UInt64}
    (h : Tree s full last) (hfilled : FullChunks MAX_LEAF_ITEMS full last)
    (hasc : Ascending UInt64.toNat (treeValues (full ++ [last]))) :
    searchTree s x = true ↔ x ∈ treeValues (full ++ [last]) := by
  obtain ⟨levels, hlevels, hindexed⟩ := h.indexed
  rw [treeValues_eq] at hasc ⊢
  have hitems := items_ascending hasc
  have hne := hfilled.ne_nil
  have hheads : itemKeys (full ++ [last]) = ((full ++ [last]).map List.headI).map LeafItem.first := by
    rw [itemKeys, List.map_map]
    rfl
  have hkeys : Ascending UInt64.toNat (itemKeys (full ++ [last])) := by
    rw [hheads]
    exact (ascending_map LeafItem.first).mpr (hitems.heads hne)
  have hkeysRank : rank UInt64.toNat x.toNat (itemKeys (full ++ [last])) =
      rank itemKey x.toNat ((full ++ [last]).map List.headI) := by
    rw [hheads, rank_map]
    rfl
  obtain ⟨root, hroot, hfound, hnone⟩ := descend_found hindexed hkeys x
  rw [searchTree, hroot, hlevels, Nat.add_sub_cancel]
  dsimp only
  cases hn : rank UInt64.toNat x.toNat (itemKeys (full ++ [last])) with
  | zero =>
    have hzero : rank itemKey x.toNat (full ++ [last]).flatten = 0 := rank_flatten_eq_zero hitems (hkeysRank ▸ hn)
    have hvalues := rank_flatten_eq_zero hasc ((rank_heads _ _).trans hzero)
    have hnot : x ∉ ((full ++ [last]).flatten.map itemValues).flatten := fun hx =>
      absurd (lt_of_rank_eq_zero hvalues x hx) (lt_irrefl _)
    refine iff_of_false ?_ hnot
    rcases hnone hn with hnone | ⟨rfl, rfl⟩
    · rw [hnone]
      exact Bool.false_ne_true
    · have hsub : ((full ++ [last]).getD 0 []).Sublist (full ++ [last]).flatten := by
        have hpos : 0 < (full ++ [last]).length := by rw [List.length_append, List.length_singleton]; omega
        rw [List.getD_eq_getElem _ _ hpos]
        exact List.sublist_flatten_of_mem (List.getElem_mem hpos)
      have hleaf : rank itemKey x.toNat ((full ++ [last]).getD 0 []) = 0 :=
        rank_eq_zero fun item hitem => lt_of_rank_eq_zero hzero item (hsub.subset hitem)
      rw [descend]
      dsimp only
      rw [searchLeaf_eq (leaf_items h 0) (hitems.sublist hsub), if_pos hleaf]
      exact Bool.false_ne_true
  | succ n =>
    obtain ⟨before, c, behind, hsplit, rfl, hle, -, -, hrank⟩ := rank_flatten hitems hne (hkeysRank ▸ hn)
    have hmem : c ∈ full ++ [last] := hsplit ▸ List.mem_append_right _ List.mem_cons_self
    have hc : Ascending itemKey c := (List.pairwise_flatten.mp hitems).1 c hmem
    have hpos : rank itemKey x.toNat c ≠ 0 := fun hzero =>
      absurd (lt_of_rank_eq_zero hzero _ (headI_mem (hne c hmem))) (not_lt.mpr hle)
    have hlen : rank itemKey x.toNat c ≤ c.length := rank_le_length
    have hleaf : (s.leaf ⟨0, before.length⟩).items = c := by
      rw [leaf_items h, hsplit, List.getD_append_right _ _ _ _ (le_refl _), Nat.sub_self]
      rfl
    have hm : rank itemKey x.toNat (full ++ [last]).flatten =
        before.flatten.length + (rank itemKey x.toNat c - 1) + 1 := by omega
    have hitem : (full ++ [last]).flatten.getD (before.flatten.length + (rank itemKey x.toNat c - 1)) default =
        c.getD (rank itemKey x.toNat c - 1) default := by
      rw [hsplit, flatten_getD (by omega)]
    have hcmem : c.getD (rank itemKey x.toNat c - 1) default ∈ (full ++ [last]).flatten := by
      rw [List.getD_eq_getElem _ _ (by omega)]
      exact List.mem_flatten_of_mem hmem (List.getElem_mem _)
    have hvalues : Ascending UInt64.toNat (itemValues (c.getD (rank itemKey x.toNat c - 1) default)) :=
      (List.pairwise_flatten.mp hasc).1 _ (List.mem_map_of_mem hcmem)
    rw [hfound _ hn]
    dsimp only
    rw [searchLeaf_eq hleaf hc, if_neg hpos, itemContains_iff hvalues, mem_items_iff hasc hm, hitem]

theorem isMember_iff {s : IntegerSet} {xs : List UInt64} (h : Holds s xs) (x : UInt64) :
    isMember s x = true ↔ x ∈ xs := by
  obtain ⟨ts, hstored, hxs⟩ := h.stored
  have hasc := h.ascending
  rw [← hxs] at hasc
  obtain ⟨hts, hbuf, hbetween⟩ := List.pairwise_append.mp hasc
  rw [← hxs, List.mem_append, isMember]
  split
  · next hbuffer =>
    obtain ⟨hpos, hle⟩ := hbuffer
    have hnot : x ∉ ts := fun hx => by
      rw [List.getD_eq_getElem _ _ hpos, UInt64.le_iff_toNat_le] at hle
      exact absurd (hbetween x hx _ (List.getElem_mem hpos)) (Nat.not_lt.mpr hle)
    rw [searchBuffer_iff hbuf, or_iff_right hnot]
  · next hbefore =>
    have hnot : x ∉ s.bufferedValues := fun hx => by
      cases hvalues : s.bufferedValues with
      | nil => exact absurd (hvalues ▸ hx) List.not_mem_nil
      | cons v vs =>
        rw [hvalues] at hbefore hx hbuf
        have hlt : ¬ v ≤ x := fun hle => hbefore ⟨Nat.zero_lt_succ _, hle⟩
        rcases List.mem_cons.mp hx with rfl | hmem
        · exact hlt (UInt64.le_refl _)
        · exact hlt (UInt64.le_iff_toNat_le.mpr ((List.pairwise_cons.mp hbuf).1 x hmem).le)
    rw [or_iff_left hnot]
    change searchTree s x = true ↔ x ∈ ts
    cases hstored with
    | empty leaves internals right left root =>
      rw [searchTree, root]
      exact iff_of_false Bool.false_ne_true List.not_mem_nil
    | tree tree filled => exact searchTree_iff tree filled hts

end CdcKafka.IntSet
