import Mathlib.Data.Fintype.Order
import Mathlib.Order.CompletePartialOrder
import CdcKafka.Lib.MaxTree

/-! The pages of the free space map, `fsmpage.c`. -/

namespace CdcKafka.Fsm

open CdcKafka.Lib

abbrev Uint8 := Fin 256

/-- `BLCKSZ - MAXALIGN(SizeOfPageHeaderData) - offsetof(FSMPageData, fp_nodes)` -/
def nodesPerPage : Nat := 8192 - 24 - 4

def nonLeafNodesPerPage : Nat := 8192 / 2 - 1

def leafNodesPerPage : Nat := nodesPerPage - nonLeafNodesPerPage

structure FSMPage where
  fpNextSlot : Int
  fpNodes : Nat → Uint8

def leftchild (x : Nat) : Nat := 2 * x + 1

def parentof (x : Nat) : Nat := (x - 1) / 2

def rightneighbor (x : Nat) : Nat := if (x + 1 + 1) &&& (x + 1) = 0 then parentof (x + 1) else x + 1

def newvalue (nodes : Nat → Uint8) (nodeno : Nat) : Uint8 :=
  let value := if leftchild nodeno < nodesPerPage then nodes (leftchild nodeno) else 0
  if leftchild nodeno + 1 < nodesPerPage then max value (nodes (leftchild nodeno + 1)) else value

def rebuildFrom : Nat → (Nat → Uint8) → Bool → Bool × (Nat → Uint8)
  | 0, nodes, changed => (changed, nodes)
  | nodeno + 1, nodes, changed =>
    if nodes nodeno ≠ newvalue nodes nodeno then
      rebuildFrom nodeno (Function.update nodes nodeno (newvalue nodes nodeno)) true
    else rebuildFrom nodeno nodes changed

def fsmRebuildPage (page : FSMPage) : Bool × FSMPage :=
  let r := rebuildFrom nonLeafNodesPerPage page.fpNodes false
  (r.1, { page with fpNodes := r.2 })

/-- Upwards from `nodeno`, until the root or a node that is in order. A node that is reached from
below has a left child. -/
def propagateUp (nodes : Nat → Uint8) (nodeno : Nat) : Nat → Uint8 :=
  let parent := parentof nodeno
  let left := nodes (leftchild parent)
  let value := if leftchild parent + 1 < nodesPerPage then max left (nodes (leftchild parent + 1)) else left
  if nodes parent = value then nodes
  else if 0 < parent then propagateUp (Function.update nodes parent value) parent
  else Function.update nodes parent value
termination_by nodeno
decreasing_by
  rename_i h
  change 0 < (nodeno - 1) / 2 at h
  change (nodeno - 1) / 2 < nodeno
  omega

def fsmSetAvail (page : FSMPage) (slot : Nat) (value : Uint8) : Bool × FSMPage :=
  let nodeno := nonLeafNodesPerPage + slot
  if page.fpNodes nodeno = value ∧ value ≤ page.fpNodes 0 then (false, page)
  else
    let page := { page with fpNodes := propagateUp (Function.update page.fpNodes nodeno value) nodeno }
    if page.fpNodes 0 < value then (true, (fsmRebuildPage page).2) else (true, page)

def clearFrom (nodes : Nat → Uint8) (ptr : Nat) (changed : Bool) : Bool × (Nat → Uint8) :=
  if ptr < nodesPerPage then clearFrom (Function.update nodes ptr 0) (ptr + 1) (changed || nodes ptr ≠ 0)
  else (changed, nodes)
termination_by nodesPerPage - ptr

def fsmTruncateAvail (page : FSMPage) (nslots : Nat) : Bool × FSMPage :=
  let r := clearFrom page.fpNodes (nonLeafNodesPerPage + nslots) false
  let page := { page with fpNodes := r.2 }
  (r.1, if r.1 then (fsmRebuildPage page).2 else page)

theorem parentof_rightneighbor_lt {x : Nat} (h : 0 < x) : parentof (rightneighbor x) < x := by
  rw [rightneighbor]
  split
  · rw [parentof, parentof]
    omega
  · rw [parentof]
    omega

def climb (nodes : Nat → Uint8) (minvalue : Uint8) (nodeno : Nat) : Nat :=
  if _h : 0 < nodeno then
    if minvalue ≤ nodes nodeno then nodeno else climb nodes minvalue (parentof (rightneighbor nodeno))
  else nodeno
termination_by nodeno
decreasing_by exact parentof_rightneighbor_lt _h

def descend (nodes : Nat → Uint8) (minvalue : Uint8) (nodeno : Nat) : Option Nat :=
  if nodeno < nonLeafNodesPerPage then
    if leftchild nodeno < nodesPerPage ∧ minvalue ≤ nodes (leftchild nodeno) then
      descend nodes minvalue (leftchild nodeno)
    else if leftchild nodeno + 1 < nodesPerPage ∧ minvalue ≤ nodes (leftchild nodeno + 1) then
      descend nodes minvalue (leftchild nodeno + 1)
    else none
  else some nodeno
termination_by nonLeafNodesPerPage - nodeno
decreasing_by
  · rw [leftchild]
    omega
  · rw [leftchild]
    omega

/-- The search from the start or, after a page was rebuilt, from `restart`; there is no result when it
did not end in so many passes. To get an exclusive lock the page is unlocked, and others may
change it. -/
def fsmSearchAvail (relock : FSMPage → FSMPage) (minvalue : Uint8) (advancenext : Bool) :
    Nat → Bool → FSMPage → Option (Int × FSMPage)
  | 0, _, _ => none
  | passes + 1, exclusiveLockHeld, page =>
    if page.fpNodes 0 < minvalue then some (-1, page)
    else
      let target := if page.fpNextSlot < 0 ∨ leafNodesPerPage ≤ page.fpNextSlot then 0 else page.fpNextSlot.toNat
      match descend page.fpNodes minvalue (climb page.fpNodes minvalue (target + nonLeafNodesPerPage)) with
      | some nodeno =>
        let slot := nodeno - nonLeafNodesPerPage
        some (slot, { page with fpNextSlot := slot + if advancenext then 1 else 0 })
      | none =>
        let page := if exclusiveLockHeld then page else relock page
        fsmSearchAvail relock minvalue advancenext passes true (fsmRebuildPage page).2

end CdcKafka.Fsm

/-! That the search of a free space map page finds what the page has, and that its tree is kept. -/

namespace CdcKafka.Fsm

open CdcKafka.Lib

variable {nodes : Nat → Uint8} {page : FSMPage} {minvalue value : Uint8} {nodeno slot k : Nat}

def FSMPage.InOrder (page : FSMPage) : Prop := MaxTree nonLeafNodesPerPage nodesPerPage page.fpNodes

theorem nodesPerPage_le : nodesPerPage ≤ 2 * nonLeafNodesPerPage + 1 := by decide

theorem newvalue_eq (nodes : Nat → Uint8) (nodeno : Nat) : newvalue nodes nodeno = childMax nodesPerPage nodes nodeno := by
  rw [newvalue, childMax, nodeOr, nodeOr]
  by_cases hright : 2 * nodeno + 2 < nodesPerPage
  · have hleft : 2 * nodeno + 1 < nodesPerPage := Nat.lt_of_succ_lt hright
    rw [if_pos hright, if_pos hleft]
    rw [leftchild, if_pos hright, if_pos hleft]
  · rw [if_neg hright, max_bot_right]
    rw [leftchild, if_neg hright]
    rfl

theorem rebuildFrom_inOrder (changed : Bool) (hk : k ≤ nonLeafNodesPerPage)
    (h : ∀ i < nonLeafNodesPerPage, k ≤ i → nodes i = childMax nodesPerPage nodes i) :
    MaxTree nonLeafNodesPerPage nodesPerPage (rebuildFrom k nodes changed).2 := by
  induction k generalizing nodes changed with
  | zero => exact fun i hi => h i hi (Nat.zero_le i)
  | succ k ih =>
    have hsame (v : Uint8) (i : Nat) (hi : k ≤ i) :
        childMax nodesPerPage (Function.update nodes k v) i = childMax nodesPerPage nodes i := by
      apply childMax_congr
      · rw [Function.update_of_ne (by omega)]
      · rw [Function.update_of_ne (by omega)]
    rw [rebuildFrom, newvalue_eq]
    split
    · apply ih _ (Nat.le_of_succ_le hk)
      intro i hi hki
      rw [hsame _ i hki]
      rcases Nat.eq_or_lt_of_le hki with rfl | hlt
      · rw [Function.update_self]
      · rw [Function.update_of_ne hlt.ne', h i hi hlt]
    · next hkept =>
      apply ih _ (Nat.le_of_succ_le hk)
      intro i hi hki
      rcases Nat.eq_or_lt_of_le hki with rfl | hlt
      · exact not_not.mp hkept
      · exact h i hi hlt

theorem rebuildFrom_other (changed : Bool) {i : Nat} (h : k ≤ i) : (rebuildFrom k nodes changed).2 i = nodes i := by
  induction k generalizing nodes changed with
  | zero => rfl
  | succ k ih =>
    rw [rebuildFrom]
    split
    · rw [ih _ (Nat.le_of_succ_le h), Function.update_of_ne (by omega)]
    · exact ih _ (Nat.le_of_succ_le h)

theorem inOrder_rebuild (page : FSMPage) : (fsmRebuildPage page).2.InOrder :=
  rebuildFrom_inOrder false (Nat.le_refl _) fun _ hi hle => absurd hi (Nat.not_lt.mpr hle)

theorem rebuild_leaf (page : FSMPage) {i : Nat} (h : nonLeafNodesPerPage ≤ i) :
    (fsmRebuildPage page).2.fpNodes i = page.fpNodes i := rebuildFrom_other false h

theorem parentof_lt (h : nodeno < nodesPerPage) : parentof nodeno < nonLeafNodesPerPage := by
  have hn := nodesPerPage_le
  have hinner : 0 < nonLeafNodesPerPage := by decide
  rw [parentof]
  omega

theorem propagated_eq (hpos : 0 < nodeno) (h : nodeno < nodesPerPage) :
    (if leftchild (parentof nodeno) + 1 < nodesPerPage then
      max (nodes (leftchild (parentof nodeno))) (nodes (leftchild (parentof nodeno) + 1))
      else nodes (leftchild (parentof nodeno))) = childMax nodesPerPage nodes (parentof nodeno) := by
  have hleft : leftchild (parentof nodeno) < nodesPerPage := by
    rw [leftchild, parentof]
    omega
  rw [← newvalue_eq, newvalue, if_pos hleft]

theorem propagateUp_inOrder (hpos : 0 < nodeno) (hnode : nodeno < nodesPerPage)
    (h : MaxTreeBut (parentof nodeno) nonLeafNodesPerPage nodesPerPage nodes) :
    MaxTree nonLeafNodesPerPage nodesPerPage (propagateUp nodes nodeno) := by
  induction nodeno using Nat.strongRecOn generalizing nodes with
  | ind nodeno ih =>
    rw [propagateUp]
    rw [propagated_eq hpos hnode]
    split
    · next hsame => exact h.done hsame
    · split
      · next hparent =>
        have hup : parentof nodeno < nodeno := by
          rw [parentof]
          omega
        exact ih _ hup hparent (Nat.lt_trans hup hnode) (h.update hparent)
      · next hroot =>
        obtain hzero : parentof nodeno = 0 := Nat.eq_zero_of_not_pos hroot
        rw [hzero] at h ⊢
        exact h.update_root

theorem propagateUp_leaf (hnode : nodeno < nodesPerPage) {i : Nat} (h : nonLeafNodesPerPage ≤ i) :
    propagateUp nodes nodeno i = nodes i := by
  induction nodeno using Nat.strongRecOn generalizing nodes with
  | ind nodeno ih =>
    have hother : i ≠ parentof nodeno := by
      have hinner := parentof_lt hnode
      omega
    rw [propagateUp]
    generalize (if leftchild (parentof nodeno) + 1 < nodesPerPage then
      max (nodes (leftchild (parentof nodeno))) (nodes (leftchild (parentof nodeno) + 1))
      else nodes (leftchild (parentof nodeno))) = value
    split
    · rfl
    · split
      · next hparent =>
        have hup : parentof nodeno < nodeno := by
          rw [parentof] at hparent ⊢
          omega
        rw [ih _ hup (Nat.lt_trans hup hnode), Function.update_of_ne hother]
      · rw [Function.update_of_ne hother]

theorem slot_lt (h : slot < leafNodesPerPage) : nonLeafNodesPerPage + slot < nodesPerPage := by
  rw [leafNodesPerPage] at h
  omega

theorem setAvail_inOrder (h : page.InOrder) (hslot : slot < leafNodesPerPage) :
    (fsmSetAvail page slot value).2.InOrder := by
  have hpos : 0 < nonLeafNodesPerPage + slot := Nat.add_pos_left (by decide) slot
  rw [fsmSetAvail]
  dsimp only
  split
  · exact h
  · split
    · exact inOrder_rebuild _
    · exact propagateUp_inOrder hpos (slot_lt hslot) (h.update (Nat.le_add_right _ _) value)

theorem setAvail_leaf (page : FSMPage) (hslot : slot < leafNodesPerPage) {i : Nat} (hi : nonLeafNodesPerPage ≤ i) :
    (fsmSetAvail page slot value).2.fpNodes i = if i = nonLeafNodesPerPage + slot then value else page.fpNodes i := by
  have hset (v : Uint8) : propagateUp (Function.update page.fpNodes (nonLeafNodesPerPage + slot) v)
      (nonLeafNodesPerPage + slot) i = if i = nonLeafNodesPerPage + slot then v else page.fpNodes i := by
    rw [propagateUp_leaf (slot_lt hslot) hi, Function.update_apply]
  rw [fsmSetAvail]
  dsimp only
  split
  · next hsame =>
    split
    · next hself => rw [hself, hsame.1]
    · rfl
  · split
    · exact (rebuild_leaf _ hi).trans (hset value)
    · exact hset value

theorem clearFrom_eq (nodes : Nat → Uint8) (ptr : Nat) (changed : Bool) (i : Nat) :
    (clearFrom nodes ptr changed).2 i = if ptr ≤ i ∧ i < nodesPerPage then 0 else nodes i := by
  induction hn : nodesPerPage - ptr generalizing nodes ptr changed with
  | zero =>
    rw [clearFrom, if_neg (by omega), if_neg (by omega)]
  | succ n ih =>
    rw [clearFrom, if_pos (by omega), ih _ (ptr + 1) _ (by omega)]
    by_cases hself : i = ptr
    · rw [hself, if_neg (by omega), Function.update_self, if_pos (by omega)]
    · rw [Function.update_of_ne hself]
      by_cases hi : ptr + 1 ≤ i ∧ i < nodesPerPage
      · rw [if_pos hi, if_pos (by omega)]
      · rw [if_neg hi, if_neg (by omega)]

theorem clearFrom_unchanged {ptr : Nat} {changed : Bool} (h : (clearFrom nodes ptr changed).1 = false) :
    changed = false ∧ (clearFrom nodes ptr changed).2 = nodes := by
  induction hn : nodesPerPage - ptr generalizing nodes ptr changed with
  | zero =>
    rw [clearFrom, if_neg (by omega)] at h ⊢
    exact ⟨h, rfl⟩
  | succ n ih =>
    rw [clearFrom, if_pos (by omega)] at h ⊢
    obtain ⟨hchanged, hkept⟩ := ih h (by omega)
    obtain ⟨hbefore, hzero⟩ := Bool.or_eq_false_iff.mp hchanged
    have hzero : nodes ptr = 0 := not_not.mp (of_decide_eq_false hzero)
    refine ⟨hbefore, hkept.trans ?_⟩
    rw [← hzero, Function.update_eq_self]

theorem truncateAvail_inOrder (h : page.InOrder) (nslots : Nat) : (fsmTruncateAvail page nslots).2.InOrder := by
  rw [fsmTruncateAvail]
  dsimp only
  split
  · exact inOrder_rebuild _
  · next hunchanged =>
    have hkept := (clearFrom_unchanged (Bool.eq_false_of_not_eq_true hunchanged)).2
    rw [hkept]
    exact h

theorem truncateAvail_leaf (page : FSMPage) (nslots : Nat) {i : Nat} (hi : nonLeafNodesPerPage ≤ i) :
    (fsmTruncateAvail page nslots).2.fpNodes i =
      if nonLeafNodesPerPage + nslots ≤ i ∧ i < nodesPerPage then 0 else page.fpNodes i := by
  rw [fsmTruncateAvail]
  dsimp only
  split
  · exact (rebuild_leaf _ hi).trans (clearFrom_eq _ _ _ _)
  · exact clearFrom_eq _ _ _ _

theorem climb_le (hroot : minvalue ≤ nodes 0) (nodeno : Nat) : climb nodes minvalue nodeno ≤ nodeno ∧
    minvalue ≤ nodes (climb nodes minvalue nodeno) := by
  induction nodeno using Nat.strongRecOn with
  | ind nodeno ih =>
    rw [climb]
    split
    · next hpos =>
      split
      · next hfound => exact ⟨Nat.le_refl _, hfound⟩
      · obtain ⟨hle, hfound⟩ := ih _ (parentof_rightneighbor_lt hpos)
        exact ⟨hle.trans (parentof_rightneighbor_lt hpos).le, hfound⟩
    · next hzero =>
      rw [Nat.eq_zero_of_not_pos hzero]
      exact ⟨Nat.le_refl 0, hroot⟩

theorem descend_eq_some {leaf : Nat} (hnode : nodeno < nodesPerPage) (hle : minvalue ≤ nodes nodeno)
    (h : descend nodes minvalue nodeno = some leaf) :
    nonLeafNodesPerPage ≤ leaf ∧ leaf < nodesPerPage ∧ minvalue ≤ nodes leaf := by
  fun_induction descend nodes minvalue nodeno with
  | case1 nodeno hinner hleft ih => exact ih hleft.1 hleft.2 h
  | case2 nodeno hinner hleft hright ih => exact ih hright.1 hright.2 h
  | case3 => cases h
  | case4 nodeno hleaf =>
    cases h
    exact ⟨Nat.not_lt.mp hleaf, hnode, hle⟩

theorem descend_isSome (h : MaxTree nonLeafNodesPerPage nodesPerPage nodes) (hmin : 0 < minvalue)
    (hle : minvalue ≤ nodes nodeno) : ∃ leaf, descend nodes minvalue nodeno = some leaf := by
  fun_induction descend nodes minvalue nodeno with
  | case1 nodeno hinner hleft ih => exact ih hleft.2
  | case2 nodeno hinner hleft hright ih => exact ih hright.2
  | case3 nodeno hinner hleft hright =>
    rcases h.child_of_le hmin hinner hle with hchild | hchild
    · exact absurd hchild hleft
    · exact absurd hchild hright
  | case4 nodeno hleaf => exact ⟨nodeno, rfl⟩

def Found (minvalue : Uint8) (r : Int × FSMPage) : Prop :=
  r.1 = -1 ∨ ∃ slot < leafNodesPerPage, r.1 = (slot : Int) ∧ minvalue ≤ r.2.fpNodes (nonLeafNodesPerPage + slot)

variable {relock : FSMPage → FSMPage} {advancenext exclusiveLockHeld : Bool}

theorem target_lt (page : FSMPage) :
    (if page.fpNextSlot < 0 ∨ leafNodesPerPage ≤ page.fpNextSlot then 0 else page.fpNextSlot.toNat) +
      nonLeafNodesPerPage < nodesPerPage := by
  split
  · decide
  · next hsane =>
    rw [leafNodesPerPage] at hsane
    omega

theorem search_pass (page : FSMPage) (passes : Nat) : (page.fpNodes 0 < minvalue ∧
      fsmSearchAvail relock minvalue advancenext (passes + 1) exclusiveLockHeld page = some (-1, page)) ∨
    (minvalue ≤ page.fpNodes 0 ∧ ∃ slot < leafNodesPerPage, ∃ next,
      minvalue ≤ page.fpNodes (nonLeafNodesPerPage + slot) ∧
      fsmSearchAvail relock minvalue advancenext (passes + 1) exclusiveLockHeld page =
        some ((slot : Int), { page with fpNextSlot := next })) ∨
    ((0 < minvalue → ¬page.InOrder) ∧ fsmSearchAvail relock minvalue advancenext (passes + 1) exclusiveLockHeld page =
        fsmSearchAvail relock minvalue advancenext passes true
          (fsmRebuildPage (if exclusiveLockHeld then page else relock page)).2) := by
  have hpass : fsmSearchAvail relock minvalue advancenext (passes + 1) exclusiveLockHeld page =
      if page.fpNodes 0 < minvalue then some (-1, page) else _ := rfl
  rw [hpass]
  by_cases hroot : page.fpNodes 0 < minvalue
  · exact .inl ⟨hroot, if_pos hroot⟩
  · have hle : minvalue ≤ page.fpNodes 0 := not_lt.mp hroot
    have htarget := target_lt page
    rw [if_neg hroot]
    dsimp only
    generalize (if page.fpNextSlot < 0 ∨ leafNodesPerPage ≤ page.fpNextSlot then 0 else page.fpNextSlot.toNat) +
      nonLeafNodesPerPage = target at htarget ⊢
    obtain ⟨hclimb, hpromise⟩ := climb_le hle target
    cases hdescend : descend page.fpNodes minvalue (climb page.fpNodes minvalue target) with
    | some leaf =>
      obtain ⟨hleaf, hlt, hfound⟩ := descend_eq_some (Nat.lt_of_le_of_lt hclimb htarget) hpromise hdescend
      have hslot : nonLeafNodesPerPage + (leaf - nonLeafNodesPerPage) = leaf := Nat.add_sub_cancel' hleaf
      refine .inr (.inl ⟨hle, leaf - nonLeafNodesPerPage, ?_, _, ?_, rfl⟩)
      · rw [leafNodesPerPage]
        omega
      · rw [hslot]
        exact hfound
    | none =>
      refine .inr (.inr ⟨fun hmin hpage => ?_, rfl⟩)
      obtain ⟨leaf, hsome⟩ := descend_isSome hpage hmin hpromise
      rw [hdescend] at hsome
      cases hsome

theorem found_of_pass {passes : Nat} (hpage : page.InOrder) (hmin : 0 < minvalue) :
    ∃ r, fsmSearchAvail relock minvalue advancenext (passes + 1) exclusiveLockHeld page = some r ∧ Found minvalue r ∧
      (r.1 = -1 ↔ ∀ slot < leafNodesPerPage, page.fpNodes (nonLeafNodesPerPage + slot) < minvalue) := by
  have hiff := hpage.le_root_iff nodesPerPage_le (by decide) hmin
  rcases search_pass page passes with ⟨hroot, hread⟩ | ⟨hroot, slot, hslot, next, hfound, hread⟩ | ⟨htorn, -⟩
  · refine ⟨_, hread, .inl rfl, iff_of_true rfl fun slot hslot => ?_⟩
    have hbound := hpage.le_root nodesPerPage_le (slot_lt hslot)
    exact lt_of_le_of_lt hbound hroot
  · refine ⟨_, hread, .inr ⟨slot, hslot, rfl, hfound⟩, iff_of_false (by omega) fun hall => ?_⟩
    exact absurd hfound (not_le.mpr (hall slot hslot))
  · exact absurd hpage (htorn hmin)

theorem search_found (page : FSMPage) (hmin : 0 < minvalue) (passes : Nat) :
    ∃ r, fsmSearchAvail relock minvalue advancenext (passes + 2) exclusiveLockHeld page = some r ∧ Found minvalue r := by
  rcases search_pass page (passes + 1) with ⟨-, hread⟩ | ⟨-, slot, hslot, next, hfound, hread⟩ | ⟨-, hread⟩
  · exact ⟨_, hread, .inl rfl⟩
  · exact ⟨_, hread, .inr ⟨slot, hslot, rfl, hfound⟩⟩
  · obtain ⟨r, hagain, hfound, -⟩ := found_of_pass (inOrder_rebuild _) hmin
    exact ⟨r, hread.trans hagain, hfound⟩

/-- What a page keeps. -/
structure FSMPage.Kept (page : FSMPage) : Prop where
  search : ∀ relock minvalue advancenext exclusiveLockHeld passes, 0 < minvalue →
    ∃ r, fsmSearchAvail relock minvalue advancenext (passes + 2) exclusiveLockHeld page = some r ∧ Found minvalue r ∧
      (page.InOrder → (r.1 = -1 ↔ ∀ slot < leafNodesPerPage, page.fpNodes (nonLeafNodesPerPage + slot) < minvalue))
  setAvail : ∀ slot < leafNodesPerPage, ∀ value, (page.InOrder → (fsmSetAvail page slot value).2.InOrder) ∧
      ∀ i, nonLeafNodesPerPage ≤ i → (fsmSetAvail page slot value).2.fpNodes i =
        if i = nonLeafNodesPerPage + slot then value else page.fpNodes i
  truncateAvail : ∀ nslots, (page.InOrder → (fsmTruncateAvail page nslots).2.InOrder) ∧
      ∀ i, nonLeafNodesPerPage ≤ i → (fsmTruncateAvail page nslots).2.fpNodes i =
        if nonLeafNodesPerPage + nslots ≤ i ∧ i < nodesPerPage then 0 else page.fpNodes i
  rebuild : (fsmRebuildPage page).2.InOrder ∧
    ∀ i, nonLeafNodesPerPage ≤ i → (fsmRebuildPage page).2.fpNodes i = page.fpNodes i

theorem fsm_page_kept (page : FSMPage) : page.Kept where
  search := by
    intro relock minvalue advancenext exclusiveLockHeld passes hmin
    by_cases hpage : page.InOrder
    · obtain ⟨r, hread, hfound, hiff⟩ := found_of_pass hpage hmin
      exact ⟨r, hread, hfound, fun _ => hiff⟩
    · obtain ⟨r, hread, hfound⟩ := search_found page hmin passes
      exact ⟨r, hread, hfound, fun h => absurd h hpage⟩
  setAvail := fun slot hslot value => ⟨fun h => setAvail_inOrder h hslot, fun i hi => setAvail_leaf page hslot hi⟩
  truncateAvail := fun nslots => ⟨fun h => truncateAvail_inOrder h nslots, fun i hi => truncateAvail_leaf page nslots hi⟩
  rebuild := ⟨inOrder_rebuild page, fun i hi => rebuild_leaf page hi⟩

end CdcKafka.Fsm
