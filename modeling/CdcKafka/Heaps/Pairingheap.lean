import CdcKafka.Heaps.Binaryheap
import CdcKafka.Lib.Steps
import Mathlib.Logic.Function.Basic

/-! `lib/pairingheap.c`: a heap of nodes that are linked in memory, from which any node can be taken. -/

namespace CdcKafka.Pairingheap
open Binaryheap (TotalPreorder)
open Lib (drain drain_taken Taken TakesGreatest)

variable {ν : Type} [DecidableEq ν]

structure Node (ν : Type) where
  firstChild : Option ν
  nextSibling : Option ν
  prevOrParent : Option ν

abbrev Memory (ν : Type) := ν → Node ν

namespace Memory

variable (m : Memory ν)

def setFirst (v : ν) (p : Option ν) : Memory ν := Function.update m v { m v with firstChild := p }

def setNext (v : ν) (p : Option ν) : Memory ν := Function.update m v { m v with nextSibling := p }

def setPrev : Option ν → Option ν → Memory ν
  | none, _ => m
  | some v, p => Function.update m v { m v with prevOrParent := p }

end Memory

section
variable (compare : ν → ν → Int) (m : Memory ν)

def link (a b : ν) : Memory ν :=
  let m := m.setPrev (m a).firstChild (some b)
  let m := m.setPrev (some b) (some a)
  let m := m.setNext b (m a).firstChild
  m.setFirst a (some b)

def merge : Option ν → Option ν → Memory ν × Option ν
  | none, b => (m, b)
  | some a, none => (m, some a)
  | some a, some b => if compare a b < 0 then (link m b a, some b) else (link m a b, some a)

/-- The first loop of `merge_children`, which merges in pairs from left to right. The counter stands for its turns. -/
def mergePairs : Nat → Memory ν → Option ν → Option ν → Option (Memory ν × Option ν)
  | 0, _, _, _ => none
  | fuel + 1, m, next, pairs =>
    match next with
    | none => some (m, pairs)
    | some curr =>
      match (m curr).nextSibling with
      | none => some (m.setNext curr pairs, some curr)
      | some second =>
        match merge compare m (some curr) (some second) with
        | (_, none) => none
        | (m', some merged) => mergePairs fuel (m'.setNext merged pairs) (m second).nextSibling (some merged)

def mergeAll : Nat → Memory ν → Option ν → Option ν → Option (Memory ν × Option ν)
  | 0, _, _, _ => none
  | fuel + 1, m, newroot, next =>
    match next with
    | none => some (m, newroot)
    | some curr =>
      mergeAll fuel (merge compare m newroot (some curr)).1 (merge compare m newroot (some curr)).2 (m curr).nextSibling

def mergeChildren (fuel : Nat) (children : Option ν) : Option (Memory ν × Option ν) :=
  match children with
  | none => some (m, none)
  | some first =>
    if (m first).nextSibling = none then some (m, some first)
    else
      match mergePairs compare fuel m (some first) none with
      | some (m, some pairs) => mergeAll compare fuel m (some pairs) (m pairs).nextSibling
      | _ => none

end

structure Heap (ν : Type) where
  memory : Memory ν
  root : Option ν

def setRoot (m : Memory ν) : Option ν → Heap ν
  | none => ⟨m, none⟩
  | some r => ⟨(m.setPrev (some r) none).setNext r none, some r⟩

section
variable (compare : ν → ν → Int) (fuel : Nat) (h : Heap ν)

def pairingheapAdd (node : ν) : Heap ν :=
  let (m, root) := merge compare (h.memory.setFirst node none) h.root (some node)
  setRoot m root

def pairingheapFirst : Option ν := h.root

def pairingheapRemoveFirst : Option (Heap ν × ν) :=
  h.root.bind fun result =>
    (mergeChildren compare h.memory fuel (h.memory result).firstChild).map fun (m, root) => (setRoot m root, result)

/-- `*prev_ptr = p`, where the pointer is that to the first child of `prev` or that to its next sibling. -/
def setPtr (isFirst : Bool) (m : Memory ν) (prev : ν) (p : Option ν) : Memory ν :=
  if isFirst then m.setFirst prev p else m.setNext prev p

def pairingheapRemove (node : ν) : Option (Heap ν) :=
  if h.root = some node then (pairingheapRemoveFirst compare fuel h).map Prod.fst
  else
    let removed := h.memory node
    removed.prevOrParent.bind fun prev =>
      let isFirst := decide ((h.memory prev).firstChild = some node)
      if removed.firstChild = none then
        some ⟨(setPtr isFirst h.memory prev removed.nextSibling).setPrev removed.nextSibling removed.prevOrParent, h.root⟩
      else
        (mergeChildren compare h.memory fuel removed.firstChild).bind fun (m, replacement) =>
          replacement.map fun r =>
            let m := (m.setPrev (some r) removed.prevOrParent).setNext r removed.nextSibling
            ⟨(setPtr isFirst m prev (some r)).setPrev removed.nextSibling (some r), h.root⟩

end

inductive Forest (ν : Type)
  | nil
  | node (v : ν) (children siblings : Forest ν)

namespace Forest

def head : Forest ν → Option ν
  | nil => none
  | node v _ _ => some v

def nodes : Forest ν → Multiset ν
  | nil => 0
  | node v c s => v ::ₘ (c.nodes + s.nodes)

def Single : Forest ν → Prop
  | node _ _ (node ..) => False
  | _ => True

def Linked (m : Memory ν) : Option ν → Forest ν → Prop
  | _, nil => True
  | back, node v c s => m v = ⟨c.head, s.head, back⟩ ∧ Linked m (some v) c ∧ Linked m (some v) s

/-- As above, but the links back from the siblings are not looked at. -/
def Chained (m : Memory ν) : Forest ν → Prop
  | nil => True
  | node v c s => (m v).firstChild = c.head ∧ (m v).nextSibling = s.head ∧ Linked m (some v) c ∧ Chained m s

def Heaped (compare : ν → ν → Int) : Forest ν → Prop
  | nil => True
  | node v c s => (∀ u ∈ c.nodes, compare u v ≤ 0) ∧ Heaped compare c ∧ Heaped compare s

variable {m m' : Memory ν} {back : Option ν} {f g : Forest ν} {v : ν}

omit [DecidableEq ν] in
@[simp] theorem head_nil : (nil : Forest ν).head = none := rfl

omit [DecidableEq ν] in
@[simp] theorem head_node (v : ν) (c s : Forest ν) : (node v c s).head = some v := rfl

omit [DecidableEq ν] in
theorem head_mem (h : f.head = some v) : v ∈ f.nodes := by
  cases f with
  | nil => cases h
  | node w c s =>
    cases h
    exact Multiset.mem_cons_self _ _

omit [DecidableEq ν] in
theorem head_eq_none : f.head = none ↔ f = nil := by
  cases f with
  | nil => exact iff_of_true rfl rfl
  | node v c s => exact iff_of_false (fun h => by cases h) fun h => by cases h

omit [DecidableEq ν] in
theorem Linked.frame (h : Linked m back f) (hm : ∀ u ∈ f.nodes, m' u = m u) : Linked m' back f := by
  induction f generalizing back with
  | nil => exact h
  | node v c s ihc ihs =>
    obtain ⟨hv, hc, hs⟩ := h
    refine ⟨(hm v (Multiset.mem_cons_self _ _)).trans hv, ihc hc fun u hu => hm u ?_, ihs hs fun u hu => hm u ?_⟩
    · exact Multiset.mem_cons_of_mem (Multiset.mem_add.mpr (.inl hu))
    · exact Multiset.mem_cons_of_mem (Multiset.mem_add.mpr (.inr hu))

omit [DecidableEq ν] in
theorem Chained.frame (h : Chained m f) (hm : ∀ u ∈ f.nodes, m' u = m u) : Chained m' f := by
  induction f with
  | nil => exact h
  | node v c s _ ihs =>
    obtain ⟨hfirst, hnext, hc, hs⟩ := h
    rw [Chained, hm v (Multiset.mem_cons_self _ _)]
    refine ⟨hfirst, hnext, hc.frame fun u hu => hm u ?_, ihs hs fun u hu => hm u ?_⟩
    · exact Multiset.mem_cons_of_mem (Multiset.mem_add.mpr (.inl hu))
    · exact Multiset.mem_cons_of_mem (Multiset.mem_add.mpr (.inr hu))

omit [DecidableEq ν] in
theorem Linked.chained (h : Linked m back f) : Chained m f := by
  induction f generalizing back with
  | nil => trivial
  | node v c s _ ihs =>
    obtain ⟨hv, hc, hs⟩ := h
    rw [Chained, hv]
    exact ⟨rfl, rfl, hc, ihs hs⟩

theorem setPrev_of_not_mem {p : Option ν} (b : Option ν) (h : p ≠ some v) : m.setPrev p b v = m v := by
  cases p with
  | none => rfl
  | some w => exact Function.update_of_ne (fun heq => h (congrArg some heq.symm)) _ _

theorem Linked.setPrev (h : Linked m back f) (hnodup : f.nodes.Nodup) (b : Option ν) :
    Linked (m.setPrev f.head b) b f := by
  cases f with
  | nil => trivial
  | node v c s =>
    obtain ⟨hv, hc, hs⟩ := h
    obtain ⟨hnot, -⟩ := Multiset.nodup_cons.mp hnodup
    rw [Multiset.mem_add, not_or] at hnot
    refine ⟨?_, hc.frame fun u hu => ?_, hs.frame fun u hu => ?_⟩
    · rw [head, Memory.setPrev, Function.update_self, hv]
    · exact setPrev_of_not_mem b fun heq => hnot.1 (Option.some.inj heq ▸ hu)
    · exact setPrev_of_not_mem b fun heq => hnot.2 (Option.some.inj heq ▸ hu)

end Forest

open Forest

structure Subheap (compare : ν → ν → Int) (m : Memory ν) (v : ν) (c : Forest ν) : Prop where
  first : (m v).firstChild = c.head
  linked : Linked m (some v) c
  below : ∀ u ∈ c.nodes, compare u v ≤ 0
  heaped : Heaped compare c

variable {compare : ν → ν → Int} {m : Memory ν} {a b v : ν} {c d f g : Forest ν}

theorem link_spec (hcmp : TotalPreorder compare) (ha : Subheap compare m a c) (hb : Subheap compare m b d)
    (hnodup : (a ::ₘ c.nodes + b ::ₘ d.nodes).Nodup) (hle : compare b a ≤ 0) :
    Subheap compare (link m a b) a (.node b d c) ∧ ∀ u ∉ a ::ₘ c.nodes + b ::ₘ d.nodes, link m a b u = m u := by
  obtain ⟨hleft, hright, hdisj⟩ := Multiset.nodup_add.mp hnodup
  obtain ⟨hac, hc⟩ := Multiset.nodup_cons.mp hleft
  obtain ⟨hbd, -⟩ := Multiset.nodup_cons.mp hright
  have hab : a ≠ b := fun heq => Multiset.disjoint_left.mp hdisj (Multiset.mem_cons_self a _)
    (heq ▸ Multiset.mem_cons_self b _)
  have hbc : b ∉ c.nodes := fun hmem =>
    Multiset.disjoint_left.mp hdisj (Multiset.mem_cons_of_mem hmem) (Multiset.mem_cons_self b _)
  have had : a ∉ d.nodes := fun hmem =>
    Multiset.disjoint_left.mp hdisj (Multiset.mem_cons_self a _) (Multiset.mem_cons_of_mem hmem)
  have hcd : ∀ u ∈ c.nodes, u ∉ d.nodes := fun u hu hmem =>
    Multiset.disjoint_left.mp hdisj (Multiset.mem_cons_of_mem hu) (Multiset.mem_cons_of_mem hmem)
  have hheada : c.head ≠ some a := fun heq => hac (head_mem heq)
  have hheadb : c.head ≠ some b := fun heq => hbc (head_mem heq)
  -- what the four assignments leave in each node
  have hatb : link m a b b = ⟨d.head, c.head, some a⟩ := by
    rw [link, ha.first, Memory.setFirst, Function.update_of_ne hab.symm, Memory.setNext, Function.update_self,
      Memory.setPrev, Function.update_self, Function.update_of_ne hab, setPrev_of_not_mem _ hheadb,
      setPrev_of_not_mem _ hheada, ha.first]
    dsimp only
    rw [hb.first]
  have hata : (link m a b a).firstChild = some b := by rw [link, Memory.setFirst, Function.update_self]
  have hother : ∀ u, u ≠ a → u ≠ b → link m a b u = m.setPrev c.head (some b) u := by
    intro u hua hub
    rw [link, ha.first, Memory.setFirst, Function.update_of_ne hua, Memory.setNext, Function.update_of_ne hub,
      Memory.setPrev, Function.update_of_ne hub]
  have hother' : ∀ u, u ≠ a → u ≠ b → u ∉ c.nodes → link m a b u = m u := by
    intro u hua hub huc
    rw [hother u hua hub]
    exact setPrev_of_not_mem _ fun heq => huc (head_mem heq)
  refine ⟨⟨hata, ⟨hatb, ?_, ?_⟩, ?_, hb.below, hb.heaped, ha.heaped⟩, ?_⟩
  · refine hb.linked.frame fun u hu => hother' u ?_ ?_ fun hmem => hcd u hmem hu
    · exact fun heq => had (heq ▸ hu)
    · exact fun heq => hbd (heq ▸ hu)
  · refine (ha.linked.setPrev hc (some b)).frame fun u hu => hother u ?_ ?_
    · exact fun heq => hac (heq ▸ hu)
    · exact fun heq => hbc (heq ▸ hu)
  · intro u hu
    rw [Forest.nodes, Multiset.mem_cons, Multiset.mem_add] at hu
    rcases hu with rfl | hu | hu
    · exact hle
    · exact hcmp.trans u b a (hb.below u hu) hle
    · exact ha.below u hu
  · intro u hu
    rw [Multiset.mem_add, Multiset.mem_cons, Multiset.mem_cons, not_or, not_or, not_or] at hu
    exact hother' u hu.1.1 hu.2.1 hu.1.2

theorem merge_spec (hcmp : TotalPreorder compare) (ha : Subheap compare m a c) (hb : Subheap compare m b d)
    (hnodup : (a ::ₘ c.nodes + b ::ₘ d.nodes).Nodup) :
    ∃ m' r e, merge compare m (some a) (some b) = (m', some r) ∧ Subheap compare m' r e ∧
      r ::ₘ e.nodes = a ::ₘ c.nodes + b ::ₘ d.nodes ∧ ∀ u ∉ a ::ₘ c.nodes + b ::ₘ d.nodes, m' u = m u := by
  rw [merge]
  split
  · next hlt =>
    rw [add_comm] at hnodup ⊢
    obtain ⟨hsub, hframe⟩ := link_spec hcmp hb ha hnodup hlt.le
    refine ⟨_, b, _, rfl, hsub, ?_, hframe⟩
    rw [Forest.nodes, Multiset.cons_add, Multiset.add_cons, add_comm c.nodes]
  · next hge =>
    obtain ⟨hsub, hframe⟩ := link_spec hcmp ha hb hnodup (hcmp.of_nonneg (Int.not_lt.mp hge))
    refine ⟨_, a, _, rfl, hsub, ?_, hframe⟩
    rw [Forest.nodes, Multiset.cons_add, Multiset.add_cons, add_comm c.nodes]

omit [DecidableEq ν] in
theorem card_node_lt {n : Nat} (h : (Forest.node v c f).nodes.card < n + 1) : f.nodes.card < n := by
  rw [Forest.nodes, Multiset.card_cons, Multiset.card_add] at h
  omega

theorem mergePairs_spec (hcmp : TotalPreorder compare) (fuel : Nat) (hf : Chained m f) (hg : Chained m g)
    (hfh : Heaped compare f) (hgh : Heaped compare g) (hnodup : (f.nodes + g.nodes).Nodup)
    (hfuel : f.nodes.card < fuel) :
    ∃ m' g', mergePairs compare fuel m f.head g.head = some (m', g'.head) ∧ Chained m' g' ∧ Heaped compare g' ∧
      g'.nodes = f.nodes + g.nodes ∧ ∀ u ∉ f.nodes + g.nodes, m' u = m u := by
  induction fuel generalizing m f g with
  | zero => exact absurd hfuel (Nat.not_lt_zero _)
  | succ fuel ih =>
    obtain ⟨hfn, hgn, hdisj⟩ := Multiset.nodup_add.mp hnodup
    cases f with
    | nil => exact ⟨m, g, rfl, hg, hgh, (zero_add _).symm, fun _ _ => rfl⟩
    | node v c s =>
      obtain ⟨hfirst, hnext, hc, hs⟩ := hf
      obtain ⟨hbelow, hch, hsh⟩ := hfh
      obtain ⟨hvs, hcsn⟩ := Multiset.nodup_cons.mp hfn
      cases s with
      | nil =>
        -- the last odd node
        rw [mergePairs.eq_def]
        dsimp only [head_node]
        rw [hnext]
        have hother : ∀ u, u ≠ v → m.setNext v g.head u = m u := fun u hu => Function.update_of_ne hu _ _
        have hvg : v ∉ g.nodes := Multiset.disjoint_left.mp hdisj (Multiset.mem_cons_self _ _)
        have hvc : v ∉ c.nodes := fun hmem => hvs (Multiset.mem_add.mpr (.inl hmem))
        refine ⟨_, .node v c g, rfl, ⟨?_, ?_, ?_, ?_⟩, ⟨hbelow, hch, hgh⟩, ?_, fun u hu => hother u ?_⟩
        · rw [Memory.setNext, Function.update_self]
          exact hfirst
        · rw [Memory.setNext, Function.update_self]
        · exact hc.frame fun u hu => hother u fun heq => hvc (heq ▸ hu)
        · exact hg.frame fun u hu => hother u fun heq => hvg (heq ▸ hu)
        · rw [Forest.nodes, Forest.nodes, Forest.nodes, add_zero, Multiset.cons_add]
        · exact fun heq => hu (heq ▸ Multiset.mem_add.mpr (.inl (Multiset.mem_cons_self _ _)))
      | node w d s =>
        obtain ⟨hfirst', hnext', hd, hs'⟩ := hs
        obtain ⟨hbelow', hdh, hsh'⟩ := hsh
        have hsplit : (Forest.node v c (.node w d s)).nodes = (v ::ₘ c.nodes + w ::ₘ d.nodes) + s.nodes := by
          rw [Forest.nodes, Forest.nodes, Multiset.cons_add, Multiset.cons_add, Multiset.add_cons, Multiset.add_cons,
            Multiset.cons_add, add_assoc]
        rw [hsplit] at hfn hdisj hfuel ⊢
        obtain ⟨hpair, hsn, hps⟩ := Multiset.nodup_add.mp hfn
        obtain ⟨m₁, r, e, hmerge, hsub, hnodes, hframe⟩ :=
          merge_spec hcmp ⟨hfirst, hc, hbelow, hch⟩ ⟨hfirst', hd, hbelow', hdh⟩ hpair
        rw [mergePairs.eq_def]
        dsimp only [head_node]
        rw [hnext]
        dsimp only [head_node]
        rw [hmerge, hnext']
        dsimp only
        -- the merged tree goes in front of the pairs
        have hre : r ∉ e.nodes ∧ e.nodes.Nodup := by
          rw [← hnodes] at hpair
          exact Multiset.nodup_cons.mp hpair
        have hrin : r ∈ v ::ₘ c.nodes + w ::ₘ d.nodes := hnodes ▸ Multiset.mem_cons_self _ _
        have hother : ∀ u, u ≠ r → m₁.setNext r g.head u = m₁ u := fun u hu => Function.update_of_ne hu _ _
        have houtside : ∀ u ∉ v ::ₘ c.nodes + w ::ₘ d.nodes, m₁.setNext r g.head u = m u := fun u hu =>
          (hother u fun heq => hu (heq ▸ hrin)).trans (hframe u hu)
        have hpg : Disjoint (v ::ₘ c.nodes + w ::ₘ d.nodes) g.nodes := (Multiset.disjoint_add_left.mp hdisj).1
        have hsg : Disjoint s.nodes g.nodes := (Multiset.disjoint_add_left.mp hdisj).2
        have hmoved : (Forest.node r e g).nodes = (v ::ₘ c.nodes + w ::ₘ d.nodes) + g.nodes := by
          rw [Forest.nodes, ← Multiset.cons_add, hnodes]
        obtain ⟨m', g', hloop, hchain, hheap, hall, hout⟩ := ih (m := m₁.setNext r g.head) (f := s) (g := .node r e g)
          (hs'.frame fun u hu => houtside u fun hmem => Multiset.disjoint_left.mp hps hmem hu)
          ⟨by rw [Memory.setNext, Function.update_self]; exact hsub.first, by rw [Memory.setNext, Function.update_self],
            hsub.linked.frame fun u hu => hother u fun heq => hre.1 (heq ▸ hu),
            hg.frame fun u hu => houtside u fun hmem => Multiset.disjoint_left.mp hpg hmem hu⟩
          hsh' ⟨hsub.below, hsub.heaped, hgh⟩
          (by
            rw [hmoved]
            exact Multiset.nodup_add.mpr ⟨hsn, Multiset.nodup_add.mpr ⟨hpair, hgn, hpg⟩,
              Multiset.disjoint_add_right.mpr ⟨hps.symm, hsg⟩⟩)
          (by
            rw [Multiset.card_add, Multiset.card_add, Multiset.card_cons] at hfuel
            omega)
        refine ⟨m', g', hloop, hchain, hheap, ?_, fun u hu => ?_⟩
        · rw [hall, hmoved]
          exact (add_left_comm _ _ _).trans (add_assoc _ _ _).symm
        · rw [Multiset.mem_add, Multiset.mem_add, not_or, not_or] at hu
          rw [hout u, houtside u hu.1.1]
          rw [hmoved, Multiset.mem_add, Multiset.mem_add, not_or, not_or]
          exact ⟨hu.1.2, hu.1.1, hu.2⟩

theorem mergeAll_spec (hcmp : TotalPreorder compare) (fuel : Nat) (hv : Subheap compare m v c) (hf : Chained m f)
    (hfh : Heaped compare f) (hnodup : (v ::ₘ c.nodes + f.nodes).Nodup) (hfuel : f.nodes.card < fuel) :
    ∃ m' r e, mergeAll compare fuel m (some v) f.head = some (m', some r) ∧ Subheap compare m' r e ∧
      r ::ₘ e.nodes = v ::ₘ c.nodes + f.nodes ∧ ∀ u ∉ v ::ₘ c.nodes + f.nodes, m' u = m u := by
  induction fuel generalizing m v c f with
  | zero => exact absurd hfuel (Nat.not_lt_zero _)
  | succ fuel ih =>
    cases f with
    | nil => exact ⟨m, v, c, rfl, hv, (add_zero _).symm, fun _ _ => rfl⟩
    | node w d s =>
      obtain ⟨hfirst, hnext, hd, hs⟩ := hf
      obtain ⟨hbelow, hdh, hsh⟩ := hfh
      have hsplit : v ::ₘ c.nodes + (Forest.node w d s).nodes = (v ::ₘ c.nodes + w ::ₘ d.nodes) + s.nodes := by
        rw [Forest.nodes, ← Multiset.cons_add, add_assoc]
      rw [hsplit] at hnodup ⊢
      obtain ⟨hpair, hsn, hps⟩ := Multiset.nodup_add.mp hnodup
      obtain ⟨m₁, r, e, hmerge, hsub, hnodes, hframe⟩ := merge_spec hcmp hv ⟨hfirst, hd, hbelow, hdh⟩ hpair
      rw [mergeAll.eq_def]
      dsimp only [head_node]
      rw [hmerge, hnext]
      rw [← hnodes] at hnodup ⊢
      obtain ⟨m', r', e', hloop, hsub', hall, hout⟩ := ih hsub
        (hs.frame fun u hu => hframe u fun hmem => Multiset.disjoint_left.mp hps hmem hu) hsh hnodup (card_node_lt hfuel)
      refine ⟨m', r', e', hloop, hsub', hall, fun u hu => (hout u hu).trans (hframe u ?_)⟩
      rw [← hnodes]
      exact fun hmem => hu (Multiset.mem_add.mpr (.inl hmem))

theorem mergeChildren_spec (hcmp : TotalPreorder compare) {fuel : Nat} {back : Option ν} (hf : Linked m back f)
    (hfh : Heaped compare f) (hnodup : f.nodes.Nodup) (hfuel : f.nodes.card < fuel) (hne : f ≠ .nil) :
    ∃ m' r e, mergeChildren compare m fuel f.head = some (m', some r) ∧ Subheap compare m' r e ∧
      r ::ₘ e.nodes = f.nodes ∧ ∀ u ∉ f.nodes, m' u = m u := by
  have hchain := hf.chained
  cases f with
  | nil => exact absurd rfl hne
  | node v c s =>
    rw [mergeChildren.eq_def]
    dsimp only [head_node]
    split
    · next hnone =>
      obtain ⟨hfirst, hnext, hc, -⟩ := hchain
      obtain rfl : s = .nil := head_eq_none.mp (hnext.symm.trans hnone)
      refine ⟨m, v, c, rfl, ⟨hfirst, hc, hfh.1, hfh.2.1⟩, ?_, fun _ _ => rfl⟩
      rw [Forest.nodes, Forest.nodes, add_zero]
    · obtain ⟨m₁, g, hpairs, hgchain, hgh, hgnodes, hframe⟩ := mergePairs_spec hcmp fuel hchain
        (g := .nil) trivial hfh trivial (by rw [Forest.nodes, add_zero]; exact hnodup) hfuel
      rw [Forest.nodes, add_zero] at hgnodes hframe
      dsimp only [head_node, head_nil] at hpairs
      rw [hpairs]
      cases g with
      | nil =>
        rw [Forest.nodes] at hgnodes
        exact absurd hgnodes.symm (Multiset.cons_ne_zero)
      | node w d s' =>
        obtain ⟨hfirst, hnext, hd, hs⟩ := hgchain
        rw [← hgnodes] at hnodup hfuel hframe ⊢
        obtain ⟨m', r, e, hloop, hsub, hall, hout⟩ := mergeAll_spec hcmp fuel ⟨hfirst, hd, hgh.1, hgh.2.1⟩ hs hgh.2.2
          (by rw [Forest.nodes] at hnodup; rwa [Multiset.cons_add]) (card_node_lt (hfuel.trans (Nat.lt_succ_self _)))
        rw [Multiset.cons_add] at hall hout
        dsimp only [head_node]
        rw [hnext]
        exact ⟨m', r, e, hloop, hsub, hall, fun u hu => (hout u hu).trans (hframe u hu)⟩

/-- The node `v` has the children `c` and the siblings `s`, and the pointer to it lies in `prev`. -/
structure Place (m : Memory ν) (f : Forest ν) (v prev : ν) (c s : Forest ν) (rest : Multiset ν) : Prop where
  self : m v = ⟨c.head, s.head, some prev⟩
  children : Linked m (some v) c
  siblings : Linked m (some v) s
  pointer : (m prev).firstChild = some v ∨ (m prev).firstChild ≠ some v ∧ (m prev).nextSibling = some v
  mem : prev ∈ rest
  nodes : f.nodes = rest + (Forest.node v c s).nodes

def Replaceable (compare : ν → ν → Int) (m : Memory ν) (back : Option ν) (f : Forest ν) (v prev : ν) (c s : Forest ν)
    (rest : Multiset ν) : Prop :=
  ∀ m' g, g.nodes ⊆ (Forest.node v c s).nodes → Heaped compare g → Linked m' (some prev) g →
    m' prev = setPtr (decide ((m prev).firstChild = some v)) m prev g.head prev → (∀ u ∈ rest, u ≠ prev → m' u = m u) →
    ∃ f', f'.head = f.head ∧ Linked m' back f' ∧ f'.nodes = rest + g.nodes ∧ Heaped compare f' ∧ (f.Single → f'.Single)

theorem exists_place {back : Option ν} (hf : Linked m back f) (hfh : Heaped compare f) (hnodup : f.nodes.Nodup)
    (hv : v ∈ f.nodes) (hne : f.head ≠ some v) :
    ∃ prev c s rest, Place m f v prev c s rest ∧ Heaped compare (.node v c s) ∧
      Replaceable compare m back f v prev c s rest := by
  induction f generalizing back with
  | nil => cases hv
  | node w c s ihc ihs =>
    obtain ⟨hw, hc, hs⟩ := hf
    obtain ⟨hbelow, hch, hsh⟩ := hfh
    obtain ⟨hwcs, hcs⟩ := Multiset.nodup_cons.mp hnodup
    obtain ⟨hcn, hsn, hdisj⟩ := Multiset.nodup_add.mp hcs
    rw [Multiset.mem_add, not_or] at hwcs
    have hwv : w ≠ v := fun heq => hne (congrArg some heq)
    have hin := (Multiset.mem_cons.mp hv).resolve_left (Ne.symm hwv)
    by_cases hvc : v ∈ c.nodes
    · by_cases hhead : c.head = some v
      · -- the first child
        cases c with
        | nil => cases hvc
        | node x d t =>
          cases hhead
          obtain ⟨hx, hd, ht⟩ := hc
          refine ⟨w, d, t, w ::ₘ s.nodes, ⟨hx, hd, ht, .inl (by rw [hw]; rfl), Multiset.mem_cons_self _ _, ?_⟩, hch, ?_⟩
          · rw [Forest.nodes, Multiset.cons_add, add_comm s.nodes]
          · intro m' g hsub hgh hg hprev hrest
            have hset : m' w = ⟨g.head, s.head, back⟩ := by
              rw [hprev, setPtr, if_pos (decide_eq_true (by rw [hw]; rfl)), Memory.setFirst, Function.update_self, hw]
            refine ⟨.node w g s, rfl, ⟨hset, hg, hs.frame fun u hu => hrest u (Multiset.mem_cons_of_mem hu) ?_⟩, ?_,
              ⟨fun u hu => hbelow u (hsub hu), hgh, hsh⟩, fun hsingle => by cases s <;> exact hsingle⟩
            · exact fun heq => hwcs.2 (heq ▸ hu)
            · rw [Forest.nodes, Multiset.cons_add, add_comm s.nodes]
      · obtain ⟨prev, d, t, rest, hplace, hplh, hreplace⟩ := ihc hc hch hcn hvc hhead
        have hnodes := hplace.nodes
        have hsubset : ∀ u ∈ rest, u ∈ c.nodes := fun u hu => hnodes ▸ Multiset.mem_add.mpr (.inl hu)
        refine ⟨prev, d, t, w ::ₘ (rest + s.nodes), ⟨hplace.self, hplace.children, hplace.siblings, hplace.pointer,
          Multiset.mem_cons_of_mem (Multiset.mem_add.mpr (.inl hplace.mem)), ?_⟩, hplh, ?_⟩
        · rw [Forest.nodes, hnodes, Multiset.cons_add, add_right_comm]
        · intro m' g hsub hgh hg hprev hrest
          obtain ⟨c', hhead', hc', hnodes', hheap', -⟩ := hreplace m' g hsub hgh hg hprev fun u hu =>
            hrest u (Multiset.mem_cons_of_mem (Multiset.mem_add.mpr (.inl hu)))
          have hwprev : w ≠ prev := fun heq => hwcs.1 (heq ▸ hsubset prev hplace.mem)
          have hset : m' w = ⟨c'.head, s.head, back⟩ := by
            rw [hrest w (Multiset.mem_cons_self _ _) hwprev, hw, hhead']
          refine ⟨.node w c' s, rfl, ⟨hset, hc', hs.frame fun u hu => hrest u ?_ fun heq => ?_⟩, ?_,
            ⟨fun u hu => hbelow u ?_, hheap', hsh⟩, fun hsingle => by cases s <;> exact hsingle⟩
          · exact Multiset.mem_cons_of_mem (Multiset.mem_add.mpr (.inr hu))
          · exact Multiset.disjoint_left.mp hdisj (hsubset prev hplace.mem) (heq ▸ hu)
          · rw [Forest.nodes, hnodes', Multiset.cons_add, add_right_comm]
          · rw [hnodes', Multiset.mem_add] at hu
            rw [hnodes, Multiset.mem_add]
            exact hu.imp_right fun hu => hsub hu
    · have hvs := (Multiset.mem_add.mp hin).resolve_left hvc
      have hmany : ¬ (Forest.node w c s).Single := by
        cases s with
        | nil => cases hvs
        | node => exact not_false
      by_cases hhead : s.head = some v
      · -- the next sibling
        cases s with
        | nil => cases hvs
        | node x d t =>
          cases hhead
          obtain ⟨hx, hd, ht⟩ := hs
          have hfirst : (m w).firstChild ≠ some v := by
            rw [hw]
            exact fun heq => hvc (head_mem heq)
          refine ⟨w, d, t, w ::ₘ c.nodes, ⟨hx, hd, ht, .inr ⟨hfirst, by rw [hw]; rfl⟩, Multiset.mem_cons_self _ _, ?_⟩,
            hsh, ?_⟩
          · rw [Forest.nodes, Multiset.cons_add]
          · intro m' g hsub hgh hg hprev hrest
            have hset : m' w = ⟨c.head, g.head, back⟩ := by
              rw [hprev, setPtr, if_neg (by rwa [decide_eq_true_iff]), Memory.setNext, Function.update_self, hw]
            refine ⟨.node w c g, rfl, ⟨hset, hc.frame fun u hu => hrest u (Multiset.mem_cons_of_mem hu) ?_, hg⟩, ?_,
              ⟨hbelow, hch, hgh⟩, fun hsingle => absurd hsingle hmany⟩
            · exact fun heq => hwcs.1 (heq ▸ hu)
            · rw [Forest.nodes, Multiset.cons_add]
      · obtain ⟨prev, d, t, rest, hplace, hplh, hreplace⟩ := ihs hs hsh hsn hvs hhead
        have hnodes := hplace.nodes
        have hsubset : ∀ u ∈ rest, u ∈ s.nodes := fun u hu => hnodes ▸ Multiset.mem_add.mpr (.inl hu)
        refine ⟨prev, d, t, w ::ₘ (c.nodes + rest), ⟨hplace.self, hplace.children, hplace.siblings, hplace.pointer,
          Multiset.mem_cons_of_mem (Multiset.mem_add.mpr (.inr hplace.mem)), ?_⟩, hplh, ?_⟩
        · rw [Forest.nodes, hnodes, Multiset.cons_add, add_assoc]
        · intro m' g hsub hgh hg hprev hrest
          obtain ⟨s', hhead', hs', hnodes', hheap', -⟩ := hreplace m' g hsub hgh hg hprev fun u hu =>
            hrest u (Multiset.mem_cons_of_mem (Multiset.mem_add.mpr (.inr hu)))
          have hwprev : w ≠ prev := fun heq => hwcs.2 (heq ▸ hsubset prev hplace.mem)
          have hset : m' w = ⟨c.head, s'.head, back⟩ := by
            rw [hrest w (Multiset.mem_cons_self _ _) hwprev, hw, hhead']
          refine ⟨.node w c s', rfl, ⟨hset, hc.frame fun u hu => hrest u ?_ fun heq => ?_, hs'⟩, ?_,
            ⟨hbelow, hch, hheap'⟩, fun hsingle => absurd hsingle hmany⟩
          · exact Multiset.mem_cons_of_mem (Multiset.mem_add.mpr (.inl hu))
          · exact Multiset.disjoint_left.mp hdisj (heq ▸ hu) (hsubset prev hplace.mem)
          · rw [Forest.nodes, hnodes', Multiset.cons_add, add_assoc]

structure Holds (compare : ν → ν → Int) (h : Heap ν) (f : Forest ν) : Prop where
  root : h.root = f.head
  linked : Linked h.memory none f
  single : f.Single
  nodup : f.nodes.Nodup
  heaped : Heaped compare f

variable {h : Heap ν} {fuel : Nat} {node : ν}

theorem setRoot_holds {r : ν} {e : Forest ν} (hsub : Subheap compare m r e) (hnodup : (r ::ₘ e.nodes).Nodup) :
    Holds compare (setRoot m (some r)) (.node r e .nil) where
  root := rfl
  linked := by
    obtain ⟨hre, -⟩ := Multiset.nodup_cons.mp hnodup
    refine ⟨?_, hsub.linked.frame fun u hu => ?_, trivial⟩
    · dsimp only [setRoot]
      rw [Memory.setNext, Function.update_self, Memory.setPrev, Function.update_self]
      dsimp only
      rw [hsub.first]
      rfl
    · have hne : u ≠ r := fun heq => hre (heq ▸ hu)
      dsimp only [setRoot]
      rw [Memory.setNext, Function.update_of_ne hne, Memory.setPrev, Function.update_of_ne hne]
  single := trivial
  nodup := by
    rw [Forest.nodes, Forest.nodes, add_zero]
    exact hnodup
  heaped := ⟨hsub.below, hsub.heaped, trivial⟩

theorem Holds.add (hcmp : TotalPreorder compare) (hh : Holds compare h f) (hnode : node ∉ f.nodes) :
    ∃ f', Holds compare (pairingheapAdd compare h node) f' ∧ f'.nodes = node ::ₘ f.nodes := by
  have hother : ∀ u, u ≠ node → h.memory.setFirst node none u = h.memory u := fun u hu => Function.update_of_ne hu _ _
  have hone : Subheap compare (h.memory.setFirst node none) node .nil :=
    ⟨by rw [Memory.setFirst, Function.update_self]; rfl, trivial, fun u hu => absurd hu (Multiset.notMem_zero u), trivial⟩
  rw [pairingheapAdd, hh.root]
  cases f with
  | nil =>
    refine ⟨.node node .nil .nil, setRoot_holds hone ?_, rfl⟩
    exact Multiset.nodup_singleton node
  | node v c s =>
    obtain rfl : s = .nil := by
      cases s with
      | nil => rfl
      | node => exact hh.single.elim
    obtain ⟨hv, hc, -⟩ := hh.linked
    obtain ⟨hbelow, hch, -⟩ := hh.heaped
    have hnodes : (Forest.node v c .nil).nodes = v ::ₘ c.nodes := by rw [Forest.nodes, Forest.nodes, add_zero]
    have hnodup := hh.nodup
    rw [hnodes] at hnode hnodup ⊢
    rw [Multiset.mem_cons, not_or] at hnode
    have hroot : Subheap compare (h.memory.setFirst node none) v c := by
      refine ⟨?_, hc.frame fun u hu => hother u fun heq => hnode.2 (heq ▸ hu), hbelow, hch⟩
      rw [hother v (Ne.symm hnode.1), hv]
    have hall : v ::ₘ c.nodes + node ::ₘ (Forest.nil : Forest ν).nodes = node ::ₘ v ::ₘ c.nodes := by
      rw [Forest.nodes, Multiset.add_cons, add_zero]
    have hnodup' : (node ::ₘ v ::ₘ c.nodes).Nodup :=
      Multiset.nodup_cons.mpr ⟨by rw [Multiset.mem_cons, not_or]; exact hnode, hnodup⟩
    obtain ⟨m', r, e, hmerge, hsub, hmerged, -⟩ := merge_spec hcmp hroot hone (hall ▸ hnodup')
    rw [hall] at hmerged
    dsimp only [head_node]
    rw [hmerge]
    refine ⟨.node r e .nil, setRoot_holds hsub (hmerged ▸ hnodup'), ?_⟩
    rw [Forest.nodes, Forest.nodes, add_zero, hmerged]

theorem Holds.removeFirst (hcmp : TotalPreorder compare) (hh : Holds compare h f) (hfuel : f.nodes.card ≤ fuel)
    (hne : f ≠ .nil) : ∃ h' r f', pairingheapRemoveFirst compare fuel h = some (h', r) ∧ Holds compare h' f' ∧
      r ::ₘ f'.nodes = f.nodes ∧ h.root = some r := by
  have hroot := hh.root
  cases f with
  | nil => exact absurd rfl hne
  | node v c s =>
    obtain rfl : s = .nil := by
      cases s with
      | nil => rfl
      | node => exact hh.single.elim
    obtain ⟨hv, hc, -⟩ := hh.linked
    have hnodes : (Forest.node v c .nil).nodes = v ::ₘ c.nodes := by rw [Forest.nodes, Forest.nodes, add_zero]
    have hnodup := hh.nodup
    rw [hnodes] at hnodup hfuel ⊢
    rw [Multiset.card_cons] at hfuel
    have hcn := (Multiset.nodup_cons.mp hnodup).2
    rw [pairingheapRemoveFirst, hroot]
    dsimp only [head_node, Option.bind_some]
    rw [hv]
    dsimp only
    by_cases hnil : c = .nil
    · rw [hnil]
      exact ⟨_, v, .nil, rfl, ⟨rfl, trivial, trivial, Multiset.nodup_zero, trivial⟩, rfl, rfl⟩
    · have hcard : c.nodes.card < fuel := by omega
      obtain ⟨m', r, e, hmerge, hsub, hmerged, -⟩ := mergeChildren_spec hcmp hc hh.heaped.2.1 hcn hcard hnil
      rw [hmerge]
      refine ⟨_, v, .node r e .nil, rfl, setRoot_holds hsub (hmerged ▸ hcn), ?_, rfl⟩
      rw [Forest.nodes, Forest.nodes, add_zero, hmerged]

theorem Holds.remove (hcmp : TotalPreorder compare) (hh : Holds compare h f) (hfuel : f.nodes.card ≤ fuel)
    (hv : v ∈ f.nodes) : ∃ h' f', pairingheapRemove compare fuel h v = some h' ∧ Holds compare h' f' ∧
      v ::ₘ f'.nodes = f.nodes := by
  rw [pairingheapRemove]
  split
  · next hroot =>
    have hne : f ≠ .nil := fun heq => by
      rw [heq] at hv
      exact Multiset.notMem_zero v hv
    obtain ⟨h', r, f', hfirst, hholds, hnodes, hr⟩ := hh.removeFirst hcmp hfuel hne
    cases hroot.symm.trans hr
    rw [hfirst]
    exact ⟨h', f', rfl, hholds, hnodes⟩
  · next hroot =>
    rw [hh.root] at hroot
    obtain ⟨prev, c, s, rest, hplace, hplh, hreplace⟩ := exists_place hh.linked hh.heaped hh.nodup hv hroot
    have hnodup := hh.nodup
    have hall := hplace.nodes
    rw [hall] at hnodup hfuel
    obtain ⟨hrest, hsub, hdisj⟩ := Multiset.nodup_add.mp hnodup
    obtain ⟨hvcs, hcs⟩ := Multiset.nodup_cons.mp hsub
    obtain ⟨hcn, hsn, hcsd⟩ := Multiset.nodup_add.mp hcs
    have hout : ∀ u ∈ rest, u ∉ c.nodes ∧ u ∉ s.nodes := by
      intro u hu
      have hnot := Multiset.disjoint_left.mp hdisj hu
      rw [Forest.nodes, Multiset.mem_cons, Multiset.mem_add, not_or, not_or] at hnot
      exact hnot.2
    have hprev := hout prev hplace.mem
    rw [hplace.self]
    dsimp only [Option.bind_some]
    set isFirst := decide ((h.memory prev).firstChild = some v) with hisFirst
    have hptr : ∀ (m : Memory ν) (p : Option ν) (u : ν), u ≠ prev → setPtr isFirst m prev p u = m u := by
      intro m p u hu
      unfold setPtr
      split
      · exact Function.update_of_ne hu _ _
      · exact Function.update_of_ne hu _ _
    have hptr' : ∀ (m m' : Memory ν) (p : Option ν), m prev = m' prev →
        setPtr isFirst m prev p prev = setPtr isFirst m' prev p prev := by
      intro m m' p hm
      unfold setPtr
      split
      · rw [Memory.setFirst, Memory.setFirst, Function.update_self, Function.update_self, hm]
      · rw [Memory.setNext, Memory.setNext, Function.update_self, Function.update_self, hm]
    have hheads : ∀ {u : ν}, u ∉ s.nodes → s.head ≠ some u := fun hu heq => hu (head_mem heq)
    obtain ⟨hbelow, hch, hsh⟩ := hplh
    have hdone : ∀ {m' : Memory ν} {g f' : Forest ν}, f'.head = f.head → Linked m' none f' → f'.nodes = rest + g.nodes →
        Heaped compare f' → (f.Single → f'.Single) → g.nodes = c.nodes + s.nodes →
        ∃ h' f', some (⟨m', h.root⟩ : Heap ν) = some h' ∧ Holds compare h' f' ∧ v ::ₘ f'.nodes = f.nodes := by
      intro m' g f' hhead hlinked hnodes hheap hsingle hg
      have heq : v ::ₘ f'.nodes = f.nodes := by rw [hnodes, hg, hall, Forest.nodes, Multiset.add_cons]
      refine ⟨_, f', rfl, ⟨hh.root.trans hhead.symm, hlinked, hsingle hh.single, ?_, hheap⟩, heq⟩
      exact (Multiset.nodup_cons.mp (heq ▸ hh.nodup)).2
    split
    · next hnone =>
      have hnil := head_eq_none.mp hnone
      obtain ⟨f', hhead, hlinked, hnodes, hheap, hsingle⟩ := hreplace
        ((setPtr isFirst h.memory prev s.head).setPrev s.head (some prev)) s
        (fun u hu => Multiset.mem_cons_of_mem (Multiset.mem_add.mpr (.inr hu))) hsh
        ((hplace.siblings.frame fun u hu => hptr _ _ u fun heq => hprev.2 (heq ▸ hu)).setPrev hsn _)
        (setPrev_of_not_mem _ (hheads hprev.2)) fun u hu hne => by
          rw [setPrev_of_not_mem _ (hheads (hout u hu).2), hptr _ _ u hne]
      exact hdone hhead hlinked hnodes hheap hsingle (by rw [hnil, Forest.nodes, zero_add])
    · next hsome =>
      have hnil : c ≠ .nil := fun heq => hsome (head_eq_none.mpr heq)
      rw [Forest.nodes, Multiset.card_add, Multiset.card_cons, Multiset.card_add] at hfuel
      have hcard : c.nodes.card < fuel := by omega
      obtain ⟨m₁, r, e, hmerge, hsubheap, hmerged, hframe⟩ :=
        mergeChildren_spec hcmp hplace.children hch hcn hcard hnil
      rw [hmerge]
      dsimp only [Option.bind_some, Option.map_some]
      have hrc : r ∈ c.nodes := hmerged ▸ Multiset.mem_cons_self _ _
      have hre := (Multiset.nodup_cons.mp (hmerged ▸ hcn)).1
      have hec : ∀ u ∈ e.nodes, u ∈ c.nodes := fun u hu => hmerged ▸ Multiset.mem_cons_of_mem hu
      have hrs : r ∉ s.nodes := Multiset.disjoint_left.mp hcsd hrc
      have hrp : r ≠ prev := fun heq => hprev.1 (heq ▸ hrc)
      set m₂ := (m₁.setPrev (some r) (some prev)).setNext r s.head with hm₂
      have hm₂r : m₂ r = ⟨e.head, s.head, some prev⟩ := by
        rw [hm₂, Memory.setNext, Function.update_self, Memory.setPrev, Function.update_self]
        dsimp only
        rw [hsubheap.first]
      have hm₂u : ∀ u, u ≠ r → m₂ u = m₁ u := by
        intro u hu
        rw [hm₂, Memory.setNext, Function.update_of_ne hu, Memory.setPrev, Function.update_of_ne hu]
      have hold : ∀ u, u ∉ c.nodes → u ≠ prev → setPtr isFirst m₂ prev (some r) u = h.memory u := by
        intro u hu hne
        rw [hptr _ _ u hne, hm₂u u fun heq => hu (heq ▸ hrc), hframe u hu]
      have hplaced := hreplace ((setPtr isFirst m₂ prev (some r)).setPrev s.head (some r)) (.node r e s)
        (fun u hu => ?_) ⟨hsubheap.below, hsubheap.heaped, hsh⟩ ⟨?_, ?_, ?_⟩ ?_ fun u hu hne => ?_
      · obtain ⟨f', hhead, hlinked, hnodes, hheap, hsingle⟩ := hplaced
        refine hdone hhead hlinked hnodes hheap hsingle ?_
        rw [Forest.nodes, ← Multiset.cons_add, hmerged]
      · rw [Forest.nodes, ← Multiset.cons_add, hmerged] at hu
        exact Multiset.mem_cons_of_mem hu
      · rw [setPrev_of_not_mem _ (hheads hrs), hptr _ _ r hrp, hm₂r]
      · refine hsubheap.linked.frame fun u hu => ?_
        have hus : u ∉ s.nodes := Multiset.disjoint_left.mp hcsd (hec u hu)
        rw [setPrev_of_not_mem _ (hheads hus), hptr _ _ u fun heq => hprev.1 (heq ▸ hec u hu),
          hm₂u u fun heq => hre (heq ▸ hu)]
      · refine (hplace.siblings.frame fun u hu => hold u ?_ ?_).setPrev hsn _
        · exact fun hmem => Multiset.disjoint_left.mp hcsd hmem hu
        · exact fun heq => hprev.2 (heq ▸ hu)
      · rw [setPrev_of_not_mem _ (hheads hprev.2)]
        exact hptr' _ _ _ ((hm₂u prev (Ne.symm hrp)).trans (hframe prev hprev.1))
      · rw [setPrev_of_not_mem _ (hheads (hout u hu).2), hold u (hout u hu).1 hne]

inductive Op (ν : Type)
  | add (node : ν)
  | removeFirst
  | remove (node : ν)

def Allows (s : Multiset ν) : Op ν → Prop
  | .add node => node ∉ s
  | .removeFirst => s ≠ 0
  | .remove node => node ∈ s

def step (compare : ν → ν → Int) : Heap ν × Multiset ν → Op ν → Option (Heap ν × Multiset ν)
  | (h, s), .add node => if node ∈ s then none else some (pairingheapAdd compare h node, node ::ₘ s)
  | (h, s), .removeFirst => (pairingheapRemoveFirst compare s.card h).map fun (h', result) => (h', s.erase result)
  | (h, s), .remove node =>
    if node ∈ s then (pairingheapRemove compare s.card h node).map fun h' => (h', s.erase node) else none

theorem step_holds (hcmp : TotalPreorder compare) {s : Multiset ν} (hh : Holds compare h f) (hs : f.nodes = s)
    {op : Op ν} (hop : Allows s op) :
    ∃ h' f' s', step compare (h, s) op = some (h', s') ∧ Holds compare h' f' ∧ f'.nodes = s' := by
  subst hs
  cases op with
  | add node =>
    obtain ⟨f', hholds, hnodes⟩ := hh.add hcmp hop
    exact ⟨_, f', _, if_neg hop, hholds, hnodes⟩
  | removeFirst =>
    have hne : f ≠ .nil := fun heq => hop (by rw [heq, Forest.nodes])
    obtain ⟨h', r, f', hcall, hholds, hnodes, -⟩ := hh.removeFirst hcmp le_rfl hne
    refine ⟨h', f', f.nodes.erase r, ?_, hholds, ?_⟩
    · rw [step, hcall]
      rfl
    · rw [← hnodes, Multiset.erase_cons_head]
  | remove node =>
    obtain ⟨h', f', hcall, hholds, hnodes⟩ := hh.remove hcmp le_rfl hop
    refine ⟨h', f', f.nodes.erase node, ?_, hholds, ?_⟩
    · rw [step, if_pos (show node ∈ f.nodes from hop), hcall]
      rfl
    · rw [← hnodes, Multiset.erase_cons_head]

theorem allows_of_step {s : Multiset ν} {op : Op ν} {t : Heap ν × Multiset ν} (hh : Holds compare h f)
    (hs : f.nodes = s) (hstep : step compare (h, s) op = some t) : Allows s op := by
  cases op with
  | add node =>
    intro hmem
    rw [step, if_pos hmem] at hstep
    cases hstep
  | removeFirst =>
    rintro rfl
    cases f with
    | nil =>
      rw [step, pairingheapRemoveFirst, hh.root] at hstep
      cases hstep
    | node v c s => exact absurd hs (Multiset.cons_ne_zero)
  | remove node =>
    by_contra hmem
    rw [step, if_neg (show node ∉ s from hmem)] at hstep
    cases hstep

theorem run_holds (hcmp : TotalPreorder compare) {ops : List (Op ν)} {s t : Heap ν × Multiset ν}
    (hrun : ops.foldlM (step compare) s = some t) (hs : ∃ f, Holds compare s.1 f ∧ f.nodes = s.2) :
    ∃ f, Holds compare t.1 f ∧ f.nodes = t.2 := by
  refine (Lib.steps_of_foldlM hrun).invariant (P := fun t => ∃ f, Holds compare t.1 f ∧ f.nodes = t.2) ?_ hs
  rintro ⟨h, s⟩ op t ⟨f, hholds, hnodes⟩ hstep
  obtain ⟨h', f', s', hcall, hholds', hnodes'⟩ := step_holds hcmp hholds hnodes (allows_of_step hholds hnodes hstep)
  cases hstep.symm.trans hcall
  exact ⟨f', hholds', hnodes'⟩

omit [DecidableEq ν] in
theorem Holds.greatest (hcmp : TotalPreorder compare) (hh : Holds compare h f) {r : ν}
    (hr : pairingheapFirst h = some r) : r ∈ f.nodes ∧ ∀ u ∈ f.nodes, compare u r ≤ 0 := by
  have hhead : f.head = some r := hh.root.symm.trans hr
  refine ⟨head_mem hhead, fun u hu => ?_⟩
  cases f with
  | nil => cases hhead
  | node v c s =>
    cases hhead
    obtain rfl : s = .nil := by
      cases s with
      | nil => rfl
      | node => exact hh.single.elim
    rw [Forest.nodes, Forest.nodes, add_zero, Multiset.mem_cons] at hu
    obtain rfl | hu := hu
    · exact hcmp.refl u
    · exact hh.heaped.1 u hu

/-- Whatever calls are made of a heap, it is one tree of the nodes that were added and not removed, no node is
greater than those above it, every link to a node can be found from the node, and the next call succeeds. -/
theorem pairingheap_keeps (hcmp : TotalPreorder compare) {m : Memory ν} {ops : List (Op ν)} {h : Heap ν}
    {s : Multiset ν} (hrun : ops.foldlM (step compare) (⟨m, none⟩, 0) = some (h, s)) :
    (∃ f, Holds compare h f ∧ f.nodes = s) ∧
    (∀ v ∈ s, pairingheapFirst h ≠ some v → ∃ prev ∈ s, (h.memory v).prevOrParent = some prev ∧
      ((h.memory prev).firstChild = some v ∨
        (h.memory prev).firstChild ≠ some v ∧ (h.memory prev).nextSibling = some v)) ∧
    (pairingheapFirst h = none ↔ s = 0) ∧
    (∀ r, pairingheapFirst h = some r → r ∈ s ∧ ∀ u ∈ s, compare u r ≤ 0) ∧
    ∀ op, Allows s op ↔ ∃ t, step compare (h, s) op = some t := by
  have hempty : Holds compare (⟨m, none⟩ : Heap ν) .nil := ⟨rfl, trivial, trivial, Multiset.nodup_zero, trivial⟩
  obtain ⟨f, hholds, hnodes⟩ := run_holds hcmp hrun ⟨.nil, hempty, rfl⟩
  dsimp only at hholds hnodes
  subst hnodes
  refine ⟨⟨f, hholds, rfl⟩, fun v hv hfirst => ?_, ?_, fun r hr => hholds.greatest hcmp hr, fun op => ⟨fun hop => ?_, ?_⟩⟩
  · have hne : f.head ≠ some v := fun heq => hfirst (hholds.root.trans heq)
    obtain ⟨prev, c, s, rest, hplace, -⟩ := exists_place hholds.linked hholds.heaped hholds.nodup hv hne
    have hprev : prev ∈ f.nodes := by
      rw [hplace.nodes]
      exact Multiset.mem_add.mpr (.inl hplace.mem)
    exact ⟨prev, hprev, by rw [hplace.self], hplace.pointer⟩
  · rw [pairingheapFirst, hholds.root, head_eq_none]
    cases f with
    | nil => exact iff_of_true rfl rfl
    | node v c s => exact iff_of_false (fun heq => by cases heq) Multiset.cons_ne_zero
  · obtain ⟨h', f', s', hcall, -⟩ := step_holds hcmp hholds rfl hop
    exact ⟨_, hcall⟩
  · rintro ⟨t, hstep⟩
    exact allows_of_step hholds rfl hstep

theorem pairingheap_keeps_numbers : ∃ (h : Heap Nat) (s : Multiset Nat),
    ([.add 1, .add 5, .add 2, .add 7, .add 3, .remove 2, .removeFirst, .remove 1] : List (Op Nat)).foldlM
      (step fun a b : Nat => (a : Int) - b) (⟨fun _ => ⟨none, none, none⟩, none⟩, 0) = some (h, s) ∧
    s = {5, 3} ∧ (∃ f, Holds (fun a b : Nat => (a : Int) - b) h f ∧ f.nodes = s) := by
  have hcmp : TotalPreorder fun a b : Nat => (a : Int) - b := ⟨fun a b => by omega, fun a b c => by omega⟩
  refine ⟨_, _, rfl, by decide, ?_⟩
  exact (@pairingheap_keeps Nat _ (fun a b : Nat => (a : Int) - b) hcmp (fun _ => ⟨none, none, none⟩)
    [.add 1, .add 5, .add 2, .add 7, .add 3, .remove 2, .removeFirst, .remove 1] _ _ rfl).1

/-- Whatever calls were made of a heap, `n` removals return the `n` greatest of its nodes, greatest first, and the
heap holds the others. -/
theorem removes_greatest_nodes (hcmp : TotalPreorder compare) {m : Memory ν} {ops : List (Op ν)} {h : Heap ν}
    {s : Multiset ν} {n : Nat} (hrun : ops.foldlM (step compare) (⟨m, none⟩, 0) = some (h, s)) (hn : n ≤ s.card) :
    ∃ h' taken rest, drain (pairingheapRemoveFirst compare s.card) n h = some (h', taken) ∧ taken.length = n ∧
      (∃ f, Holds compare h' f ∧ f.nodes = rest) ∧ Taken (fun u v => compare u v ≤ 0) rest s taken := by
  have hempty : Holds compare (⟨m, none⟩ : Heap ν) .nil := ⟨rfl, trivial, trivial, Multiset.nodup_zero, trivial⟩
  obtain ⟨f, hholds, hnodes⟩ := run_holds hcmp hrun ⟨.nil, hempty, rfl⟩
  have hnext : TakesGreatest (pairingheapRemoveFirst compare s.card) (fun g all => all.card ≤ s.card ∧
      ∃ f, Holds compare g f ∧ f.nodes = all) fun u v => compare u v ≤ 0 := by
    rintro g _ ⟨hcard, f, hf, rfl⟩ hne
    have hfnil : f ≠ .nil := fun heq => hne (by rw [heq]; rfl)
    obtain ⟨g', r, f', hcall, hf', hnodes, hr⟩ := hf.removeFirst hcmp hcard hfnil
    have hless : f'.nodes.card ≤ s.card := by
      rw [← hnodes, Multiset.card_cons] at hcard
      omega
    exact ⟨g', r, _, hcall, ⟨hless, f', hf', rfl⟩, hnodes, (hf.greatest hcmp hr).2⟩
  obtain ⟨h', taken, rest, hdrain, hlen, ⟨-, f', hholds', hrest⟩, htaken⟩ :=
    drain_taken hnext ⟨le_rfl, f, hholds, hnodes⟩ hn
  exact ⟨h', taken, rest, hdrain, hlen, ⟨f', hholds', hrest⟩, htaken⟩

theorem removes_greatest_nodes_numbers : ∃ (h h' : Heap Nat) (s rest : Multiset Nat) (taken : List Nat),
    ([.add 1, .add 5, .add 2, .add 7, .remove 2] : List (Op Nat)).foldlM (step fun a b : Nat => (a : Int) - b)
      (⟨fun _ => ⟨none, none, none⟩, none⟩, 0) = some (h, s) ∧
    drain (pairingheapRemoveFirst (fun a b : Nat => (a : Int) - b) s.card) 2 h = some (h', taken) ∧ taken = [7, 5] ∧
    (taken : Multiset Nat) + rest = s := by
  have hcmp : TotalPreorder fun a b : Nat => (a : Int) - b := ⟨fun a b => by omega, fun a b c => by omega⟩
  obtain ⟨h', taken, rest, hdrain, -, -, htaken⟩ := @removes_greatest_nodes Nat _ (fun a b : Nat => (a : Int) - b) hcmp
    (fun _ => ⟨none, none, none⟩) [.add 1, .add 5, .add 2, .add 7, .remove 2] _ _ 2 rfl (by decide)
  exact ⟨_, h', _, rest, taken, rfl, hdrain,
    (Option.some.inj (congrArg (Option.map Prod.snd) hdrain)).symm, htaken.all_eq⟩

end CdcKafka.Pairingheap
