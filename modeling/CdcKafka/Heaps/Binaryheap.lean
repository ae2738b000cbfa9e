import CdcKafka.Lib.Drain
import Mathlib.Algebra.Order.Group.Multiset
import Mathlib.Data.Multiset.AddSub
import Mathlib.Data.Multiset.MapFold
import Mathlib.Data.Multiset.Range
import Mathlib.Data.Multiset.UnionInter

/-! Binary heaps in an array with a comparator (`common/binaryheap.c`): the sifting loops move
a hole, the heap order they restore, and the elements they keep. Every heap that
`binaryheap_allocate` has room for has its offsets inside an `int`. -/

namespace CdcKafka.Binaryheap
open Lib

variable {α : Type}

structure Heap (α : Type) where
  size : Nat
  space : Nat
  hasHeapProperty : Bool
  nodes : Nat → α

structure TotalPreorder (compare : α → α → Int) : Prop where
  swap : ∀ a b, compare a b < 0 ↔ 0 < compare b a
  trans : ∀ a b c, compare a b ≤ 0 → compare b c ≤ 0 → compare a c ≤ 0

def leftOffset (i : Nat) : Nat := 2 * i + 1

def rightOffset (i : Nat) : Nat := 2 * i + 2

def parentOffset (i : Nat) : Nat := (i - 1) / 2

section Operations

variable (compare : α → α → Int)

def siftUpFrom (val : α) : Nat → (Nat → α) → Nat → Nat → α
  | 0, nodes, off => Function.update nodes off val
  | fuel + 1, nodes, off =>
    if off = 0 then Function.update nodes off val
    else if compare val (nodes (parentOffset off)) ≤ 0 then Function.update nodes off val
    else siftUpFrom val fuel (Function.update nodes off (nodes (parentOffset off))) (parentOffset off)

def swapOffset (size : Nat) (nodes : Nat → α) (off : Nat) : Nat :=
  if rightOffset off < size ∧ compare (nodes (leftOffset off)) (nodes (rightOffset off)) < 0 then rightOffset off
  else leftOffset off

def siftDownFrom (size : Nat) (val : α) : Nat → (Nat → α) → Nat → Nat → α
  | 0, nodes, off => Function.update nodes off val
  | fuel + 1, nodes, off =>
    let swap := swapOffset compare size nodes off
    if size ≤ leftOffset off ∨ 0 ≤ compare val (nodes swap) then Function.update nodes off val
    else siftDownFrom size val fuel (Function.update nodes off (nodes swap)) swap

def siftUp (h : Heap α) (off : Nat) : Heap α :=
  { h with nodes := siftUpFrom compare (h.nodes off) off h.nodes off }

def siftDown (h : Heap α) (off : Nat) : Heap α :=
  { h with nodes := siftDownFrom compare h.size (h.nodes off) h.size h.nodes off }

def allocate (capacity : Nat) (nodes : Nat → α) : Heap α := ⟨0, capacity, true, nodes⟩

def addUnordered (h : Heap α) (d : α) : Option (Heap α) :=
  if h.space ≤ h.size then none
  else some { h with hasHeapProperty := false, nodes := Function.update h.nodes h.size d, size := h.size + 1 }

def buildFrom : Nat → Heap α → Heap α
  | 0, h => h
  | i + 1, h => buildFrom i (siftDown compare h i)

def build (h : Heap α) : Heap α :=
  { buildFrom compare (if h.size = 0 then 0 else parentOffset (h.size - 1) + 1) h with hasHeapProperty := true }

def add (h : Heap α) (d : α) : Option (Heap α) :=
  if h.space ≤ h.size then none
  else some (siftUp compare { h with nodes := Function.update h.nodes h.size d, size := h.size + 1 } h.size)

def Ready (h : Heap α) : Prop := h.size ≠ 0 ∧ h.hasHeapProperty = true

instance (h : Heap α) : Decidable (Ready h) := inferInstanceAs (Decidable (_ ∧ _))

def first (h : Heap α) : α := h.nodes 0

def removeFirst (h : Heap α) : Heap α × α :=
  let result := h.nodes 0
  if h.size = 1 then ({ h with size := h.size - 1 }, result)
  else (siftDown compare { h with nodes := Function.update h.nodes 0 (h.nodes (h.size - 1)), size := h.size - 1 } 0, result)

def removeNode (h : Heap α) (n : Nat) : Heap α :=
  let last := h.nodes (h.size - 1)
  let cmp := compare last (h.nodes n)
  let h := { h with nodes := Function.update h.nodes n last, size := h.size - 1 }
  if 0 < cmp then siftUp compare h n else if cmp < 0 then siftDown compare h n else h

def replaceFirst (h : Heap α) (d : α) : Heap α :=
  let h := { h with nodes := Function.update h.nodes 0 d }
  if 1 < h.size then siftDown compare h 0 else h

end Operations

variable {compare : α → α → Int} {size k hole : Nat} {nodes : Nat → α} {val : α}

namespace TotalPreorder

variable (hcmp : TotalPreorder compare)

include hcmp

theorem refl (a : α) : compare a a ≤ 0 := by
  by_contra h
  have := (hcmp.swap a a).mpr (by omega)
  omega

theorem of_nonneg {a b : α} (h : 0 ≤ compare a b) : compare b a ≤ 0 := by
  by_contra hlt
  have := (hcmp.swap a b).mpr (by omega)
  omega

theorem of_pos {a b : α} (h : 0 < compare a b) : compare b a ≤ 0 := hcmp.of_nonneg (le_of_lt h)

end TotalPreorder

def OrderedFrom (compare : α → α → Int) (k size : Nat) (nodes : Nat → α) : Prop :=
  ∀ i, 0 < i → i < size → k ≤ parentOffset i → compare (nodes i) (nodes (parentOffset i)) ≤ 0

structure HoleOrder (compare : α → α → Int) (k size : Nat) (nodes : Nat → α) (hole : Nat) : Prop where
  except : ∀ i, 0 < i → i < size → k ≤ parentOffset i → i ≠ hole → parentOffset i ≠ hole →
    compare (nodes i) (nodes (parentOffset i)) ≤ 0
  across : 0 < hole → k ≤ parentOffset hole → ∀ i, 0 < i → i < size → parentOffset i = hole →
    compare (nodes i) (nodes (parentOffset hole)) ≤ 0

theorem parentOffset_lt {i : Nat} (h : 0 < i) : parentOffset i < i := by
  unfold parentOffset
  omega

theorem OrderedFrom.holeOrder (hcmp : TotalPreorder compare) (h : OrderedFrom compare k size nodes)
    (hk : hole < k ∨ hole < size) : HoleOrder compare k size nodes hole where
  except := fun i hi his hki _ _ => h i hi his hki
  across := by
    rintro hhole hkp i hi his rfl
    have hlt := parentOffset_lt hhole
    have hparent := h (parentOffset i) hhole (by omega) hkp
    exact hcmp.trans _ _ _ (h i hi his (by omega)) hparent

theorem HoleOrder.finish (h : HoleOrder compare k size nodes hole)
    (habove : 0 < hole → k ≤ parentOffset hole → compare val (nodes (parentOffset hole)) ≤ 0)
    (hbelow : k ≤ hole → ∀ i, 0 < i → i < size → parentOffset i = hole → compare (nodes i) val ≤ 0) :
    OrderedFrom compare k size (Function.update nodes hole val) := by
  intro i hi his hki
  have hlt := parentOffset_lt hi
  by_cases hih : i = hole
  · subst hih
    rw [Function.update_self, Function.update_of_ne (by omega)]
    exact habove hi hki
  · rw [Function.update_of_ne hih]
    by_cases hph : parentOffset i = hole
    · rw [hph, Function.update_self]
      exact hbelow (by omega) i hi his hph
    · rw [Function.update_of_ne hph]
      exact h.except i hi his hki hih hph

theorem HoleOrder.up (hcmp : TotalPreorder compare) (h : HoleOrder compare 0 size nodes hole) (hpos : 0 < hole)
    (hhole : hole < size) :
    HoleOrder compare 0 size (Function.update nodes hole (nodes (parentOffset hole))) (parentOffset hole) := by
  have hlt := parentOffset_lt hpos
  have hparent : 0 < parentOffset hole →
      compare (nodes (parentOffset hole)) (nodes (parentOffset (parentOffset hole))) ≤ 0 := fun hpp =>
    h.except _ hpp (by omega) (Nat.zero_le _) (by omega) (by have := parentOffset_lt hpp; omega)
  constructor
  · intro i hi his _ hip hpp
    have hne : i ≠ hole := fun heq => hpp (by rw [heq])
    rw [Function.update_of_ne hne]
    by_cases hph : parentOffset i = hole
    · rw [hph, Function.update_self]
      exact h.across hpos (Nat.zero_le _) i hi his hph
    · rw [Function.update_of_ne hph]
      exact h.except i hi his (Nat.zero_le _) hne hph
  · intro hpp _ i hi his hip
    have hlt' := parentOffset_lt hpp
    rw [@Function.update_of_ne _ _ _ (parentOffset (parentOffset hole)) hole (by omega)]
    by_cases hih : i = hole
    · rw [hih, Function.update_self]
      exact hparent hpp
    · rw [Function.update_of_ne hih]
      have hchild := h.except i hi his (Nat.zero_le _) hih (by omega)
      rw [hip] at hchild
      exact hcmp.trans _ _ _ hchild (hparent hpp)

theorem siftUpFrom_ordered (hcmp : TotalPreorder compare) {fuel : Nat} (h : HoleOrder compare 0 size nodes hole)
    (hbelow : ∀ i, 0 < i → i < size → parentOffset i = hole → compare (nodes i) val ≤ 0) (hhole : hole < size)
    (hfuel : hole ≤ fuel) : OrderedFrom compare 0 size (siftUpFrom compare val fuel nodes hole) := by
  induction fuel generalizing nodes hole with
  | zero => exact h.finish (fun hpos => by omega) fun _ => hbelow
  | succ fuel ih =>
    rw [siftUpFrom]
    split
    · exact h.finish (fun hpos => by omega) fun _ => hbelow
    · next hne =>
      have hpos : 0 < hole := Nat.pos_of_ne_zero hne
      have hlt := parentOffset_lt hpos
      split
      · next hle => exact h.finish (fun _ _ => hle) fun _ => hbelow
      · next hgt =>
        have hparent := hcmp.of_pos (Int.not_le.mp hgt)
        refine ih (h.up hcmp hpos hhole) ?_ (by omega) (by omega)
        intro i hi his hip
        by_cases hih : i = hole
        · rw [hih, Function.update_self]
          exact hparent
        · rw [Function.update_of_ne hih]
          have hchild := h.except i hi his (Nat.zero_le _) hih (by omega)
          rw [hip] at hchild
          exact hcmp.trans _ _ _ hchild hparent

theorem swapOffset_spec (hcmp : TotalPreorder compare) (nodes : Nat → α) (h : leftOffset hole < size) :
    0 < swapOffset compare size nodes hole ∧ swapOffset compare size nodes hole < size ∧
      parentOffset (swapOffset compare size nodes hole) = hole ∧
      ∀ i, 0 < i → i < size → parentOffset i = hole →
        compare (nodes i) (nodes (swapOffset compare size nodes hole)) ≤ 0 := by
  have hchild : ∀ i, 0 < i → parentOffset i = hole → i = leftOffset hole ∨ i = rightOffset hole := by
    intro i hi hip
    unfold parentOffset at hip
    unfold leftOffset rightOffset
    omega
  have hleft : parentOffset (leftOffset hole) = hole := by
    unfold parentOffset leftOffset
    omega
  have hright : parentOffset (rightOffset hole) = hole := by
    unfold parentOffset rightOffset
    omega
  unfold swapOffset
  split
  · next hlt =>
    refine ⟨Nat.succ_pos _, hlt.1, hright, fun i hi his hip => ?_⟩
    rcases hchild i hi hip with rfl | rfl
    · exact le_of_lt hlt.2
    · exact hcmp.refl _
  · next hge =>
    refine ⟨Nat.succ_pos _, h, hleft, fun i hi his hip => ?_⟩
    rcases hchild i hi hip with rfl | rfl
    · exact hcmp.refl _
    · exact hcmp.of_nonneg (Int.not_lt.mp fun hlt => hge ⟨his, hlt⟩)

theorem HoleOrder.down {s : Nat} (h : HoleOrder compare k size nodes hole) (hk : k ≤ hole) (hs : 0 < s)
    (hsize : s < size) (hparent : parentOffset s = hole)
    (hmax : ∀ i, 0 < i → i < size → parentOffset i = hole → compare (nodes i) (nodes s) ≤ 0) :
    HoleOrder compare k size (Function.update nodes hole (nodes s)) s := by
  have hlt := parentOffset_lt hs
  constructor
  · intro i hi his hki hne hps
    by_cases hih : i = hole
    · subst hih
      rw [Function.update_self, Function.update_of_ne (by have := parentOffset_lt hi; omega)]
      exact h.across hi hki s hs hsize hparent
    · rw [Function.update_of_ne hih]
      by_cases hph : parentOffset i = hole
      · rw [hph, Function.update_self]
        exact hmax i hi his hph
      · rw [Function.update_of_ne hph]
        exact h.except i hi his hki hih hph
  · intro _ _ i hi his hip
    rw [hparent, Function.update_self, Function.update_of_ne (by have := parentOffset_lt hi; omega)]
    have hchild := h.except i hi his (by omega) (by have := parentOffset_lt hi; omega) (by omega)
    rwa [hip] at hchild

theorem siftDownFrom_ordered (hcmp : TotalPreorder compare) {fuel : Nat} (h : HoleOrder compare k size nodes hole)
    (habove : 0 < hole → k ≤ parentOffset hole → compare val (nodes (parentOffset hole)) ≤ 0) (hk : k ≤ hole)
    (hfuel : size ≤ hole + fuel) :
    OrderedFrom compare k size (siftDownFrom compare size val fuel nodes hole) := by
  induction fuel generalizing nodes hole with
  | zero => exact h.finish habove fun _ i hi his hip => by have := parentOffset_lt hi; omega
  | succ fuel ih =>
    rw [siftDownFrom]
    by_cases hleft : size ≤ leftOffset hole
    · rw [if_pos (.inl hleft)]
      refine h.finish habove fun _ i hi his hip => ?_
      unfold parentOffset at hip
      unfold leftOffset at hleft
      omega
    · obtain ⟨hs, hsize, hparent, hmax⟩ := swapOffset_spec hcmp nodes (Nat.lt_of_not_le hleft)
      have hlt := parentOffset_lt hs
      split
      · next hstop =>
        have hval := hcmp.of_nonneg (hstop.resolve_left hleft)
        exact h.finish habove fun _ i hi his hip => hcmp.trans _ _ _ (hmax i hi his hip) hval
      · next hgo =>
        rw [not_or] at hgo
        refine ih (h.down hk hs hsize hparent hmax) (fun _ _ => ?_) (by omega) (by omega)
        rw [hparent, Function.update_self]
        exact le_of_lt (Int.not_le.mp hgo.2)

theorem OrderedFrom.root (hcmp : TotalPreorder compare) (h : OrderedFrom compare 0 size nodes) :
    ∀ i, i < size → compare (nodes i) (nodes 0) ≤ 0 := by
  intro i
  induction i using Nat.strongRecOn with
  | ind i ih =>
    intro hi
    rcases Nat.eq_zero_or_pos i with rfl | hpos
    · exact hcmp.refl _
    · have hlt := parentOffset_lt hpos
      exact hcmp.trans _ _ _ (h i hpos hi (Nat.zero_le _)) (ih _ hlt (by omega))

def elements (size : Nat) (nodes : Nat → α) : Multiset α := (Multiset.range size).map nodes

theorem elements_update (nodes : Nat → α) {i : Nat} (hi : i < size) (v : α) :
    nodes i ::ₘ elements size (Function.update nodes i v) = v ::ₘ elements size nodes := by
  have hrange : i ::ₘ (Multiset.range size).erase i = Multiset.range size :=
    Multiset.cons_erase (Multiset.mem_range.mpr hi)
  have hrest : ((Multiset.range size).erase i).map (Function.update nodes i v) =
      ((Multiset.range size).erase i).map nodes := by
    refine Multiset.map_congr rfl fun j hj => Function.update_of_ne ?_ v nodes
    exact ((Multiset.nodup_range size).mem_erase_iff.mp hj).1
  rw [elements, elements, ← hrange, Multiset.map_cons, Multiset.map_cons, hrest, Function.update_self,
    Multiset.cons_swap]

theorem elements_move {i j : Nat} (hi : i < size) (hj : j < size) (hne : j ≠ i) (v : α) :
    elements size (Function.update (Function.update nodes i (nodes j)) j v) =
      elements size (Function.update nodes i v) := by
  have hmoved := elements_update (Function.update nodes i (nodes j)) hj v
  rw [Function.update_of_ne hne] at hmoved
  have hfrom := elements_update nodes hi (nodes j)
  have hto := elements_update nodes hi v
  refine (Multiset.cons_inj_right (nodes i)).mp ((Multiset.cons_inj_right (nodes j)).mp ?_)
  rw [Multiset.cons_swap, hmoved, Multiset.cons_swap, hfrom, hto, Multiset.cons_swap]

theorem siftUpFrom_elements {fuel : Nat} (hhole : hole < size) :
    elements size (siftUpFrom compare val fuel nodes hole) = elements size (Function.update nodes hole val) := by
  induction fuel generalizing nodes hole with
  | zero => rfl
  | succ fuel ih =>
    rw [siftUpFrom]
    split
    · rfl
    · next hne =>
      split
      · rfl
      · have hlt := parentOffset_lt (Nat.pos_of_ne_zero hne)
        rw [ih (by omega), elements_move hhole (by omega) (by omega)]

theorem siftDownFrom_elements (hcmp : TotalPreorder compare) {fuel : Nat} (hhole : hole < size) :
    elements size (siftDownFrom compare size val fuel nodes hole) = elements size (Function.update nodes hole val) := by
  induction fuel generalizing nodes hole with
  | zero => rfl
  | succ fuel ih =>
    rw [siftDownFrom]
    split
    · rfl
    · next hgo =>
      rw [not_or] at hgo
      obtain ⟨hs, hsize, hparent, -⟩ := swapOffset_spec hcmp nodes (Nat.lt_of_not_le hgo.1)
      have hlt := parentOffset_lt hs
      rw [ih hsize, elements_move hhole hsize (by omega)]

theorem elements_succ (m : Nat) (nodes : Nat → α) : elements (m + 1) nodes = nodes m ::ₘ elements m nodes := by
  rw [elements, Multiset.range_succ, Multiset.map_cons]
  rfl

theorem elements_update_of_le {i m : Nat} (hi : m ≤ i) (v : α) : elements m (Function.update nodes i v) = elements m nodes := by
  refine Multiset.map_congr rfl fun j hj => Function.update_of_ne ?_ v nodes
  have := Multiset.mem_range.mp hj
  omega

theorem elements_append (d : α) : elements (size + 1) (Function.update nodes size d) = d ::ₘ elements size nodes := by
  rw [elements_succ, Function.update_self, elements_update_of_le le_rfl]

theorem elements_replace (nodes : Nat → α) {m n : Nat} (hn : n < m + 1) :
    nodes n ::ₘ elements m (Function.update nodes n (nodes m)) = elements (m + 1) nodes := by
  rw [elements_succ]
  rcases Nat.lt_or_ge n m with hlt | hge
  · exact elements_update nodes hlt (nodes m)
  · obtain rfl : n = m := by omega
    rw [elements_update_of_le le_rfl]

namespace Heap

def contents (h : Heap α) : Multiset α := elements h.size h.nodes

structure Inv (compare : α → α → Int) (h : Heap α) : Prop where
  ordered : h.hasHeapProperty = true → OrderedFrom compare 0 h.size h.nodes
  fits : h.size ≤ h.space

end Heap

theorem HoleOrder.update (h : HoleOrder compare k size nodes hole) (v : α) :
    HoleOrder compare k size (Function.update nodes hole v) hole where
  except := fun i hi his hki hne hph => by
    rw [Function.update_of_ne hne, Function.update_of_ne hph]
    exact h.except i hi his hki hne hph
  across := fun hpos hk i hi his hip => by
    have hlt := parentOffset_lt hpos
    have hlt' := parentOffset_lt hi
    rw [Function.update_of_ne (by omega), Function.update_of_ne (by omega)]
    exact h.across hpos hk i hi his hip

theorem buildFrom_spec (hcmp : TotalPreorder compare) (i : Nat) (h : Heap α) (hi : i ≤ h.size)
    (hord : OrderedFrom compare i h.size h.nodes) :
    (buildFrom compare i h).size = h.size ∧ (buildFrom compare i h).space = h.space ∧
      OrderedFrom compare 0 h.size (buildFrom compare i h).nodes ∧ (buildFrom compare i h).contents = h.contents := by
  induction i generalizing h with
  | zero => exact ⟨rfl, rfl, hord, rfl⟩
  | succ i ih =>
    have hhole : HoleOrder compare i h.size h.nodes i := by
      constructor
      · exact fun j hj hjs hkj _ hph => hord j hj hjs (by omega)
      · intro hpos hle
        have := parentOffset_lt hpos
        omega
    have hsift : OrderedFrom compare i h.size (siftDown compare h i).nodes :=
      siftDownFrom_ordered hcmp hhole (fun hpos hle => by have := parentOffset_lt hpos; omega) le_rfl (by omega)
    obtain ⟨hsize, hspace, hord', hcontents⟩ := ih (siftDown compare h i) (Nat.le_of_succ_le hi) hsift
    refine ⟨hsize, hspace, hord', hcontents.trans ?_⟩
    have hkeep : elements h.size (siftDownFrom compare h.size (h.nodes i) h.size h.nodes i) = _ :=
      siftDownFrom_elements hcmp (Nat.lt_of_succ_le hi)
    rw [Function.update_eq_self] at hkeep
    exact hkeep

theorem build_inv (hcmp : TotalPreorder compare) {h : Heap α} (hinv : h.Inv compare) :
    (build compare h).Inv compare ∧ (build compare h).contents = h.contents := by
  have hstart : (if h.size = 0 then 0 else parentOffset (h.size - 1) + 1) ≤ h.size := by
    unfold parentOffset
    split <;> omega
  have hleaves : OrderedFrom compare (if h.size = 0 then 0 else parentOffset (h.size - 1) + 1) h.size h.nodes := by
    intro i hi his hki
    rw [if_neg (by omega)] at hki
    unfold parentOffset at hki
    omega
  obtain ⟨hsize, hspace, hord, hcontents⟩ := buildFrom_spec hcmp _ h hstart hleaves
  refine ⟨⟨fun _ => ?_, ?_⟩, hcontents⟩
  · rw [build, hsize]
    exact hord
  · rw [build, hsize, hspace]
    exact hinv.fits

theorem addUnordered_inv {h h' : Heap α} {d : α} (hadd : addUnordered h d = some h') (hinv : h.Inv compare) :
    h'.Inv compare ∧ h'.contents = d ::ₘ h.contents := by
  have hfits := hinv.fits
  rw [addUnordered] at hadd
  split at hadd
  · cases hadd
  · obtain rfl := Option.some.inj hadd
    exact ⟨⟨nofun, by simp only; omega⟩, elements_append d⟩

theorem add_inv (hcmp : TotalPreorder compare) {h h' : Heap α} {d : α} (hadd : add compare h d = some h')
    (hinv : h.Inv compare) : h'.Inv compare ∧ h'.contents = d ::ₘ h.contents := by
  have hfits := hinv.fits
  rw [add] at hadd
  split at hadd
  · cases hadd
  · next hroom =>
    obtain rfl := Option.some.inj hadd
    refine ⟨⟨fun hflag => ?_, by simp only [siftUp]; omega⟩, ?_⟩
    · have hord := hinv.ordered hflag
      have hhole : HoleOrder compare 0 (h.size + 1) h.nodes h.size := by
        constructor
        · exact fun i hi his _ hne _ => hord i hi (by omega) (Nat.zero_le _)
        · intro _ _ i hi his hip
          have := parentOffset_lt hi
          omega
      refine siftUpFrom_ordered hcmp (hhole.update d) (fun i hi his hip => ?_) (Nat.lt_succ_self h.size) le_rfl
      have his' : i < h.size + 1 := his
      have := parentOffset_lt hi
      omega
    · have hkeep : elements (h.size + 1) (siftUpFrom compare d h.size (Function.update h.nodes h.size d) h.size) = _ :=
        siftUpFrom_elements (Nat.lt_succ_self h.size)
      rw [Function.update_idem, elements_append] at hkeep
      simp only [Heap.contents, siftUp, Function.update_self]
      exact hkeep

theorem removeNode_inv (hcmp : TotalPreorder compare) {h : Heap α} {n : Nat} (hready : Ready h) (hn : n < h.size)
    (hinv : h.Inv compare) :
    (removeNode compare h n).Inv compare ∧ h.nodes n ::ₘ (removeNode compare h n).contents = h.contents := by
  obtain ⟨m, hm⟩ : ∃ m, h.size = m + 1 := Nat.exists_eq_succ_of_ne_zero hready.1
  have hfits := hinv.fits
  have hord := hinv.ordered hready.2
  have hhole : HoleOrder compare 0 m h.nodes n :=
    ⟨fun i hi his hki hne hph => hord i hi (by omega) hki,
      fun hpos hk i hi his hip => (hord.holeOrder hcmp (.inr hn)).across hpos hk i hi (by omega) hip⟩
  have hbelow : ∀ i, 0 < i → i < m → parentOffset i = n → compare (h.nodes i) (h.nodes n) ≤ 0 := by
    rintro i hi his rfl
    exact hord i hi (by omega) (Nat.zero_le _)
  have habove : 0 < n → compare (h.nodes n) (h.nodes (parentOffset n)) ≤ 0 := fun hpos =>
    hord n hpos hn (Nat.zero_le _)
  have hcontents := elements_replace h.nodes (hm ▸ hn)
  have hself : ∀ a, compare a a = 0 := fun a => by
    have := hcmp.refl a
    have := hcmp.swap a a
    omega
  have hinside : compare (h.nodes m) (h.nodes n) ≠ 0 → n < m := fun hne => by
    rcases Nat.lt_or_ge n m with hlt | hge
    · exact hlt
    · obtain rfl : n = m := by omega
      exact absurd (hself _) hne
  simp only [removeNode, hm, Nat.add_sub_cancel]
  rw [Heap.contents, Heap.contents, hm, ← hcontents]
  split
  · next hgt =>
    have hlt := hinside (by omega)
    refine ⟨⟨fun _ => ?_, by simp only [siftUp]; omega⟩, ?_⟩
    · simp only [siftUp, Function.update_self]
      refine siftUpFrom_ordered hcmp (hhole.update _) (fun i hi his hip => ?_) hlt le_rfl
      rw [Function.update_of_ne (by have := parentOffset_lt hi; omega)]
      exact hcmp.trans _ _ _ (hbelow i hi his hip) (hcmp.of_pos hgt)
    · simp only [siftUp, Function.update_self, siftUpFrom_elements hlt, Function.update_idem]
  · split
    · next hle =>
      have hlt := hinside (by omega)
      refine ⟨⟨fun _ => ?_, by simp only [siftDown]; omega⟩, ?_⟩
      · simp only [siftDown, Function.update_self]
        refine siftDownFrom_ordered hcmp (hhole.update _) (fun hpos _ => ?_) (Nat.zero_le _) (by omega)
        rw [Function.update_of_ne (by have := parentOffset_lt hpos; omega)]
        exact hcmp.trans _ _ _ (le_of_lt hle) (habove hpos)
      · simp only [siftDown, Function.update_self, siftDownFrom_elements hcmp hlt, Function.update_idem]
    · next hnot hnot' =>
      have hback := hcmp.of_nonneg (Int.not_lt.mp hnot')
      refine ⟨⟨fun _ => ?_, by simp only; omega⟩, rfl⟩
      exact hhole.finish (fun hpos _ => hcmp.trans _ _ _ (Int.not_lt.mp hnot) (habove hpos))
        fun _ i hi his hip => hcmp.trans _ _ _ (hbelow i hi his hip) hback

theorem root_replaced (hcmp : TotalPreorder compare) {m : Nat} (hord : OrderedFrom compare 0 size nodes) (hm : m ≤ size)
    (d : α) : OrderedFrom compare 0 m (siftDownFrom compare m d m (Function.update nodes 0 d) 0) := by
  have hhole : HoleOrder compare 0 m nodes 0 :=
    ⟨fun i hi his hki _ _ => hord i hi (by omega) hki, fun hpos => absurd hpos (Nat.lt_irrefl 0)⟩
  exact siftDownFrom_ordered hcmp (hhole.update d) (fun hpos => absurd hpos (Nat.lt_irrefl 0)) le_rfl (by omega)

theorem removeFirst_inv (hcmp : TotalPreorder compare) {h : Heap α} (hready : Ready h) (hinv : h.Inv compare) :
    (removeFirst compare h).1.Inv compare ∧ (removeFirst compare h).2 = first h ∧
      first h ::ₘ (removeFirst compare h).1.contents = h.contents := by
  obtain ⟨m, hm⟩ : ∃ m, h.size = m + 1 := Nat.exists_eq_succ_of_ne_zero hready.1
  have hfits := hinv.fits
  have hord := hinv.ordered hready.2
  have hcontents := elements_replace h.nodes (Nat.succ_pos m)
  simp only [removeFirst, hm, Nat.add_sub_cancel]
  rw [Heap.contents, Heap.contents, hm, ← hcontents]
  split
  · next hone =>
    obtain rfl : m = 0 := by omega
    exact ⟨⟨fun _ i hi his => by simp only at his; omega, Nat.zero_le _⟩, rfl, rfl⟩
  · have hpos : 0 < m := by omega
    refine ⟨⟨fun _ => ?_, by simp only [siftDown]; omega⟩, rfl, ?_⟩
    · simp only [siftDown, Function.update_self]
      exact root_replaced hcmp hord (by omega) _
    · simp only [siftDown, Function.update_self, siftDownFrom_elements hcmp hpos, Function.update_idem]
      rfl

theorem replaceFirst_inv (hcmp : TotalPreorder compare) {h : Heap α} (d : α) (hready : Ready h) (hinv : h.Inv compare) :
    (replaceFirst compare h d).Inv compare ∧ first h ::ₘ (replaceFirst compare h d).contents = d ::ₘ h.contents := by
  have hpos : 0 < h.size := Nat.pos_of_ne_zero hready.1
  have hcontents := elements_update h.nodes hpos d
  simp only [replaceFirst]
  split
  · refine ⟨⟨fun _ => ?_, hinv.fits⟩, ?_⟩
    · simp only [siftDown, Function.update_self]
      exact root_replaced hcmp (hinv.ordered hready.2) le_rfl d
    · simp only [Heap.contents, siftDown, Function.update_self, siftDownFrom_elements hcmp hpos, Function.update_idem]
      exact hcontents
  · exact ⟨⟨fun _ i hi his => by simp only at his; omega, hinv.fits⟩, hcontents⟩

inductive Call (α : Type)
  | addUnordered (d : α)
  | build
  | add (d : α)
  | removeFirst
  | removeNode (n : Nat)
  | replaceFirst (d : α)

def step (compare : α → α → Int) (h : Heap α) : Call α → Option (Heap α × Multiset α × Multiset α)
  | .addUnordered d => (addUnordered h d).map fun h' => (h', {d}, 0)
  | .build => some (build compare h, 0, 0)
  | .add d => (add compare h d).map fun h' => (h', {d}, 0)
  | .removeFirst => if Ready h then some ((removeFirst compare h).1, 0, {(removeFirst compare h).2}) else none
  | .removeNode n => if Ready h ∧ n < h.size then some (removeNode compare h n, 0, {h.nodes n}) else none
  | .replaceFirst d => if Ready h then some (replaceFirst compare h d, {d}, {first h}) else none

def run (compare : α → α → Int) : Heap α → List (Call α) → Option (Heap α × Multiset α × Multiset α)
  | h, [] => some (h, 0, 0)
  | h, call :: calls => do
    let (h', ins, outs) ← step compare h call
    let (h'', ins', outs') ← run compare h' calls
    some (h'', ins + ins', outs + outs')

theorem step_inv (hcmp : TotalPreorder compare) {h h' : Heap α} {call : Call α} {ins outs : Multiset α}
    (hstep : step compare h call = some (h', ins, outs)) (hinv : h.Inv compare) :
    h'.Inv compare ∧ outs + h'.contents = ins + h.contents := by
  cases call with
  | addUnordered d =>
    obtain ⟨h₁, hadd, heq⟩ := Option.map_eq_some_iff.mp hstep
    cases heq
    obtain ⟨hinv', hcontents⟩ := addUnordered_inv hadd hinv
    exact ⟨hinv', by rw [zero_add, hcontents, Multiset.singleton_add]⟩
  | build =>
    cases hstep
    obtain ⟨hinv', hcontents⟩ := build_inv hcmp hinv
    exact ⟨hinv', by rw [hcontents]⟩
  | add d =>
    obtain ⟨h₁, hadd, heq⟩ := Option.map_eq_some_iff.mp hstep
    cases heq
    obtain ⟨hinv', hcontents⟩ := add_inv hcmp hadd hinv
    exact ⟨hinv', by rw [zero_add, hcontents, Multiset.singleton_add]⟩
  | removeFirst =>
    rw [step] at hstep
    split at hstep
    · next hready =>
      cases hstep
      obtain ⟨hinv', hresult, hcontents⟩ := removeFirst_inv hcmp hready hinv
      exact ⟨hinv', by rw [hresult, zero_add, Multiset.singleton_add, hcontents]⟩
    · cases hstep
  | removeNode n =>
    rw [step] at hstep
    split at hstep
    · next hready =>
      cases hstep
      obtain ⟨hinv', hcontents⟩ := removeNode_inv hcmp hready.1 hready.2 hinv
      exact ⟨hinv', by rw [zero_add, Multiset.singleton_add, hcontents]⟩
    · cases hstep
  | replaceFirst d =>
    rw [step] at hstep
    split at hstep
    · next hready =>
      cases hstep
      obtain ⟨hinv', hcontents⟩ := replaceFirst_inv hcmp d hready hinv
      exact ⟨hinv', by rw [Multiset.singleton_add, Multiset.singleton_add, hcontents]⟩
    · cases hstep

theorem run_inv (hcmp : TotalPreorder compare) {calls : List (Call α)} {h h' : Heap α} {ins outs : Multiset α}
    (hrun : run compare h calls = some (h', ins, outs)) (hinv : h.Inv compare) :
    h'.Inv compare ∧ outs + h'.contents = ins + h.contents := by
  induction calls generalizing h ins outs with
  | nil =>
    cases hrun
    exact ⟨hinv, rfl⟩
  | cons call calls ih =>
    simp only [run, Option.bind_eq_bind, Option.bind_eq_some_iff, Prod.exists] at hrun
    obtain ⟨h₁, ins₁, outs₁, hstep, h₂, ins₂, outs₂, hrest, heq⟩ := hrun
    cases heq
    obtain ⟨hinv₁, hcontents₁⟩ := step_inv hcmp hstep hinv
    obtain ⟨hinv₂, hcontents₂⟩ := ih hrest hinv₁
    refine ⟨hinv₂, ?_⟩
    rw [add_assoc, hcontents₂, add_left_comm, hcontents₁, ← add_assoc, add_comm ins₂]

/-- Whatever calls are made of a heap within its capacity, it stays ordered where it says so,
holds what was put in and not taken out, and has a greatest element first. -/
theorem binaryheap_keeps (hcmp : TotalPreorder compare) {capacity : Nat} {mem : Nat → α} {calls : List (Call α)}
    {h : Heap α} {ins outs : Multiset α} (hrun : run compare (allocate capacity mem) calls = some (h, ins, outs)) :
    (h.hasHeapProperty = true → ∀ i, 0 < i → i < h.size → compare (h.nodes i) (h.nodes (parentOffset i)) ≤ 0) ∧
    outs + h.contents = ins ∧
    (Ready h → first h ∈ h.contents ∧ ∀ x ∈ h.contents, compare x (first h) ≤ 0) := by
  have hstart : (allocate capacity mem).Inv compare :=
    ⟨fun _ i _ his => absurd his (Nat.not_lt_zero i), Nat.zero_le _⟩
  obtain ⟨hinv, hcontents⟩ := run_inv hcmp hrun hstart
  refine ⟨fun hflag i hi his => hinv.ordered hflag i hi his (Nat.zero_le _), ?_, fun hready => ⟨?_, ?_⟩⟩
  · rw [hcontents]
    exact add_zero ins
  · exact Multiset.mem_map_of_mem h.nodes (Multiset.mem_range.mpr (Nat.pos_of_ne_zero hready.1))
  · intro x hx
    rw [Heap.contents, elements, Multiset.mem_map] at hx
    obtain ⟨i, hi, rfl⟩ := hx
    exact (hinv.ordered hready.2).root hcmp i (Multiset.mem_range.mp hi)

theorem binaryheap_keeps_integers : ∃ (h : Heap Int) (ins outs : Multiset Int),
    run (fun a b => a - b) (allocate 8 fun _ => 0)
      [.addUnordered 1, .addUnordered 4, .build, .add 3, .removeNode 2, .replaceFirst 2, .removeFirst] =
        some (h, ins, outs) ∧
    (h.hasHeapProperty = true → ∀ i, 0 < i → i < h.size → h.nodes i - h.nodes (parentOffset i) ≤ 0) ∧
    outs + h.contents = ins ∧ (Ready h → first h ∈ h.contents ∧ ∀ x ∈ h.contents, x - first h ≤ 0) :=
  ⟨_, _, _, rfl, @binaryheap_keeps Int (fun a b => a - b) ⟨fun a b => by omega, fun a b c => by omega⟩ 8 (fun _ => 0)
    [.addUnordered 1, .addUnordered 4, .build, .add 3, .removeNode 2, .replaceFirst 2, .removeFirst] _ _ _ rfl⟩

def takeFirst (compare : α → α → Int) (h : Heap α) : Option (Heap α × α) :=
  if Ready h then some (removeFirst compare h) else none

theorem takeFirst_greatest (hcmp : TotalPreorder compare) {h : Heap α} (hinv : h.Inv compare)
    (hflag : h.hasHeapProperty = true) (hne : h.contents ≠ 0) :
    ∃ h' x, takeFirst compare h = some (h', x) ∧ (h'.Inv compare ∧ h'.hasHeapProperty = true) ∧
      x ::ₘ h'.contents = h.contents ∧ ∀ y ∈ h.contents, compare y x ≤ 0 := by
  have hready : Ready h := ⟨fun hsize => hne (by rw [Heap.contents, hsize]; rfl), hflag⟩
  obtain ⟨hinv', hresult, hcontents⟩ := removeFirst_inv hcmp hready hinv
  have hflag' : (removeFirst compare h).1.hasHeapProperty = true := by
    rw [removeFirst]
    split <;> exact hflag
  refine ⟨_, first h, ?_, ⟨hinv', hflag'⟩, hcontents, fun y hy => ?_⟩
  · rw [takeFirst, if_pos hready, ← hresult]
  · rw [Heap.contents, elements, Multiset.mem_map] at hy
    obtain ⟨i, hi, rfl⟩ := hy
    exact (hinv.ordered hflag).root hcmp i (Multiset.mem_range.mp hi)

/-- However a heap was filled, once it is in order `n` removals return its `n` greatest nodes, greatest first, and
leave the others in it. -/
theorem removes_greatest (hcmp : TotalPreorder compare) {capacity n : Nat} {mem : Nat → α} {calls : List (Call α)}
    {h : Heap α} {ins outs : Multiset α} (hrun : run compare (allocate capacity mem) calls = some (h, ins, outs))
    (hflag : h.hasHeapProperty = true) (hn : n ≤ h.size) :
    ∃ h' taken, drain (takeFirst compare) n h = some (h', taken) ∧ taken.length = n ∧ h'.hasHeapProperty = true ∧
      Taken (fun x y => compare x y ≤ 0) h'.contents h.contents taken ∧ outs + (taken + h'.contents) = ins := by
  have hstart : (allocate capacity mem).Inv compare :=
    ⟨fun _ i _ his => absurd his (Nat.not_lt_zero i), Nat.zero_le _⟩
  obtain ⟨hinv, hcontents⟩ := run_inv hcmp hrun hstart
  have hcard : n ≤ h.contents.card := by rwa [Heap.contents, elements, Multiset.card_map, Multiset.card_range]
  have hnext : TakesGreatest (takeFirst compare) (fun g all => g.Inv compare ∧ g.hasHeapProperty = true ∧
      g.contents = all) fun x y => compare x y ≤ 0 := by
    rintro g _ ⟨hg, hgflag, rfl⟩ hne
    obtain ⟨g', x, htake, ⟨hg', hgflag'⟩, hall, hle⟩ := takeFirst_greatest hcmp hg hgflag hne
    exact ⟨g', x, _, htake, ⟨hg', hgflag', rfl⟩, hall, hle⟩
  obtain ⟨h', taken, _, hdrain, hlen, ⟨hinv', hflag', rfl⟩, htaken⟩ :=
    drain_taken hnext ⟨hinv, hflag, rfl⟩ hcard
  refine ⟨h', taken, hdrain, hlen, hflag', htaken, ?_⟩
  rw [htaken.all_eq, hcontents]
  exact add_zero ins

theorem removes_greatest_integers : ∃ (h h' : Heap Int) (ins outs : Multiset Int) (taken : List Int),
    run (fun a b => a - b) (allocate 8 fun _ => 0) [.addUnordered 1, .addUnordered 4, .build, .add 3] =
      some (h, ins, outs) ∧
    drain (takeFirst fun a b => a - b) 2 h = some (h', taken) ∧ taken = [4, 3] ∧ outs + (taken + h'.contents) = ins := by
  obtain ⟨h', taken, hremove, -, -, -, hall⟩ := @removes_greatest Int (fun a b => a - b)
    ⟨fun a b => by omega, fun a b c => by omega⟩ 8 2 (fun _ => 0)
    [.addUnordered 1, .addUnordered 4, .build, .add 3] _ _ _ rfl rfl (by decide)
  exact ⟨_, h', _, _, taken, rfl, hremove, (Option.some.inj (congrArg (Option.map Prod.snd) hremove)).symm, hall⟩

end CdcKafka.Binaryheap
