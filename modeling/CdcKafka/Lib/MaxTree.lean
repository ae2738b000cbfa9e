import Mathlib.Logic.Function.Basic
import Mathlib.Order.BoundedOrder.Basic
import Mathlib.Order.MinMax

/-! Binary trees in an array whose inner nodes hold the maximum of their children. The nodes are
numbered level by level from the root, and the last level need not be full. -/

namespace CdcKafka.Lib

variable {α : Type*} [LinearOrder α] [OrderBot α]

def nodeOr (n : ℕ) (node : ℕ → α) (i : ℕ) : α := if i < n then node i else ⊥

def childMax (n : ℕ) (node : ℕ → α) (i : ℕ) : α := max (nodeOr n node (2 * i + 1)) (nodeOr n node (2 * i + 2))

def MaxTree (m n : ℕ) (node : ℕ → α) : Prop := ∀ i < m, node i = childMax n node i

def MaxTreeBut (p m n : ℕ) (node : ℕ → α) : Prop := ∀ i < m, i ≠ p → node i = childMax n node i

variable {m n p i : ℕ} {node node' : ℕ → α} {v : α}

theorem childMax_congr (hleft : node (2 * i + 1) = node' (2 * i + 1)) (hright : node (2 * i + 2) = node' (2 * i + 2)) :
    childMax n node i = childMax n node' i := by
  rw [childMax, childMax, nodeOr, nodeOr, nodeOr, nodeOr, hleft, hright]

theorem MaxTree.child_le (h : MaxTree m n node) (hn : n ≤ 2 * m + 1) (hi : i < n) (hpos : 0 < i) :
    node i ≤ node ((i - 1) / 2) := by
  have hparent : (i - 1) / 2 < m := by omega
  have hself : nodeOr n node i = node i := if_pos hi
  rw [h _ hparent, childMax]
  by_cases hodd : 2 * ((i - 1) / 2) + 1 = i
  · rw [hodd, hself]
    exact le_max_left _ _
  · have hright : 2 * ((i - 1) / 2) + 2 = i := by omega
    rw [hright, hself]
    exact le_max_right _ _

theorem MaxTree.le_root (h : MaxTree m n node) (hn : n ≤ 2 * m + 1) (hi : i < n) : node i ≤ node 0 := by
  induction i using Nat.strongRecOn with
  | ind i ih =>
    rcases Nat.eq_zero_or_pos i with rfl | hpos
    · exact le_refl _
    · exact (h.child_le hn hi hpos).trans (ih ((i - 1) / 2) (by omega) (by omega))

theorem MaxTree.child_of_le (h : MaxTree m n node) (hv : ⊥ < v) (hi : i < m) (hle : v ≤ node i) :
    2 * i + 1 < n ∧ v ≤ node (2 * i + 1) ∨ 2 * i + 2 < n ∧ v ≤ node (2 * i + 2) := by
  have hpresent (c : ℕ) (hc : v ≤ nodeOr n node c) : c < n ∧ v ≤ node c := by
    rw [nodeOr] at hc
    split at hc
    · next hlt => exact ⟨hlt, hc⟩
    · exact absurd (le_bot_iff.mp hc) hv.ne'
  rw [h i hi, childMax, le_max_iff] at hle
  exact hle.imp (hpresent _) (hpresent _)

theorem MaxTree.leaf_of_le (h : MaxTree m n node) (hv : ⊥ < v) (hi : i < n) (hle : v ≤ node i) :
    ∃ j, m ≤ j ∧ j < n ∧ v ≤ node j := by
  induction hk : m - i using Nat.strongRecOn generalizing i with
  | ind k ih =>
    rcases Nat.lt_or_ge i m with hinner | hleaf
    · rcases h.child_of_le hv hinner hle with ⟨hc, hcv⟩ | ⟨hc, hcv⟩
      · exact ih (m - (2 * i + 1)) (by omega) hc hcv rfl
      · exact ih (m - (2 * i + 2)) (by omega) hc hcv rfl
    · exact ⟨i, hleaf, hi, hle⟩

theorem MaxTree.le_root_iff (h : MaxTree m n node) (hn : n ≤ 2 * m + 1) (hpos : 0 < n) (hv : ⊥ < v) :
    v ≤ node 0 ↔ ∃ j, m ≤ j ∧ j < n ∧ v ≤ node j :=
  ⟨h.leaf_of_le hv hpos, fun ⟨_, _, hj, hle⟩ => hle.trans (h.le_root hn hj)⟩

theorem MaxTree.update (h : MaxTree m n node) (hi : m ≤ i) (v : α) :
    MaxTreeBut ((i - 1) / 2) m n (Function.update node i v) := by
  intro j hj hne
  have hself : j ≠ i := by omega
  rw [Function.update_of_ne hself, h j hj]
  apply childMax_congr
  · rw [Function.update_of_ne (by omega)]
  · rw [Function.update_of_ne (by omega)]

theorem MaxTreeBut.done (h : MaxTreeBut p m n node) (hp : node p = childMax n node p) : MaxTree m n node := by
  intro i hi
  by_cases hip : i = p
  · rw [hip]
    exact hp
  · exact h i hi hip

theorem MaxTreeBut.update (h : MaxTreeBut p m n node) (hpos : 0 < p) :
    MaxTreeBut ((p - 1) / 2) m n (Function.update node p (childMax n node p)) := by
  intro i hi hne
  have hsame : childMax n node i = childMax n (Function.update node p (childMax n node p)) i := by
    apply childMax_congr
    · rw [Function.update_of_ne (by omega)]
    · rw [Function.update_of_ne (by omega)]
  by_cases hip : i = p
  · rw [← hsame, hip, Function.update_self]
  · rw [Function.update_of_ne hip, h i hi hip, hsame]

theorem MaxTreeBut.update_root (h : MaxTreeBut 0 m n node) :
    MaxTree m n (Function.update node 0 (childMax n node 0)) := by
  intro i hi
  have hsame : childMax n node i = childMax n (Function.update node 0 (childMax n node 0)) i := by
    apply childMax_congr
    · rw [Function.update_of_ne (by omega)]
    · rw [Function.update_of_ne (by omega)]
  by_cases hi0 : i = 0
  · rw [← hsame, hi0, Function.update_self]
  · rw [Function.update_of_ne hi0, h i hi hi0, hsame]

end CdcKafka.Lib
