import Mathlib.Data.UInt
import Mathlib.Tactic.Ring

/-! Transaction ids and their circular order (`access/transam.h`, `transam.c`), and the window
in which it is a linear one. -/

namespace CdcKafka.Slot

abbrev TransactionId := UInt32

def transactionIdIsNormal (xid : TransactionId) : Bool := 3 ≤ xid

def diffIsNegative (id1 id2 : TransactionId) : Bool := 2 ^ 31 ≤ (id1 - id2).toNat

def transactionIdPrecedes (id1 id2 : TransactionId) : Bool :=
  if !transactionIdIsNormal id1 || !transactionIdIsNormal id2 then id1 < id2 else diffIsNegative id1 id2

def transactionIdPrecedesOrEquals (id1 id2 : TransactionId) : Bool :=
  if !transactionIdIsNormal id1 || !transactionIdIsNormal id2 then id1 ≤ id2
  else id1 == id2 || diffIsNegative id1 id2

def transactionIdFollows (id1 id2 : TransactionId) : Bool :=
  if !transactionIdIsNormal id1 || !transactionIdIsNormal id2 then id2 < id1
  else id1 != id2 && !diffIsNegative id1 id2

def rank (base xid : TransactionId) : Nat := (xid - base).toNat

structure InWindow (base xid : TransactionId) : Prop where
  normal : transactionIdIsNormal xid = true
  near : rank base xid < 2 ^ 31

variable {base x y : TransactionId}

theorem toNat_sub_rank (base x y : TransactionId) :
    (x - y).toNat = (rank base x + (2 ^ 32 - rank base y)) % 2 ^ 32 := by
  have hdiff : x - y = (x - base) - (y - base) := by
    rw [sub_sub_sub_cancel_right]
  rw [hdiff, rank, rank, UInt32.toNat_sub, Nat.add_comm]

theorem rank_inj (h : rank base x = rank base y) : x = y := by
  have hsub : x - base = y - base := UInt32.toNat_inj.mp h
  exact sub_left_inj.mp hsub

theorem diffIsNegative_iff (hx : InWindow base x) (hy : InWindow base y) :
    diffIsNegative x y = true ↔ rank base x < rank base y := by
  have hnx := hx.near
  have hny := hy.near
  rw [diffIsNegative, decide_eq_true_iff, toNat_sub_rank base]
  omega

theorem transactionIdPrecedes_iff (hx : InWindow base x) (hy : InWindow base y) :
    transactionIdPrecedes x y = true ↔ rank base x < rank base y := by
  rw [transactionIdPrecedes, hx.normal, hy.normal, if_neg (by decide), diffIsNegative_iff hx hy]

theorem transactionIdPrecedesOrEquals_iff (hx : InWindow base x) (hy : InWindow base y) :
    transactionIdPrecedesOrEquals x y = true ↔ rank base x ≤ rank base y := by
  rw [transactionIdPrecedesOrEquals, hx.normal, hy.normal, if_neg (by decide), Bool.or_eq_true,
    diffIsNegative_iff hx hy, beq_iff_eq, Nat.le_iff_lt_or_eq, or_comm]
  exact or_congr_right ⟨fun h => by rw [h], rank_inj⟩

theorem transactionIdFollows_iff (hx : InWindow base x) (hy : InWindow base y) :
    transactionIdFollows x y = true ↔ rank base y < rank base x := by
  have hequal : x = y ↔ rank base x = rank base y := ⟨fun h => by rw [h], rank_inj⟩
  rw [transactionIdFollows, hx.normal, hy.normal, if_neg (by decide), Bool.and_eq_true, bne_iff_ne, ne_eq, hequal,
    Bool.not_eq_true', Bool.eq_false_iff, ne_eq, diffIsNegative_iff hx hy]
  omega

end CdcKafka.Slot
