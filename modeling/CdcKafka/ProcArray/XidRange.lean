import CdcKafka.ProcArray.KnownAssignedXids
import Mathlib.Data.List.Pairwise

/-! The xids from one to another, also across the wrap point, and how many the code counts. -/

namespace CdcKafka.ProcArray
open Slot

variable {base x y b fromXid toXid : TransactionId} {xs ys : List TransactionId} {d n : Nat}

theorem rank_self (x : TransactionId) : rank x x = 0 := by rw [rank, sub_self]; rfl

theorem eq_of_rank_eq_zero (h : rank x y = 0) : x = y := rank_inj ((rank_self x).trans h.symm)

theorem rank_lt (base x : TransactionId) : rank base x < 2 ^ 32 := UInt32.toNat_lt _

theorem rank_add (x : TransactionId) (hd : d < 2 ^ 32) : rank x (x + UInt32.ofNat d) = d := by
  rw [rank, add_sub_cancel_left, UInt32.toNat_ofNat', Nat.mod_eq_of_lt hd]

theorem add_rank (x y : TransactionId) : x + UInt32.ofNat (rank x y) = y := by
  rw [rank, UInt32.ofNat_toNat, add_sub_cancel]

theorem rank_rebase (h : rank base b ≤ rank base x) : rank b x = rank base x - rank base b := by
  have hx := rank_lt base x
  rw [rank, toNat_sub_rank base x b]
  omega

theorem rank_succ (h : 0 < rank x y) : rank (x + 1) y = rank x y - 1 := by
  have hadd := rank_add x (d := 1) (by decide)
  have hone : rank x (x + 1) = 1 := hadd
  have hle : rank x (x + 1) ≤ rank x y := by omega
  rw [rank_rebase hle, hone]

theorem normal_self (hx : transactionIdIsNormal x = true) : InWindow x x := ⟨hx, by rw [rank_self]; decide⟩

structure Ordered (base : TransactionId) (xs : List TransactionId) : Prop where
  near : ∀ x ∈ xs, InWindow base x
  order : xs.Pairwise fun x y => rank base x < rank base y

theorem Ordered.nil (base : TransactionId) : Ordered base [] := ⟨fun _ hx => absurd hx List.not_mem_nil, .nil⟩

theorem Ordered.sublist (h : Ordered base xs) (hsub : ys.Sublist xs) : Ordered base ys :=
  ⟨fun x hx => h.near x (hsub.subset hx), h.order.sublist hsub⟩

theorem Ordered.nodup (h : Ordered base xs) : xs.Nodup := by
  refine h.order.imp fun hlt heq => ?_
  rw [heq] at hlt
  exact Nat.lt_irrefl _ hlt

theorem Ordered.rank_head_le (h : Ordered base (b :: xs)) : ∀ x ∈ b :: xs, rank base b ≤ rank base x := by
  intro x hx
  rcases List.mem_cons.mp hx with rfl | hx
  · exact le_rfl
  · exact ((List.pairwise_cons.mp h.order).1 x hx).le

theorem Ordered.rebase (h : Ordered base (b :: xs)) : Ordered b (b :: xs) where
  near x hx := by
    have hnear := h.near x hx
    have hle := h.rank_head_le x hx
    have hlt := hnear.near
    exact ⟨hnear.normal, by rw [rank_rebase hle]; omega⟩
  order := by
    refine List.Pairwise.imp_of_mem (fun hx hy hlt => ?_) h.order
    have hx' := h.rank_head_le _ hx
    have hy' := h.rank_head_le _ hy
    rw [rank_rebase hx', rank_rebase hy']
    omega

theorem Ordered.append (hx : Ordered base xs) (hy : Ordered base ys)
    (hlt : ∀ x ∈ xs, ∀ y ∈ ys, rank base x < rank base y) : Ordered base (xs ++ ys) where
  near x hmem := (List.mem_append.mp hmem).elim (hx.near x) (hy.near x)
  order := List.pairwise_append.mpr ⟨hx.order, hy.order, hlt⟩

def between (fromXid toXid : TransactionId) : List TransactionId :=
  ((List.range (rank fromXid toXid + 1)).map fun k => fromXid + UInt32.ofNat k).filter transactionIdIsNormal

theorem mem_between : x ∈ between fromXid toXid ↔ transactionIdIsNormal x = true ∧ rank fromXid x ≤ rank fromXid toXid := by
  have hto := rank_lt fromXid toXid
  rw [between, List.mem_filter, List.mem_map, and_comm]
  refine and_congr_right fun _ => ⟨?_, fun hle => ?_⟩
  · rintro ⟨k, hk, rfl⟩
    have hk := List.mem_range.mp hk
    rw [rank_add _ (by omega)]
    omega
  · exact ⟨rank fromXid x, List.mem_range.mpr (by omega), add_rank fromXid x⟩

theorem ordered_between (hnear : rank fromXid toXid < 2 ^ 31) : Ordered fromXid (between fromXid toXid) where
  near x hx := by
    obtain ⟨hnormal, hle⟩ := mem_between.mp hx
    exact ⟨hnormal, by omega⟩
  order := by
    refine List.Pairwise.sublist List.filter_sublist (List.pairwise_map.mpr ?_)
    refine List.Pairwise.imp_of_mem (fun hj hk hlt => ?_) List.pairwise_lt_range
    have hj := List.mem_range.mp hj
    have hk := List.mem_range.mp hk
    rw [rank_add _ (by omega), rank_add _ (by omega)]
    exact hlt

theorem between_self (hx : transactionIdIsNormal x = true) : between x x = [x] := by
  have hone : (List.range (0 + 1)).map (fun k => x + UInt32.ofNat k) = [x] := by
    rw [List.range_one, List.map_singleton]
    exact congrArg (fun y => [y]) (add_zero x)
  rw [between, rank_self, hone, List.filter_cons_of_pos hx]
  rfl

theorem map_range_succ (x : TransactionId) (d : Nat) : (List.range (d + 1)).map (fun k => x + UInt32.ofNat k) =
    x :: (List.range d).map fun k => x + 1 + UInt32.ofNat k := by
  rw [List.range_succ_eq_map, List.map_cons, List.map_map]
  refine congrArg₂ List.cons (add_zero x) (List.map_congr_left fun k _ => ?_)
  rw [Function.comp_apply, Nat.succ_eq_add_one, UInt32.ofNat_add, add_assoc, add_comm (UInt32.ofNat k)]
  rfl

theorem between_succ (h : 0 < rank x toXid) :
    between x toXid = [x].filter transactionIdIsNormal ++ between (x + 1) toXid := by
  rw [between, between, rank_succ h, map_range_succ, Nat.sub_add_cancel h, ← List.filter_append]
  rfl

theorem between_skip (hx : transactionIdIsNormal x = false) (hto : transactionIdIsNormal toXid = true) :
    between x toXid = between (x + 1) toXid ∧ rank (x + 1) toXid < rank x toXid := by
  have hpos : 0 < rank x toXid := by
    rcases Nat.eq_zero_or_pos (rank x toXid) with hzero | hpos
    · have heq : x = toXid := eq_of_rank_eq_zero hzero
      rw [heq, hto] at hx
      cases hx
    · exact hpos
  rw [between_succ hpos, List.filter_cons_of_neg (by rw [hx]; exact Bool.false_ne_true)]
  exact ⟨rfl, by rw [rank_succ hpos]; omega⟩

theorem between_advance (hx : transactionIdIsNormal x = true) (hto : transactionIdIsNormal toXid = true)
    (hpos : 0 < rank x toXid) : transactionIdIsNormal (transactionIdAdvance x) = true ∧
      between x toXid = x :: between (transactionIdAdvance x) toXid ∧
      rank (transactionIdAdvance x) toXid < rank x toXid := by
  rw [between_succ hpos, List.filter_cons_of_pos hx]
  have hdown : rank (x + 1) toXid < rank x toXid := by rw [rank_succ hpos]; omega
  unfold transactionIdAdvance
  split
  · next hwrap =>
    have hzero : x + 1 = 0 := by
      have hthree : (3 : UInt32) ≤ x := of_decide_eq_true hx
      have hthree' := UInt32.le_iff_toNat_le.mp hthree
      have hwrap' := UInt32.lt_iff_toNat_lt.mp hwrap
      rw [UInt32.toNat_add] at hwrap'
      have hlt := UInt32.toNat_lt x
      apply UInt32.toNat_inj.mp
      rw [UInt32.toNat_add]
      change (x.toNat + 1) % 2 ^ 32 < 3 at hwrap'
      change 3 ≤ x.toNat at hthree'
      change (x.toNat + 1) % 2 ^ 32 = 0
      omega
    rw [hzero] at hdown ⊢
    obtain ⟨hone, hone'⟩ := between_skip (x := 0) rfl hto
    obtain ⟨htwo, htwo'⟩ := between_skip (x := 1) rfl hto
    obtain ⟨hthree, hthree'⟩ := between_skip (x := 2) rfl hto
    refine ⟨rfl, ?_, hthree'.trans (htwo'.trans (hone'.trans hdown))⟩
    exact congrArg (x :: ·) (hone.trans (htwo.trans hthree))
  · next hnext => exact ⟨decide_eq_true (UInt32.not_lt.mp hnext), rfl, hdown⟩

def advances : Nat → TransactionId → List TransactionId
  | 0, _ => []
  | n + 1, x => x :: advances n (transactionIdAdvance x)

theorem length_advances (n : Nat) (x : TransactionId) : (advances n x).length = n := by
  induction n generalizing x with
  | zero => rfl
  | succ n ih => rw [advances, List.length_cons, ih]

theorem precedes_of_near (hx : transactionIdIsNormal x = true) (hto : transactionIdIsNormal toXid = true)
    (hnear : rank x toXid < 2 ^ 31) : transactionIdPrecedes x toXid = true ↔ 0 < rank x toXid := by
  rw [transactionIdPrecedes_iff (normal_self hx) ⟨hto, hnear⟩, rank_self]

theorem advances_countLoop (fuel : Nat) (hx : transactionIdIsNormal x = true)
    (hto : transactionIdIsNormal toXid = true) (hnear : rank x toXid < 2 ^ 31) (hfuel : rank x toXid ≤ fuel) :
    advances (countLoop fuel x toXid + 1) x = between x toXid := by
  induction fuel generalizing x with
  | zero =>
    have heq : x = toXid := eq_of_rank_eq_zero (Nat.le_zero.mp hfuel)
    rw [← heq, between_self hx]
    rfl
  | succ fuel ih =>
    rw [countLoop]
    split
    · next hprec =>
      have hpos := (precedes_of_near hx hto hnear).mp hprec
      obtain ⟨hnormal, hbetween, hdown⟩ := between_advance hx hto hpos
      rw [advances, ih hnormal (by omega) (by omega), hbetween]
    · next hprec =>
      have hzero : rank x toXid = 0 := Nat.eq_zero_of_not_pos fun hpos => hprec ((precedes_of_near hx hto hnear).mpr hpos)
      have heq : x = toXid := eq_of_rank_eq_zero hzero
      rw [← heq, between_self hx]
      rfl

theorem advances_rank (hx : transactionIdIsNormal x = true) (hto : transactionIdIsNormal toXid = true)
    (hle : x.toNat + d = toXid.toNat) : advances (d + 1) x = between x toXid ∧ rank x toXid = d := by
  have hlt := UInt32.toNat_lt toXid
  have hd : rank x toXid = d := by
    rw [rank, UInt32.toNat_sub_of_le _ _ (UInt32.le_iff_toNat_le.mpr (by omega))]
    omega
  refine ⟨?_, hd⟩
  induction d generalizing x with
  | zero =>
    have heq : x = toXid := UInt32.toNat_inj.mp hle
    rw [← heq, between_self hx]
    rfl
  | succ d ih =>
    have hsucc : (x + 1).toNat = x.toNat + 1 := by
      rw [UInt32.toNat_add]
      change (x.toNat + 1) % 2 ^ 32 = x.toNat + 1
      omega
    have hadvance : transactionIdAdvance x = x + 1 := by
      have hthree : (3 : UInt32) ≤ x := of_decide_eq_true hx
      refine if_neg (UInt32.not_lt.mpr ?_)
      rw [UInt32.le_iff_toNat_le] at hthree ⊢
      omega
    obtain ⟨hnormal, hbetween, -⟩ := between_advance hx hto (by omega)
    rw [hadvance] at hnormal hbetween
    rw [advances, hadvance, ih hnormal (by omega) (by rw [rank_succ (by omega)]; omega), hbetween]

theorem nxids_spec (hx : transactionIdIsNormal fromXid = true) (hto : transactionIdIsNormal toXid = true)
    (hnear : rank fromXid toXid < 2 ^ 31) : nxids fromXid toXid = intOf (between fromXid toXid).length ∧
      advances (between fromXid toXid).length fromXid = between fromXid toXid := by
  unfold nxids
  split
  · next hle =>
    have hle' := UInt32.le_iff_toNat_le.mp hle
    obtain ⟨hadvances, hrank⟩ := advances_rank (d := toXid.toNat - fromXid.toNat) hx hto (by omega)
    have hlength := congrArg List.length hadvances
    rw [length_advances] at hlength
    rw [← hlength]
    refine ⟨congrArg intOf ?_, hadvances⟩
    rw [UInt32.toNat_add, show (toXid - fromXid).toNat = rank fromXid toXid from rfl, hrank]
    refine congrArg Nat.cast (Nat.mod_eq_of_lt ?_)
    change toXid.toNat - fromXid.toNat + 1 < 2 ^ 32
    omega
  · have hadvances := advances_countLoop (2 ^ 32) hx hto hnear (by omega)
    have hlength := congrArg List.length hadvances
    rw [length_advances] at hlength
    rw [← hlength]
    exact ⟨rfl, hadvances⟩

end CdcKafka.ProcArray
