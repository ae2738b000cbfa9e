import CdcKafka.Lib.Ring
import CdcKafka.Slot.TransactionId
import Mathlib.Logic.Function.Basic

/-! `storage/ipc/procarray.c`: the transactions that a standby knows to be running, in a sorted array with gaps. -/

namespace CdcKafka.ProcArray
open Lib Slot

structure Entry where
  xid : TransactionId
  valid : Bool

structure KnownAssignedXids where
  max : Nat
  num : Int
  tail : Nat
  head : Nat
  cells : Nat → Entry
  transactionEndsCounter : UInt32
  lastCompressTs : Int

inductive CompressReason
  | noSpace
  | prune
  | transactionEnd
  | startupProcessIdle
deriving DecidableEq

inductive AddError
  | outOfOrder
  | tooMany

def transactionIdAdvance (xid : TransactionId) : TransactionId := if xid + 1 < 3 then 3 else xid + 1

def transactionIdFollowsOrEquals (id1 id2 : TransactionId) : Bool :=
  if !transactionIdIsNormal id1 || !transactionIdIsNormal id2 then id2 ≤ id1 else !diffIsNegative id1 id2

def intOf (z : Int) : Int := (z + 2 ^ 31) % 2 ^ 32 - 2 ^ 31

def compressLoop : Nat → Nat → Nat → (Nat → Entry) → (Nat → Entry) × Nat
  | 0, _, compressIndex, cells => (cells, compressIndex)
  | n + 1, i, compressIndex, cells =>
    if (cells i).valid then
      compressLoop n (i + 1) (compressIndex + 1) (Function.update cells compressIndex ⟨(cells i).xid, true⟩)
    else compressLoop n (i + 1) compressIndex cells

def moveDown (now : Int) (a : KnownAssignedXids) : KnownAssignedXids :=
  let (cells, compressIndex) := compressLoop (a.head - a.tail) a.tail 0 a.cells
  { a with cells := cells, tail := 0, head := compressIndex, lastCompressTs := now }

def knownAssignedXidsCompress (reason : CompressReason) (before after : Int) (a : KnownAssignedXids) :
    KnownAssignedXids :=
  let nelements : Int := a.head - a.tail
  if nelements = a.num then
    if reason ≠ .noSpace then a else moveDown after a
  else
    match reason with
    | .transactionEnd =>
      let counted := { a with transactionEndsCounter := a.transactionEndsCounter + 1 }
      if a.transactionEndsCounter % 128 ≠ 0 then counted
      else if nelements < 2 * a.num then counted
      else moveDown after counted
    | .startupProcessIdle =>
      if a.lastCompressTs ≠ 0 ∧ before < a.lastCompressTs + 1000 * 1000 then a else moveDown after a
    | _ => moveDown after a

def countLoop : Nat → TransactionId → TransactionId → Nat
  | 0, _, _ => 0
  | fuel + 1, nextXid, toXid =>
    if transactionIdPrecedes nextXid toXid then countLoop fuel (transactionIdAdvance nextXid) toXid + 1 else 0

def nxids (fromXid toXid : TransactionId) : Int :=
  if fromXid ≤ toXid then intOf ((toXid - fromXid + 1).toNat : Int)
  else intOf ((countLoop (2 ^ 32) fromXid toXid + 1 : Nat) : Int)

def insertLoop : Nat → TransactionId → KnownAssignedXids → Option KnownAssignedXids
  | 0, _, a => some a
  | n + 1, nextXid, a =>
    if a.head < a.max then
      insertLoop n (transactionIdAdvance nextXid)
        { a with cells := Function.update a.cells a.head ⟨nextXid, true⟩, head := a.head + 1 }
    else none

def knownAssignedXidsAdd (fromXid toXid : TransactionId) (before after : Int) (a : KnownAssignedXids) :
    Option (KnownAssignedXids × Option AddError) :=
  let n := nxids fromXid toXid
  let insert (a : KnownAssignedXids) :=
    (insertLoop n.toNat fromXid a).map fun a => ({ a with num := a.num + n }, none)
  if a.tail < a.head ∧ transactionIdFollowsOrEquals (a.cells (a.head - 1)).xid fromXid then some (a, some .outOfOrder)
  else if a.max < intOf (a.head + n) then
    let a := knownAssignedXidsCompress .noSpace before after a
    if a.max < intOf (a.head + n) then some (a, some .tooMany) else insert a
  else insert a

def searchLoop (cells : Nat → Entry) (xid : TransactionId) : Nat → Nat → Nat → Option Nat
  | 0, _, _ => none
  | fuel + 1, first, stop =>
    if first < stop then
      let mid := (first + (stop - 1)) / 2
      if xid = (cells mid).xid then some mid
      else if transactionIdPrecedes xid (cells mid).xid then searchLoop cells xid fuel first mid
      else searchLoop cells xid fuel (mid + 1) stop
    else none

def skipInvalid (cells : Nat → Entry) : Nat → Nat → Nat
  | 0, i => i
  | n + 1, i => if (cells i).valid then i else skipInvalid cells n (i + 1)

def setTail (a : KnownAssignedXids) (i : Nat) : KnownAssignedXids :=
  if a.head ≤ i then { a with head := 0, tail := 0 } else { a with tail := i }

def knownAssignedXidsSearch (xid : TransactionId) (remove : Bool) (a : KnownAssignedXids) : KnownAssignedXids × Bool :=
  match searchLoop a.cells xid (a.head - a.tail) a.tail a.head with
  | none => (a, false)
  | some i =>
    if !(a.cells i).valid then (a, false)
    else if remove then
      let removed := { a with cells := Function.update a.cells i ⟨(a.cells i).xid, false⟩, num := a.num - 1 }
      if i = a.tail then
        (setTail removed (skipInvalid removed.cells (a.head - (a.tail + 1)) (a.tail + 1)), true)
      else (removed, true)
    else (a, true)

def knownAssignedXidExists (a : KnownAssignedXids) (xid : TransactionId) : Bool :=
  (knownAssignedXidsSearch xid false a).2

def knownAssignedXidsRemove (a : KnownAssignedXids) (xid : TransactionId) : KnownAssignedXids :=
  (knownAssignedXidsSearch xid true a).1

def knownAssignedXidsRemoveTree (xid : TransactionId) (subxids : List TransactionId) (before after : Int)
    (a : KnownAssignedXids) : KnownAssignedXids :=
  let top := if xid ≠ 0 then knownAssignedXidsRemove a xid else a
  knownAssignedXidsCompress .transactionEnd before after (subxids.foldl knownAssignedXidsRemove top)

def pruneLoop (isPrepared : TransactionId → Bool) (removeXid : TransactionId) :
    Nat → Nat → (Nat → Entry) → Int → (Nat → Entry) × Int
  | 0, _, cells, count => (cells, count)
  | n + 1, i, cells, count =>
    if (cells i).valid then
      if transactionIdFollowsOrEquals (cells i).xid removeXid then (cells, count)
      else if !isPrepared (cells i).xid then
        pruneLoop isPrepared removeXid n (i + 1) (Function.update cells i ⟨(cells i).xid, false⟩) (count + 1)
      else pruneLoop isPrepared removeXid n (i + 1) cells count
    else pruneLoop isPrepared removeXid n (i + 1) cells count

def knownAssignedXidsRemovePreceding (isPrepared : TransactionId → Bool) (removeXid : TransactionId)
    (before after : Int) (a : KnownAssignedXids) : KnownAssignedXids :=
  if removeXid = 0 then { a with num := 0, head := 0, tail := 0 }
  else
    let (cells, count) := pruneLoop isPrepared removeXid (a.head - a.tail) a.tail a.cells 0
    let pruned := { a with cells := cells, num := a.num - count }
    knownAssignedXidsCompress .prune before after (setTail pruned (skipInvalid cells (a.head - a.tail) a.tail))

def entries (a : KnownAssignedXids) : List Entry := get a.cells a.tail (a.head - a.tail)

def getLoop (xmax : TransactionId) : List Entry → List TransactionId → TransactionId → List TransactionId × TransactionId
  | [], xarray, xmin => (xarray, xmin)
  | e :: l, xarray, xmin =>
    if e.valid then
      let xmin := if xarray.length = 0 ∧ transactionIdPrecedes e.xid xmin then e.xid else xmin
      if xmax ≠ 0 ∧ transactionIdFollowsOrEquals e.xid xmax then (xarray, xmin)
      else getLoop xmax l (xarray ++ [e.xid]) xmin
    else getLoop xmax l xarray xmin

def knownAssignedXidsGetAndSetXmin (a : KnownAssignedXids) (xmin xmax : TransactionId) :
    List TransactionId × TransactionId :=
  getLoop xmax (entries a) [] xmin

section
variable {cells : Nat → Entry} {lo n i : Nat} {l : List Entry}

theorem get_update_outside (e : Entry) (h : i < lo ∨ lo + n ≤ i) :
    get (Function.update cells i e) lo n = get cells lo n := by
  apply List.map_congr_left
  intro k hk
  have hlt := List.mem_range.mp hk
  have hne : lo + k ≠ i := by omega
  exact Function.update_of_ne hne e cells

theorem get_succ (cells : Nat → Entry) (lo n : Nat) : get cells lo (n + 1) = cells lo :: get cells (lo + 1) n := by
  rw [Nat.add_comm n 1, get_add]
  rfl

theorem get_concat (cells : Nat → Entry) (lo n : Nat) : get cells lo (n + 1) = get cells lo n ++ [cells (lo + n)] := by
  rw [get_add]
  rfl

theorem compressLoop_spec (cells : Nat → Entry) (n : Nat) {compressIndex : Nat} (h : compressIndex ≤ i) :
    get (compressLoop n i compressIndex cells).1 0 (compressLoop n i compressIndex cells).2 =
      get cells 0 compressIndex ++ (get cells i n).filter Entry.valid := by
  induction n generalizing i compressIndex cells with
  | zero => rw [compressLoop, get_zero, List.filter_nil, List.append_nil]
  | succ n ih =>
    rw [compressLoop, get_succ]
    split
    · next hvalid =>
      have hentry : (⟨(cells i).xid, true⟩ : Entry) = cells i := by rw [← hvalid]
      rw [ih _ (Nat.succ_le_succ h), hentry, get_concat, get_update_outside _ (by omega),
        get_update_outside _ (by omega), Nat.zero_add, Function.update_self, List.filter_cons_of_pos hvalid,
        List.append_assoc]
      rfl
    · next hvalid => rw [ih _ (Nat.le_succ_of_le h), List.filter_cons_of_neg hvalid]

theorem skipInvalid_spec (cells : Nat → Entry) (n i : Nat) : i ≤ skipInvalid cells n i ∧ skipInvalid cells n i ≤ i + n ∧
      get cells (skipInvalid cells n i) (i + n - skipInvalid cells n i) =
        (get cells i n).dropWhile fun e => !e.valid := by
  induction n generalizing i with
  | zero => exact ⟨le_rfl, le_rfl, by rw [skipInvalid, Nat.add_zero, Nat.sub_self]; rfl⟩
  | succ n ih =>
    rw [skipInvalid, get_succ]
    split
    · next hvalid =>
      refine ⟨le_rfl, by omega, ?_⟩
      rw [Nat.add_sub_cancel_left, get_succ, List.dropWhile_cons_of_neg (by rw [hvalid]; decide)]
    · next hvalid =>
      obtain ⟨hlow, hhigh, hget⟩ := ih (i + 1)
      refine ⟨by omega, by omega, ?_⟩
      rw [List.dropWhile_cons_of_pos (by rw [Bool.not_eq_true] at hvalid; rw [hvalid]; rfl), ← hget,
        show i + (n + 1) = i + 1 + n by omega]

def prune (isPrepared : TransactionId → Bool) (removeXid : TransactionId) : List Entry → List Entry
  | [] => []
  | e :: l =>
    if e.valid then
      if transactionIdFollowsOrEquals e.xid removeXid then e :: l
      else if !isPrepared e.xid then ⟨e.xid, false⟩ :: prune isPrepared removeXid l
      else e :: prune isPrepared removeXid l
    else e :: prune isPrepared removeXid l

def validCount (l : List Entry) : Int := (l.filter Entry.valid).length

theorem validCount_cons (e : Entry) (l : List Entry) :
    validCount (e :: l) = (if e.valid then 1 else 0) + validCount l := by
  rw [validCount, validCount, List.filter_cons]
  split
  · rw [List.length_cons]
    omega
  · omega

theorem pruneLoop_spec (isPrepared : TransactionId → Bool) (removeXid : TransactionId) (n i : Nat) (cells : Nat → Entry)
    (count : Int) :
    get (pruneLoop isPrepared removeXid n i cells count).1 i n = prune isPrepared removeXid (get cells i n) ∧
      (pruneLoop isPrepared removeXid n i cells count).2 + validCount (prune isPrepared removeXid (get cells i n)) =
        count + validCount (get cells i n) ∧
      ∀ j < i, (pruneLoop isPrepared removeXid n i cells count).1 j = cells j := by
  induction n generalizing i cells count with
  | zero => exact ⟨rfl, rfl, fun _ _ => rfl⟩
  | succ n ih =>
    rw [pruneLoop, get_succ cells, prune, validCount_cons]
    split
    · next hvalid =>
      split
      · rw [validCount_cons, if_pos hvalid]
        exact ⟨get_succ cells i n, rfl, fun _ _ => rfl⟩
      · split
        · obtain ⟨hget, hcount, hbelow⟩ := ih (i + 1) (Function.update cells i ⟨(cells i).xid, false⟩) (count + 1)
          rw [get_update_outside _ (by omega)] at hget hcount
          refine ⟨?_, ?_, fun j hj => ?_⟩
          · rw [get_succ, hget, hbelow i (Nat.lt_succ_self i), Function.update_self]
          · rw [validCount_cons, if_neg Bool.false_ne_true]
            omega
          · rw [hbelow j (by omega), Function.update_of_ne (by omega)]
        · obtain ⟨hget, hcount, hbelow⟩ := ih (i + 1) cells count
          refine ⟨?_, ?_, fun j hj => hbelow j (by omega)⟩
          · rw [get_succ, hget, hbelow i (Nat.lt_succ_self i)]
          · rw [validCount_cons, if_pos hvalid]
            omega
    · next hvalid =>
      obtain ⟨hget, hcount, hbelow⟩ := ih (i + 1) cells count
      refine ⟨?_, ?_, fun j hj => hbelow j (by omega)⟩
      · rw [get_succ, hget, hbelow i (Nat.lt_succ_self i)]
      · rw [validCount_cons, if_neg hvalid]
        omega

end

end CdcKafka.ProcArray
