import Mathlib.Algebra.Ring.Nat
import Mathlib.Data.List.Basic
import Mathlib.Logic.Function.Basic

/-! The transactions a reorder buffer knows: the lookup table and its cache, the two lists kept
in LSN order, kinship, and the memory counters. -/

namespace CdcKafka.Buffer

inductive Action
  | insert
  | update
  | delete
  | message
  | invalidation
  | internalSnapshot
  | internalCommandId
  | internalSpecInsert
  | internalSpecConfirm
  | internalSpecAbort
  | truncate
deriving DecidableEq

structure Change where
  action : Action
  size : Nat
deriving DecidableEq

structure BaseSnapshot where
  xmin : Nat
  lsn : Nat
deriving DecidableEq

structure Txn where
  xid : Nat
  firstLsn : Nat
  restartDecodingLsn : Nat
  isKnownSubxact : Bool
  toplevelXid : Nat
  baseSnapshot : Option BaseSnapshot
  subtxns : List Nat
  hasCatalogChanges : Bool
  hasStreamableChange : Bool
  isAborted : Bool
  changes : List Change
  size : Nat
  totalSize : Nat
deriving DecidableEq

structure ReorderBuffer where
  byTxn : Nat → Option Txn
  byTxnLastXid : Nat
  byTxnLastTxn : Option Nat
  toplevelByLsn : List Nat
  txnsByBaseSnapshotLsn : List Nat
  catchangeTxns : List Nat
  currentRestartDecodingLsn : Nat
  size : Nat

def ReorderBuffer.empty : ReorderBuffer where
  byTxn _ := none
  byTxnLastXid := 0
  byTxnLastTxn := none
  toplevelByLsn := []
  txnsByBaseSnapshotLsn := []
  catchangeTxns := []
  currentRestartDecodingLsn := 0
  size := 0

def Txn.new (xid lsn restartDecodingLsn : Nat) : Txn where
  xid := xid
  firstLsn := lsn
  restartDecodingLsn := restartDecodingLsn
  isKnownSubxact := false
  toplevelXid := 0
  baseSnapshot := none
  subtxns := []
  hasCatalogChanges := false
  hasStreamableChange := false
  isAborted := false
  changes := []
  size := 0
  totalSize := 0

namespace ReorderBuffer

def set (rb : ReorderBuffer) (xid : Nat) (txn : Option Txn) : ReorderBuffer :=
  { rb with byTxn := Function.update rb.byTxn xid txn }

def modify (rb : ReorderBuffer) (xid : Nat) (f : Txn → Txn) : ReorderBuffer := rb.set xid ((rb.byTxn xid).map f)

end ReorderBuffer

/-- The transaction found or created is the one the cache then points to. The second component
says that the table had no entry. -/
def reorderBufferTXNByXid (rb : ReorderBuffer) (xid : Nat) (create : Bool) (lsn : Nat) (createAsTop : Bool) :
    ReorderBuffer × Bool :=
  if rb.byTxnLastXid ≠ 0 ∧ rb.byTxnLastXid = xid ∧ (rb.byTxnLastTxn.isSome ∨ create = false) then (rb, false)
  else
    match rb.byTxn xid with
    | some _ => ({ rb with byTxnLastXid := xid, byTxnLastTxn := some xid }, false)
    | none =>
      if create then
        let rb := rb.set xid (some (Txn.new xid lsn rb.currentRestartDecodingLsn))
        let rb := if createAsTop then { rb with toplevelByLsn := rb.toplevelByLsn ++ [xid] } else rb
        ({ rb with byTxnLastXid := xid, byTxnLastTxn := some xid }, true)
      else ({ rb with byTxnLastXid := xid, byTxnLastTxn := none }, true)

def ReorderBuffer.found (rb : ReorderBuffer) : Option Txn := rb.byTxnLastTxn.bind rb.byTxn

def reorderBufferProcessXid (rb : ReorderBuffer) (xid lsn : Nat) : ReorderBuffer :=
  if xid ≠ 0 then (reorderBufferTXNByXid rb xid true lsn true).1 else rb

def Txn.toptxn (txn : Txn) : Nat := if txn.isKnownSubxact then txn.toplevelXid else txn.xid

/-- Subtraction of `Size` values wraps around. -/
def sizeSub (a b : Nat) : Nat := if b ≤ a then a - b else a + 2 ^ 64 - b

def reorderBufferChangeMemoryUpdate (rb : ReorderBuffer) (txn : Txn) (addition : Bool) (sz : Nat) : ReorderBuffer :=
  if sz = 0 then rb
  else if addition then
    let rb := { rb with size := rb.size + sz }
    let rb := rb.modify txn.xid fun t => { t with size := t.size + sz }
    rb.modify txn.toptxn fun t => { t with totalSize := t.totalSize + sz }
  else
    let rb := { rb with size := sizeSub rb.size sz }
    let rb := rb.modify txn.xid fun t => { t with size := sizeSub t.size sz }
    rb.modify txn.toptxn fun t => { t with totalSize := sizeSub t.totalSize sz }

def Action.isStreamable : Action → Bool
  | .insert | .update | .delete | .internalSpecInsert | .truncate | .message => true
  | _ => false

def reorderBufferQueueChange (rb : ReorderBuffer) (xid lsn : Nat) (change : Change) : ReorderBuffer :=
  let rb := (reorderBufferTXNByXid rb xid true lsn true).1
  match rb.found with
  | none => rb
  | some txn =>
    if txn.isAborted then rb
    else
      let rb :=
        if change.action.isStreamable then rb.modify txn.toptxn fun t => { t with hasStreamableChange := true }
        else rb
      let rb := rb.modify txn.xid fun t => { t with changes := t.changes ++ [change] }
      reorderBufferChangeMemoryUpdate rb txn true change.size

def serializeChanges (rb : ReorderBuffer) (xid : Nat) : ReorderBuffer :=
  match rb.byTxn xid with
  | none => rb
  | some txn =>
    let rb := rb.modify xid fun t => { t with changes := [] }
    reorderBufferChangeMemoryUpdate rb txn false txn.size

def reorderBufferSerializeTXN (rb : ReorderBuffer) (xid : Nat) : ReorderBuffer :=
  match rb.byTxn xid with
  | none => rb
  | some txn => serializeChanges (txn.subtxns.foldl serializeChanges rb) xid

def markCatalogChanges (rb : ReorderBuffer) (xid : Nat) : ReorderBuffer :=
  match rb.byTxn xid with
  | none => rb
  | some txn =>
    if txn.hasCatalogChanges then rb
    else { rb.modify xid fun t => { t with hasCatalogChanges := true } with
      catchangeTxns := rb.catchangeTxns ++ [xid] }

def reorderBufferXidSetCatalogChanges (rb : ReorderBuffer) (xid lsn : Nat) : ReorderBuffer :=
  let rb := (reorderBufferTXNByXid rb xid true lsn true).1
  match rb.found with
  | none => rb
  | some txn =>
    let rb := markCatalogChanges rb txn.xid
    if txn.isKnownSubxact then markCatalogChanges rb txn.toplevelXid else rb

def insertBefore (before node : Nat) : List Nat → List Nat
  | [] => []
  | x :: xs => if x = before then node :: x :: xs else x :: insertBefore before node xs

def reorderBufferTransferSnapToParent (rb : ReorderBuffer) (txn subtxn : Txn) : ReorderBuffer :=
  match subtxn.baseSnapshot with
  | none => rb
  | some snap =>
    if txn.baseSnapshot.isNone ∨ ∃ top ∈ txn.baseSnapshot, snap.lsn < top.lsn then
      let list :=
        if txn.baseSnapshot.isSome then rb.txnsByBaseSnapshotLsn.erase txn.xid else rb.txnsByBaseSnapshotLsn
      let rb := rb.modify txn.xid fun t => { t with baseSnapshot := some snap }
      let rb := rb.modify subtxn.xid fun t => { t with baseSnapshot := none }
      { rb with txnsByBaseSnapshotLsn := (insertBefore subtxn.xid txn.xid list).erase subtxn.xid }
    else
      let rb := rb.modify subtxn.xid fun t => { t with baseSnapshot := none }
      { rb with txnsByBaseSnapshotLsn := rb.txnsByBaseSnapshotLsn.erase subtxn.xid }

def linkChild (rb : ReorderBuffer) (xid subxid : Nat) : ReorderBuffer :=
  let rb := rb.modify subxid fun t => { t with isKnownSubxact := true, toplevelXid := xid }
  let rb := rb.modify xid fun t => { t with subtxns := t.subtxns ++ [subxid] }
  match rb.byTxn xid, rb.byTxn subxid with
  | some txn, some subtxn => reorderBufferTransferSnapToParent rb txn subtxn
  | _, _ => rb

def reorderBufferAssignChild (rb : ReorderBuffer) (xid subxid lsn : Nat) : ReorderBuffer :=
  let rb := (reorderBufferTXNByXid rb xid true lsn true).1
  let (rb, newSub) := reorderBufferTXNByXid rb subxid true lsn false
  match rb.byTxn subxid with
  | none => rb
  | some subtxn =>
    if newSub then linkChild rb xid subxid
    else if subtxn.isKnownSubxact then rb
    else linkChild { rb with toplevelByLsn := rb.toplevelByLsn.erase subxid } xid subxid

def reorderBufferCommitChild (rb : ReorderBuffer) (xid subxid : Nat) : ReorderBuffer :=
  let rb := (reorderBufferTXNByXid rb subxid false 0 false).1
  match rb.found with
  | none => rb
  | some _ => reorderBufferAssignChild rb xid subxid 0

def setBaseSnapshot (rb : ReorderBuffer) (xid : Nat) (snap : BaseSnapshot) : ReorderBuffer :=
  { rb.modify xid fun t => { t with baseSnapshot := some snap } with
    txnsByBaseSnapshotLsn := rb.txnsByBaseSnapshotLsn ++ [xid] }

def reorderBufferSetBaseSnapshot (rb : ReorderBuffer) (xid lsn xmin : Nat) : ReorderBuffer :=
  let rb := (reorderBufferTXNByXid rb xid true lsn true).1
  match rb.found with
  | none => rb
  | some txn =>
    if txn.isKnownSubxact then
      setBaseSnapshot (reorderBufferTXNByXid rb txn.toplevelXid false 0 false).1 txn.toplevelXid ⟨xmin, lsn⟩
    else setBaseSnapshot rb txn.xid ⟨xmin, lsn⟩

def reorderBufferXidHasBaseSnapshot (rb : ReorderBuffer) (xid : Nat) : Bool × ReorderBuffer :=
  let rb := (reorderBufferTXNByXid rb xid false 0 false).1
  match rb.found with
  | none => (false, rb)
  | some txn =>
    if txn.isKnownSubxact then
      let rb := (reorderBufferTXNByXid rb txn.toplevelXid false 0 false).1
      ((rb.found.bind fun t => t.baseSnapshot).isSome, rb)
    else (txn.baseSnapshot.isSome, rb)

def Txn.memory (txn : Txn) : Nat := (txn.changes.map fun c => c.size).sum

def deleteNode (rb : ReorderBuffer) (xid : Nat) (txn : Txn) : ReorderBuffer :=
  if txn.isKnownSubxact then rb.modify txn.toplevelXid fun t => { t with subtxns := t.subtxns.erase xid }
  else { rb with toplevelByLsn := rb.toplevelByLsn.erase xid }

def reorderBufferFreeTXN (rb : ReorderBuffer) (xid : Nat) : ReorderBuffer :=
  if rb.byTxnLastXid = xid then { rb with byTxnLastXid := 0, byTxnLastTxn := none } else rb

def removeTxn (rb : ReorderBuffer) (xid : Nat) (txn : Txn) : ReorderBuffer :=
  let rb :=
    { deleteNode rb xid txn with
      txnsByBaseSnapshotLsn :=
        if txn.baseSnapshot.isSome then rb.txnsByBaseSnapshotLsn.erase xid else rb.txnsByBaseSnapshotLsn
      catchangeTxns := if txn.hasCatalogChanges then rb.catchangeTxns.erase xid else rb.catchangeTxns }
  reorderBufferFreeTXN (rb.set xid none) xid

def cleanupOne (rb : ReorderBuffer) (xid : Nat) : ReorderBuffer :=
  match rb.byTxn xid with
  | none => rb
  | some txn => removeTxn (reorderBufferChangeMemoryUpdate rb txn false txn.memory) xid txn

def reorderBufferCleanupTXN (rb : ReorderBuffer) (xid : Nat) : ReorderBuffer :=
  match rb.byTxn xid with
  | none => rb
  | some txn => cleanupOne (txn.subtxns.foldl cleanupOne rb) xid

def finish (rb : ReorderBuffer) (xid : Nat) : ReorderBuffer :=
  let rb := (reorderBufferTXNByXid rb xid false 0 false).1
  match rb.found with
  | none => rb
  | some _ => reorderBufferCleanupTXN rb xid

def reorderBufferCommit (rb : ReorderBuffer) (xid : Nat) : ReorderBuffer := finish rb xid

def reorderBufferAbort (rb : ReorderBuffer) (xid : Nat) : ReorderBuffer := finish rb xid

def reorderBufferForget (rb : ReorderBuffer) (xid : Nat) : ReorderBuffer := finish rb xid

def transactionIdPrecedes (id1 id2 : Nat) : Bool :=
  if 3 ≤ id1 ∧ 3 ≤ id2 then decide (2 ^ 31 ≤ (id1 + 2 ^ 32 - id2) % 2 ^ 32) else decide (id1 < id2)

def reorderBufferAbortOld (rb : ReorderBuffer) (oldestRunningXid : Nat) : ReorderBuffer :=
  (rb.toplevelByLsn.takeWhile fun xid => transactionIdPrecedes xid oldestRunningXid).foldl reorderBufferCleanupTXN rb

end CdcKafka.Buffer
