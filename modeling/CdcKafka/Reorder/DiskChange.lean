import CdcKafka.Xact.Record

/-! The record of one change in a spill file: `ReorderBufferSerializeChange`,
`ReorderBufferRestoreChange` and `ReorderBufferChangeSize` of `reorderbuffer.c`, on a machine with
pointers of 64 bits. -/

namespace CdcKafka.Reorder.Disk
open CdcKafka.Lib CdcKafka.Xlog CdcKafka.Xact

structure HeapTuple where
  tSelf : { b : Bytes // b.length = 6 }
  tTableOid : UInt32
  tData : Bytes
deriving DecidableEq

def HeapTuple.tLen (tuple : HeapTuple) : Nat := tuple.tData.length

structure SnapshotData where
  snapshotType : UInt32
  xmin : UInt32
  xmax : UInt32
  xip : List UInt32
  subxip : List UInt32
  suboverflowed : Bool
  takenDuringRecovery : Bool
  copied : Bool
  curcid : UInt32
  speculativeToken : UInt32
  vistest : UInt64
  activeCount : UInt32
  regdCount : UInt32
  phNode : { b : Bytes // b.length = 24 }
  snapXactCompletionCount : UInt64
deriving DecidableEq

inductive TupleAction
  | insert | update | delete | internalSpecInsert
deriving DecidableEq

inductive ChangeData
  | tp (action : TupleAction) (rlocator : RelFileLocator) (clearToastAfterwards : Bool)
      (oldtuple newtuple : Option HeapTuple)
  | message (msgPrefix : CStr) (message : Bytes)
  | invalidation (invalidations : List SharedInvalidationMessage)
  | internalSnapshot (snapshot : SnapshotData)
  | internalCommandId (commandId : UInt32)
  | internalTuplecid (locator : RelFileLocator) (tid : { b : Bytes // b.length = 6 }) (cmin cmax combocid : UInt32)
  | internalSpecConfirm (rlocator : RelFileLocator) (clearToastAfterwards : Bool)
  | internalSpecAbort (rlocator : RelFileLocator) (clearToastAfterwards : Bool)
  | truncate (cascade restartSeqs : Bool) (relids : List UInt32)
deriving DecidableEq

structure ReorderBufferChange where
  lsn : UInt64
  originId : UInt16
  data : ChangeData
deriving DecidableEq

inductive ReorderBufferChangeType
  | insert | update | delete | message | invalidation | internalSnapshot | internalCommandId
  | internalTuplecid | internalSpecInsert | internalSpecConfirm | internalSpecAbort | truncate
deriving DecidableEq

def ReorderBufferChangeType.all : List ReorderBufferChangeType :=
  [insert, update, delete, message, invalidation, internalSnapshot, internalCommandId,
   internalTuplecid, internalSpecInsert, internalSpecConfirm, internalSpecAbort, truncate]

def ReorderBufferChangeType.code (t : ReorderBufferChangeType) : UInt32 :=
  UInt32.ofNat (all.idxOf t)

def ReorderBufferChangeType.ofCode (n : UInt32) : Option ReorderBufferChangeType :=
  all[n.toNat]?

theorem ReorderBufferChangeType.ofCode_code (t : ReorderBufferChangeType) : ofCode t.code = some t := by
  cases t <;> rfl

def TupleAction.changeType : TupleAction → ReorderBufferChangeType
  | .insert => .insert
  | .update => .update
  | .delete => .delete
  | .internalSpecInsert => .internalSpecInsert

def ChangeData.action : ChangeData → ReorderBufferChangeType
  | .tp action .. => action.changeType
  | .message .. => .message
  | .invalidation .. => .invalidation
  | .internalSnapshot .. => .internalSnapshot
  | .internalCommandId .. => .internalCommandId
  | .internalTuplecid .. => .internalTuplecid
  | .internalSpecConfirm .. => .internalSpecConfirm
  | .internalSpecAbort .. => .internalSpecAbort
  | .truncate .. => .truncate

inductive PtrField
  | txn | prev | next | oldtuple | newtuple | msgPrefix | message | invalidations | snapshot
  | relids | tData | xip | subxip
deriving DecidableEq

structure Addresses where
  addr : PtrField → UInt64
  nonnull : ∀ f, addr f ≠ 0

def Addresses.ptr {α : Type} (mem : Addresses) (f : PtrField) : Option α → UInt64
  | some _ => mem.addr f
  | none => 0

/-- `sizeof(HeapTupleData)`: `t_len`, `t_self`, `t_tableOid` and `t_data`. -/
def heapTupleLayout : CLayout (UInt32 × { b : Bytes // b.length = 6 } × UInt32 × UInt64) :=
  CLayout.u32.pair (((CLayout.raw 6).padded 2).pair (CLayout.u32.pair .u64))

def tpLayout : CLayout (RelFileLocator × Bool × UInt64 × UInt64) :=
  RelFileLocator.layout.pair ((CLayout.bool.padded 3).pair (CLayout.u64.pair .u64))

def truncateLayout : CLayout (UInt64 × Bool × Bool × UInt64) :=
  CLayout.u64.pair (CLayout.bool.pair ((CLayout.bool.padded 6).pair .u64))

def msgLayout : CLayout (UInt64 × UInt64 × UInt64) := CLayout.u64.pair (CLayout.u64.pair .u64)

def tuplecidLayout :
    CLayout (RelFileLocator × { b : Bytes // b.length = 6 } × UInt32 × UInt32 × UInt32) :=
  RelFileLocator.layout.pair (((CLayout.raw 6).padded 2).pair (CLayout.u32.pair (CLayout.u32.pair .u32)))

def invalLayout : CLayout (UInt32 × UInt64) := (CLayout.u32.padded 4).pair .u64

def unionSize : Nat := 32

def member {α : Type} (l : CLayout α) : CLayout α := l.padded (unionSize - l.size)

/-- `ReorderBufferChange`: `lsn`, `action`, `txn`, `origin_id`, `data` and `node`. -/
def changeLayout : CLayout
    (UInt64 × UInt32 × UInt64 × UInt16 × { b : Bytes // b.length = unionSize } × UInt64 × UInt64) :=
  CLayout.u64.pair ((CLayout.u32.padded 4).pair (CLayout.u64.pair ((CLayout.u16.padded 6).pair
    ((CLayout.raw unionSize).pair (CLayout.u64.pair .u64)))))

def snapshotLayout : CLayout
    ((UInt32 × UInt32 × UInt32 × UInt64 × UInt32 × UInt64 × UInt32) ×
      (Bool × Bool × Bool × UInt32 × UInt32 × UInt64 × UInt32 × UInt32 × { b : Bytes // b.length = 24 } × UInt64)) :=
  (CLayout.u32.pair (CLayout.u32.pair ((CLayout.u32.padded 4).pair (CLayout.u64.pair
    ((CLayout.u32.padded 4).pair (CLayout.u64.pair .u32)))))).pair
  (CLayout.bool.pair (CLayout.bool.pair ((CLayout.bool.padded 1).pair (CLayout.u32.pair
    (CLayout.u32.pair (CLayout.u64.pair (CLayout.u32.pair (CLayout.u32.pair ((CLayout.raw 24).pair .u64)))))))))

def sizeofHeapTupleData : Nat := heapTupleLayout.size
def sizeofSnapshotData : Nat := snapshotLayout.size
def sizeofReorderBufferChange : Nat := changeLayout.size
def sizeofReorderBufferDiskChange : Nat := 8 + sizeofReorderBufferChange
def sizeofTransactionId : Nat := 4
def sizeofOid : Nat := 4
def sizeofSharedInvalidationMessage : Nat := 16
def sizeofSize : Nat := 8

/-- The sizes that the compiler gives the structs. -/
example : (sizeofHeapTupleData, sizeofSnapshotData, sizeofReorderBufferChange) = (24, 104, 80) :=
  rfl

example : ([tpLayout.size, truncateLayout.size, msgLayout.size, tuplecidLayout.size,
    invalLayout.size].all fun n => n ≤ unionSize) = true := rfl

def tupleSize : Option HeapTuple → Nat
  | some tuple => sizeofHeapTupleData + tuple.tLen
  | none => 0

def reorderBufferChangeSize (change : ReorderBufferChange) : Nat :=
  sizeofReorderBufferChange + match change.data with
    | .tp _ _ _ oldtuple newtuple => tupleSize oldtuple + tupleSize newtuple
    | .message msgPrefix message =>
      (msgPrefix.bytes.length + 1) + message.length + sizeofSize + sizeofSize
    | .invalidation invalidations => sizeofSharedInvalidationMessage * invalidations.length
    | .internalSnapshot snap =>
      sizeofSnapshotData + sizeofTransactionId * snap.xip.length + sizeofTransactionId * snap.subxip.length
    | .truncate _ _ relids => sizeofOid * relids.length
    | .internalSpecConfirm .. => 0
    | .internalSpecAbort .. => 0
    | .internalCommandId .. => 0
    | .internalTuplecid .. => 0

inductive SpillError
  /-- "invalid memory alloc request size" -/
  | invalidAllocSize (size : Nat)
  | outside
  | unknownAction (code : UInt32)
deriving DecidableEq

def diskSize (data : ChangeData) : Nat :=
  sizeofReorderBufferDiskChange + match data with
    | .tp _ _ _ oldtuple newtuple => tupleSize oldtuple + tupleSize newtuple
    | .message msgPrefix message =>
      (msgPrefix.bytes.length + 1) + message.length + sizeofSize + sizeofSize
    | .invalidation invalidations => sizeofSharedInvalidationMessage * invalidations.length
    | .internalSnapshot snap =>
      sizeofSnapshotData + sizeofTransactionId * snap.xip.length + sizeofTransactionId * snap.subxip.length
    | .truncate _ _ relids => sizeofOid * relids.length
    | .internalSpecConfirm .. => 0
    | .internalSpecAbort .. => 0
    | .internalCommandId .. => 0
    | .internalTuplecid .. => 0

def tupleBytes (mem : Addresses) : Option HeapTuple → Bytes
  | some tuple =>
    if tuple.tLen ≠ 0 then
      heapTupleLayout.bytes (UInt32.ofNat tuple.tLen, tuple.tSelf, tuple.tTableOid, mem.addr .tData) ++ tuple.tData
    else []
  | none => []

def snapshotHeader (mem : Addresses) (snap : SnapshotData) : Bytes :=
  snapshotLayout.bytes ((snap.snapshotType, snap.xmin, snap.xmax, mem.addr .xip, UInt32.ofNat snap.xip.length,
        mem.addr .subxip, UInt32.ofNat snap.subxip.length),
      (snap.suboverflowed, snap.takenDuringRecovery, snap.copied, snap.curcid,
        snap.speculativeToken, snap.vistest, snap.activeCount, snap.regdCount, snap.phNode,
        snap.snapXactCompletionCount))

def variableBytes (mem : Addresses) : ChangeData → Bytes
  | .tp _ _ _ oldtuple newtuple => tupleBytes mem oldtuple ++ tupleBytes mem newtuple
  | .message msgPrefix message =>
    CLayout.u64.bytes (UInt64.ofNat (msgPrefix.bytes.length + 1)) ++ (msgPrefix.bytes ++ [0]) ++
      CLayout.u64.bytes (UInt64.ofNat message.length) ++ message
  | .invalidation invalidations =>
    invalidations.flatMap SharedInvalidationMessage.layout.bytes
  | .internalSnapshot snap =>
    snapshotHeader mem snap ++ snap.xip.flatMap CLayout.u32.bytes ++ snap.subxip.flatMap CLayout.u32.bytes
  | .truncate _ _ relids => relids.flatMap CLayout.u32.bytes
  | .internalSpecConfirm .. => []
  | .internalSpecAbort .. => []
  | .internalCommandId .. => []
  | .internalTuplecid .. => []

def unionOf {α : Type} (l : CLayout α) (hl : (member l).size = unionSize) (a : α) :
    { b : Bytes // b.length = unionSize } :=
  ⟨(member l).bytes a, by rw [(member l).length_bytes, hl]⟩

def unionBytes (mem : Addresses) : ChangeData → { b : Bytes // b.length = unionSize }
  | .tp _ rlocator clearToastAfterwards oldtuple newtuple =>
    unionOf tpLayout rfl (rlocator, clearToastAfterwards, mem.ptr .oldtuple oldtuple, mem.ptr .newtuple newtuple)
  | .message _ message =>
    unionOf msgLayout rfl (mem.addr .msgPrefix, UInt64.ofNat message.length, mem.addr .message)
  | .invalidation invalidations =>
    unionOf invalLayout rfl (UInt32.ofNat invalidations.length, mem.addr .invalidations)
  | .internalSnapshot _ => unionOf CLayout.u64 rfl (mem.addr .snapshot)
  | .internalCommandId commandId => unionOf CLayout.u32 rfl commandId
  | .internalTuplecid locator tid cmin cmax combocid =>
    unionOf tuplecidLayout rfl (locator, tid, cmin, cmax, combocid)
  | .internalSpecConfirm rlocator clearToastAfterwards =>
    unionOf tpLayout rfl (rlocator, clearToastAfterwards, 0, 0)
  | .internalSpecAbort rlocator clearToastAfterwards =>
    unionOf tpLayout rfl (rlocator, clearToastAfterwards, 0, 0)
  | .truncate cascade restartSeqs relids =>
    unionOf truncateLayout rfl (UInt64.ofNat relids.length, cascade, restartSeqs, mem.addr .relids)

def changeBytes (mem : Addresses) (change : ReorderBufferChange) : Bytes :=
  changeLayout.bytes (change.lsn, change.data.action.code, mem.addr .txn, change.originId,
      unionBytes mem change.data, mem.addr .prev, mem.addr .next)

def reorderBufferSerializeChange (mem : Addresses) (outbuf : Bytes)
    (change : ReorderBufferChange) : Except SpillError Bytes :=
  let sz := diskSize change.data
  if maxAllocSize < sz then .error (.invalidAllocSize sz)
  else
    let written := CLayout.u64.bytes (UInt64.ofNat sz) ++ changeBytes mem change ++
      variableBytes mem change.data
    .ok ((written ++ outbuf.drop written.length).take sz)

abbrev Restore := Reader SpillError

def memoryContextAlloc (size : Nat) : Restore Unit :=
  if maxAllocSize < size then throw (.invalidAllocSize size) else pure ()

def restoreTuple : Restore HeapTuple := do
  let (tLen, tSelf, tTableOid, _) ← heapTupleLayout.read .outside
  memoryContextAlloc (sizeofHeapTupleData + tLen.toNat)
  let tData ← readBytes .outside tLen.toNat
  pure { tSelf, tTableOid, tData }

def restoreTuplePtr (ptr : UInt64) : Restore (Option HeapTuple) :=
  readPart (ptr != 0) (do
    let tuple ← restoreTuple
    pure (some tuple)) none

def restoreTp (action : TupleAction) (data : Bytes) : Restore ChangeData := do
  let (rlocator, clearToastAfterwards, oldptr, newptr) := (member tpLayout).ofBytes data
  let oldtuple ← restoreTuplePtr oldptr
  let newtuple ← restoreTuplePtr newptr
  pure (.tp action rlocator clearToastAfterwards oldtuple newtuple)

def restoreMessage : Restore ChangeData := do
  let prefixSize ← CLayout.u64.read .outside
  memoryContextAlloc prefixSize.toNat
  let msgPrefix ← readBytes .outside prefixSize.toNat
  let messageSize ← CLayout.u64.read .outside
  memoryContextAlloc messageSize.toNat
  let message ← readBytes .outside messageSize.toNat
  pure (.message (CStr.ofBytes msgPrefix) message)

def restoreInvalidation (data : Bytes) : Restore ChangeData := do
  let (ninvalidations, _) := (member invalLayout).ofBytes data
  memoryContextAlloc (sizeofSharedInvalidationMessage * ninvalidations.toNat)
  let invalidations ←
    readMany (SharedInvalidationMessage.layout.read .outside) ninvalidations.toNat
  pure (.invalidation invalidations)

def restoreSnapshot : Restore ChangeData := do
  let ((snapshotType, xmin, xmax, _, xcnt, _, subxcnt),
    (suboverflowed, takenDuringRecovery, _, curcid, speculativeToken, vistest, activeCount,
      regdCount, phNode, snapXactCompletionCount)) ← snapshotLayout.read .outside
  memoryContextAlloc (sizeofSnapshotData + sizeofTransactionId * xcnt.toNat + sizeofTransactionId * subxcnt.toNat)
  let xip ← readMany (CLayout.u32.read .outside) xcnt.toNat
  let subxip ← readMany (CLayout.u32.read .outside) subxcnt.toNat
  pure (.internalSnapshot
    { snapshotType, xmin, xmax, xip, subxip, suboverflowed, takenDuringRecovery, copied := true,
      curcid, speculativeToken, vistest, activeCount, regdCount, phNode,
      snapXactCompletionCount })

def restoreTruncate (data : Bytes) : Restore ChangeData := do
  let (nrelids, cascade, restartSeqs, _) := (member truncateLayout).ofBytes data
  memoryContextAlloc (sizeofOid * nrelids.toNat)
  let relids ← readMany (CLayout.u32.read .outside) nrelids.toNat
  pure (.truncate cascade restartSeqs relids)

def restoreData (data : Bytes) : ReorderBufferChangeType → Restore ChangeData
  | .insert => restoreTp .insert data
  | .update => restoreTp .update data
  | .delete => restoreTp .delete data
  | .internalSpecInsert => restoreTp .internalSpecInsert data
  | .message => restoreMessage
  | .invalidation => restoreInvalidation data
  | .internalSnapshot => restoreSnapshot
  | .truncate => restoreTruncate data
  | .internalSpecConfirm =>
    let (rlocator, clearToastAfterwards, _) := (member tpLayout).ofBytes data
    pure (.internalSpecConfirm rlocator clearToastAfterwards)
  | .internalSpecAbort =>
    let (rlocator, clearToastAfterwards, _) := (member tpLayout).ofBytes data
    pure (.internalSpecAbort rlocator clearToastAfterwards)
  | .internalCommandId => pure (.internalCommandId ((member CLayout.u32).ofBytes data))
  | .internalTuplecid =>
    let (locator, tid, cmin, cmax, combocid) := (member tuplecidLayout).ofBytes data
    pure (.internalTuplecid locator tid cmin cmax combocid)

def reorderBufferRestoreChange : Restore ReorderBufferChange := do
  let _size ← CLayout.u64.read .outside
  let (lsn, code, _, originId, union, _, _) ← changeLayout.read .outside
  match ReorderBufferChangeType.ofCode code with
  | some action => do
    let data ← restoreData union.1 action
    pure { lsn, originId, data }
  | none => throw (.unknownAction code)

def recordedSize (record : Bytes) : Nat := (CLayout.u64.ofBytes (record.take 8)).toNat

end CdcKafka.Reorder.Disk
