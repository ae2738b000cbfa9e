import CdcKafka.Reorder.DiskChange

/-! What is restored from the record of a change is the change, but that a snapshot is a copy. -/

namespace CdcKafka.Reorder.Disk
open CdcKafka.Lib CdcKafka.Xlog CdcKafka.Xact

def HeapTuple.WellFormed (tuple : HeapTuple) : Prop := 0 < tuple.tLen

def ChangeData.tuples : ChangeData → List HeapTuple
  | .tp _ _ _ oldtuple newtuple => oldtuple.toList ++ newtuple.toList
  | _ => []

def ReorderBufferChange.WellFormed (change : ReorderBufferChange) : Prop :=
  ∀ tuple ∈ change.data.tuples, tuple.WellFormed

def ChangeData.restored : ChangeData → ChangeData
  | .internalSnapshot snap => .internalSnapshot { snap with copied := true }
  | data => data

def ReorderBufferChange.restored (change : ReorderBufferChange) : ReorderBufferChange :=
  { change with data := change.data.restored }

theorem length_tupleBytes {mem : Addresses} {tuple : Option HeapTuple}
    (h : ∀ t ∈ tuple.toList, t.WellFormed) : (tupleBytes mem tuple).length = tupleSize tuple := by
  cases tuple with
  | none => rfl
  | some t =>
    have hpos : 0 < t.tLen := h t (by simp)
    rw [tupleBytes, if_pos (Nat.ne_of_gt hpos), List.length_append, CLayout.length_bytes]
    rfl

theorem length_snapshotHeader (mem : Addresses) (snap : SnapshotData) :
    (snapshotHeader mem snap).length = sizeofSnapshotData := CLayout.length_bytes _ _

theorem length_changeBytes (mem : Addresses) (change : ReorderBufferChange) :
    (changeBytes mem change).length = sizeofReorderBufferChange := CLayout.length_bytes _ _

theorem length_variableBytes {mem : Addresses} {data : ChangeData} (h : ∀ tuple ∈ data.tuples, tuple.WellFormed) :
    sizeofReorderBufferDiskChange + (variableBytes mem data).length = diskSize data := by
  unfold diskSize variableBytes
  congr 1
  cases data with
  | tp action rlocator clear oldtuple newtuple =>
    have hold : ∀ t ∈ oldtuple.toList, t.WellFormed :=
      fun t ht => h t (List.mem_append_left _ ht)
    have hnew : ∀ t ∈ newtuple.toList, t.WellFormed :=
      fun t ht => h t (List.mem_append_right _ ht)
    simp only [List.length_append, length_tupleBytes hold, length_tupleBytes hnew]
  | message msgPrefix message =>
    simp only [List.length_append, CLayout.length_bytes, List.length_singleton]
    simp only [CLayout.u64, sizeofSize]
    omega
  | invalidation invalidations =>
    simp only [CLayout.length_flatMap_bytes]
    exact Nat.mul_comm _ _
  | internalSnapshot snap =>
    simp only [List.length_append, CLayout.length_flatMap_bytes, length_snapshotHeader]
    simp only [CLayout.u32, sizeofTransactionId, Nat.mul_comm]
  | truncate cascade restartSeqs relids =>
    simp only [CLayout.length_flatMap_bytes]
    exact Nat.mul_comm _ _
  | internalCommandId commandId => rfl
  | internalTuplecid locator tid cmin cmax combocid => rfl
  | internalSpecConfirm rlocator clear => rfl
  | internalSpecAbort rlocator clear => rfl

theorem reorderBufferChangeSize_restored (change : ReorderBufferChange) :
    reorderBufferChangeSize change.restored = reorderBufferChangeSize change := by
  obtain ⟨lsn, originId, data⟩ := change
  cases data <;> rfl

theorem reads_memoryContextAlloc {size : Nat} (h : size ≤ maxAllocSize) : Reads (memoryContextAlloc size) [] () := by
  rw [memoryContextAlloc, if_neg (Nat.not_lt.mpr h)]
  exact Reads.pure ()

theorem ofBytes_unionOf {α : Type} (l : CLayout α) (hl : (member l).size = unionSize) (a : α) :
    (member l).ofBytes (unionOf l hl a).1 = a := (member l).ofBytes_bytes a

theorem toNat_u32_of_le {n : Nat} (h : n ≤ maxAllocSize) : (UInt32.ofNat n).toNat = n :=
  UInt32.toNat_ofNat_of_lt' (Nat.lt_of_le_of_lt h (by decide))

theorem toNat_u64_of_le {n : Nat} (h : n ≤ maxAllocSize) : (UInt64.ofNat n).toNat = n :=
  UInt64.toNat_ofNat_of_lt' (Nat.lt_of_le_of_lt h (by decide))

theorem reads_elems {α : Type} (l : CLayout α) (elems : List α) :
    Reads (readMany (l.read SpillError.outside) elems.length) (elems.flatMap l.bytes) elems :=
  reads_many fun x _ => l.reads _ x

theorem reads_tuple {mem : Addresses} {tuple : HeapTuple} (hpos : tuple.WellFormed)
    (hsize : tupleSize (some tuple) ≤ maxAllocSize) :
    Reads restoreTuple (tupleBytes mem (some tuple)) tuple := by
  have hlen : tuple.tLen ≤ maxAllocSize := Nat.le_trans (Nat.le_add_left _ _) hsize
  have hnat := toNat_u32_of_le hlen
  rw [tupleBytes, if_pos (Nat.ne_of_gt hpos)]
  refine (CLayout.reads _ _ _).bind ?_
  simp only [hnat]
  rw [← List.nil_append tuple.tData]
  refine (reads_memoryContextAlloc hsize).bind ?_
  exact (reads_bytes SpillError.outside tuple.tData).map

theorem reads_tuplePtr {mem : Addresses} (f : PtrField) {tuple : Option HeapTuple}
    (hpos : ∀ t ∈ tuple.toList, t.WellFormed) (hsize : tupleSize tuple ≤ maxAllocSize) :
    Reads (restoreTuplePtr (mem.ptr f tuple)) (tupleBytes mem tuple) tuple := by
  cases tuple with
  | none => exact Reads.pure none
  | some t =>
    have hptr : (mem.ptr f (some t) != 0) = true := by simpa [Addresses.ptr] using mem.nonnull f
    rw [restoreTuplePtr, hptr]
    exact (reads_tuple (hpos t (by simp)) hsize).map

theorem reads_tp (mem : Addresses) (action : TupleAction) (rlocator : RelFileLocator)
    (clear : Bool) {oldtuple newtuple : Option HeapTuple}
    (hpos : ∀ t ∈ oldtuple.toList ++ newtuple.toList, t.WellFormed)
    (hsize : tupleSize oldtuple + tupleSize newtuple ≤ maxAllocSize) :
    Reads (restoreTp action (unionBytes mem (.tp action rlocator clear oldtuple newtuple)).1)
      (variableBytes mem (.tp action rlocator clear oldtuple newtuple))
      (.tp action rlocator clear oldtuple newtuple) := by
  have hold : ∀ t ∈ oldtuple.toList, t.WellFormed := fun t ht => hpos t (List.mem_append_left _ ht)
  have hnew : ∀ t ∈ newtuple.toList, t.WellFormed := fun t ht => hpos t (List.mem_append_right _ ht)
  have hmember := ofBytes_unionOf tpLayout rfl (rlocator, clear, mem.ptr .oldtuple oldtuple, mem.ptr .newtuple newtuple)
  rw [restoreTp, unionBytes, hmember]
  refine (reads_tuplePtr .oldtuple hold (by omega)).bind ?_
  exact (reads_tuplePtr .newtuple hnew (by omega)).map

theorem reads_message {mem : Addresses} {msgPrefix : CStr} {message : Bytes}
    (hsize : (msgPrefix.bytes.length + 1) + message.length ≤ maxAllocSize) :
    Reads restoreMessage (variableBytes mem (.message msgPrefix message)) (.message msgPrefix message) := by
  have hname := toNat_u64_of_le (n := msgPrefix.bytes.length + 1) (by omega)
  have hmessage := toNat_u64_of_le (n := message.length) (by omega)
  have hstr : CStr.ofBytes (msgPrefix.bytes ++ [0]) = msgPrefix :=
    CStr.ext (takeWhile_cstr msgPrefix [])
  have hread := reads_bytes SpillError.outside (msgPrefix.bytes ++ [0])
  rw [List.length_append, List.length_singleton] at hread
  simp only [restoreMessage, variableBytes, List.append_assoc]
  refine (CLayout.reads _ _ _).bind ?_
  rw [hname, ← List.nil_append (msgPrefix.bytes ++ _)]
  refine (reads_memoryContextAlloc (by omega)).bind ?_
  rw [← List.append_assoc msgPrefix.bytes]
  refine hread.bind ?_
  refine (CLayout.reads _ _ _).bind ?_
  rw [hmessage, hstr, ← List.nil_append message]
  refine (reads_memoryContextAlloc (by simp only [List.nil_append]; omega)).bind ?_
  exact (reads_bytes SpillError.outside message).map

theorem reads_invalidation {mem : Addresses} {invalidations : List SharedInvalidationMessage}
    (hsize : sizeofSharedInvalidationMessage * invalidations.length ≤ maxAllocSize) :
    Reads (restoreInvalidation (unionBytes mem (.invalidation invalidations)).1)
      (variableBytes mem (.invalidation invalidations)) (.invalidation invalidations) := by
  have hlen : invalidations.length ≤ maxAllocSize :=
    Nat.le_trans (Nat.le_mul_of_pos_left _ (by decide)) hsize
  have hmember := ofBytes_unionOf invalLayout rfl (UInt32.ofNat invalidations.length, mem.addr .invalidations)
  rw [restoreInvalidation, unionBytes, hmember, variableBytes]
  simp only [toNat_u32_of_le hlen]
  rw [← List.nil_append (List.flatMap _ _)]
  refine (reads_memoryContextAlloc hsize).bind ?_
  exact (reads_elems SharedInvalidationMessage.layout invalidations).map

theorem reads_truncate {mem : Addresses} {cascade restartSeqs : Bool} {relids : List UInt32}
    (hsize : sizeofOid * relids.length ≤ maxAllocSize) :
    Reads (restoreTruncate (unionBytes mem (.truncate cascade restartSeqs relids)).1)
      (variableBytes mem (.truncate cascade restartSeqs relids))
      (.truncate cascade restartSeqs relids) := by
  have hlen : relids.length ≤ maxAllocSize :=
    Nat.le_trans (Nat.le_mul_of_pos_left _ (by decide)) hsize
  have hmember := ofBytes_unionOf truncateLayout rfl
    (UInt64.ofNat relids.length, cascade, restartSeqs, mem.addr .relids)
  rw [restoreTruncate, unionBytes, hmember, variableBytes]
  simp only [toNat_u64_of_le hlen]
  rw [← List.nil_append (List.flatMap _ _)]
  refine (reads_memoryContextAlloc hsize).bind ?_
  exact (reads_elems CLayout.u32 relids).map

theorem reads_snapshot {mem : Addresses} {snap : SnapshotData}
    (hsize : sizeofSnapshotData + sizeofTransactionId * snap.xip.length +
      sizeofTransactionId * snap.subxip.length ≤ maxAllocSize) :
    Reads restoreSnapshot (variableBytes mem (.internalSnapshot snap))
      (.internalSnapshot { snap with copied := true }) := by
  have hxip : sizeofTransactionId * snap.xip.length ≤ maxAllocSize := by omega
  have hsubxip : sizeofTransactionId * snap.subxip.length ≤ maxAllocSize := by omega
  have hxcnt := toNat_u32_of_le (Nat.le_trans (Nat.le_mul_of_pos_left _ (by decide)) hxip)
  have hsubxcnt := toNat_u32_of_le (Nat.le_trans (Nat.le_mul_of_pos_left _ (by decide)) hsubxip)
  simp only [restoreSnapshot, variableBytes, snapshotHeader, List.append_assoc]
  refine (CLayout.reads _ _ _).bind ?_
  simp only [hxcnt, hsubxcnt]
  rw [← List.nil_append (List.flatMap _ snap.xip ++ _)]
  refine (reads_memoryContextAlloc hsize).bind ?_
  refine (reads_elems CLayout.u32 snap.xip).bind ?_
  exact (reads_elems CLayout.u32 snap.subxip).map

theorem reads_data {mem : Addresses} {data : ChangeData}
    (hpos : ∀ tuple ∈ data.tuples, tuple.WellFormed) (hsize : diskSize data ≤ maxAllocSize) :
    Reads (restoreData (unionBytes mem data).1 data.action) (variableBytes mem data) data.restored := by
  unfold diskSize at hsize
  cases data with
  | tp action rlocator clear oldtuple newtuple =>
    have hread := reads_tp mem action rlocator clear hpos (Nat.le_trans (Nat.le_add_left _ _) hsize)
    cases action with
    | insert => exact hread
    | update => exact hread
    | delete => exact hread
    | internalSpecInsert => exact hread
  | message msgPrefix message => exact reads_message (by simp only at hsize; omega)
  | invalidation invalidations =>
    exact reads_invalidation (Nat.le_trans (Nat.le_add_left _ _) hsize)
  | internalSnapshot snap => exact reads_snapshot (Nat.le_trans (Nat.le_add_left _ _) hsize)
  | truncate cascade restartSeqs relids =>
    exact reads_truncate (Nat.le_trans (Nat.le_add_left _ _) hsize)
  | internalCommandId commandId =>
    have hmember := ofBytes_unionOf CLayout.u32 rfl commandId
    rw [unionBytes, ChangeData.action, restoreData, hmember]
    exact Reads.pure _
  | internalTuplecid locator tid cmin cmax combocid =>
    have hmember := ofBytes_unionOf tuplecidLayout rfl (locator, tid, cmin, cmax, combocid)
    rw [unionBytes, ChangeData.action, restoreData, hmember]
    exact Reads.pure _
  | internalSpecConfirm rlocator clear =>
    have hmember := ofBytes_unionOf tpLayout rfl (rlocator, clear, 0, 0)
    rw [unionBytes, ChangeData.action, restoreData, hmember]
    exact Reads.pure _
  | internalSpecAbort rlocator clear =>
    have hmember := ofBytes_unionOf tpLayout rfl (rlocator, clear, 0, 0)
    rw [unionBytes, ChangeData.action, restoreData, hmember]
    exact Reads.pure _

theorem reads_written (mem : Addresses) {change : ReorderBufferChange}
    (hpos : change.WellFormed) (hsize : diskSize change.data ≤ maxAllocSize) :
    Reads reorderBufferRestoreChange
      (CLayout.u64.bytes (UInt64.ofNat (diskSize change.data)) ++ changeBytes mem change ++
        variableBytes mem change.data) change.restored := by
  rw [List.append_assoc]
  refine (CLayout.reads _ _ _).bind ?_
  refine (CLayout.reads _ _ _).bind ?_
  simp only [ReorderBufferChangeType.ofCode_code]
  exact (reads_data hpos hsize).map

theorem reorderBufferSerializeChange_ok {mem : Addresses} {outbuf record : Bytes}
    {change : ReorderBufferChange} (hpos : change.WellFormed)
    (h : reorderBufferSerializeChange mem outbuf change = .ok record) :
    diskSize change.data ≤ maxAllocSize ∧ record = CLayout.u64.bytes (UInt64.ofNat (diskSize change.data)) ++
        changeBytes mem change ++ variableBytes mem change.data ∧
      record.length = diskSize change.data := by
  unfold reorderBufferSerializeChange at h
  simp only at h
  split at h
  · cases h
  · next hsize =>
    have hlen : (CLayout.u64.bytes (UInt64.ofNat (diskSize change.data)) ++
        changeBytes mem change ++ variableBytes mem change.data).length = diskSize change.data := by
      rw [← length_variableBytes hpos, List.length_append, List.length_append, length_changeBytes, CLayout.length_bytes]
      rfl
    have hrecord := Except.ok.inj h
    rw [List.take_append_of_le_length hlen.ge, List.take_of_length_le hlen.le] at hrecord
    exact ⟨Nat.not_lt.mp hsize, hrecord.symm, hrecord ▸ hlen⟩

/-- What is restored from the record of a change is the change with an own copy of its snapshot:
the record is read to its end, which is at the recorded size, and the sizes that are accounted for
the change before and after are the same. -/
theorem restoreChange_serializeChange {mem : Addresses} {outbuf record : Bytes}
    {change : ReorderBufferChange} (hpos : change.WellFormed)
    (h : reorderBufferSerializeChange mem outbuf change = .ok record) :
    reorderBufferRestoreChange record = .ok (change.restored, []) ∧ recordedSize record = record.length ∧
      reorderBufferChangeSize change.restored = reorderBufferChangeSize change := by
  obtain ⟨hsize, hrecord, hlen⟩ := reorderBufferSerializeChange_ok hpos h
  have hread := reads_written mem hpos hsize []
  rw [List.append_nil, ← hrecord] at hread
  refine ⟨hread, ?_, reorderBufferChangeSize_restored change⟩
  have hfront : record.take 8 = CLayout.u64.bytes (UInt64.ofNat (diskSize change.data)) := by
    rw [hrecord, List.append_assoc]
    exact List.take_left' (CLayout.length_bytes _ _)
  rw [recordedSize, hfront, CLayout.ofBytes_bytes, toNat_u64_of_le hsize, hlen]

def sampleChange : ReorderBufferChange where
  lsn := 0x1234
  originId := 7
  data := .tp .update ⟨1663, 5, 16384⟩ true (some ⟨⟨[0, 0, 0, 0, 1, 0], rfl⟩, 16384, List.replicate 23 3⟩)
    (some ⟨⟨[0, 0, 0, 0, 2, 0], rfl⟩, 16384, List.replicate 30 9⟩)

theorem sampleChange_restored : ∃ record, reorderBufferSerializeChange ⟨fun _ => 4096, fun _ => by decide⟩
        (List.replicate 300 0xff) sampleChange = .ok record ∧ record.length = 189 ∧
      reorderBufferRestoreChange record = .ok (sampleChange, []) := by
  have hpos : sampleChange.WellFormed := by
    unfold ReorderBufferChange.WellFormed HeapTuple.WellFormed
    decide
  refine ⟨_, rfl, rfl, ?_⟩
  exact (restoreChange_serializeChange hpos rfl).1

end CdcKafka.Reorder.Disk
