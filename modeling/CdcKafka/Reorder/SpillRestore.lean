import CdcKafka.Reorder.SpillDirectory

/-! `ReorderBufferRestoreChanges` of `reorderbuffer.c` reads the spill files of a transaction byte by
byte; it refines the restoring of whole changes. -/

namespace CdcKafka.Reorder.Disk
open CdcKafka.Lib CdcKafka.Xact

inductive RestoreError
  | spill (e : SpillError)
  /-- "could not read from reorderbuffer spill file: read %d instead of %u bytes" -/
  | shortRead (got wanted : Nat)
deriving DecidableEq

structure RestoreState where
  vfd : Option Path
  curOffset : Nat
  segno : Nat
  outbufsize : Nat

def RestoreState.init (outbufsize : Nat) : RestoreState where
  vfd := none
  curOffset := 0
  segno := 0
  outbufsize := outbufsize

def reorderBufferSerializeReserve (outbufsize sz : Nat) : Except RestoreError Nat :=
  if outbufsize < sz then
    if maxAllocSize < sz then .error (.spill (.invalidAllocSize sz)) else .ok sz
  else .ok outbufsize

def fileRead (file : Bytes) (amount offset : Nat) : Bytes := (file.drop offset).take amount

def readChange (file : Bytes) (curOffset outbufsize : Nat) :
    Except RestoreError (Option (ReorderBufferChange × Nat) × Nat) := do
  let outbufsize ← reorderBufferSerializeReserve outbufsize sizeofReorderBufferDiskChange
  let header := fileRead file sizeofReorderBufferDiskChange curOffset
  if header.length = 0 then
    pure (none, outbufsize)
  else if header.length ≠ sizeofReorderBufferDiskChange then
    throw (.shortRead header.length sizeofReorderBufferDiskChange)
  else
    let size := recordedSize header
    let outbufsize ← reorderBufferSerializeReserve outbufsize
      ((sizeofReorderBufferDiskChange + size) % 2 ^ 64)
    let amount := (size + (2 ^ 64 - sizeofReorderBufferDiskChange)) % 2 ^ 64
    let body := fileRead file amount (curOffset + header.length)
    if body.length ≠ amount then
      throw (.shortRead body.length amount)
    else
      match reorderBufferRestoreChange (header ++ body) with
      | .error e => throw (.spill e)
      | .ok (change, _) =>
        pure (some (change, curOffset + header.length + body.length), outbufsize)

section Restore

variable (d : Decoding) (files : Directory) (xid : UInt32)

def openFile (r : RestoreState) (segno : Nat) : Option (Path × Nat) :=
  match r.vfd with
  | some path => some (path, r.curOffset)
  | none =>
    let path := reorderBufferSerializedPath d xid segno
    if (files path).isSome then some (path, 0) else none

def restoreChangesLoop (lastSegno restored : Nat) (r : RestoreState) :
    Except RestoreError (List ReorderBufferChange × RestoreState) :=
  if restored < maxChangesInMemory ∧ r.segno ≤ lastSegno then
    let segno :=
      if r.vfd = none ∧ r.segno = 0 then d.seg (d.firstLsn xid).toNat
      else r.segno
    match openFile d files xid r segno with
    | none =>
      restoreChangesLoop lastSegno restored { r with curOffset := 0, segno := segno + 1 }
    | some (path, curOffset) =>
      match readChange ((files path).getD []) curOffset r.outbufsize with
      | .error e => .error e
      | .ok (none, outbufsize) =>
        restoreChangesLoop lastSegno restored { vfd := none, curOffset, segno := segno + 1, outbufsize }
      | .ok (some (change, curOffset), outbufsize) =>
        match restoreChangesLoop lastSegno (restored + 1)
            { vfd := some path, curOffset, segno, outbufsize } with
        | .error e => .error e
        | .ok (changes, r) => .ok (change :: changes, r)
  else .ok ([], r)
termination_by (lastSegno + 1 - r.segno) + (maxChangesInMemory - restored)
decreasing_by
  all_goals split <;> omega

end Restore

def reorderBufferRestoreChanges (d : Decoding) (s : SpillState) (xid : UInt32) (r : RestoreState) :
    Except RestoreError (List ReorderBufferChange × RestoreState) :=
  restoreChangesLoop d s.files xid (d.seg (s.finalLsn xid).toNat) 0 r

def restoreBatches (d : Decoding)
    (s : SpillState) (xid : UInt32) : Nat → RestoreState →
    Except RestoreError (List (List ReorderBufferChange))
  | 0, _ => .ok []
  | n + 1, r => do
    let (changes, r) ← reorderBufferRestoreChanges d s xid r
    let batches ← restoreBatches d s xid n r
    pure (changes :: batches)

/-- What becomes of a spilled change: the buffer is asked for the size of the header too often, once
within the recorded size and once more. -/
def restoredOrError (c : SpilledChange) : Except RestoreError ReorderBufferChange :=
  let sz := sizeofReorderBufferDiskChange + diskSize c.data.2.data
  if maxAllocSize < sz then .error (.spill (.invalidAllocSize sz)) else .ok c.data.2.restored

theorem serializeReserve_small {outbufsize sz : Nat} (h : sz ≤ maxAllocSize) :
    reorderBufferSerializeReserve outbufsize sz = .ok (max outbufsize sz) := by
  unfold reorderBufferSerializeReserve
  split
  · next hlt => rw [if_neg (Nat.not_lt.mpr h), Nat.max_eq_right (Nat.le_of_lt hlt)]
  · next hge => rw [Nat.max_eq_left (Nat.not_lt.mp hge)]

theorem serializeReserve_large {outbufsize sz : Nat} (h : maxAllocSize < sz) (hsize : outbufsize ≤ maxAllocSize) :
    reorderBufferSerializeReserve outbufsize sz = .error (.spill (.invalidAllocSize sz)) := by
  rw [reorderBufferSerializeReserve, if_pos (Nat.lt_of_le_of_lt hsize h), if_pos h]

theorem fileRead_append (before record rest : Bytes) {amount : Nat} (h : amount ≤ record.length) :
    fileRead (before ++ (record ++ rest)) amount before.length = record.take amount := by
  rw [fileRead, List.drop_left, List.take_append_of_le_length h]

theorem diskSize_ge (data : ChangeData) : sizeofReorderBufferDiskChange ≤ diskSize data :=
  Nat.le_add_right _ _

theorem recordedSize_record {c : SpilledChange} (h : Spillable c.data.2) (n : Nat) :
    recordedSize (c.record.take (8 + n)) = diskSize c.data.2.data := by
  have hfront : (c.record.take (8 + n)).take 8 = CLayout.u64.bytes (UInt64.ofNat (diskSize c.data.2.data)) := by
    rw [List.take_take, Nat.min_eq_left (Nat.le_add_right _ _), SpilledChange.record, List.append_assoc]
    exact List.take_left' (CLayout.length_bytes _ _)
  rw [recordedSize, hfront, CLayout.ofBytes_bytes, toNat_u64_of_le h.2]

theorem readChange_end {file : Bytes} {curOffset outbufsize : Nat} (h : file.length ≤ curOffset)
    (hsize : outbufsize ≤ maxAllocSize) :
    ∃ outbufsize', outbufsize' ≤ maxAllocSize ∧ readChange file curOffset outbufsize = .ok (none, outbufsize') := by
  have hsmall : sizeofReorderBufferDiskChange ≤ maxAllocSize := by decide
  refine ⟨max outbufsize sizeofReorderBufferDiskChange, max_le hsize hsmall, ?_⟩
  have hread : (fileRead file sizeofReorderBufferDiskChange curOffset).length = 0 := by
    rw [fileRead, List.drop_of_length_le h]
    rfl
  simp only [readChange, serializeReserve_small hsmall, bind, Except.bind, if_pos hread]
  rfl

theorem fileRead_body (before record rest : Bytes) {n : Nat} (h : n ≤ record.length) :
    fileRead (before ++ (record ++ rest)) (record.length - n) (before.length + n) = record.drop n := by
  have hsplit : before ++ (record ++ rest) = (before ++ record.take n) ++ (record.drop n ++ rest) := by
    rw [List.append_assoc, ← List.append_assoc (record.take n), List.take_append_drop]
  have hbefore : before.length + n = (before ++ record.take n).length := by
    rw [List.length_append, List.length_take, Nat.min_eq_left h]
  have hamount : record.length - n = (record.drop n).length := List.length_drop.symm
  rw [hsplit, hbefore, hamount, fileRead_append _ _ _ (Nat.le_refl _), List.take_length]

theorem restoreChange_record {c : SpilledChange} (h : Spillable c.data.2) :
    reorderBufferRestoreChange c.record = .ok (c.data.2.restored, []) := by
  have hread := reads_written c.data.1 h.1 h.2 []
  rwa [List.append_nil] at hread

theorem readChange_record {c : SpilledChange} (h : Spillable c.data.2) (before rest : Bytes)
    {outbufsize : Nat} (hsize : outbufsize ≤ maxAllocSize) :
    ∃ outbufsize', outbufsize' ≤ maxAllocSize ∧ readChange (before ++ (c.record ++ rest)) before.length outbufsize =
        (restoredOrError c).map fun change =>
          (some (change, before.length + c.record.length), outbufsize') := by
  have hsmall : sizeofReorderBufferDiskChange ≤ maxAllocSize := by decide
  have hpos : sizeofReorderBufferDiskChange ≠ 0 := by decide
  have hmax : maxAllocSize < 2 ^ 64 - sizeofReorderBufferDiskChange := by decide
  have hge := diskSize_ge c.data.2.data
  have hdisk := h.2
  have hlen := SpilledChange.length_record h
  have hheader := fileRead_append before c.record rest (hlen ▸ hge)
  have hheaderlen : (c.record.take sizeofReorderBufferDiskChange).length = sizeofReorderBufferDiskChange := by
    rw [List.length_take, hlen, Nat.min_eq_left hge]
  have hrecorded : recordedSize (c.record.take sizeofReorderBufferDiskChange) =
      diskSize c.data.2.data := recordedSize_record h sizeofReorderBufferChange
  have htotal : (sizeofReorderBufferDiskChange + diskSize c.data.2.data) % 2 ^ 64 =
      sizeofReorderBufferDiskChange + diskSize c.data.2.data := Nat.mod_eq_of_lt (by omega)
  have hamount : (diskSize c.data.2.data + (2 ^ 64 - sizeofReorderBufferDiskChange)) % 2 ^ 64 =
      c.record.length - sizeofReorderBufferDiskChange := by omega
  have hbody := fileRead_body before c.record rest (hlen ▸ hge)
  have hbodylen : (c.record.drop sizeofReorderBufferDiskChange).length =
      c.record.length - sizeofReorderBufferDiskChange := List.length_drop
  have hend : before.length + sizeofReorderBufferDiskChange +
      (c.record.length - sizeofReorderBufferDiskChange) = before.length + c.record.length := by omega
  have hown : max outbufsize sizeofReorderBufferDiskChange ≤ maxAllocSize := max_le hsize hsmall
  simp only [readChange, restoredOrError, serializeReserve_small hsmall, bind, Except.bind, hheader,
    hheaderlen, hrecorded, htotal, hamount, hbody, hbodylen, if_neg hpos, ne_eq, not_true_eq_false,
    if_false, List.take_append_drop, restoreChange_record h, hend]
  by_cases hbig : maxAllocSize < sizeofReorderBufferDiskChange + diskSize c.data.2.data
  · refine ⟨0, Nat.zero_le _, ?_⟩
    rw [serializeReserve_large hbig hown, if_pos hbig]
    rfl
  · have hfits := Nat.not_lt.mp hbig
    refine ⟨max (max outbufsize sizeofReorderBufferDiskChange)
      (sizeofReorderBufferDiskChange + diskSize c.data.2.data), max_le hown hfits, ?_⟩
    rw [serializeReserve_small hfits, if_neg hbig]
    rfl

section Refines

abbrev SpilledTxn := Reorder.Txn (Addresses × ReorderBufferChange)

variable {d : Decoding} {files : Directory}
  {xid : UInt32} {txn : SpilledTxn} {segno start : Nat} {fd : Option Nat} {r : RestoreState}

def offsetOf (txn : SpilledTxn) (segno k : Nat) : Nat :=
  (((txn.files segno).take k).flatMap SpilledChange.record).length

/-- The reader stands at change `fd` of the file of segment `segno`, as the abstract one does. -/
structure RestoreState.At (d : Decoding) (xid : UInt32) (txn : SpilledTxn)
    (segno : Nat) (fd : Option Nat) (r : RestoreState) : Prop where
  segno_eq : r.segno = segno
  small : r.outbufsize ≤ maxAllocSize
  closed : r.vfd = none ↔ fd = none
  opened : ∀ k, fd = some k → r.curOffset = offsetOf txn segno k ∧
    r.vfd = some (reorderBufferSerializedPath d xid segno)

structure StoredIn (d : Decoding) (files : Directory) (xid : UInt32)
    (txn : SpilledTxn) : Prop where
  files_eq : ∀ segno, SegmentInRange d segno →
    files (reorderBufferSerializedPath d xid segno) = spillFile (txn.files segno)
  spillable : ∀ segno, ∀ c ∈ txn.files segno, Spillable c.data.2

theorem StoredIn.openFile (hfiles : StoredIn d files xid txn) (hat : r.At d xid txn segno fd)
    (hstart : SegmentInRange d start) (hsame : fd ≠ none → start = segno) :
    openFile d files xid r start =
      if fd = none ∧ txn.files start = [] then none
      else some (reorderBufferSerializedPath d xid start,
        offsetOf txn start (fd.getD 0)) := by
  unfold Disk.openFile
  cases fd with
  | none =>
    simp only [hat.closed.mpr rfl, hfiles.files_eq start hstart, spillFile]
    by_cases hnil : txn.files start = []
    · simp [hnil]
    · simp [hnil, offsetOf]
  | some k =>
    obtain ⟨hoffset, hvfd⟩ := hat.opened k rfl
    obtain rfl := hsame (by simp)
    simp [hvfd, hoffset]

theorem StoredIn.readChange_some (hfiles : StoredIn d files xid txn)
    (hstart : SegmentInRange d start) {k : Nat} {c : SpilledChange}
    (hget : (txn.files start)[k]? = some c) (hsize : r.outbufsize ≤ maxAllocSize) :
    ∃ outbufsize', outbufsize' ≤ maxAllocSize ∧ readChange ((files (reorderBufferSerializedPath d xid start)).getD [])
          (offsetOf txn start k) r.outbufsize =
        (restoredOrError c).map fun change =>
          (some (change, offsetOf txn start (k + 1)), outbufsize') := by
  obtain ⟨hlt, hc⟩ := List.getElem?_eq_some_iff.mp hget
  have hsplit : (txn.files start).flatMap SpilledChange.record =
      ((txn.files start).take k).flatMap SpilledChange.record ++
        (c.record ++ ((txn.files start).drop (k + 1)).flatMap SpilledChange.record) := by
    rw [← List.flatMap_cons, ← hc, ← List.drop_eq_getElem_cons hlt, ← List.flatMap_append, List.take_append_drop]
  have hnext : offsetOf txn start (k + 1) = offsetOf txn start k + c.record.length := by
    rw [offsetOf, offsetOf, List.take_add_one, hget, List.flatMap_append, List.length_append]
    simp
  have hmem : c ∈ txn.files start := hc ▸ List.getElem_mem hlt
  rw [hfiles.files_eq start hstart, spillFile_getD, hsplit, hnext]
  exact readChange_record (hfiles.spillable start c hmem) _ _ hsize

theorem StoredIn.readChange_none (hfiles : StoredIn d files xid txn) (hstart : SegmentInRange d start) {k : Nat}
    (hget : (txn.files start)[k]? = none) (hsize : r.outbufsize ≤ maxAllocSize) :
    ∃ outbufsize', outbufsize' ≤ maxAllocSize ∧ readChange ((files (reorderBufferSerializedPath d xid start)).getD [])
          (offsetOf txn start k) r.outbufsize = .ok (none, outbufsize') := by
  have hall : (txn.files start).take k = txn.files start :=
    List.take_of_length_le (List.getElem?_eq_none_iff.mp hget)
  refine readChange_end ?_ hsize
  rw [hfiles.files_eq start hstart, spillFile_getD, offsetOf, hall]

theorem restoreLoop_start (hfirst : txn.firstLsn = (d.firstLsn xid).toNat) {lastSegno : Nat}
    (hlast : SegmentInRange d lastSegno) (hle : segno ≤ lastSegno) :
    ∃ start, (if fd = none ∧ segno = 0 then d.seg txn.firstLsn else segno) =
        start ∧ segno ≤ start ∧ SegmentInRange d start ∧
      (fd ≠ none → start = segno) := by
  refine ⟨_, rfl, ?_⟩
  split
  · next hnew =>
    rw [hfirst]
    exact ⟨by omega, segment_inRange (Nat.le_refl _), fun hfd => absurd hnew.1 hfd⟩
  · exact ⟨Nat.le_refl _, Nat.lt_of_le_of_lt (Nat.mul_le_mul_right _ hle) hlast, fun _ => rfl⟩

theorem StoredIn.restoreLoop (hfiles : StoredIn d files xid txn)
    (hfirst : txn.firstLsn = (d.firstLsn xid).toNat) {lastSegno : Nat}
    (hlast : SegmentInRange d lastSegno) (restored : Nat)
    (hat : r.At d xid txn segno fd) :
    ∃ r', r'.At d xid txn (Reorder.restoreLoop d.walSegmentSize txn lastSegno restored segno fd).2.2
        (Reorder.restoreLoop d.walSegmentSize txn lastSegno restored segno fd).2.1 ∧
      restoreChangesLoop d files xid lastSegno restored r =
        ((Reorder.restoreLoop d.walSegmentSize txn lastSegno restored segno fd).1.mapM
          restoredOrError).map fun changes => (changes, r') := by
  induction hm : (lastSegno + 1 - segno) + (maxChangesInMemory - restored)
    using Nat.strongRecOn generalizing restored segno fd r with
  | ind m ih =>
    have hstart_eq : (if r.vfd = none ∧ r.segno = 0 then
        d.seg (d.firstLsn xid).toNat else r.segno) =
        if fd = none ∧ segno = 0 then d.seg txn.firstLsn else segno := by
      simp only [hat.closed, hat.segno_eq, hfirst]
    rw [Reorder.restoreLoop, restoreChangesLoop, hat.segno_eq]
    simp only [hat.segno_eq] at hstart_eq
    split
    · next hgo =>
      simp only [hstart_eq]
      obtain ⟨start, hstart, hge, hrange, hsame⟩ :=
        @restoreLoop_start d xid txn segno fd hfirst _ hlast hgo.2
      rw [hstart, hfiles.openFile hat hrange hsame]
      cases hget : (txn.files start)[fd.getD 0]? with
      | some c =>
        have hne : ¬ (fd = none ∧ txn.files start = []) := fun hnil => by simp [hnil.2] at hget
        obtain ⟨outbufsize', hsize, hread⟩ := hfiles.readChange_some hrange hget hat.small
        have hnext : RestoreState.At d xid txn start (some (fd.getD 0 + 1))
            ⟨some (reorderBufferSerializedPath d xid start), offsetOf txn start (fd.getD 0 + 1), start, outbufsize'⟩ :=
          ⟨rfl, hsize, by simp, fun k hk => by cases hk; exact ⟨rfl, rfl⟩⟩
        obtain ⟨r', hat', hloop⟩ := ih _ (by omega) (restored + 1) hnext rfl
        refine ⟨r', hat', ?_⟩
        rw [if_neg hne]
        simp only [hread, List.mapM_cons]
        cases restoredOrError c with
        | error e => rfl
        | ok change =>
          simp only [Except.map, hloop]
          cases List.mapM restoredOrError (Reorder.restoreLoop d.walSegmentSize txn lastSegno (restored + 1) start
              (some (fd.getD 0 + 1))).1 with
          | error e => rfl
          | ok changes => rfl
      | none =>
        have hclosed : ∀ outbufsize curOffset, outbufsize ≤ maxAllocSize → RestoreState.At d xid txn (start + 1) none
              ⟨none, curOffset, start + 1, outbufsize⟩ :=
          fun _ _ hsize => ⟨rfl, hsize, by simp, fun _ hk => by cases hk⟩
        by_cases hnil : fd = none ∧ txn.files start = []
        · rw [if_pos hnil]
          simp only [hat.closed.mpr hnil.1]
          exact ih _ (by omega) restored (hclosed _ _ hat.small) rfl
        · obtain ⟨outbufsize', hsize, hread⟩ := hfiles.readChange_none hrange hget hat.small
          rw [if_neg hnil]
          simp only [hread]
          exact ih _ (by omega) restored (hclosed _ _ hsize) rfl
    · exact ⟨r, hat, rfl⟩

def batchesOf (n : Nat) (changes : List SpilledChange) : List (List SpilledChange) :=
  (List.range n).map fun i => (changes.drop (i * maxChangesInMemory)).take maxChangesInMemory

theorem batchesOf_succ (n : Nat) (changes : List SpilledChange) : batchesOf (n + 1) changes =
      changes.take maxChangesInMemory :: batchesOf n (changes.drop maxChangesInMemory) := by
  rw [batchesOf, batchesOf, List.range_succ_eq_map, List.map_cons, List.map_map, Nat.zero_mul, List.drop_zero]
  refine congrArg (List.cons _) (List.map_congr_left fun i _ => ?_)
  rw [Function.comp_apply, List.drop_drop, Nat.succ_mul, Nat.add_comm]

theorem StoredIn.restoreBatches {s : SpillState} (hfiles : StoredIn d s.files xid txn)
    (hfirst : txn.firstLsn = (d.firstLsn xid).toNat) (hfinal : txn.finalLsn = (s.finalLsn xid).toNat)
    (hempty : ∀ segno < d.seg txn.firstLsn, txn.files segno = [])
    (hle : d.seg txn.firstLsn ≤ d.seg txn.finalLsn)
    (n : Nat) (hat : r.At d xid txn segno fd) (hreads : txn.ReadsAt segno fd) :
    restoreBatches d s xid n r =
      (batchesOf n (txn.unread d.walSegmentSize segno fd)).mapM (List.mapM restoredOrError) := by
  induction n generalizing segno fd r with
  | zero => rfl
  | succ n ih =>
    have hlast : SegmentInRange d (d.seg txn.finalLsn) := by
      rw [hfinal]
      exact segment_inRange (Nat.le_refl _)
    obtain ⟨fd', segno', hloop, hreads', hrest⟩ := restoreLoop_spec 0 hempty hle hreads
    obtain ⟨r', hat', hrun⟩ := hfiles.restoreLoop hfirst hlast 0 hat
    rw [hloop] at hat' hrun
    rw [Nat.sub_zero] at hrest hrun
    rw [Disk.restoreBatches, reorderBufferRestoreChanges, ← hfinal, hrun, batchesOf_succ, ← hrest, List.mapM_cons]
    cases List.mapM restoredOrError ((txn.unread d.walSegmentSize segno fd).take maxChangesInMemory) with
    | error e => rfl
    | ok changes =>
      show (Disk.restoreBatches d s xid n r' >>= _) = _
      rw [ih hat' hreads']
      rfl

variable {s : SpillState} {files₀ : Directory} {spilled : UInt32 → List SpilledChange}

def SpillState.asTxn (d : Decoding) (s : SpillState)
    (xid : UInt32) (changes : List SpilledChange) : SpilledTxn where
  firstLsn := (d.firstLsn xid).toNat
  finalLsn := (s.finalLsn xid).toNat
  changes := []
  nentries := changes.length
  nentriesMem := 0
  isSerialized := true
  files := fun segno => inSegment d segno changes

theorem SpillState.Holds.onDisk (h : s.Holds d files₀ spilled)
    (hsorted : (spilled xid).Pairwise fun a b => a.lsn ≤ b.lsn) :
    (s.asTxn d xid (spilled xid)).OnDisk d.walSegmentSize (spilled xid) where
  files := fun _ => rfl
  le_final := h.le_final xid
  first_le := h.first_le xid
  sorted := hsorted

theorem SpillState.Holds.storedIn (h : s.Holds d files₀ spilled) : StoredIn d s.files xid
      (s.asTxn d xid (spilled xid)) where
  files_eq := h.files xid
  spillable := fun _ c hc => h.spillable xid c (List.mem_of_mem_filter hc)

/-- Whatever else is spilled and removed in between, the calls that restore a transaction return what
was spilled of it in batches, and fail at a change that the buffer cannot hold with its header. -/
theorem restoreBatches_spilled (hfresh : s.files.Fresh d) {ops : List SpillOp} (hok : ∀ op ∈ ops, op.Ok d) :
    ∃ s', spillRun d s ops = .ok s' ∧
      ∀ xid, spilledBy ops xid ≠ [] → (spilledBy ops xid).Pairwise (fun a b => a.lsn ≤ b.lsn) →
        ∀ n outbufsize, outbufsize ≤ maxAllocSize → restoreBatches d s' xid n (.init outbufsize) =
            (batchesOf n (spilledBy ops xid)).mapM (List.mapM restoredOrError) := by
  obtain ⟨s', hrun, hs'⟩ := (SpillState.holds_fresh hfresh).run hok
  refine ⟨s', hrun, fun xid hne hsorted n outbufsize hsize => ?_⟩
  have hdisk : (s'.asTxn d xid (spilledBy ops xid)).OnDisk d.walSegmentSize (spilledBy ops xid) := hs'.onDisk hsorted
  have hat : (RestoreState.init outbufsize).At d xid (s'.asTxn d xid (spilledBy ops xid)) 0 none :=
    ⟨rfl, hsize, ⟨fun _ => rfl, fun _ => rfl⟩, fun _ hk => by cases hk⟩
  rw [hs'.storedIn.restoreBatches rfl rfl hdisk.empty_below (hdisk.first_le_final hne) n hat (Nat.zero_le _)]
  exact congrArg (fun changes => (batchesOf n changes).mapM (List.mapM restoredOrError)) hdisk.unread_zero

end Refines

theorem restoreBatches_sampleChange : ∃ s', spillRun sampleDecoding SpillState.none sampleSpills = .ok s' ∧
      restoreBatches sampleDecoding s' 7 2 (.init 0) = .ok [[sampleChange], []] := by
  obtain ⟨s', hrun, hrestore⟩ := restoreBatches_spilled (SpillState.fresh_none _) sampleSpills_ok
  refine ⟨s', hrun, ?_⟩
  rw [hrestore 7 (by decide) (List.pairwise_singleton _ _) 2 0 (by decide)]
  rfl

end CdcKafka.Reorder.Disk
