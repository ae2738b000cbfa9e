import CdcKafka.BlockRef.FileBuffer

/-! How block reference files are read, relation by relation. -/

namespace CdcKafka.BlockRef

open CdcKafka.Lib CdcKafka.Xlog

/-- The memory contexts of the server do not give out more than `MaxAllocSize`; the programs outside of it take what
`malloc` gives. -/
inductive Build where
  | backend
  | frontend

def Build.palloc : Build → Nat → Bool
  | backend, size => size ≤ 0x3fffffff
  | frontend, _ => true

structure BlockRefTableReader where
  buffer : ReadBuffer
  totalChunks : Nat
  consumedChunks : Nat
  chunkSize : Nat → UInt16
  chunkData : Nat → UInt16
  chunkPosition : Nat

def wordsOver (bytes : Bytes) (old : Nat → UInt16) : Nat → UInt16 := fun i =>
  if 2 * i < bytes.length then CLayout.u16.ofBytes ((bytes.drop (2 * i)).take 2) else old i

def intLength (size : Nat) : Nat := ((size : Int).bmod (2 ^ 32)).toNat

variable (build : Build) (splits : Nat → Nat)

def createBlockRefTableReader (file : Bytes) : Except Stop BlockRefTableReader :=
  blockRefTableRead splits 4 4 [] (ReadBuffer.init file) >>= fun (magic, buffer) =>
    if CLayout.u32.ofBytes magic ≠ blockRefTableMagic then .error (.error (.wrongMagic (CLayout.u32.ofBytes magic)))
    else .ok ⟨buffer, 0, 0, fun _ => 0, fun _ => 0, 0⟩

def readChecksum (buffer : ReadBuffer) : Except Stop ReadBuffer :=
  let expectedCrc := finCrc32c buffer.crc
  blockRefTableRead splits 4 4 [] buffer >>= fun (actualCrc, buffer) =>
    if expectedCrc ≠ CLayout.u32.ofBytes actualCrc then
      .error (.error (.wrongChecksum expectedCrc (CLayout.u32.ofBytes actualCrc)))
    else .ok buffer

def readChunkSizes (junk : Nat → UInt16) (nchunks : Nat) (buffer : ReadBuffer) :
    Except Stop ((Nat → UInt16) × ReadBuffer) :=
  if build.palloc (2 * nchunks) then
    (blockRefTableRead splits (2 * nchunks) (intLength (2 * nchunks)) [] buffer).map fun (bytes, buffer) =>
      (wordsOver bytes junk, buffer)
  else .error .outOfMemory

def blockRefTableReaderNextRelation (junk : Nat → UInt16) (reader : BlockRefTableReader) :
    Except Stop (Option (BlockRefTableKey × BlockNumber) × BlockRefTableReader) :=
  blockRefTableRead splits sizeOfSerializedEntry sizeOfSerializedEntry [] reader.buffer >>= fun (bytes, buffer) =>
    if bytes = zentry then (readChecksum splits buffer).map fun buffer => (none, { reader with buffer := buffer })
    else
      let sentry := serializedEntry.ofBytes bytes
      (readChunkSizes build splits junk sentry.nchunks.toNat buffer).map fun (chunkSize, buffer) =>
        (some (⟨sentry.rlocator, sentry.forknum⟩, sentry.limitBlock),
          { reader with buffer := buffer, totalChunks := sentry.nchunks.toNat, consumedChunks := 0, chunkSize := chunkSize })

def putFound (nblocks : Nat) (blocks : List BlockNumber) (blkno : BlockNumber) : Except Stop (List BlockNumber) :=
  if blocks.length < nblocks then .ok (blocks ++ [blkno]) else .error .overrun

def scanBitmap (data : Nat → UInt16) (chunkno nblocks : Nat) :
    Nat → Nat → List BlockNumber → Except Stop (Nat × List BlockNumber)
  | 0, position, blocks => .ok (position, blocks)
  | left + 1, position, blocks =>
    if blocks.length < nblocks then
      if data (position / blocksPerEntry) &&& wordBit (position % blocksPerEntry) ≠ 0 then
        putFound nblocks blocks (UInt32.ofNat (chunkno * blocksPerChunk + position)) >>=
          scanBitmap data chunkno nblocks left (position + 1)
      else scanBitmap data chunkno nblocks left (position + 1) blocks
    else .ok (position, blocks)

def scanArray (data : Nat → UInt16) (chunkno nblocks : Nat) :
    Nat → Nat → List BlockNumber → Except Stop (Nat × List BlockNumber)
  | 0, position, blocks => .ok (position, blocks)
  | left + 1, position, blocks =>
    if blocks.length < nblocks then
      putFound nblocks blocks (UInt32.ofNat (chunkno * blocksPerChunk + (data position).toNat)) >>=
        scanArray data chunkno nblocks left (position + 1)
    else .ok (position, blocks)

def scanChunk (nblocks : Nat) (reader : BlockRefTableReader) (blocks : List BlockNumber) :
    Except Stop (Nat × List BlockNumber) :=
  if reader.consumedChunks = 0 then .ok (reader.chunkPosition, blocks)
  else
    let chunkno := reader.consumedChunks - 1
    let chunkSize := (reader.chunkSize chunkno).toNat
    if chunkSize = maxEntriesPerChunk then
      scanBitmap reader.chunkData chunkno nblocks (blocksPerChunk - reader.chunkPosition) reader.chunkPosition blocks
    else scanArray reader.chunkData chunkno nblocks (chunkSize - reader.chunkPosition) reader.chunkPosition blocks

def readChunk (reader : BlockRefTableReader) : Except Stop BlockRefTableReader :=
  let nextChunkSize := (reader.chunkSize reader.consumedChunks).toNat
  let read :=
    if 0 < nextChunkSize then blockRefTableRead splits (2 * maxEntriesPerChunk) (2 * nextChunkSize) [] reader.buffer
    else .ok ([], reader.buffer)
  read.map fun (bytes, buffer) =>
    { reader with
      buffer := buffer, chunkData := wordsOver bytes reader.chunkData
      consumedChunks := reader.consumedChunks + 1, chunkPosition := 0 }

def getBlocksLoop (nblocks : Nat) : Nat → BlockRefTableReader → List BlockNumber →
    Except Stop (List BlockNumber × BlockRefTableReader)
  | left, reader, blocks =>
    scanChunk nblocks reader blocks >>= fun (position, blocks) =>
      let reader := { reader with chunkPosition := position }
      if nblocks ≤ blocks.length then .ok (blocks, reader)
      else
        match left with
        | 0 => .ok (blocks, reader)
        | left + 1 => readChunk splits reader >>= fun reader => getBlocksLoop nblocks left reader blocks

def blockRefTableReaderGetBlocks (reader : BlockRefTableReader) (nblocks : Nat) :
    Except Stop (List BlockNumber × BlockRefTableReader) :=
  getBlocksLoop splits nblocks (reader.totalChunks - reader.consumedChunks) reader []

end CdcKafka.BlockRef

/-! What the steps of a reader do: reads from the buffer, and scans of a chunk. -/

namespace CdcKafka.BlockRef

open CdcKafka.Lib CdcKafka.Xlog

variable {splits : Nat → Nat}

theorem read_ok {capacity length : Nat} {b : ReadBuffer} (hcapacity : length ≤ capacity) (hall : length ≤ b.unread.length) :
    ∃ b', Advanced b length b' ∧ blockRefTableRead splits capacity length [] b = .ok (b.unread.take length, b') := by
  obtain ⟨b', hadv, heq⟩ := @blockRefTableRead_eq splits capacity length [] b (Nat.zero_le _)
  refine ⟨b', hadv, ?_⟩
  rw [heq, readOutcome, List.length_nil, if_neg (by omega), if_neg (by omega), List.nil_append]

theorem read_ends {capacity length : Nat} {b : ReadBuffer} (hcapacity : b.unread.length ≤ capacity)
    (hends : b.unread.length < length) :
    blockRefTableRead splits capacity length [] b = .error (.error .endsUnexpectedly) := by
  obtain ⟨b', _, heq⟩ := @blockRefTableRead_eq splits capacity length [] b (Nat.zero_le _)
  rw [heq, readOutcome, List.length_nil, if_neg (by omega), if_pos hends]

theorem read_overruns {capacity length : Nat} {b : ReadBuffer} (hover : capacity < min length b.unread.length) :
    blockRefTableRead splits capacity length [] b = .error .overrun := by
  obtain ⟨b', _, heq⟩ := @blockRefTableRead_eq splits capacity length [] b (Nat.zero_le _)
  rw [heq, readOutcome, List.length_nil, Nat.zero_add, if_pos hover]

theorem read_cases {capacity length : Nat} (hcapacity : length ≤ capacity) (b : ReadBuffer) :
    (∃ b', Advanced b length b' ∧ blockRefTableRead splits capacity length [] b = .ok (b.unread.take length, b')) ∨
      blockRefTableRead splits capacity length [] b = .error (.error .endsUnexpectedly) := by
  by_cases hall : length ≤ b.unread.length
  · exact .inl (read_ok hcapacity hall)
  · exact .inr (read_ends (by omega) (by omega))

def bitsFound (data : Nat → UInt16) (chunkno left position : Nat) : List BlockNumber :=
  ((List.range' position left).filter (hasBit data)).map fun i => UInt32.ofNat (chunkno * blocksPerChunk + i)

def offsetsFound (data : Nat → UInt16) (chunkno left position : Nat) : List BlockNumber :=
  (List.range' position left).map fun i => UInt32.ofNat (chunkno * blocksPerChunk + (data i).toNat)

theorem putFound_eq {nblocks : Nat} {blocks : List BlockNumber} {blkno : BlockNumber} (h : blocks.length < nblocks) :
    putFound nblocks blocks blkno = .ok (blocks ++ [blkno]) := if_pos h

theorem take_after_put {nblocks : Nat} {blocks found : List BlockNumber} {b : BlockNumber} (h : blocks.length < nblocks) :
    blocks ++ [b] ++ found.take (nblocks - (blocks ++ [b]).length) = blocks ++ (b :: found).take (nblocks - blocks.length) ∧
      found.drop (nblocks - (blocks ++ [b]).length) = (b :: found).drop (nblocks - blocks.length) := by
  have hlen : (blocks ++ [b]).length = blocks.length + 1 := List.length_append
  have hroom : nblocks - blocks.length = nblocks - (blocks.length + 1) + 1 := by omega
  rw [hlen, hroom, List.take_succ_cons, List.drop_succ_cons, List.append_assoc, List.singleton_append]
  exact ⟨rfl, rfl⟩

theorem scanBitmap_eq (data : Nat → UInt16) (chunkno nblocks left position : Nat) (blocks : List BlockNumber) :
    ∃ left' position', left' ≤ left ∧ position' + left' = position + left ∧
      scanBitmap data chunkno nblocks left position blocks =
        .ok (position', blocks ++ (bitsFound data chunkno left position).take (nblocks - blocks.length)) ∧
      bitsFound data chunkno left' position' =
        (bitsFound data chunkno left position).drop (nblocks - blocks.length) := by
  induction left generalizing position blocks with
  | zero =>
    have hnone : bitsFound data chunkno 0 position = [] := rfl
    refine ⟨0, position, Nat.le_refl 0, rfl, ?_, ?_⟩
    · rw [scanBitmap, hnone, List.take_nil, List.append_nil]
    · rw [hnone, List.drop_nil]
  | succ left ih =>
    rw [scanBitmap]
    by_cases hroom : blocks.length < nblocks
    · rw [if_pos hroom]
      by_cases hbit : hasBit data position = true
      · have hfound : bitsFound data chunkno (left + 1) position =
            UInt32.ofNat (chunkno * blocksPerChunk + position) :: bitsFound data chunkno left (position + 1) := by
          rw [bitsFound, List.range'_succ, List.filter_cons, if_pos hbit]
          rfl
        have hword : data (position / blocksPerEntry) &&& wordBit (position % blocksPerEntry) ≠ 0 := of_decide_eq_true hbit
        obtain ⟨left', position', hle, hsum, heq, hrest⟩ := ih (position + 1) (blocks ++ [_])
        obtain ⟨htake, hdrop⟩ := take_after_put hroom
        refine ⟨left', position', by omega, by omega, ?_, ?_⟩
        · rw [if_pos hword, putFound_eq hroom, ok_bind, heq, hfound, htake]
        · rw [hrest, hfound, hdrop]
      · have hfound : bitsFound data chunkno (left + 1) position = bitsFound data chunkno left (position + 1) := by
          rw [bitsFound, List.range'_succ, List.filter_cons, if_neg hbit]
          rfl
        have hword : ¬data (position / blocksPerEntry) &&& wordBit (position % blocksPerEntry) ≠ 0 :=
          fun h => hbit (decide_eq_true h)
        obtain ⟨left', position', hle, hsum, heq, hrest⟩ := ih (position + 1) blocks
        refine ⟨left', position', by omega, by omega, ?_, ?_⟩
        · rw [if_neg hword, heq, hfound]
        · rw [hrest, hfound]
    · have hfull : nblocks - blocks.length = 0 := by omega
      refine ⟨left + 1, position, Nat.le_refl _, rfl, ?_, ?_⟩
      · rw [if_neg hroom, hfull, List.take_zero, List.append_nil]
      · rw [hfull, List.drop_zero]

theorem scanArray_eq (data : Nat → UInt16) (chunkno nblocks left position : Nat) (blocks : List BlockNumber) :
    ∃ left' position', left' ≤ left ∧ position' + left' = position + left ∧
      scanArray data chunkno nblocks left position blocks =
        .ok (position', blocks ++ (offsetsFound data chunkno left position).take (nblocks - blocks.length)) ∧
      offsetsFound data chunkno left' position' =
        (offsetsFound data chunkno left position).drop (nblocks - blocks.length) := by
  induction left generalizing position blocks with
  | zero =>
    have hnone : offsetsFound data chunkno 0 position = [] := rfl
    refine ⟨0, position, Nat.le_refl 0, rfl, ?_, ?_⟩
    · rw [scanArray, hnone, List.take_nil, List.append_nil]
    · rw [hnone, List.drop_nil]
  | succ left ih =>
    rw [scanArray]
    by_cases hroom : blocks.length < nblocks
    · have hfound : offsetsFound data chunkno (left + 1) position =
          UInt32.ofNat (chunkno * blocksPerChunk + (data position).toNat) :: offsetsFound data chunkno left (position + 1) := by
        rw [offsetsFound, List.range'_succ]
        rfl
      obtain ⟨left', position', hle, hsum, heq, hrest⟩ := ih (position + 1) (blocks ++ [_])
      obtain ⟨htake, hdrop⟩ := take_after_put hroom
      refine ⟨left', position', by omega, by omega, ?_, ?_⟩
      · rw [if_pos hroom, putFound_eq hroom, ok_bind, heq, hfound, htake]
      · rw [hrest, hfound, hdrop]
    · have hfull : nblocks - blocks.length = 0 := by omega
      refine ⟨left + 1, position, Nat.le_refl _, rfl, ?_, ?_⟩
      · rw [if_neg hroom, hfull, List.take_zero, List.append_nil]
      · rw [hfull, List.drop_zero]

def chunkRest (data : Nat → UInt16) (chunkSize chunkno position : Nat) : List BlockNumber :=
  if chunkSize = maxEntriesPerChunk then bitsFound data chunkno (blocksPerChunk - position) position
  else offsetsFound data chunkno (chunkSize - position) position

def BlockRefTableReader.current (r : BlockRefTableReader) : List BlockNumber :=
  if r.consumedChunks = 0 then []
  else chunkRest r.chunkData (r.chunkSize (r.consumedChunks - 1)).toNat (r.consumedChunks - 1) r.chunkPosition

theorem scanChunk_eq (nblocks : Nat) (r : BlockRefTableReader) (blocks : List BlockNumber) :
    ∃ position, scanChunk nblocks r blocks = .ok (position, blocks ++ r.current.take (nblocks - blocks.length)) ∧
      BlockRefTableReader.current { r with chunkPosition := position } = r.current.drop (nblocks - blocks.length) := by
  rw [scanChunk]
  by_cases hnone : r.consumedChunks = 0
  · have hcurrent : r.current = [] := if_pos hnone
    refine ⟨r.chunkPosition, ?_, ?_⟩
    · rw [if_pos hnone, hcurrent, List.take_nil, List.append_nil]
    · rw [hcurrent, List.drop_nil]
  · have hcurrent : ∀ position, BlockRefTableReader.current { r with chunkPosition := position } =
        chunkRest r.chunkData (r.chunkSize (r.consumedChunks - 1)).toNat (r.consumedChunks - 1) position := fun _ => if_neg hnone
    have hnow : r.current = _ := hcurrent r.chunkPosition
    rw [if_neg hnone, hnow]
    dsimp only
    by_cases hbitmap : (r.chunkSize (r.consumedChunks - 1)).toNat = maxEntriesPerChunk
    · obtain ⟨left', position', hle, hsum, heq, hrest⟩ := scanBitmap_eq r.chunkData (r.consumedChunks - 1) nblocks
        (blocksPerChunk - r.chunkPosition) r.chunkPosition blocks
      have hleft : left' = blocksPerChunk - position' := by omega
      refine ⟨position', ?_, ?_⟩
      · rw [if_pos hbitmap, heq, chunkRest, if_pos hbitmap]
      · rw [hcurrent, chunkRest, if_pos hbitmap, chunkRest, if_pos hbitmap, ← hrest, hleft]
    · obtain ⟨left', position', hle, hsum, heq, hrest⟩ := scanArray_eq r.chunkData (r.consumedChunks - 1) nblocks
        ((r.chunkSize (r.consumedChunks - 1)).toNat - r.chunkPosition) r.chunkPosition blocks
      have hleft : left' = (r.chunkSize (r.consumedChunks - 1)).toNat - position' := by omega
      refine ⟨position', ?_, ?_⟩
      · rw [if_neg hbitmap, heq, chunkRest, if_neg hbitmap]
      · rw [hcurrent, chunkRest, if_neg hbitmap, chunkRest, if_neg hbitmap, ← hrest, hleft]

theorem length_current_le (r : BlockRefTableReader) : r.current.length ≤ blocksPerChunk := by
  rw [BlockRefTableReader.current]
  split
  · exact Nat.zero_le _
  · rw [chunkRest]
    split
    · rw [bitsFound, List.length_map]
      refine (List.length_filter_le _ _).trans ?_
      rw [List.length_range']
      exact Nat.sub_le _ _
    · have hsize := (r.chunkSize (r.consumedChunks - 1)).toNat_lt
      have hper : blocksPerChunk = 65536 := rfl
      rw [offsetsFound, List.length_map, List.length_range']
      omega

theorem readChunk_cases (r : BlockRefTableReader) :
    (2 * maxEntriesPerChunk < min (2 * (r.chunkSize r.consumedChunks).toNat) r.buffer.unread.length ∧
      readChunk splits r = .error .overrun) ∨
    (r.buffer.unread.length < 2 * (r.chunkSize r.consumedChunks).toNat ∧
      r.buffer.unread.length ≤ 2 * maxEntriesPerChunk ∧ readChunk splits r = .error (.error .endsUnexpectedly)) ∨
    (2 * (r.chunkSize r.consumedChunks).toNat ≤ r.buffer.unread.length ∧
      (r.chunkSize r.consumedChunks).toNat ≤ maxEntriesPerChunk ∧
      ∃ buffer, Advanced r.buffer (2 * (r.chunkSize r.consumedChunks).toNat) buffer ∧
        readChunk splits r = .ok { r with
          buffer := buffer, consumedChunks := r.consumedChunks + 1, chunkPosition := 0
          chunkData := wordsOver (r.buffer.unread.take (2 * (r.chunkSize r.consumedChunks).toNat)) r.chunkData }) := by
  rw [readChunk]
  dsimp only
  obtain ⟨size, hsize⟩ : ∃ size, size = (r.chunkSize r.consumedChunks).toNat := ⟨_, rfl⟩
  rw [← hsize]
  by_cases hzero : 0 < size
  · rw [if_pos hzero]
    by_cases hover : 2 * maxEntriesPerChunk < min (2 * size) r.buffer.unread.length
    · refine .inl ⟨hover, ?_⟩
      rw [read_overruns hover]
      rfl
    · by_cases hends : r.buffer.unread.length < 2 * size
      · refine .inr (.inl ⟨hends, by omega, ?_⟩)
        rw [read_ends (by omega) hends]
        rfl
      · obtain ⟨buffer, hadv, heq⟩ := @read_ok splits (2 * maxEntriesPerChunk) (2 * size) r.buffer (by omega) (by omega)
        refine .inr (.inr ⟨by omega, by omega, buffer, hadv, ?_⟩)
        rw [heq]
        rfl
  · obtain rfl : size = 0 := by omega
    rw [if_neg hzero]
    exact .inr (.inr ⟨Nat.zero_le _, Nat.zero_le _, r.buffer, ⟨rfl, rfl⟩, rfl⟩)

end CdcKafka.BlockRef
