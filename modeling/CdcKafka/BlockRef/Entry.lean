import CdcKafka.Lib.WordBitmap
import CdcKafka.Xlog.Record

/-! The block reference table of `blkreftable.c` in memory. Where a chunk would be accessed outside
of what is allocated for it, nothing is returned. -/

namespace CdcKafka.BlockRef

open CdcKafka.Lib CdcKafka.Xlog

abbrev BlockNumber := UInt32

def invalidBlockNumber : BlockNumber := 0xFFFFFFFF

def blocksPerChunk : Nat := 2 ^ 16

def blocksPerEntry : Nat := 16

def maxEntriesPerChunk : Nat := blocksPerChunk / blocksPerEntry

def initialEntriesPerChunk : Nat := 16

structure Chunk where
  size : Nat
  usage : Nat
  data : Nat → UInt16

structure BlockRefTableKey where
  rlocator : RelFileLocator
  forknum : Int32
deriving DecidableEq

structure BlockRefTableEntry where
  key : BlockRefTableKey
  limitBlock : BlockNumber
  chunks : List Chunk

def BlockRefTableEntry.nchunks (entry : BlockRefTableEntry) : Nat := entry.chunks.length

namespace Chunk

def get (c : Chunk) (i : Nat) : Option UInt16 := if i < c.size then some (c.data i) else none

def put (c : Chunk) (i : Nat) (w : UInt16) : Option Chunk :=
  if i < c.size then some { c with data := Function.update c.data i w } else none

def empty : Chunk := ⟨0, 0, fun _ => 0⟩

end Chunk

def clearBits (c : Chunk) (chunkoffset : Nat) : Option Chunk :=
  if chunkoffset < blocksPerChunk then
    if chunkoffset / blocksPerEntry < c.size then clearBits { c with data := clearBit c.data chunkoffset } (chunkoffset + 1)
    else none
  else some c
termination_by blocksPerChunk - chunkoffset

def filterBelow (limitChunkoffset : Nat) : Nat → Nat → Nat → Chunk → Option Chunk
  | 0, _, j, c => some { c with usage := j }
  | left + 1, i, j, c =>
    c.get i >>= fun w =>
      if w.toNat < limitChunkoffset then c.put j w >>= fun c => filterBelow limitChunkoffset left (i + 1) (j + 1) c
      else filterBelow limitChunkoffset left (i + 1) j c

def limitChunk (c : Chunk) (limitChunkoffset : Nat) : Option Chunk :=
  if c.usage = maxEntriesPerChunk then clearBits c limitChunkoffset
  else filterBelow limitChunkoffset c.usage 0 0 c

def discardAbove (limitChunkno : Nat) (chunks : List Chunk) : List Chunk :=
  chunks.mapIdx fun chunkno c => if limitChunkno < chunkno then { c with usage := 0 } else c

def blockRefTableEntrySetLimitBlock (entry : BlockRefTableEntry) (limitBlock : BlockNumber) :
    Option BlockRefTableEntry :=
  if entry.limitBlock ≤ limitBlock then some entry
  else
    let limitChunkno := limitBlock.toNat / blocksPerChunk
    match entry.chunks[limitChunkno]? with
    | none => some { entry with limitBlock := limitBlock }
    | some c =>
      (limitChunk c (limitBlock.toNat % blocksPerChunk)).map fun c =>
        { entry with limitBlock := limitBlock, chunks := (discardAbove limitChunkno entry.chunks).set limitChunkno c }

def doubledUpTo (maxChunks needed : Nat) (hpos : 0 < maxChunks) : Nat :=
  if maxChunks < needed then doubledUpTo (maxChunks * 2) needed (by omega) else maxChunks
termination_by needed - maxChunks

def enlargeChunks (chunks : List Chunk) (chunkno : Nat) : List Chunk :=
  if chunks.length ≤ chunkno then
    let maxChunks := doubledUpTo (max 16 chunks.length) (chunkno + 1) (by omega)
    chunks ++ List.replicate (maxChunks - chunks.length) Chunk.empty
  else chunks

def hasOffset (c : Chunk) (chunkoffset : UInt16) : Nat → Nat → Option Bool
  | 0, _ => some false
  | left + 1, i => c.get i >>= fun w => if w = chunkoffset then some true else hasOffset c chunkoffset left (i + 1)

def toBitmap (c : Chunk) : Nat → Nat → (Nat → UInt16) → Option (Nat → UInt16)
  | 0, _, newchunk => some newchunk
  | left + 1, j, newchunk => c.get j >>= fun coff => toBitmap c left (j + 1) (setBit newchunk coff.toNat)

-- What the allocator leaves in memory that is not set to zero.
variable (junk : Nat → UInt16)

def enlargeChunk (c : Chunk) : Chunk :=
  if c.usage = c.size then
    { c with size := c.size * 2, data := fun i => if i < c.size then c.data i else junk i }
  else c

def markInChunk (c : Chunk) (chunkoffset : UInt16) : Option Chunk :=
  if c.size = 0 then some ⟨initialEntriesPerChunk, 1, Function.update junk 0 chunkoffset⟩
  else if c.usage = maxEntriesPerChunk then
    if chunkoffset.toNat / blocksPerEntry < c.size then some { c with data := setBit c.data chunkoffset.toNat } else none
  else
    match hasOffset c chunkoffset c.usage 0 with
    | none => none
    | some true => some c
    | some false =>
      if c.usage = maxEntriesPerChunk - 1 then
        (toBitmap c c.usage 0 fun _ => 0).map fun newchunk =>
          ⟨maxEntriesPerChunk, maxEntriesPerChunk, setBit newchunk chunkoffset.toNat⟩
      else
        ((enlargeChunk junk c).put c.usage chunkoffset).map fun c => { c with usage := c.usage + 1 }

def blockRefTableEntryMarkBlockModified (entry : BlockRefTableEntry) (blknum : BlockNumber) :
    Option BlockRefTableEntry :=
  let chunkno := blknum.toNat / blocksPerChunk
  let chunkoffset := UInt16.ofNat (blknum.toNat % blocksPerChunk)
  let chunks := enlargeChunks entry.chunks chunkno
  match chunks[chunkno]? with
  | none => none
  | some c => (markInChunk junk c chunkoffset).map fun c => { entry with chunks := chunks.set chunkno c }

abbrev BlockRefTable := List BlockRefTableEntry

namespace BlockRefTable

def lookup (brtab : BlockRefTable) (key : BlockRefTableKey) : Option BlockRefTableEntry :=
  brtab.find? fun entry => entry.key = key

def store (brtab : BlockRefTable) (entry : BlockRefTableEntry) : BlockRefTable :=
  brtab.map fun entry' => if entry'.key = entry.key then entry else entry'

end BlockRefTable

def blockRefTableSetLimitBlock (brtab : BlockRefTable) (key : BlockRefTableKey) (limitBlock : BlockNumber) :
    Option BlockRefTable :=
  match brtab.lookup key with
  | none => some (brtab ++ [⟨key, limitBlock, []⟩])
  | some entry => (blockRefTableEntrySetLimitBlock entry limitBlock).map brtab.store

def blockRefTableMarkBlockModified (brtab : BlockRefTable) (key : BlockRefTableKey) (blknum : BlockNumber) :
    Option BlockRefTable :=
  match brtab.lookup key with
  | none => (blockRefTableEntryMarkBlockModified junk ⟨key, invalidBlockNumber, []⟩ blknum).map fun entry => brtab ++ [entry]
  | some entry => (blockRefTableEntryMarkBlockModified junk entry blknum).map brtab.store

abbrev Got := Bool × List BlockNumber

def putBlock (nblocks : Nat) (blocks : List BlockNumber) (blkno : BlockNumber) : Option Got :=
  if blocks.length < nblocks then some (blocks.length + 1 = nblocks, blocks ++ [blkno]) else none

def Got.unlessFull (got : Got) (f : List BlockNumber → Option Got) : Option Got :=
  if got.1 then some got else f got.2

def bitmapBlocks (c : Chunk) (chunkno nblocks stopOffset i : Nat) (blocks : List BlockNumber) : Option Got :=
  if i < stopOffset then
    c.get (i / blocksPerEntry) >>= fun w =>
      if w &&& wordBit (i % blocksPerEntry) ≠ 0 then
        putBlock nblocks blocks (UInt32.ofNat (chunkno * blocksPerChunk + i)) >>= fun got =>
          got.unlessFull (bitmapBlocks c chunkno nblocks stopOffset (i + 1))
      else bitmapBlocks c chunkno nblocks stopOffset (i + 1) blocks
  else some (false, blocks)
termination_by stopOffset - i

def arrayBlocks (c : Chunk) (chunkno nblocks startOffset stopOffset : Nat) :
    Nat → Nat → List BlockNumber → Option Got
  | 0, _, blocks => some (false, blocks)
  | left + 1, i, blocks =>
    c.get i >>= fun offset =>
      if startOffset ≤ offset.toNat ∧ offset.toNat < stopOffset then
        putBlock nblocks blocks (UInt32.ofNat (chunkno * blocksPerChunk + offset.toNat)) >>= fun got =>
          got.unlessFull (arrayBlocks c chunkno nblocks startOffset stopOffset left (i + 1))
      else arrayBlocks c chunkno nblocks startOffset stopOffset left (i + 1) blocks

def chunkBlocks (c : Chunk) (chunkno nblocks startOffset stopOffset : Nat) (blocks : List BlockNumber) : Option Got :=
  if c.usage = maxEntriesPerChunk then bitmapBlocks c chunkno nblocks stopOffset startOffset blocks
  else arrayBlocks c chunkno nblocks startOffset stopOffset c.usage 0 blocks

def blocksFrom (entry : BlockRefTableEntry) (startBlkno stopBlkno : BlockNumber) (nblocks stopChunkno : Nat) :
    Nat → Nat → List BlockNumber → Option Got
  | 0, _, blocks => some (false, blocks)
  | left + 1, chunkno, blocks =>
    match entry.chunks[chunkno]? with
    | none => none
    | some c =>
      let startOffset := if chunkno = startBlkno.toNat / blocksPerChunk then startBlkno.toNat % blocksPerChunk else 0
      let stopOffset :=
        if chunkno = stopChunkno - 1 then stopBlkno.toNat - chunkno * blocksPerChunk else blocksPerChunk
      chunkBlocks c chunkno nblocks startOffset stopOffset blocks >>= fun got =>
        got.unlessFull (blocksFrom entry startBlkno stopBlkno nblocks stopChunkno left (chunkno + 1))

def blockRefTableEntryGetBlocks (entry : BlockRefTableEntry) (startBlkno stopBlkno : BlockNumber) (nblocks : Nat) :
    Option (List BlockNumber) :=
  let startChunkno := startBlkno.toNat / blocksPerChunk
  let stopChunkno := stopBlkno.toNat / blocksPerChunk + if stopBlkno.toNat % blocksPerChunk ≠ 0 then 1 else 0
  let stopChunkno := if entry.nchunks < stopChunkno then entry.nchunks else stopChunkno
  (blocksFrom entry startBlkno stopBlkno nblocks stopChunkno (stopChunkno - startChunkno) startChunkno []).map (·.2)

end CdcKafka.BlockRef
