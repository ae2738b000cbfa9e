import CdcKafka.Lib.Wire
import CdcKafka.Xlog.Pglz

/-! `XLogRecordAssemble` of `xloginsert.c`, and `DecodeXLogRecord` and `RestoreBlockImage` of
`xlogreader.c`. Integers are written in the order of a little-endian machine. -/

namespace CdcKafka.Xlog

open CdcKafka.Lib

def blckSz : Nat := 8192

structure Page where
  bytes : Bytes
  length_eq : bytes.length = blckSz

def sizeOfXLogRecord : Nat := 24

def sizeOfPageHeaderData : Nat := 24

def xLogRecordMaxSize : Nat := 1020 * 1024 * 1024

namespace Page

def pdLower (page : Page) : Nat := decodeLE ((page.bytes.drop 12).take 2)

def pdUpper (page : Page) : Nat := decodeLE ((page.bytes.drop 14).take 2)

def lsn (page : Page) : UInt64 :=
  UInt64.ofNat (decodeLE (page.bytes.take 4) * 2 ^ 32 + decodeLE ((page.bytes.drop 4).take 4))

end Page

structure RelFileLocator where
  spcOid : UInt32
  dbOid : UInt32
  relNumber : UInt32
deriving DecidableEq

inductive ForkNumber
  | main
  | fsm
  | visibilitymap
  | init
deriving DecidableEq

def ForkNumber.code : ForkNumber → UInt8
  | .main => 0
  | .fsm => 1
  | .visibilitymap => 2
  | .init => 3

def regbufForceImage : UInt8 := 0x01
def regbufNoImage : UInt8 := 0x02
def regbufWillInit : UInt8 := 0x06
def regbufStandard : UInt8 := 0x08
def regbufKeepData : UInt8 := 0x10

def bkpblockForkMask : UInt8 := 0x0f
def bkpblockHasImage : UInt8 := 0x10
def bkpblockHasData : UInt8 := 0x20
def bkpblockWillInit : UInt8 := 0x40
def bkpblockSameRel : UInt8 := 0x80

def bkpimageHasHole : UInt8 := 0x01
def bkpimageApply : UInt8 := 0x02
def bkpimageCompressPglz : UInt8 := 0x04
def bkpimageCompressLz4 : UInt8 := 0x08
def bkpimageCompressZstd : UInt8 := 0x10

def bkpimageCompressed (info : UInt8) : Bool :=
  info &&& (bkpimageCompressPglz ||| bkpimageCompressLz4 ||| bkpimageCompressZstd) != 0

def xlrCheckConsistency : UInt8 := 0x02
def xlrMaxBlockId : Nat := 32
def xlrBlockIdDataShort : UInt8 := 255
def xlrBlockIdDataLong : UInt8 := 254
def xlrBlockIdOrigin : UInt8 := 253
def xlrBlockIdToplevelXid : UInt8 := 252

def flag (b : Bool) (bit : UInt8) : UInt8 := if b then bit else 0

def hasFlag (flags bit : UInt8) : Bool := flags &&& bit != 0

structure RegisteredBuffer where
  flags : UInt8
  rlocator : RelFileLocator
  forkno : ForkNumber
  block : UInt32
  page : Page
  rdata : Bytes
  rdata_le : rdata.length ≤ 65535

structure RegisteredBuffers where
  buffers : List (Option RegisteredBuffer)
  length_le : buffers.length ≤ xlrMaxBlockId + 1

def entryAt {α : Type} (l : List (Option α)) (id : Nat) : Option α := l[id]?.join

inductive WalCompression
  | none
  | pglz
deriving DecidableEq

structure Insertion where
  rmid : UInt8
  info : UInt8
  /-- `wal_consistency_checking` of the resource manager. -/
  consistencyChecking : Bool
  redoRecPtr : UInt64
  doPageWrites : Bool
  walCompression : WalCompression
  /-- `XLOG_INCLUDE_ORIGIN`. -/
  includeOrigin : Bool
  sessionOrigin : UInt16
  /-- `IsSubxactTopXidLogPending`. -/
  topXidPending : Bool
  topXid : UInt32
  currentXid : UInt32
  crc : Bytes → UInt32

namespace Insertion

def recordInfo (ins : Insertion) : UInt8 := ins.info ||| flag ins.consistencyChecking xlrCheckConsistency

def looksAtLsn (ins : Insertion) (b : RegisteredBuffer) : Bool :=
  !hasFlag b.flags regbufForceImage && !hasFlag b.flags regbufNoImage && ins.doPageWrites

def needsBackup (ins : Insertion) (b : RegisteredBuffer) : Bool :=
  if hasFlag b.flags regbufForceImage then true
  else if hasFlag b.flags regbufNoImage then false
  else if !ins.doPageWrites then false
  else b.page.lsn ≤ ins.redoRecPtr

def needsData (ins : Insertion) (b : RegisteredBuffer) : Bool :=
  if b.rdata.length = 0 then false
  else if hasFlag b.flags regbufKeepData then true
  else !ins.needsBackup b

def includeImage (ins : Insertion) (b : RegisteredBuffer) : Bool :=
  ins.needsBackup b || hasFlag ins.recordInfo xlrCheckConsistency

end Insertion

def RegisteredBuffer.hole (b : RegisteredBuffer) : Nat × Nat :=
  if hasFlag b.flags regbufStandard then
    let lower := b.page.pdLower
    let upper := b.page.pdUpper
    if sizeOfPageHeaderData ≤ lower ∧ lower < upper ∧ upper ≤ blckSz then (lower, upper - lower) else (0, 0)
  else (0, 0)

def skipHole (page : Bytes) (hole : Nat × Nat) : Bytes := page.take hole.1 ++ page.drop (hole.1 + hole.2)

def xLogCompressBackupBlock (page : Page) (hole : Nat × Nat) : Option Bytes :=
  let origLen := blckSz - hole.2
  let extraBytes := if hole.2 ≠ 0 then 2 else 0
  let source := if hole.2 ≠ 0 then skipHole page.bytes hole else page.bytes
  match pglzCompress source pglzStrategyDefault with
  | none => none
  | some dest => if dest.length + extraBytes < origLen then some dest else none

structure BlockImage where
  hole : Nat × Nat
  info : UInt8
  isCompressed : Bool
  bytes : Bytes

def Insertion.image (ins : Insertion) (b : RegisteredBuffer) : BlockImage :=
  let info := flag (b.hole.2 != 0) bkpimageHasHole ||| flag (ins.needsBackup b) bkpimageApply
  let compressed := match ins.walCompression with
    | .none => none
    | .pglz => xLogCompressBackupBlock b.page b.hole
  match compressed with
  | some dest => ⟨b.hole, info ||| bkpimageCompressPglz, true, dest⟩
  | none => ⟨b.hole, info, false, if b.hole.2 = 0 then b.page.bytes else skipHole b.page.bytes b.hole⟩

def RelFileLocator.bytes (r : RelFileLocator) : Bytes :=
  encodeLE 4 r.spcOid.toNat ++ encodeLE 4 r.dbOid.toNat ++ encodeLE 4 r.relNumber.toNat

def BlockImage.header (image : BlockImage) : Bytes :=
  encodeLE 2 image.bytes.length ++ encodeLE 2 image.hole.1 ++ [image.info] ++
    if image.hole.2 ≠ 0 ∧ image.isCompressed then encodeLE 2 image.hole.2 else []

namespace Insertion

def forkFlags (ins : Insertion) (samerel : Bool) (b : RegisteredBuffer) : UInt8 :=
  b.forkno.code ||| flag (b.flags &&& regbufWillInit == regbufWillInit) bkpblockWillInit |||
    flag (ins.includeImage b) bkpblockHasImage ||| flag (ins.needsData b) bkpblockHasData |||
    flag samerel bkpblockSameRel

def blockHeader (ins : Insertion) (id : Nat) (samerel : Bool) (b : RegisteredBuffer) : Bytes :=
  [UInt8.ofNat id, ins.forkFlags samerel b] ++ encodeLE 2 (if ins.needsData b then b.rdata.length else 0) ++
    (if ins.includeImage b then (ins.image b).header else []) ++
    (if samerel then [] else b.rlocator.bytes) ++ encodeLE 4 b.block.toNat

def blockData (ins : Insertion) (b : RegisteredBuffer) : Bytes :=
  (if ins.includeImage b then (ins.image b).bytes else []) ++ (if ins.needsData b then b.rdata else [])

def assembleBlocks (ins : Insertion) : Nat → Option RelFileLocator → List (Option RegisteredBuffer) → Bytes × Bytes
  | _, _, [] => ([], [])
  | id, prev, none :: rest => ins.assembleBlocks (id + 1) prev rest
  | id, prev, some b :: rest =>
    let behind := ins.assembleBlocks (id + 1) (some b.rlocator) rest
    (ins.blockHeader id (prev = some b.rlocator) b ++ behind.1, ins.blockData b ++ behind.2)

def fpwLsn (ins : Insertion) (buffers : List (Option RegisteredBuffer)) : UInt64 :=
  buffers.foldl (fun fpw b =>
    match b with
    | none => fpw
    | some b =>
      if ins.looksAtLsn b ∧ ins.needsBackup b = false ∧ (fpw = 0 ∨ b.page.lsn < fpw) then b.page.lsn else fpw) 0

def numFpi (ins : Insertion) (buffers : List (Option RegisteredBuffer)) : Nat :=
  buffers.countP fun b => b.any ins.includeImage

def includesOrigin (ins : Insertion) : Bool := ins.includeOrigin && ins.sessionOrigin != 0

def lastHeaders (ins : Insertion) (mainrdata : Bytes) : Bytes :=
  (if ins.includesOrigin then xlrBlockIdOrigin :: encodeLE 2 ins.sessionOrigin.toNat else []) ++
    (if ins.topXidPending then xlrBlockIdToplevelXid :: encodeLE 4 ins.topXid.toNat else []) ++
    if mainrdata.length = 0 then []
    else if 255 < mainrdata.length then xlrBlockIdDataLong :: encodeLE 4 mainrdata.length
    else [xlrBlockIdDataShort, UInt8.ofNat mainrdata.length]

end Insertion

inductive AssembleError
  /-- "too much WAL data" -/
  | tooMuchWalData (mainrdataLen : Nat)
  /-- "oversized WAL record" -/
  | oversizedWalRecord (totalLen : Nat) (rmid info : UInt8)
deriving DecidableEq

structure XLogRecord where
  totLen : Nat
  xid : UInt32
  prev : UInt64
  info : UInt8
  rmid : UInt8
  crc : UInt32
deriving DecidableEq

def XLogRecord.bytes (h : XLogRecord) : Bytes :=
  encodeLE 4 h.totLen ++ encodeLE 4 h.xid.toNat ++ encodeLE 8 h.prev.toNat ++ [h.info, h.rmid, 0, 0] ++
    encodeLE 4 h.crc.toNat

structure Assembled where
  header : XLogRecord
  headers : Bytes
  data : Bytes
  fpwLsn : UInt64
  numFpi : Nat
  topxidIncluded : Bool

def Assembled.bytes (a : Assembled) : Bytes := a.header.bytes ++ a.headers ++ a.data

def xLogRecordAssemble (ins : Insertion) (regs : RegisteredBuffers) (mainrdata : Bytes) :
    Except AssembleError Assembled :=
  if 0xffffffff < mainrdata.length then .error (.tooMuchWalData mainrdata.length)
  else
    let blocks := ins.assembleBlocks 0 none regs.buffers
    let headers := blocks.1 ++ ins.lastHeaders mainrdata
    let data := blocks.2 ++ mainrdata
    let totalLen := sizeOfXLogRecord + headers.length + data.length
    if xLogRecordMaxSize < totalLen then .error (.oversizedWalRecord totalLen ins.rmid ins.recordInfo)
    else .ok {
      header := ⟨totalLen, ins.currentXid, 0, ins.recordInfo, ins.rmid, ins.crc (headers ++ data)⟩
      headers := headers
      data := data
      fpwLsn := ins.fpwLsn regs.buffers
      numFpi := ins.numFpi regs.buffers
      topxidIncluded := ins.topXidPending }

structure DecodedImage where
  bimgLen : Nat
  holeOffset : Nat
  holeLength : Nat
  bimgInfo : UInt8
deriving DecidableEq

structure DecodedBkpBlock where
  rlocator : RelFileLocator
  forknum : UInt8
  blkno : UInt32
  flags : UInt8
  image : Option DecodedImage
  bkpImage : Bytes
  hasData : Bool
  dataLen : Nat
  data : Bytes
deriving DecidableEq

def DecodedBkpBlock.applyImage (blk : DecodedBkpBlock) : Bool :=
  blk.image.any fun image => hasFlag image.bimgInfo bkpimageApply

structure DecodedXLogRecord where
  header : XLogRecord
  recordOrigin : UInt16
  toplevelXid : UInt32
  mainDataLen : Nat
  mainData : Bytes
  /-- Up to `max_block_id`. -/
  blocks : List (Option DecodedBkpBlock)

inductive DecodeError
  /-- "record with invalid length" -/
  | invalidLength
  /-- "out-of-order block_id" -/
  | outOfOrderBlockId (id : UInt8)
  /-- "BKPBLOCK_HAS_DATA set, but no data included" -/
  | noDataIncluded
  /-- "BKPBLOCK_HAS_DATA not set, but data length is" -/
  | hasDataNotSet (dataLen : Nat)
  /-- "BKPIMAGE_HAS_HOLE set, but hole offset, length, block image length" -/
  | hasHoleSet (image : DecodedImage)
  /-- "BKPIMAGE_HAS_HOLE not set, but hole offset, length" -/
  | hasHoleNotSet (image : DecodedImage)
  /-- "BKPIMAGE_COMPRESSED set, but block image length" -/
  | compressedSet (image : DecodedImage)
  /-- "neither BKPIMAGE_HAS_HOLE nor BKPIMAGE_COMPRESSED set, but block image length is", where the
  length of the data is reported -/
  | neitherSet (dataLen : Nat)
  /-- "BKPBLOCK_SAME_REL set but no previous rel" -/
  | noPreviousRel
  /-- "invalid block_id" -/
  | invalidBlockId (id : UInt8)
deriving DecidableEq

abbrev Decoder := Reader DecodeError

def copyField (n : Nat) : Decoder Nat := do
  let b ← readBytes .invalidLength n
  pure (decodeLE b)

def copyByte : Decoder UInt8 := readByte .invalidLength

def DecodedImage.check (image : DecodedImage) (dataLen : Nat) : Except DecodeError Unit :=
  let hasHole := hasFlag image.bimgInfo bkpimageHasHole
  let compressed := bkpimageCompressed image.bimgInfo
  if hasHole ∧ (image.holeOffset = 0 ∨ image.holeLength = 0 ∨ image.bimgLen = blckSz) then .error (.hasHoleSet image)
  else if !hasHole ∧ (image.holeOffset ≠ 0 ∨ image.holeLength ≠ 0) then .error (.hasHoleNotSet image)
  else if compressed ∧ image.bimgLen = blckSz then .error (.compressedSet image)
  else if !hasHole ∧ !compressed ∧ image.bimgLen ≠ blckSz then .error (.neitherSet dataLen)
  else .ok ()

def decodeHoleLength (bimgInfo : UInt8) (bimgLen : Nat) : Decoder Nat :=
  if bkpimageCompressed bimgInfo then
    if hasFlag bimgInfo bkpimageHasHole then copyField 2 else pure 0
  else pure ((blckSz + (0x10000 - bimgLen)) % 0x10000)

def decodeImage (dataLen : Nat) : Decoder DecodedImage := do
  let bimgLen ← copyField 2
  let holeOffset ← copyField 2
  let bimgInfo ← copyByte
  let holeLength ← decodeHoleLength bimgInfo bimgLen
  let image : DecodedImage := ⟨bimgLen, holeOffset, holeLength, bimgInfo⟩
  StateT.lift (image.check dataLen)
  pure image

def decodeImageIf (hasImage : Bool) (dataLen : Nat) : Decoder (Option DecodedImage) :=
  if hasImage then do
    let image ← decodeImage dataLen
    pure (some image)
  else pure none

def copyRelFileLocator : Decoder RelFileLocator := do
  let spcOid ← copyField 4
  let dbOid ← copyField 4
  let relNumber ← copyField 4
  pure ⟨UInt32.ofNat spcOid, UInt32.ofNat dbOid, UInt32.ofNat relNumber⟩

def decodeRelation (samerel : Bool) (rlocator : Option RelFileLocator) : Decoder RelFileLocator :=
  match samerel, rlocator with
  | false, _ => copyRelFileLocator
  | true, none => StateT.lift (.error .noPreviousRel)
  | true, some r => pure r

structure DecodeState where
  record : DecodedXLogRecord
  datatotal : Nat
  rlocator : Option RelFileLocator

def checkDataLength (hasData : Bool) (dataLen : Nat) : Except DecodeError Unit :=
  if hasData ∧ dataLen = 0 then .error .noDataIncluded
  else if !hasData ∧ dataLen ≠ 0 then .error (.hasDataNotSet dataLen)
  else .ok ()

def decodeBlock (st : DecodeState) (id : UInt8) : Decoder DecodeState := do
  let blocks := st.record.blocks
  StateT.lift (if id.toNat < blocks.length then .error (.outOfOrderBlockId id) else .ok ())
  let forkFlags ← copyByte
  let dataLen ← copyField 2
  let hasData := hasFlag forkFlags bkpblockHasData
  StateT.lift (checkDataLength hasData dataLen)
  let image ← decodeImageIf (hasFlag forkFlags bkpblockHasImage) dataLen
  let rlocator ← decodeRelation (hasFlag forkFlags bkpblockSameRel) st.rlocator
  let blkno ← copyField 4
  let blk : DecodedBkpBlock :=
    ⟨rlocator, forkFlags &&& bkpblockForkMask, UInt32.ofNat blkno, forkFlags, image, [], hasData, dataLen, []⟩
  pure {
    record := { st.record with blocks := blocks ++ List.replicate (id.toNat - blocks.length) none ++ [some blk] }
    datatotal := (st.datatotal + dataLen + (image.map (·.bimgLen)).getD 0) % 2 ^ 32
    rlocator := some rlocator }

def decodeFragment (st : DecodeState) : Decoder (DecodeState × Bool) := do
  let id ← copyByte
  if id = xlrBlockIdDataShort then
    let len ← copyByte
    pure ({ st with record := { st.record with mainDataLen := len.toNat }
                    datatotal := (st.datatotal + len.toNat) % 2 ^ 32 }, true)
  else if id = xlrBlockIdDataLong then
    let len ← copyField 4
    pure ({ st with record := { st.record with mainDataLen := len }
                    datatotal := (st.datatotal + len) % 2 ^ 32 }, true)
  else if id = xlrBlockIdOrigin then
    let origin ← copyField 2
    pure ({ st with record := { st.record with recordOrigin := UInt16.ofNat origin } }, false)
  else if id = xlrBlockIdToplevelXid then
    let xid ← copyField 4
    pure ({ st with record := { st.record with toplevelXid := UInt32.ofNat xid } }, false)
  else if id.toNat ≤ xlrMaxBlockId then
    let st ← decodeBlock st id
    pure (st, false)
  else StateT.lift (.error (.invalidBlockId id))

/-- `while (remaining > datatotal)`; every fragment takes a byte at least, so that as many rounds
as there are bytes are enough. -/
def decodeHeaders : Nat → DecodeState → Decoder DecodeState
  | 0, st => pure st
  | n + 1, st => fun ptr =>
    if ptr.length ≤ st.datatotal then .ok (st, ptr)
    else do
      let ((st, last), ptr) ← decodeFragment st ptr
      if last then .ok (st, ptr) else decodeHeaders n st ptr

def copyBlockData : List (Option DecodedBkpBlock) → Bytes → List (Option DecodedBkpBlock) × Bytes
  | [], ptr => ([], ptr)
  | none :: blocks, ptr =>
    let rest := copyBlockData blocks ptr
    (none :: rest.1, rest.2)
  | some blk :: blocks, ptr =>
    let imageLen := (blk.image.map (·.bimgLen)).getD 0
    let dataLen := if blk.hasData then blk.dataLen else 0
    let rest := copyBlockData blocks (ptr.drop (imageLen + dataLen))
    (some { blk with bkpImage := ptr.take imageLen, data := (ptr.drop imageLen).take dataLen } :: rest.1, rest.2)

def readHeader (b : Bytes) : XLogRecord where
  totLen := decodeLE (b.take 4)
  xid := UInt32.ofNat (decodeLE ((b.drop 4).take 4))
  prev := UInt64.ofNat (decodeLE ((b.drop 8).take 8))
  info := (b.drop 16).headD 0
  rmid := (b.drop 17).headD 0
  crc := UInt32.ofNat (decodeLE ((b.drop 20).take 4))

def decodeXLogRecord (b : Bytes) : Except DecodeError DecodedXLogRecord := do
  let header := readHeader b
  let ptr := (b.take header.totLen).drop sizeOfXLogRecord
  let start : DecodeState := ⟨⟨header, 0, 0, 0, [], []⟩, 0, none⟩
  let (st, rest) ← decodeHeaders ptr.length start ptr
  if rest.length ≠ st.datatotal then .error .invalidLength
  else
    let (blocks, ptr) := copyBlockData st.record.blocks rest
    .ok { st.record with blocks := blocks, mainData := ptr.take st.record.mainDataLen }

inductive RestoreError
  /-- "could not restore image with invalid block specified" -/
  | invalidBlock (id : Nat)
  /-- "could not restore image with invalid state" -/
  | invalidState (id : Nat)
  /-- "could not restore image compressed with a method not supported by build" -/
  | notSupportedByBuild (id : Nat)
  /-- "could not decompress image" -/
  | couldNotDecompress (id : Nat)
deriving DecidableEq

def fillHole (image : DecodedImage) (b : Bytes) : Bytes :=
  if image.holeLength = 0 then b.take blckSz
  else
    b.take image.holeOffset ++ List.replicate image.holeLength 0 ++
      (b.drop image.holeOffset).take (blckSz - (image.holeOffset + image.holeLength))

/-- `pglz_decompress` to the size of the page without its hole. With a hole that is longer than
the page the destination ends before it begins, and is not complete. -/
def decompressImage (image : DecodedImage) (b : Bytes) : Option Bytes :=
  if image.holeLength ≤ blckSz then pglzDecompress b (blckSz - image.holeLength) true else none

def restoreBlockImage (record : DecodedXLogRecord) (id : Nat) : Except RestoreError Bytes :=
  match entryAt record.blocks id with
  | none => .error (.invalidBlock id)
  | some bkpb =>
    match bkpb.image with
    | none => .error (.invalidState id)
    | some image =>
      if bkpimageCompressed image.bimgInfo then
        if hasFlag image.bimgInfo bkpimageCompressPglz then
          match decompressImage image bkpb.bkpImage with
          | none => .error (.couldNotDecompress id)
          | some tmp => .ok (fillHole image tmp)
        else .error (.notSupportedByBuild id)
      else .ok (fillHole image bkpb.bkpImage)

end CdcKafka.Xlog
