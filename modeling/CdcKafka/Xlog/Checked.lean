import CdcKafka.Lib.Checked
import CdcKafka.Lib.Ring
import CdcKafka.Xlog.Record

/-! `DecodeXLogRecord` and `RestoreBlockImage` over areas of memory: the pointers and lengths
of the source, every access checked against the area it is made in. -/

namespace CdcKafka.Xlog

open CdcKafka.Lib

structure Layout where
  /-- `offsetof(DecodedXLogRecord, blocks)`. -/
  blocksOffset : Nat
  /-- `sizeof(DecodedBkpBlock)`. -/
  blockSize : Nat

def maxAlign (n : Nat) : Nat := alignUp 8 n

def decodeXLogRecordRequiredSpace (layout : Layout) (xlTotLen : Nat) : Nat :=
  layout.blocksOffset + layout.blockSize * (xlrMaxBlockId + 1) + xlTotLen + 7 + 7 * (xlrMaxBlockId + 1) + 7

namespace Checked

abbrev Scan := Scanner DecodeError

variable (layout : Layout) (space : Nat) (record : Bytes)

def copyField (n : Nat) : Scan Nat := do
  let b ← Scanner.copy .invalidLength record n
  pure (decodeLE b)

def copyByte : Scan UInt8 := do
  let b ← Scanner.copy .invalidLength record 1
  pure (b.headD 0)

def decodeHoleLength (bimgInfo : UInt8) (bimgLen : Nat) : Scan Nat :=
  if bkpimageCompressed bimgInfo then
    if hasFlag bimgInfo bkpimageHasHole then copyField record 2 else pure 0
  else pure ((blckSz + (0x10000 - bimgLen)) % 0x10000)

def decodeImage (dataLen : Nat) : Scan DecodedImage := do
  let bimgLen ← copyField record 2
  let holeOffset ← copyField record 2
  let bimgInfo ← copyByte record
  let holeLength ← decodeHoleLength record bimgInfo bimgLen
  let image : DecodedImage := ⟨bimgLen, holeOffset, holeLength, bimgInfo⟩
  Scanner.lift (image.check dataLen)
  pure image

def decodeImageIf (hasImage : Bool) (dataLen : Nat) : Scan (Option DecodedImage) :=
  if hasImage then do
    let image ← decodeImage record dataLen
    pure (some image)
  else pure none

def copyRelFileLocator : Scan RelFileLocator := do
  let spcOid ← copyField record 4
  let dbOid ← copyField record 4
  let relNumber ← copyField record 4
  pure ⟨UInt32.ofNat spcOid, UInt32.ofNat dbOid, UInt32.ofNat relNumber⟩

def decodeRelation (samerel : Bool) (rlocator : Option RelFileLocator) : Scan RelFileLocator :=
  match samerel, rlocator with
  | false, _ => copyRelFileLocator record
  | true, none => Scanner.lift (.error .noPreviousRel)
  | true, some r => pure r

def storeBlock (i : Nat) : Except (Stop DecodeError) Unit :=
  store space (layout.blocksOffset + layout.blockSize * i) layout.blockSize

def storeUnused : Nat → Nat → Except (Stop DecodeError) Unit
  | _, 0 => .ok ()
  | first, n + 1 => do
    storeBlock layout space first
    storeUnused (first + 1) n

def decodeBlock (st : DecodeState) (id : UInt8) : Scan DecodeState := do
  let blocks := st.record.blocks
  Scanner.stores (storeUnused layout space blocks.length (id.toNat - blocks.length))
  Scanner.lift (if id.toNat < blocks.length then .error (.outOfOrderBlockId id) else .ok ())
  Scanner.stores (storeBlock layout space id.toNat)
  let forkFlags ← copyByte record
  let dataLen ← copyField record 2
  let hasData := hasFlag forkFlags bkpblockHasData
  Scanner.lift (checkDataLength hasData dataLen)
  let image ← decodeImageIf record (hasFlag forkFlags bkpblockHasImage) dataLen
  let rlocator ← decodeRelation record (hasFlag forkFlags bkpblockSameRel) st.rlocator
  let blkno ← copyField record 4
  let blk : DecodedBkpBlock :=
    ⟨rlocator, forkFlags &&& bkpblockForkMask, UInt32.ofNat blkno, forkFlags, image, [], hasData, dataLen, []⟩
  pure {
    record := { st.record with blocks := blocks ++ List.replicate (id.toNat - blocks.length) none ++ [some blk] }
    datatotal := (st.datatotal + dataLen + (image.map (·.bimgLen)).getD 0) % 2 ^ 32
    rlocator := some rlocator }

def decodeFragment (st : DecodeState) : Scan (DecodeState × Bool) := do
  let id ← copyByte record
  if id = xlrBlockIdDataShort then
    let len ← copyByte record
    pure ({ st with record := { st.record with mainDataLen := len.toNat }
                    datatotal := (st.datatotal + len.toNat) % 2 ^ 32 }, true)
  else if id = xlrBlockIdDataLong then
    let len ← copyField record 4
    pure ({ st with record := { st.record with mainDataLen := len }
                    datatotal := (st.datatotal + len) % 2 ^ 32 }, true)
  else if id = xlrBlockIdOrigin then
    let origin ← copyField record 2
    pure ({ st with record := { st.record with recordOrigin := UInt16.ofNat origin } }, false)
  else if id = xlrBlockIdToplevelXid then
    let xid ← copyField record 4
    pure ({ st with record := { st.record with toplevelXid := UInt32.ofNat xid } }, false)
  else if id.toNat ≤ xlrMaxBlockId then
    let st ← decodeBlock layout space record st id
    pure (st, false)
  else Scanner.lift (.error (.invalidBlockId id))

def decodeHeaders : Nat → DecodeState → Scan DecodeState
  | 0, st => pure st
  | n + 1, st => fun c =>
    if c.remaining ≤ st.datatotal then .ok (st, c)
    else do
      let ((st, last), c) ← decodeFragment layout space record st c
      if last then .ok (st, c) else decodeHeaders n st c

def copyData (ptr out len : Nat) : Except (Stop DecodeError) Bytes := do
  let b ← load record ptr len
  store space out len
  .ok b

def copyImage (blk : DecodedBkpBlock) (ptr out : Nat) : Except (Stop DecodeError) (Bytes × Nat × Nat) :=
  match blk.image with
  | none => .ok ([], ptr, out)
  | some image => do
    let b ← copyData space record ptr out image.bimgLen
    .ok (b, ptr + image.bimgLen, out + image.bimgLen)

def copyBlkData (blk : DecodedBkpBlock) (ptr out : Nat) : Except (Stop DecodeError) (Bytes × Nat × Nat) :=
  if blk.hasData then do
    let b ← copyData space record ptr (maxAlign out) blk.dataLen
    .ok (b, ptr + blk.dataLen, maxAlign out + blk.dataLen)
  else .ok ([], ptr, out)

def copyBlocks : List (Option DecodedBkpBlock) → Nat → Nat →
    Except (Stop DecodeError) (List (Option DecodedBkpBlock) × Nat × Nat)
  | [], ptr, out => .ok ([], ptr, out)
  | none :: blocks, ptr, out => do
    let (rest, ptr, out) ← copyBlocks blocks ptr out
    .ok (none :: rest, ptr, out)
  | some blk :: blocks, ptr, out => do
    let (image, ptr, out) ← copyImage space record blk ptr out
    let (data, ptr, out) ← copyBlkData space record blk ptr out
    let (rest, ptr, out) ← copyBlocks blocks ptr out
    .ok (some { blk with bkpImage := image, data := data } :: rest, ptr, out)

def copyMainData (mainDataLen ptr out : Nat) : Except (Stop DecodeError) (Bytes × Nat) :=
  if 0 < mainDataLen then do
    let b ← copyData space record ptr (maxAlign out) mainDataLen
    .ok (b, maxAlign out + mainDataLen)
  else .ok ([], out)

def decodeXLogRecord : Except (Stop DecodeError) (DecodedXLogRecord × Nat) := do
  let header ← load record 0 sizeOfXLogRecord
  store space 0 layout.blocksOffset
  let remaining := (readHeader header).totLen - sizeOfXLogRecord
  let start : DecodeState := ⟨⟨readHeader header, 0, 0, 0, [], []⟩, 0, none⟩
  let (st, c) ← decodeHeaders layout space record remaining start ⟨sizeOfXLogRecord, remaining⟩
  if c.remaining ≠ st.datatotal then .error (.failed .invalidLength)
  else do
    let (blocks, ptr, out) ← copyBlocks space record st.record.blocks c.ptr
      (layout.blocksOffset + layout.blockSize * st.record.blocks.length)
    let (mainData, out) ← copyMainData space record st.record.mainDataLen ptr out
    .ok ({ st.record with blocks := blocks, mainData := mainData }, maxAlign out)

/-- The items of `pglz_decompress`, into a destination of the size of a page. A tag is read
before it is compared with the end of the source. -/
def decompressItems (rawsize : Nat) : Bytes → Nat → UInt8 → Bytes → Except (Stop RestoreError) (Option (Bytes × Bytes))
  | [], _, _, dest => .ok (some (dest, []))
  | b :: sp, bits, ctrl, dest =>
    if rawsize ≤ dest.length then .ok (some (dest, b :: sp))
    else
      match bits with
      | 0 => decompressItems rawsize sp 8 b dest
      | bits + 1 =>
        if ctrl &&& 1 = 0 then do
          store blckSz dest.length 1
          decompressItems rawsize sp bits (ctrl >>> 1) (dest ++ [b])
        else
          let len := (b &&& 0x0f).toNat + 3
          match sp with
          | [] => .error .outside
          | b' :: sp =>
            let off := ((b &&& 0xf0).toNat <<< 4) ||| b'.toNat
            if len = 18 then
              match sp with
              | [] => .error .outside
              | ext :: sp =>
                if off = 0 ∨ dest.length < off then .ok none
                else do
                  store blckSz dest.length (min (len + ext.toNat) (rawsize - dest.length))
                  decompressItems rawsize sp bits (ctrl >>> 1)
                    (copyBack off (min (len + ext.toNat) (rawsize - dest.length)) dest)
            else if off = 0 ∨ dest.length < off then .ok none
            else do
              store blckSz dest.length (min len (rawsize - dest.length))
              decompressItems rawsize sp bits (ctrl >>> 1) (copyBack off (min len (rawsize - dest.length)) dest)

/-- With a negative size the destination ends before it begins: nothing is read and the result
is not complete. -/
def pglzDecompress (source : Bytes) (rawsize : Int) : Except (Stop RestoreError) (Option Bytes) :=
  if rawsize < 0 then .ok none
  else do
    let items ← decompressItems rawsize.toNat source 0 0 []
    match items with
    | none => .ok none
    | some (dest, rest) => .ok (if dest.length ≠ rawsize.toNat ∨ rest ≠ [] then none else some dest)

def fillPage (area : Bytes) (image : DecodedImage) : Except (Stop RestoreError) Bytes :=
  if image.holeLength = 0 then do
    let b ← load area 0 blckSz
    store blckSz 0 blckSz
    .ok b
  else do
    let before ← load area 0 image.holeOffset
    store blckSz 0 image.holeOffset
    store blckSz image.holeOffset image.holeLength
    let len := sizeT ((blckSz : Int) - (image.holeOffset + image.holeLength))
    let behind ← load area image.holeOffset len
    store blckSz (image.holeOffset + image.holeLength) len
    .ok (before ++ List.replicate image.holeLength 0 ++ behind)

def restoreBlockImage (tmp : Page) (record : DecodedXLogRecord) (id : Nat) : Except (Stop RestoreError) Bytes :=
  match entryAt record.blocks id with
  | none => .error (.failed (.invalidBlock id))
  | some bkpb =>
    match bkpb.image with
    | none => .error (.failed (.invalidState id))
    | some image =>
      if bkpimageCompressed image.bimgInfo then
        if hasFlag image.bimgInfo bkpimageCompressPglz then do
          let dest ← pglzDecompress bkpb.bkpImage ((blckSz : Int) - image.holeLength)
          match dest with
          | none => .error (.failed (.couldNotDecompress id))
          | some dest => fillPage (dest ++ tmp.bytes.drop dest.length) image
        else .error (.failed (.notSupportedByBuild id))
      else fillPage bkpb.bkpImage image

end Checked

end CdcKafka.Xlog
