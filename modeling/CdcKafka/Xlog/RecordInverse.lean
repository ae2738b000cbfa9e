import CdcKafka.Xlog.PglzInverse
import CdcKafka.Xlog.Record

/-! What is assembled into a record is decoded from it, and the pages are restored from their
images. -/

namespace CdcKafka.Xlog

open CdcKafka.Lib

variable {ins : Insertion} {b : RegisteredBuffer} {samerel : Bool} {id : Nat} {st : DecodeState} {rest : Bytes}

theorem hole_cases (b : RegisteredBuffer) :
    b.hole = (0, 0) ∨ 0 < b.hole.1 ∧ 0 < b.hole.2 ∧ b.hole.1 + b.hole.2 ≤ blckSz := by
  rw [RegisteredBuffer.hole]
  split
  · dsimp only
    split
    · next hsane =>
      right
      have hpos : 0 < b.page.pdLower := Nat.lt_of_lt_of_le (by decide) hsane.1
      refine ⟨hpos, ?_, ?_⟩
      · dsimp only
        omega
      · dsimp only
        omega
    · exact .inl rfl
  · exact .inl rfl

theorem hole_length_le (b : RegisteredBuffer) : b.hole.2 ≤ blckSz := by
  rcases hole_cases b with hzero | ⟨-, -, hle⟩
  · rw [hzero]
    exact Nat.zero_le blckSz
  · omega

theorem length_skipHole {page : Bytes} (hpage : page.length = blckSz) {hole : Nat × Nat}
    (hle : hole.1 + hole.2 ≤ blckSz) : (skipHole page hole).length = blckSz - hole.2 := by
  rw [skipHole, List.length_append, List.length_take, List.length_drop, hpage]
  omega

structure ImageOf (ins : Insertion) (b : RegisteredBuffer) (image : BlockImage) : Prop where
  hole : image.hole = b.hole
  hasHole : hasFlag image.info bkpimageHasHole = (b.hole.2 != 0)
  apply : hasFlag image.info bkpimageApply = ins.needsBackup b
  compressed : bkpimageCompressed image.info = image.isCompressed
  pglz : hasFlag image.info bkpimageCompressPglz = image.isCompressed
  raw : image.isCompressed = false → image.bytes = skipHole b.page.bytes b.hole
  packed : image.isCompressed = true →
    pglzCompress (skipHole b.page.bytes b.hole) pglzStrategyDefault = some image.bytes ∧ image.bytes.length < blckSz

theorem skipHole_zero {hole : Nat × Nat} (h : hole = (0, 0)) (page : Bytes) : skipHole page hole = page := by
  subst h
  rfl

theorem imageFlags (hasHole apply : Bool) : let info := flag hasHole bkpimageHasHole ||| flag apply bkpimageApply
    hasFlag info bkpimageHasHole = hasHole ∧ hasFlag info bkpimageApply = apply ∧ bkpimageCompressed info = false ∧
      hasFlag info bkpimageCompressPglz = false ∧
      hasFlag (info ||| bkpimageCompressPglz) bkpimageHasHole = hasHole ∧
      hasFlag (info ||| bkpimageCompressPglz) bkpimageApply = apply ∧
      bkpimageCompressed (info ||| bkpimageCompressPglz) = true ∧
      hasFlag (info ||| bkpimageCompressPglz) bkpimageCompressPglz = true := by
  cases hasHole <;> cases apply <;> decide

theorem kept_of_some {out : Option Bytes} {extra room : Nat} {dest : Bytes} (h : (match out with
      | none => none
      | some d => if d.length + extra < room then some d else none) = some dest) :
    out = some dest ∧ dest.length < room := by
  cases out with
  | none => cases h
  | some d =>
    have hd : d.length + extra < room ∧ d = dest := by simpa using h
    obtain ⟨hroom, rfl⟩ := hd
    exact ⟨rfl, Nat.lt_of_le_of_lt (Nat.le_add_right _ _) hroom⟩

theorem compressed_of_some {page : Page} {hole : Nat × Nat} (hhole : hole = (0, 0) ∨ 0 < hole.2) {dest : Bytes}
    (h : xLogCompressBackupBlock page hole = some dest) :
    pglzCompress (skipHole page.bytes hole) pglzStrategyDefault = some dest ∧ dest.length < blckSz := by
  have hsource : (if hole.2 ≠ 0 then skipHole page.bytes hole else page.bytes) = skipHole page.bytes hole := by
    rcases hhole with hzero | hpos
    · rw [if_neg (by simp [hzero]), skipHole_zero hzero]
    · rw [if_pos (Nat.ne_of_gt hpos)]
  unfold xLogCompressBackupBlock at h
  dsimp only at h
  rw [hsource] at h
  obtain ⟨hsome, hlength⟩ := kept_of_some h
  exact ⟨hsome, Nat.lt_of_lt_of_le hlength (Nat.sub_le _ _)⟩

theorem imageOf (ins : Insertion) (b : RegisteredBuffer) : ImageOf ins b (ins.image b) := by
  obtain ⟨hhole, happly, hcompressed, hpglz, hhole', happly', hcompressed', hpglz'⟩ :=
    imageFlags (b.hole.2 != 0) (ins.needsBackup b)
  have hcases : b.hole = (0, 0) ∨ 0 < b.hole.2 := (hole_cases b).imp_right fun h => h.2.1
  rw [Insertion.image]
  split
  · next dest hdest =>
    have hpacked : xLogCompressBackupBlock b.page b.hole = some dest := by
      cases hmethod : ins.walCompression with
      | none =>
        rw [hmethod] at hdest
        cases hdest
      | pglz =>
        rw [hmethod] at hdest
        exact hdest
    exact ⟨rfl, hhole', happly', hcompressed', hpglz', nofun, fun _ => compressed_of_some hcases hpacked⟩
  · refine ⟨rfl, hhole, happly, hcompressed, hpglz, fun _ => ?_, nofun⟩
    dsimp only
    split
    · next hzero =>
      rcases hcases with hnone | hpos
      · rw [skipHole_zero hnone]
      · omega
    · rfl

def zeroHole (b : RegisteredBuffer) : Bytes :=
  b.page.bytes.take b.hole.1 ++ List.replicate b.hole.2 0 ++ b.page.bytes.drop (b.hole.1 + b.hole.2)

def decodedImage (image : BlockImage) : DecodedImage := ⟨image.bytes.length, image.hole.1, image.hole.2, image.info⟩

theorem length_skipHole_buffer (b : RegisteredBuffer) : (skipHole b.page.bytes b.hole).length = blckSz - b.hole.2 := by
  refine length_skipHole b.page.length_eq ?_
  rcases hole_cases b with hzero | hpos
  · rw [hzero]
    decide
  · exact hpos.2.2

theorem fillHole_skipHole {image : BlockImage} (himage : ImageOf ins b image) :
    fillHole (decodedImage image) (skipHole b.page.bytes b.hole) = zeroHole b := by
  have hpage : b.page.bytes.length = blckSz := b.page.length_eq
  rw [fillHole, decodedImage, himage.hole]
  dsimp only
  rcases hole_cases b with hzero | ⟨hoff, hlen, hle⟩
  · rw [hzero, skipHole_zero rfl, if_pos rfl, zeroHole, hzero, List.take_of_length_le (Nat.le_of_eq hpage)]
    rfl
  · have htake : (b.page.bytes.take b.hole.1).length = b.hole.1 := by
      rw [List.length_take, hpage]
      omega
    have hrest : (b.page.bytes.drop (b.hole.1 + b.hole.2)).length ≤ blckSz - (b.hole.1 + b.hole.2) := by
      rw [List.length_drop, hpage]
    rw [if_neg (by omega), zeroHole, skipHole, List.take_left' htake, List.drop_left' htake,
      List.take_of_length_le hrest]

theorem decodedImage_check {image : BlockImage} (himage : ImageOf ins b image) (dataLen : Nat) :
    (decodedImage image).check dataLen = .ok () := by
  have hlength : image.isCompressed = false → image.bytes.length = blckSz - b.hole.2 := fun hraw => by
    rw [himage.raw hraw, length_skipHole_buffer]
  have hsmall : image.isCompressed = true → image.bytes.length ≠ blckSz := fun hpacked =>
    Nat.ne_of_lt (himage.packed hpacked).2
  rw [DecodedImage.check, decodedImage, himage.hole]
  dsimp only
  rw [himage.hasHole, himage.compressed]
  rcases hole_cases b with hzero | ⟨hoff, hlen, hle⟩
  · rw [hzero] at hlength ⊢
    cases hpacked : image.isCompressed with
    | false =>
      have hfull := hlength hpacked
      simp [hfull]
    | true =>
      have hless := hsmall hpacked
      simp [hless]
  · have hne : image.bytes.length ≠ blckSz := by
      cases hpacked : image.isCompressed with
      | false =>
        rw [hlength hpacked]
        omega
      | true => exact hsmall hpacked
    have hoff' : b.hole.1 ≠ 0 := by omega
    have hlen' : b.hole.2 ≠ 0 := by omega
    simp [hne, hoff', hlen']

theorem reads_copyField {w n : Nat} (hn : n < 256 ^ w) : Reads (copyField w) (encodeLE w n) n := by
  have hbytes : Reads (readBytes DecodeError.invalidLength w) (encodeLE w n) (encodeLE w n) := by
    have hread := reads_bytes DecodeError.invalidLength (encodeLE w n)
    rwa [length_encodeLE] at hread
  have hmap := hbytes.map (f := decodeLE)
  rwa [decodeLE_encodeLE hn] at hmap

theorem reads_copyByte (n : UInt8) : Reads copyByte [n] n := reads_byte _ n

theorem reads_ok {x : Except DecodeError Unit} (hx : x = .ok ()) : Reads (StateT.lift x) [] () := by
  subst hx
  exact fun _ => rfl

theorem holeLength_of_missing {n len : Nat} (hn : n = blckSz - len) (hlen : len ≤ blckSz) :
    (blckSz + (0x10000 - n)) % 0x10000 = len := by
  have hsize : blckSz = 8192 := rfl
  omega

theorem reads_decodeImage {image : BlockImage} (himage : ImageOf ins b image) (dataLen : Nat) :
    Reads (decodeImage dataLen) image.header (decodedImage image) := by
  have hsize : blckSz = 8192 := rfl
  have hhole : b.hole.1 ≤ blckSz ∧ b.hole.2 ≤ blckSz := by
    rcases hole_cases b with hzero | hpos
    · rw [hzero]
      exact ⟨Nat.zero_le _, Nat.zero_le _⟩
    · omega
  have hlength : image.bytes.length < 256 ^ 2 := by
    cases hpacked : image.isCompressed with
    | false =>
      rw [himage.raw hpacked, length_skipHole_buffer]
      omega
    | true =>
      have hless := (himage.packed hpacked).2
      omega
  have hoffset : image.hole.1 < 256 ^ 2 := by
    rw [himage.hole]
    omega
  -- the length of the hole follows only a compressed image with a hole
  have hmissing : Reads (decodeHoleLength image.info image.bytes.length)
      (if image.hole.2 ≠ 0 ∧ image.isCompressed then encodeLE 2 image.hole.2 else []) image.hole.2 := by
    rw [decodeHoleLength, himage.compressed, himage.hasHole, himage.hole]
    cases hpacked : image.isCompressed with
    | false =>
      rw [if_neg (by simp), if_neg (by simp), holeLength_of_missing _ hhole.2]
      · exact Reads.pure _
      · rw [himage.raw hpacked, length_skipHole_buffer]
    | true =>
      rw [if_pos rfl]
      by_cases hzero : b.hole.2 = 0
      · rw [if_neg (by simp [hzero]), if_neg (by simp [hzero]), hzero]
        exact Reads.pure _
      · rw [if_pos (by simp [hzero]), if_pos (by simp [hzero])]
        exact reads_copyField (by omega)
  have hlast : Reads (do
        StateT.lift ((decodedImage image).check dataLen)
        pure (decodedImage image)) [] (decodedImage image) :=
    (reads_ok (decodedImage_check himage dataLen)).bind (Reads.pure _)
  have hheader : image.header = encodeLE 2 image.bytes.length ++ (encodeLE 2 image.hole.1 ++ ([image.info] ++
      ((if image.hole.2 ≠ 0 ∧ image.isCompressed then encodeLE 2 image.hole.2 else []) ++ []))) := by
    simp only [BlockImage.header, List.append_assoc, List.append_nil]
  rw [hheader]
  exact (reads_copyField hlength).bind ((reads_copyField hoffset).bind
    ((reads_copyByte image.info).bind (hmissing.bind hlast)))

theorem reads_copyRelFileLocator (r : RelFileLocator) : Reads copyRelFileLocator r.bytes r := by
  have hspc : Reads (copyField 4) (encodeLE 4 r.spcOid.toNat) r.spcOid.toNat := reads_copyField r.spcOid.toNat_lt
  have hdb : Reads (copyField 4) (encodeLE 4 r.dbOid.toNat) r.dbOid.toNat := reads_copyField r.dbOid.toNat_lt
  have hrel : Reads (copyField 4) (encodeLE 4 r.relNumber.toNat) r.relNumber.toNat :=
    reads_copyField r.relNumber.toNat_lt
  have hlast : Reads (pure (⟨UInt32.ofNat r.spcOid.toNat, UInt32.ofNat r.dbOid.toNat,
      UInt32.ofNat r.relNumber.toNat⟩ : RelFileLocator) : Decoder RelFileLocator) [] r := by
    simp only [UInt32.ofNat_toNat]
    exact Reads.pure r
  have hbytes : r.bytes = encodeLE 4 r.spcOid.toNat ++ (encodeLE 4 r.dbOid.toNat ++
      (encodeLE 4 r.relNumber.toNat ++ [])) := by
    simp only [RelFileLocator.bytes, List.append_assoc, List.append_nil]
  rw [hbytes]
  exact hspc.bind (hdb.bind (hrel.bind hlast))

theorem reads_decodeRelation {r : RelFileLocator} {prev : Option RelFileLocator}
    (hprev : samerel = true → prev = some r) :
    Reads (decodeRelation samerel prev) (if samerel then [] else r.bytes) r := by
  cases samerel with
  | false => exact reads_copyRelFileLocator r
  | true =>
    rw [hprev rfl]
    exact Reads.pure r

theorem forkFlags_read (ins : Insertion) (samerel : Bool) (b : RegisteredBuffer) :
    ins.forkFlags samerel b &&& bkpblockForkMask = b.forkno.code ∧
      hasFlag (ins.forkFlags samerel b) bkpblockWillInit = (b.flags &&& regbufWillInit == regbufWillInit) ∧
      hasFlag (ins.forkFlags samerel b) bkpblockHasImage = ins.includeImage b ∧
      hasFlag (ins.forkFlags samerel b) bkpblockHasData = ins.needsData b ∧
      hasFlag (ins.forkFlags samerel b) bkpblockSameRel = samerel := by
  rw [Insertion.forkFlags]
  generalize b.forkno = fork, (b.flags &&& regbufWillInit == regbufWillInit) = init, ins.includeImage b = image,
    ins.needsData b = data
  cases fork <;> cases init <;> cases image <;> cases data <;> cases samerel <;> decide

def Insertion.decodedImageOf (ins : Insertion) (b : RegisteredBuffer) : Option DecodedImage :=
  if ins.includeImage b then some (decodedImage (ins.image b)) else none

def Insertion.dataLength (ins : Insertion) (b : RegisteredBuffer) : Nat :=
  if ins.needsData b then b.rdata.length else 0

def Insertion.headerOf (ins : Insertion) (samerel : Bool) (b : RegisteredBuffer) : DecodedBkpBlock :=
  ⟨b.rlocator, b.forkno.code, b.block, ins.forkFlags samerel b, ins.decodedImageOf b, [], ins.needsData b,
    ins.dataLength b, []⟩

theorem needsData_length (h : ins.needsData b = true) : b.rdata.length ≠ 0 := by
  intro hzero
  rw [Insertion.needsData, if_pos hzero] at h
  cases h

theorem dataLength_check (ins : Insertion) (b : RegisteredBuffer) :
    checkDataLength (ins.needsData b) (ins.dataLength b) = .ok () := by
  rw [checkDataLength, Insertion.dataLength]
  cases hneeds : ins.needsData b with
  | false => simp
  | true =>
    have hdata := needsData_length hneeds
    simp [hdata]

theorem length_blockData (ins : Insertion) (b : RegisteredBuffer) :
    (ins.blockData b).length = ((ins.decodedImageOf b).map (·.bimgLen)).getD 0 + ins.dataLength b := by
  rw [Insertion.blockData, Insertion.decodedImageOf, Insertion.dataLength, List.length_append]
  have himage : (if ins.includeImage b then (ins.image b).bytes else []).length =
      ((if ins.includeImage b then some (decodedImage (ins.image b)) else none).map (·.bimgLen)).getD 0 := by
    cases ins.includeImage b <;> rfl
  have hdata : (if ins.needsData b then b.rdata else []).length = if ins.needsData b then b.rdata.length else 0 := by
    cases ins.needsData b <;> rfl
  rw [himage, hdata]

theorem reads_decodeImageIf (ins : Insertion) (b : RegisteredBuffer) (dataLen : Nat) :
    Reads (decodeImageIf (ins.includeImage b) dataLen) (if ins.includeImage b then (ins.image b).header else [])
      (ins.decodedImageOf b) := by
  rw [decodeImageIf, Insertion.decodedImageOf]
  cases ins.includeImage b with
  | false => exact Reads.pure none
  | true => exact (reads_decodeImage (imageOf ins b) dataLen).map

def DecodeState.addBlock (st : DecodeState) (gap : Nat) (blk : DecodedBkpBlock) (len : Nat) : DecodeState where
  record := { st.record with blocks := st.record.blocks ++ List.replicate gap none ++ [some blk] }
  datatotal := st.datatotal + len
  rlocator := some blk.rlocator

theorem reads_decodeBlock {gap : Nat} (hid : id < 256) (hgap : st.record.blocks.length + gap = id)
    (hprev : samerel = true → st.rlocator = some b.rlocator)
    (htotal : st.datatotal + (ins.blockData b).length < 2 ^ 32) :
    Reads (decodeBlock st (UInt8.ofNat id)) ((ins.blockHeader id samerel b).drop 1)
      (st.addBlock gap (ins.headerOf samerel b) (ins.blockData b).length) := by
  obtain ⟨hfork, hinit, himage, hdata, hsame⟩ := forkFlags_read ins samerel b
  have hnat : (UInt8.ofNat id).toNat = id := UInt8.toNat_ofNat_of_lt' hid
  have horder : (if (UInt8.ofNat id).toNat < st.record.blocks.length then
      Except.error (DecodeError.outOfOrderBlockId (UInt8.ofNat id)) else .ok ()) = .ok () := by
    rw [if_neg]
    omega
  have hsmall : ins.dataLength b < 256 ^ 2 := by
    have hle := b.rdata_le
    rw [Insertion.dataLength]
    split <;> omega
  have hcheck : checkDataLength (hasFlag (ins.forkFlags samerel b) bkpblockHasData) (ins.dataLength b) = .ok () := by
    rw [hdata]
    exact dataLength_check ins b
  have himages := reads_decodeImageIf ins b (ins.dataLength b)
  rw [← himage] at himages
  have hrelation := reads_decodeRelation hprev
  have hblkno : Reads (copyField 4) (encodeLE 4 b.block.toNat) b.block.toNat := reads_copyField b.block.toNat_lt
  have hheader : (ins.blockHeader id samerel b).drop 1 = [] ++ ([ins.forkFlags samerel b] ++
      (encodeLE 2 (ins.dataLength b) ++ ([] ++
        ((if hasFlag (ins.forkFlags samerel b) bkpblockHasImage then (ins.image b).header else []) ++
          ((if samerel then [] else b.rlocator.bytes) ++ (encodeLE 4 b.block.toNat ++ [])))))) := by
    rw [himage, Insertion.dataLength]
    simp only [Insertion.blockHeader, List.cons_append, List.nil_append, List.drop_one, List.tail_cons,
      List.append_assoc, List.append_nil]
  have hstate :
      Reads (pure (st.addBlock gap (ins.headerOf samerel b) (ins.blockData b).length) : Decoder DecodeState) []
      (st.addBlock gap (ins.headerOf samerel b) (ins.blockData b).length) := Reads.pure _
  have hsum : (st.datatotal + ins.dataLength b + ((ins.decodedImageOf b).map (·.bimgLen)).getD 0) % 2 ^ 32 =
      st.datatotal + (ins.blockData b).length := by
    rw [length_blockData] at htotal ⊢
    rw [Nat.mod_eq_of_lt] <;> omega
  have hfill : (UInt8.ofNat id).toNat - st.record.blocks.length = gap := by omega
  rw [hheader, decodeBlock]
  refine (reads_ok horder).bind ((reads_copyByte _).bind ((reads_copyField hsmall).bind ((reads_ok hcheck).bind
    (himages.bind ?_))))
  rw [hsame]
  refine hrelation.bind (hblkno.bind ?_)
  dsimp only
  rw [hsum, hfill, hfork, hdata, UInt32.ofNat_toNat]
  exact hstate

theorem reads_decodeFragment {gap : Nat} (hid : id ≤ xlrMaxBlockId) (hgap : st.record.blocks.length + gap = id)
    (hprev : samerel = true → st.rlocator = some b.rlocator)
    (htotal : st.datatotal + (ins.blockData b).length < 2 ^ 32) :
    Reads (decodeFragment st) (ins.blockHeader id samerel b)
      (st.addBlock gap (ins.headerOf samerel b) (ins.blockData b).length, false) := by
  have hle : id ≤ 32 := hid
  have hnat : (UInt8.ofNat id).toNat = id := UInt8.toNat_ofNat_of_lt' (show id < 256 by omega)
  have hmarker (m : UInt8) (hm : 32 < m.toNat) : UInt8.ofNat id ≠ m := by
    intro heq
    rw [heq] at hnat
    omega
  have hblock := reads_decodeBlock (show id < 256 by omega) hgap hprev htotal
  have hheader : ins.blockHeader id samerel b = [UInt8.ofNat id] ++ (ins.blockHeader id samerel b).drop 1 := by
    simp only [Insertion.blockHeader, List.cons_append, List.nil_append, List.drop_one, List.tail_cons]
  rw [hheader, decodeFragment]
  refine (reads_copyByte _).bind ?_
  rw [if_neg (hmarker _ (by decide)), if_neg (hmarker _ (by decide)), if_neg (hmarker _ (by decide)),
    if_neg (hmarker _ (by decide)), if_pos (by rw [hnat]; exact hid)]
  exact hblock.map

end CdcKafka.Xlog
