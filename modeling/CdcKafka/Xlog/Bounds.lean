import CdcKafka.Xlog.Checked
import CdcKafka.Xlog.RoundTrip

/-! What the decoder and the image restorer touch of their memory, for every record. -/

namespace CdcKafka.Xlog

open CdcKafka.Lib

variable {layout : Layout} {space : Nat} {record : Bytes}

namespace Checked

theorem follows_copyField (n : Nat) : Follows record (copyField record n) (Xlog.copyField n) :=
  (Follows.copy DecodeError.invalidLength n).bind fun b => Follows.pure (decodeLE b)

theorem copyByte_eq : Xlog.copyByte = (do
    let b ← readBytes .invalidLength 1
    pure (b.headD 0) : Decoder UInt8) := by
  funext s
  cases s with
  | nil => rfl
  | cons b s => rfl

theorem follows_copyByte : Follows record (copyByte record) Xlog.copyByte := by
  rw [copyByte_eq]
  exact (Follows.copy DecodeError.invalidLength 1).bind fun b => Follows.pure (b.headD 0)

theorem follows_decodeHoleLength (bimgInfo : UInt8) (bimgLen : Nat) :
    Follows record (decodeHoleLength record bimgInfo bimgLen) (Xlog.decodeHoleLength bimgInfo bimgLen) := by
  rw [decodeHoleLength, Xlog.decodeHoleLength]
  split
  · split
    · exact follows_copyField 2
    · exact Follows.pure 0
  · exact Follows.pure _

theorem follows_decodeImage (dataLen : Nat) :
    Follows record (decodeImage record dataLen) (Xlog.decodeImage dataLen) := by
  apply (follows_copyField 2).bind
  intro bimgLen
  apply (follows_copyField 2).bind
  intro holeOffset
  apply follows_copyByte.bind
  intro bimgInfo
  apply (follows_decodeHoleLength bimgInfo bimgLen).bind
  intro holeLength
  exact (Follows.lift _).bind fun _ => Follows.pure _

theorem follows_decodeImageIf (hasImage : Bool) (dataLen : Nat) :
    Follows record (decodeImageIf record hasImage dataLen) (Xlog.decodeImageIf hasImage dataLen) := by
  cases hasImage with
  | false => exact Follows.pure none
  | true => exact (follows_decodeImage dataLen).bind fun image => Follows.pure (some image)

theorem follows_copyRelFileLocator : Follows record (copyRelFileLocator record) Xlog.copyRelFileLocator := by
  apply (follows_copyField 4).bind
  intro spcOid
  apply (follows_copyField 4).bind
  intro dbOid
  exact (follows_copyField 4).bind fun relNumber => Follows.pure _

theorem follows_decodeRelation (samerel : Bool) (rlocator : Option RelFileLocator) :
    Follows record (decodeRelation record samerel rlocator) (Xlog.decodeRelation samerel rlocator) := by
  cases samerel with
  | false => exact follows_copyRelFileLocator
  | true =>
    cases rlocator with
    | none => exact Follows.lift (.error DecodeError.noPreviousRel)
    | some r => exact Follows.pure r

def RoomForBlocks (layout : Layout) (space : Nat) : Prop :=
  layout.blocksOffset + layout.blockSize * (xlrMaxBlockId + 1) ≤ space

theorem roomForBlocks_requiredSpace (layout : Layout) (xlTotLen : Nat) :
    RoomForBlocks layout (decodeXLogRecordRequiredSpace layout xlTotLen) := by
  rw [RoomForBlocks, decodeXLogRecordRequiredSpace]
  omega

theorem storeBlock_ok (hroom : RoomForBlocks layout space) {i : Nat} (hi : i ≤ xlrMaxBlockId) :
    storeBlock layout space i = .ok () := by
  apply store_ok
  have hmul : layout.blockSize * (i + 1) ≤ layout.blockSize * (xlrMaxBlockId + 1) :=
    Nat.mul_le_mul_left _ (Nat.succ_le_succ hi)
  rw [Nat.mul_succ] at hmul
  rw [RoomForBlocks] at hroom
  omega

theorem storeUnused_ok (hroom : RoomForBlocks layout space) {first n : Nat} (hn : first + n ≤ xlrMaxBlockId + 1) :
    storeUnused layout space first n = .ok () := by
  induction n generalizing first with
  | zero => rfl
  | succ n ih =>
    rw [storeUnused, storeBlock_ok hroom (by omega), ok_bind]
    exact ih (by omega)

theorem follows_decodeBlock (hroom : RoomForBlocks layout space) (st : DecodeState) {id : UInt8}
    (hid : id.toNat ≤ xlrMaxBlockId) (hst : st.record.blocks.length ≤ xlrMaxBlockId + 1) :
    Follows record (decodeBlock layout space record st id) (Xlog.decodeBlock st id) := by
  apply Follows.stores (storeUnused_ok hroom (by omega))
  apply (Follows.lift _).bind
  intro _
  apply Follows.stores (storeBlock_ok hroom hid)
  apply follows_copyByte.bind
  intro forkFlags
  apply (follows_copyField 2).bind
  intro dataLen
  apply (Follows.lift _).bind
  intro _
  apply (follows_decodeImageIf _ dataLen).bind
  intro image
  apply (follows_decodeRelation _ st.rlocator).bind
  intro rlocator
  exact (follows_copyField 4).bind fun blkno => Follows.pure _

theorem follows_decodeFragment (hroom : RoomForBlocks layout space) (st : DecodeState)
    (hst : st.record.blocks.length ≤ xlrMaxBlockId + 1) :
    Follows record (decodeFragment layout space record st) (Xlog.decodeFragment st) := by
  apply follows_copyByte.bind
  intro id
  dsimp only
  split
  · exact follows_copyByte.bind fun len => Follows.pure _
  split
  · exact (follows_copyField 4).bind fun len => Follows.pure _
  split
  · exact (follows_copyField 2).bind fun origin => Follows.pure _
  split
  · exact (follows_copyField 4).bind fun xid => Follows.pure _
  split
  · next hid => exact (follows_decodeBlock hroom st hid hst).bind fun st => Follows.pure _
  · exact Follows.lift _

end Checked

def DecodedBkpBlock.stated (blk : DecodedBkpBlock) : Nat :=
  (blk.image.map (·.bimgLen)).getD 0 + if blk.hasData then blk.dataLen else 0

def statedBlocks (blocks : List (Option DecodedBkpBlock)) : Nat :=
  (blocks.map fun blk => (blk.map (·.stated)).getD 0).sum

/-- The lengths that the headers state, as numbers that do not wrap. -/
def DecodedXLogRecord.stated (record : DecodedXLogRecord) : Nat :=
  statedBlocks record.blocks + record.mainDataLen

structure DecodedImage.Parsed (image : DecodedImage) : Prop where
  check : ∃ dataLen, image.check dataLen = .ok ()
  bimgLen_lt : image.bimgLen < 0x10000
  holeLength : bkpimageCompressed image.bimgInfo = false →
    image.holeLength = (blckSz + (0x10000 - image.bimgLen)) % 0x10000

structure DecodeState.Parsed (st : DecodeState) : Prop where
  blocks_le : st.record.blocks.length ≤ xlrMaxBlockId + 1
  datatotal : st.datatotal = st.record.stated % 2 ^ 32
  images : ∀ blk, some blk ∈ st.record.blocks → ∀ image, blk.image = some image → image.Parsed

theorem statedBlocks_append (blocks blocks' : List (Option DecodedBkpBlock)) :
    statedBlocks (blocks ++ blocks') = statedBlocks blocks + statedBlocks blocks' := by
  rw [statedBlocks, List.map_append, List.sum_append]
  rfl

theorem statedBlocks_replicate_none (n : Nat) : statedBlocks (List.replicate n none) = 0 := by
  induction n with
  | zero => rfl
  | succ n ih =>
    rw [List.replicate_succ]
    show 0 + statedBlocks (List.replicate n none) = 0
    rw [ih]

theorem decodeLE_lt (b : Bytes) : decodeLE b < 256 ^ b.length := by
  induction b with
  | nil => exact Nat.one_pos
  | cons d b ih =>
    have hd : d.toNat < 256 := d.toNat_lt
    rw [decodeLE, List.length_cons, pow_succ]
    omega

theorem yields_copyField (n : Nat) : Yields (copyField n) fun k => k < 256 ^ n := by
  refine (Yields.bytes DecodeError.invalidLength n).bind ?_
  intro b hb
  refine Yields.pure ?_
  rw [← hb]
  exact decodeLE_lt b

theorem yields_decodeImage (dataLen : Nat) : Yields (decodeImage dataLen) DecodedImage.Parsed := by
  refine (yields_copyField 2).bind ?_
  intro bimgLen hlen
  refine (yields_copyField 2).bind ?_
  intro holeOffset _
  refine (Yields.trivial copyByte).bind ?_
  intro bimgInfo _
  have hhole : Yields (decodeHoleLength bimgInfo bimgLen) fun holeLength =>
      bkpimageCompressed bimgInfo = false → holeLength = (blckSz + (0x10000 - bimgLen)) % 0x10000 := by
    rw [decodeHoleLength]
    split
    · next hpacked => exact fun _ _ _ _ hraw => absurd (hpacked.symm.trans hraw) (by decide)
    · exact Yields.pure fun _ => rfl
  refine hhole.bind ?_
  intro holeLength hholeLength
  have hcheck : Yields (StateT.lift (DecodedImage.check ⟨bimgLen, holeOffset, holeLength, bimgInfo⟩ dataLen) :
      Decoder Unit) fun _ => DecodedImage.check ⟨bimgLen, holeOffset, holeLength, bimgInfo⟩ dataLen = .ok () :=
    Yields.lift fun _ h => h
  exact hcheck.bind fun _ h => Yields.pure ⟨⟨dataLen, h⟩, hlen, hholeLength⟩

theorem yields_decodeImageIf (hasImage : Bool) (dataLen : Nat) :
    Yields (decodeImageIf hasImage dataLen) fun image => ∀ i, image = some i → i.Parsed := by
  cases hasImage with
  | false => exact Yields.pure fun i hi => by cases hi
  | true =>
    refine (yields_decodeImage dataLen).bind ?_
    intro image himage
    refine Yields.pure ?_
    intro i hi
    cases hi
    exact himage

theorem dataLen_of_checked {hasData : Bool} {dataLen : Nat} (h : checkDataLength hasData dataLen = .ok ()) :
    (if hasData then dataLen else 0) = dataLen := by
  cases hasData with
  | true => rfl
  | false =>
    by_cases hzero : dataLen = 0
    · exact hzero.symm
    · rw [checkDataLength, if_neg (by simp), if_pos ⟨rfl, hzero⟩] at h
      cases h

theorem yields_decodeBlock {st : DecodeState} {id : UInt8} (hst : st.Parsed) (hid : id.toNat ≤ xlrMaxBlockId) :
    Yields (decodeBlock st id) fun st' => st'.Parsed ∧ st'.record.mainDataLen = st.record.mainDataLen := by
  have horder :
      Yields (StateT.lift (if id.toNat < st.record.blocks.length then .error (.outOfOrderBlockId id) else .ok ()) :
      Decoder Unit) fun _ => st.record.blocks.length ≤ id.toNat := by
    refine Yields.lift ?_
    intro _ h
    split at h
    · cases h
    · next hle => exact Nat.not_lt.mp hle
  refine horder.bind ?_
  intro _ hle
  refine (Yields.trivial copyByte).bind ?_
  intro forkFlags _
  refine (Yields.trivial (copyField 2)).bind ?_
  intro dataLen _
  have hdata : Yields (StateT.lift (checkDataLength (hasFlag forkFlags bkpblockHasData) dataLen) : Decoder Unit)
      fun _ => (if hasFlag forkFlags bkpblockHasData then dataLen else 0) = dataLen :=
    Yields.lift fun _ h => dataLen_of_checked h
  refine hdata.bind ?_
  intro _ hdataLen
  refine (yields_decodeImageIf _ dataLen).bind ?_
  intro image himage
  refine (Yields.trivial (decodeRelation _ st.rlocator)).bind ?_
  intro rlocator _
  refine (Yields.trivial (copyField 4)).bind ?_
  intro blkno _
  refine Yields.pure ?_
  refine ⟨⟨?_, ?_, ?_⟩, rfl⟩
  · dsimp only
    rw [List.length_append, List.length_append, List.length_replicate, List.length_singleton]
    omega
  · -- the sum wraps where the stated one does not
    dsimp only [DecodedXLogRecord.stated]
    rw [statedBlocks_append, statedBlocks_append, statedBlocks_replicate_none, hst.datatotal, DecodedXLogRecord.stated]
    show _ = (statedBlocks st.record.blocks + 0 + ((image.map (·.bimgLen)).getD 0 +
      (if hasFlag forkFlags bkpblockHasData then dataLen else 0) + 0) + st.record.mainDataLen) % 2 ^ 32
    rw [hdataLen]
    omega
  · intro blk hblk i hi
    rcases List.mem_append.mp hblk with hold | hnew
    · rcases List.mem_append.mp hold with hold | hgap
      · exact hst.images blk hold i hi
      · cases List.eq_of_mem_replicate hgap
    · cases List.mem_singleton.mp hnew
      exact himage i hi

def DecodeState.Open (st : DecodeState) : Prop := st.Parsed ∧ st.record.mainDataLen = 0

theorem DecodeState.Open.addMain {st : DecodeState} (hst : st.Open) (len : Nat) :
    DecodeState.Parsed { st with record := { st.record with mainDataLen := len }
                                 datatotal := (st.datatotal + len) % 2 ^ 32 } where
  blocks_le := hst.1.blocks_le
  datatotal := by
    have htotal := hst.1.datatotal
    rw [DecodedXLogRecord.stated, hst.2] at htotal
    dsimp only [DecodedXLogRecord.stated]
    rw [htotal]
    omega
  images := hst.1.images

theorem yields_decodeFragment {st : DecodeState} (hst : st.Open) :
    Yields (decodeFragment st) fun p => p.1.Parsed ∧ (p.2 = false → p.1.Open) := by
  refine (Yields.trivial copyByte).bind ?_
  intro id _
  dsimp only
  split
  · exact (Yields.trivial copyByte).bind fun len _ => Yields.pure ⟨hst.addMain len.toNat, fun h => by cases h⟩
  split
  · exact (Yields.trivial (copyField 4)).bind fun len _ => Yields.pure ⟨hst.addMain len, fun h => by cases h⟩
  split
  · refine (Yields.trivial (copyField 2)).bind ?_
    intro origin _
    have hsame : DecodeState.Parsed { st with record := { st.record with recordOrigin := UInt16.ofNat origin } } :=
      ⟨hst.1.blocks_le, hst.1.datatotal, hst.1.images⟩
    exact Yields.pure ⟨hsame, fun _ => ⟨hsame, hst.2⟩⟩
  split
  · refine (Yields.trivial (copyField 4)).bind ?_
    intro xid _
    have hsame : DecodeState.Parsed { st with record := { st.record with toplevelXid := UInt32.ofNat xid } } :=
      ⟨hst.1.blocks_le, hst.1.datatotal, hst.1.images⟩
    exact Yields.pure ⟨hsame, fun _ => ⟨hsame, hst.2⟩⟩
  split
  · next hid =>
    refine (yields_decodeBlock hst.1 hid).bind ?_
    intro st' hst'
    exact Yields.pure ⟨hst'.1, fun _ => ⟨hst'.1, hst'.2.trans hst.2⟩⟩
  · exact Yields.lift fun _ h => by cases h

theorem decodeHeaders_succ (n : Nat) (st : DecodeState) : decodeHeaders (n + 1) st = fun ptr =>
    if ptr.length ≤ st.datatotal then .ok (st, ptr)
    else (decodeFragment st >>= fun p => if p.2 then pure p.1 else decodeHeaders n p.1) ptr := by
  funext ptr
  rw [decodeHeaders]
  dsimp only
  split
  · rfl
  · show (decodeFragment st ptr >>= _) = (decodeFragment st ptr >>= _)
    congr 1
    funext p
    obtain ⟨⟨st', last⟩, ptr'⟩ := p
    cases last <;> rfl

theorem yields_decodeHeaders (n : Nat) {st : DecodeState} (hst : st.Open) :
    Yields (decodeHeaders n st) DecodeState.Parsed := by
  induction n generalizing st with
  | zero => exact Yields.pure hst.1
  | succ n ih =>
    rw [decodeHeaders_succ]
    refine Yields.remaining _ hst.1 ?_
    refine (yields_decodeFragment hst).bind ?_
    rintro ⟨st', last⟩ hst'
    cases last with
    | true => exact Yields.pure hst'.1
    | false => exact ih (hst'.2 rfl)

namespace Checked

theorem decodeHeaders_succ (n : Nat) (st : DecodeState) : decodeHeaders layout space record (n + 1) st = fun c =>
    if c.remaining ≤ st.datatotal then .ok (st, c)
    else (decodeFragment layout space record st >>= fun p =>
      if p.2 then pure p.1 else decodeHeaders layout space record n p.1) c := by
  funext c
  rw [decodeHeaders]
  dsimp only
  split
  · rfl
  · show (decodeFragment layout space record st c >>= _) = (decodeFragment layout space record st c >>= _)
    congr 1
    funext p
    obtain ⟨⟨st', last⟩, c'⟩ := p
    cases last <;> rfl

theorem follows_decodeHeaders (hroom : RoomForBlocks layout space) (n : Nat) {st : DecodeState} (hst : st.Open) :
    Follows record (decodeHeaders layout space record n st) (Xlog.decodeHeaders n st) := by
  induction n generalizing st with
  | zero => exact Follows.pure st
  | succ n ih =>
    rw [decodeHeaders_succ, Xlog.decodeHeaders_succ]
    apply Follows.remaining
    apply (follows_decodeFragment hroom st hst.1.blocks_le).bind_of (yields_decodeFragment hst)
    rintro ⟨st', last⟩ hst'
    cases last with
    | true => exact Follows.pure st'
    | false => exact ih (hst'.2 rfl)

end Checked

end CdcKafka.Xlog
