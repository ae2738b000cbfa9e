import CdcKafka.Lib.ByteSource
import CdcKafka.Xlog.Valid
import CdcKafka.BlockRef.Entry
import CdcKafka.Lib.CLayout

/-! The buffer through which block reference files are written and read, with its running checksum. -/

namespace CdcKafka.BlockRef

open CdcKafka.Lib CdcKafka.Xlog

def bufsize : Nat := 65536

/-- `out` is what the write callback was given; `data` holds the `used` bytes of the buffer. -/
structure WriteBuffer where
  out : Bytes
  data : Bytes
  crc : UInt32

namespace WriteBuffer

def init : WriteBuffer := ⟨[], [], initCrc32c⟩

def flush (b : WriteBuffer) : WriteBuffer := { b with out := b.out ++ b.data, data := [] }

def written (b : WriteBuffer) : Bytes := b.out ++ b.data

end WriteBuffer

def blockRefTableFlush (b : WriteBuffer) : WriteBuffer := b.flush

def blockRefTableWrite (b : WriteBuffer) (data : Bytes) : WriteBuffer :=
  let b := { b with crc := compCrc32c b.crc data }
  let b := if bufsize < b.data.length + data.length then b.flush else b
  if bufsize ≤ data.length then { b with out := b.out ++ data } else { b with data := b.data ++ data }

inductive ReadError where
  | wrongMagic (found : UInt32)
  | endsUnexpectedly
  | wrongChecksum (expected found : UInt32)
deriving DecidableEq

def ReadError.format : ReadError → String
  | wrongMagic _ => "file \"%s\" has wrong magic number: expected %u, found %u"
  | endsUnexpectedly => "file \"%s\" ends unexpectedly"
  | wrongChecksum _ _ => "file \"%s\" has wrong checksum: expected %08X, found %08X"

inductive Stop where
  | error (e : ReadError)
  | outOfMemory
  | overrun
deriving DecidableEq

structure ReadBuffer where
  source : ByteSource
  data : Bytes
  cursor : Nat
  crc : UInt32

namespace ReadBuffer

def init (file : Bytes) : ReadBuffer := ⟨⟨file, 0⟩, [], 0, initCrc32c⟩

def unread (b : ReadBuffer) : Bytes := b.data.drop b.cursor ++ b.source.rest

def deliver (b : ReadBuffer) (bytes : Bytes) : ReadBuffer := { b with crc := compCrc32c b.crc bytes }

def refills (b : ReadBuffer) : Nat := if b.cursor < b.data.length then 0 else 1

theorem refills_le (b : ReadBuffer) : b.refills ≤ 1 := by
  rw [refills]
  split <;> decide

theorem refills_eq_zero {b : ReadBuffer} (h : b.cursor < b.data.length) : b.refills = 0 := if_pos h

theorem refills_eq_one {b : ReadBuffer} (h : ¬b.cursor < b.data.length) : b.refills = 1 := if_neg h

end ReadBuffer

def store (capacity : Nat) (got bytes : Bytes) : Except Stop Bytes :=
  if (got ++ bytes).length ≤ capacity then .ok (got ++ bytes) else .error .overrun

variable (splits : Nat → Nat)

def blockRefTableRead (capacity length : Nat) (got : Bytes) (b : ReadBuffer) : Except Stop (Bytes × ReadBuffer) :=
  if _h : length = 0 then .ok (got, b)
  else if _h : b.cursor < b.data.length then
    let n := min length (b.data.length - b.cursor)
    let bytes := (b.data.drop b.cursor).take n
    store capacity got bytes >>= fun got =>
      blockRefTableRead capacity (length - n) got { b.deliver bytes with cursor := b.cursor + n }
  else if bufsize ≤ length then
    match _h : b.source.read splits length with
    | (bytes, source) =>
      store capacity got bytes >>= fun got =>
        if _h : bytes.length = 0 then .error (.error .endsUnexpectedly)
        else blockRefTableRead capacity (length - bytes.length) got { b.deliver bytes with source := source }
  else
    match _h : b.source.read splits bufsize with
    | (bytes, source) =>
      if _h : bytes.length = 0 then .error (.error .endsUnexpectedly)
      else blockRefTableRead capacity length got { b with source := source, data := bytes, cursor := 0 }
termination_by 2 * length + b.refills
decreasing_by
  · exact Nat.lt_of_le_of_lt (Nat.add_le_add_left (ReadBuffer.refills_le _) _) (by omega)
  · exact Nat.lt_of_le_of_lt (Nat.add_le_add_left (ReadBuffer.refills_le _) _) (by omega)
  · have hfull : ReadBuffer.refills { b with source := source, data := bytes, cursor := 0 } = 0 :=
      ReadBuffer.refills_eq_zero (by dsimp only; omega)
    have hused := ReadBuffer.refills_eq_one (by assumption : ¬b.cursor < b.data.length)
    omega

theorem written_write (b : WriteBuffer) (data : Bytes) : (blockRefTableWrite b data).written = b.written ++ data := by
  rw [blockRefTableWrite, WriteBuffer.written, WriteBuffer.written]
  dsimp only
  by_cases hdirect : bufsize ≤ data.length
  · rw [if_pos hdirect]
    split
    · rw [WriteBuffer.flush, List.append_nil]
    · -- It fills the buffer exactly, so the buffer is empty.
      have hempty : b.data = [] := List.length_eq_zero_iff.mp (by omega)
      rw [hempty, List.append_nil, List.append_nil]
  · rw [if_neg hdirect, ← List.append_assoc]
    split
    · rw [WriteBuffer.flush, List.append_nil]
    · rfl

theorem crc_write (b : WriteBuffer) (data : Bytes) : (blockRefTableWrite b data).crc = compCrc32c b.crc data := by
  rw [blockRefTableWrite]
  dsimp only
  split <;> split <;> rfl

theorem compCrc32c_append (crc : UInt32) (data data' : Bytes) :
    compCrc32c crc (data ++ data') = compCrc32c (compCrc32c crc data) data' := List.foldl_append

variable {splits}

theorem store_eq {capacity : Nat} {got bytes : Bytes} (h : (got ++ bytes).length ≤ capacity) :
    store capacity got bytes = .ok (got ++ bytes) := if_pos h

theorem store_overrun {capacity : Nat} {got bytes : Bytes} (h : ¬(got ++ bytes).length ≤ capacity) :
    store capacity got bytes = .error .overrun := if_neg h

def readOutcome (capacity length : Nat) (got unread : Bytes) (b' : ReadBuffer) : Except Stop (Bytes × ReadBuffer) :=
  if capacity < got.length + min length unread.length then .error .overrun
  else if unread.length < length then .error (.error .endsUnexpectedly)
  else .ok (got ++ unread.take length, b')

structure Advanced (b : ReadBuffer) (length : Nat) (b' : ReadBuffer) : Prop where
  unread : b'.unread = b.unread.drop length
  crc : b'.crc = compCrc32c b.crc (b.unread.take length)

theorem Advanced.trans {b b₁ b₂ : ReadBuffer} {m n : Nat} (h₁ : Advanced b m b₁) (h₂ : Advanced b₁ n b₂) :
    Advanced b (m + n) b₂ := by
  refine ⟨?_, ?_⟩
  · rw [h₂.unread, h₁.unread, List.drop_drop]
  · rw [h₂.crc, h₁.crc, h₁.unread, ← compCrc32c_append, ← List.take_add]

theorem exists_advanced (b : ReadBuffer) (length : Nat) : ∃ b', Advanced b length b' :=
  ⟨⟨⟨b.unread.drop length, 0⟩, [], 0, compCrc32c b.crc (b.unread.take length)⟩, rfl, rfl⟩

theorem readOutcome_piece {capacity length n : Nat} {got unread : Bytes} {b' : ReadBuffer} (hn : n ≤ length)
    (hall : n ≤ unread.length) :
    readOutcome capacity (length - n) (got ++ unread.take n) (unread.drop n) b' =
      readOutcome capacity length got unread b' := by
  have hlen : got.length + n + min (length - n) (unread.length - n) = got.length + min length unread.length := by omega
  have hends : unread.length - n < length - n ↔ unread.length < length := by omega
  have htake : unread.take n ++ (unread.drop n).take (length - n) = unread.take length := by
    rw [← List.take_add, Nat.add_sub_cancel' hn]
  rw [readOutcome, readOutcome, List.length_append, List.length_take, List.length_drop, Nat.min_eq_left hall, hlen,
    List.append_assoc, htake, if_congr hends rfl rfl]

theorem readOutcome_overrun {capacity length n : Nat} {got unread : Bytes} {b' : ReadBuffer} (hn : n ≤ length)
    (hall : n ≤ unread.length) (hover : capacity < got.length + n) :
    readOutcome capacity length got unread b' = .error .overrun := if_pos (by omega)

theorem readOutcome_ended {capacity length : Nat} {got : Bytes} {b' : ReadBuffer} (hgot : got.length ≤ capacity)
    (hlength : length ≠ 0) : readOutcome capacity length got [] b' = .error (.error .endsUnexpectedly) := by
  rw [readOutcome, List.length_nil, if_neg (by omega), if_pos (by omega)]

theorem read_piece {capacity length n : Nat} {got bytes : Bytes} {b b₁ : ReadBuffer}
    {next : Bytes → Except Stop (Bytes × ReadBuffer)} (hn : n ≤ length) (hlen : bytes.length = n)
    (hbytes : bytes = b.unread.take n) (h₁ : Advanced b n b₁)
    (hnext : (got ++ bytes).length ≤ capacity → ∃ b', Advanced b₁ (length - n) b' ∧
      next (got ++ bytes) = readOutcome capacity (length - n) (got ++ bytes) b₁.unread b') :
    ∃ b', Advanced b length b' ∧ (store capacity got bytes >>= next) = readOutcome capacity length got b.unread b' := by
  have hall : n ≤ b.unread.length := by
    rw [hbytes, List.length_take] at hlen
    omega
  by_cases hfits : (got ++ bytes).length ≤ capacity
  · obtain ⟨b', hadv, heq⟩ := hnext hfits
    have hadvanced := h₁.trans hadv
    rw [Nat.add_sub_cancel' hn] at hadvanced
    refine ⟨b', hadvanced, ?_⟩
    rw [store_eq hfits, ok_bind, heq, hbytes, h₁.unread, readOutcome_piece hn hall]
  · rw [List.length_append, hlen] at hfits
    obtain ⟨b', hadvanced⟩ := exists_advanced b length
    refine ⟨b', hadvanced, ?_⟩
    rw [store_overrun (by rw [List.length_append, hlen]; exact hfits), readOutcome_overrun hn hall (by omega)]
    rfl

/-- However the bytes come in, a read gives the next ones, or finds that the file ends, and overruns the caller's memory
where it gets more bytes than fit. -/
theorem blockRefTableRead_eq (capacity length : Nat) (got : Bytes) (b : ReadBuffer) (hgot : got.length ≤ capacity) :
    ∃ b', Advanced b length b' ∧
      blockRefTableRead splits capacity length got b = readOutcome capacity length got b.unread b' := by
  induction hm : 2 * length + b.refills using Nat.strong_induction_on generalizing length got b with
  | h m ih =>
    rw [blockRefTableRead]
    by_cases hzero : length = 0
    · subst hzero
      refine ⟨b, ⟨rfl, rfl⟩, ?_⟩
      rw [dif_pos rfl, readOutcome, if_neg (by omega), if_neg (by omega), List.take_zero, List.append_nil]
    rw [dif_neg hzero]
    by_cases hbuf : b.cursor < b.data.length
    · rw [dif_pos hbuf]
      dsimp only
      obtain ⟨n, hn⟩ : ∃ n, n = min length (b.data.length - b.cursor) := ⟨_, rfl⟩
      rw [← hn]
      have hdrop : (b.data.drop b.cursor).length = b.data.length - b.cursor := List.length_drop
      have htake : (b.data.drop b.cursor).take n = b.unread.take n := by
        rw [ReadBuffer.unread, List.take_append_of_le_length (by omega)]
      have hadv : Advanced b n { b.deliver ((b.data.drop b.cursor).take n) with cursor := b.cursor + n } := by
        refine ⟨?_, congrArg (compCrc32c b.crc) htake⟩
        rw [ReadBuffer.unread, ReadBuffer.unread, List.drop_append_of_le_length (by omega), List.drop_drop]
        rfl
      have hlen : ((b.data.drop b.cursor).take n).length = n := by
        rw [List.length_take, hdrop]
        omega
      refine read_piece (by omega) hlen htake hadv fun hfits => ?_
      exact ih _ (Nat.lt_of_le_of_lt (Nat.add_le_add_left (ReadBuffer.refills_le _) _) (by omega)) _ _ _ hfits rfl
    · have hnone : b.unread = b.source.rest := by
        rw [ReadBuffer.unread, List.drop_eq_nil_of_le (by omega), List.nil_append]
      have hrefills := ReadBuffer.refills_eq_one hbuf
      rw [dif_neg hbuf]
      by_cases hdirect : bufsize ≤ length
      · rw [if_pos hdirect]
        have happend := @ByteSource.read_append splits b.source length
        have hle := @ByteSource.length_read_le splits b.source length
        have hnil := @ByteSource.read_eq_nil_iff splits b.source length (by omega)
        split
        next bytes source hread =>
        rw [hread] at happend hle hnil
        dsimp only at happend hle hnil
        have htake : bytes = b.unread.take bytes.length := by
          rw [hnone, ← happend, List.take_left]
        have hadv : Advanced b bytes.length { b.deliver bytes with source := source } := by
          refine ⟨?_, congrArg (compCrc32c b.crc) htake⟩
          rw [hnone, ← happend, List.drop_left, ReadBuffer.unread]
          dsimp only [ReadBuffer.deliver]
          rw [List.drop_eq_nil_of_le (by omega), List.nil_append]
        refine read_piece hle rfl htake hadv fun hfits => ?_
        by_cases hempty : bytes.length = 0
        · have hrest : b.unread = [] := hnone.trans (hnil.mp hempty)
          obtain ⟨b', hadvanced⟩ := exists_advanced { b.deliver bytes with source := source } (length - bytes.length)
          refine ⟨b', hadvanced, ?_⟩
          rw [dif_pos hempty, hadv.unread, hrest, List.drop_nil, readOutcome_ended hfits (by omega)]
        · rw [dif_neg hempty]
          exact ih _ (Nat.lt_of_le_of_lt (Nat.add_le_add_left (ReadBuffer.refills_le _) _) (by omega)) _ _ _ hfits rfl
      · rw [if_neg hdirect]
        have happend := @ByteSource.read_append splits b.source bufsize
        have hnil := @ByteSource.read_eq_nil_iff splits b.source bufsize (by decide)
        split
        next bytes source hread =>
        rw [hread] at happend hnil
        dsimp only at happend hnil
        by_cases hempty : bytes.length = 0
        · have hrest : b.unread = [] := hnone.trans (hnil.mp hempty)
          obtain ⟨b', hadvanced⟩ := exists_advanced b length
          refine ⟨b', hadvanced, ?_⟩
          rw [dif_pos hempty, hrest, readOutcome_ended hgot hzero]
        · have hsame : ReadBuffer.unread { b with source := source, data := bytes, cursor := 0 } = b.unread := by
            rw [hnone, ← happend]
            rfl
          have hfull : ReadBuffer.refills { b with source := source, data := bytes, cursor := 0 } = 0 :=
            ReadBuffer.refills_eq_zero (by dsimp only; omega)
          obtain ⟨b', hadv, heq⟩ := ih _ (by omega) length got _ hgot (congrArg (2 * length + ·) hfull)
          rw [hsame] at heq
          refine ⟨b', ⟨hsame ▸ hadv.unread, hsame ▸ hadv.crc⟩, ?_⟩
          rw [dif_neg hempty, heq]

end CdcKafka.BlockRef

/-! How block reference files are written, from a table or entry by entry. -/

namespace CdcKafka.BlockRef

open CdcKafka.Lib CdcKafka.Xlog

def blockRefTableMagic : UInt32 := 0x652b137b

structure BlockRefTableSerializedEntry where
  rlocator : RelFileLocator
  forknum : Int32
  limitBlock : BlockNumber
  nchunks : UInt32

def serializedEntry : CLayout BlockRefTableSerializedEntry :=
  (((((CLayout.u32.pair CLayout.u32).pair CLayout.u32).pair CLayout.i32).pair CLayout.u32).pair CLayout.u32).map
    (fun p => ⟨⟨p.1.1.1.1.1, p.1.1.1.1.2, p.1.1.1.2⟩, p.1.1.2, p.1.2, p.2⟩)
    (fun s => (((((s.rlocator.spcOid, s.rlocator.dbOid), s.rlocator.relNumber), s.forknum), s.limitBlock), s.nchunks))
    fun _ => rfl

def sizeOfSerializedEntry : Nat := 24

def zentry : Bytes := List.replicate sizeOfSerializedEntry 0

def trimmedChunks (chunks : List Chunk) : Nat → Nat
  | 0 => 0
  | nchunks + 1 =>
    match chunks[nchunks]? with
    | none => nchunks + 1
    | some c => if c.usage = 0 then trimmedChunks chunks nchunks else nchunks + 1

def serialize (entry : BlockRefTableEntry) : BlockRefTableSerializedEntry where
  rlocator := entry.key.rlocator
  forknum := entry.key.forknum
  limitBlock := entry.limitBlock
  nchunks := UInt32.ofNat (trimmedChunks entry.chunks entry.nchunks)

def u16s (words : List UInt16) : Bytes := words.flatMap CLayout.u16.bytes

def chunkBytes (c : Chunk) : Option Bytes :=
  if c.usage ≤ c.size then some (u16s ((List.range' 0 c.usage).map c.data)) else none

def writeChunks (b : WriteBuffer) : List Chunk → Option WriteBuffer
  | [] => some b
  | c :: chunks =>
    if c.usage = 0 then writeChunks b chunks
    else chunkBytes c >>= fun data => writeChunks (blockRefTableWrite b data) chunks

def writeEntryChunks (b : WriteBuffer) (nchunks : Nat) (entry : BlockRefTableEntry) : Option WriteBuffer :=
  let usages := (entry.chunks.take nchunks).map fun c => UInt16.ofNat c.usage
  writeChunks (if nchunks ≠ 0 then blockRefTableWrite b (u16s usages) else b) entry.chunks

def blockRefTableFileTerminate (b : WriteBuffer) : Bytes :=
  let b := blockRefTableWrite b zentry
  let crc := finCrc32c b.crc
  (blockRefTableFlush (blockRefTableWrite b (CLayout.u32.bytes crc))).out

def createBlockRefTableWriter : WriteBuffer := blockRefTableWrite WriteBuffer.init (CLayout.u32.bytes blockRefTableMagic)

def blockRefTableWriteEntry (writer : WriteBuffer) (entry : BlockRefTableEntry) : Option WriteBuffer :=
  let sentry := serialize entry
  writeEntryChunks (blockRefTableWrite writer (serializedEntry.bytes sentry)) sentry.nchunks.toNat entry

def writeEntries (writer : WriteBuffer) : List BlockRefTableEntry → Option WriteBuffer
  | [] => some writer
  | entry :: entries => blockRefTableWriteEntry writer entry >>= fun writer => writeEntries writer entries

def writtenFile (entries : List BlockRefTableEntry) : Option Bytes :=
  (writeEntries createBlockRefTableWriter entries).map blockRefTableFileTerminate

def blockRefTableComparator (sa sb : BlockRefTableSerializedEntry) : Int :=
  if sa.rlocator.spcOid > sb.rlocator.spcOid then 1
  else if sa.rlocator.spcOid < sb.rlocator.spcOid then -1
  else if sa.rlocator.dbOid > sb.rlocator.dbOid then 1
  else if sa.rlocator.dbOid < sb.rlocator.dbOid then -1
  else if sa.rlocator.relNumber > sb.rlocator.relNumber then 1
  else if sa.rlocator.relNumber < sb.rlocator.relNumber then -1
  else if sa.forknum > sb.forknum then 1
  else if sa.forknum < sb.forknum then -1
  else 0

def writeSorted (brtab : BlockRefTable) (b : WriteBuffer) : List BlockRefTableSerializedEntry → Option WriteBuffer
  | [] => some b
  | sentry :: sdata =>
    match brtab.lookup ⟨sentry.rlocator, sentry.forknum⟩ with
    | none => none
    | some entry =>
      writeEntryChunks (blockRefTableWrite b (serializedEntry.bytes sentry)) sentry.nchunks.toNat entry >>= fun b =>
        writeSorted brtab b sdata

def writeBlockRefTable (brtab iterated : List BlockRefTableEntry) : Option Bytes :=
  let sdata := (iterated.map serialize).mergeSort fun sa sb => blockRefTableComparator sa sb ≤ 0
  (writeSorted brtab createBlockRefTableWriter sdata).map blockRefTableFileTerminate

end CdcKafka.BlockRef
