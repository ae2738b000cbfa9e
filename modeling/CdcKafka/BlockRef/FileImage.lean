import CdcKafka.BlockRef.FileBuffer
import CdcKafka.BlockRef.Table

/-! The files that are written of a block reference table. -/

namespace CdcKafka.BlockRef

open CdcKafka.Lib CdcKafka.Xlog

structure Wrote (b : WriteBuffer) (bytes : Bytes) (b' : WriteBuffer) : Prop where
  written : b'.written = b.written ++ bytes
  crc : b'.crc = compCrc32c b.crc bytes

theorem wrote_write (b : WriteBuffer) (data : Bytes) : Wrote b data (blockRefTableWrite b data) :=
  ⟨written_write b data, crc_write b data⟩

theorem wrote_nothing (b : WriteBuffer) : Wrote b [] b := ⟨(List.append_nil _).symm, rfl⟩

theorem Wrote.trans {b b₁ b₂ : WriteBuffer} {bytes bytes' : Bytes} (h₁ : Wrote b bytes b₁) (h₂ : Wrote b₁ bytes' b₂) :
    Wrote b (bytes ++ bytes') b₂ := by
  refine ⟨?_, ?_⟩
  · rw [h₂.written, h₁.written, List.append_assoc]
  · rw [h₂.crc, h₁.crc, compCrc32c_append]

theorem trimmedChunks_spec {chunks : List Chunk} (n : Nat) (hn : n ≤ chunks.length) :
    trimmedChunks chunks n ≤ n ∧ ∀ k c, chunks[k]? = some c → trimmedChunks chunks n ≤ k → k < n → c.usage = 0 := by
  induction n with
  | zero => exact ⟨Nat.le_refl 0, fun k c _ _ hk => absurd hk (Nat.not_lt_zero k)⟩
  | succ n ih =>
    obtain ⟨hle, hunused⟩ := ih (by omega)
    have hget := List.getElem?_eq_getElem (by omega : n < chunks.length)
    rw [trimmedChunks, hget]
    dsimp only
    split
    · next hzero =>
      refine ⟨by omega, fun k c hc htrim hk => ?_⟩
      by_cases hlast : k = n
      · rw [hlast, hget] at hc
        rw [← Option.some_inj.mp hc]
        exact hzero
      · exact hunused k c hc htrim (by omega)
    · exact ⟨Nat.le_refl _, fun k c _ htrim hk => absurd hk (by omega)⟩

def BlockRefTableEntry.fileChunks (entry : BlockRefTableEntry) : List Chunk :=
  entry.chunks.take (trimmedChunks entry.chunks entry.nchunks)

def chunkLengths (chunks : List Chunk) : Bytes := u16s (chunks.map fun c => UInt16.ofNat c.usage)

def chunkWords (chunks : List Chunk) : Bytes := chunks.flatMap fun c => u16s c.entries

def entryBytes (entry : BlockRefTableEntry) : Bytes :=
  serializedEntry.bytes (serialize entry) ++ (chunkLengths entry.fileChunks ++ chunkWords entry.fileChunks)

theorem entries_of_unused {c : Chunk} (h : c.usage = 0) : u16s c.entries = [] := by
  rw [Chunk.entries, h]
  rfl

theorem writeChunks_eq {chunks : List Chunk} (hchunks : ∀ c ∈ chunks, c.usage ≤ c.size) (b : WriteBuffer) :
    ∃ b', writeChunks b chunks = some b' ∧ Wrote b (chunkWords chunks) b' := by
  induction chunks generalizing b with
  | nil => exact ⟨b, rfl, wrote_nothing b⟩
  | cons c chunks ih =>
    have hrest := ih fun c' hc' => hchunks c' (List.mem_cons_of_mem _ hc')
    rw [writeChunks, chunkWords, List.flatMap_cons]
    by_cases hzero : c.usage = 0
    · rw [if_pos hzero, entries_of_unused hzero]
      exact hrest b
    · have hbytes : chunkBytes c = some (u16s c.entries) := if_pos (hchunks c List.mem_cons_self)
      rw [if_neg hzero, hbytes, Option.bind_eq_bind, Option.bind_some]
      obtain ⟨b', heq, hwrote⟩ := hrest (blockRefTableWrite b (u16s c.entries))
      exact ⟨b', heq, (wrote_write b _).trans hwrote⟩

theorem chunkWords_fileChunks (entry : BlockRefTableEntry) : chunkWords entry.chunks = chunkWords entry.fileChunks := by
  obtain ⟨_, hunused⟩ := trimmedChunks_spec entry.nchunks (Nat.le_refl entry.chunks.length)
  have hnone : chunkWords (entry.chunks.drop (trimmedChunks entry.chunks entry.nchunks)) = [] := by
    apply List.flatMap_eq_nil_iff.mpr
    intro c hc
    obtain ⟨k, hk, hget⟩ := List.getElem_of_mem hc
    have hc' := List.getElem?_eq_some_iff.mpr ⟨hk, hget⟩
    rw [List.getElem?_drop] at hc'
    rw [List.length_drop] at hk
    have hlen : entry.nchunks = entry.chunks.length := rfl
    exact entries_of_unused (hunused _ c hc' (by omega) (by omega))
  calc chunkWords entry.chunks
      = chunkWords (entry.fileChunks ++ entry.chunks.drop (trimmedChunks entry.chunks entry.nchunks)) := by
        rw [BlockRefTableEntry.fileChunks, List.take_append_drop]
    _ = chunkWords entry.fileChunks := by
        rw [chunkWords, List.flatMap_append, ← chunkWords, ← chunkWords, hnone, List.append_nil]

structure Writable (entry : BlockRefTableEntry) : Prop where
  count : entry.nchunks ≤ maxChunks
  inside : ∀ c ∈ entry.chunks, c.usage ≤ c.size

theorem EntryHolds.writable {entry : BlockRefTableEntry} {f : Fork} (h : EntryHolds entry f) : Writable entry := by
  refine ⟨h.count.le, fun c hc => ?_⟩
  obtain ⟨k, hk, hget⟩ := List.getElem_of_mem hc
  rcases h.chunk k c (List.getElem?_eq_some_iff.mpr ⟨hk, hget⟩) with hbitmap | harray
  · rw [hbitmap.usage, hbitmap.size]
  · exact harray.le

theorem toNat_nchunks {entry : BlockRefTableEntry} (h : Writable entry) :
    (serialize entry).nchunks.toNat = trimmedChunks entry.chunks entry.nchunks := by
  have hmax : maxChunks = 65536 := rfl
  have hcount := h.count
  obtain ⟨hle, _⟩ := trimmedChunks_spec entry.nchunks (Nat.le_refl entry.chunks.length)
  rw [serialize, UInt32.toNat_ofNat']
  exact Nat.mod_eq_of_lt (by omega)

theorem writeEntryChunks_eq {entry : BlockRefTableEntry} (h : Writable entry) (b : WriteBuffer) :
    ∃ b', writeEntryChunks b (serialize entry).nchunks.toNat entry = some b' ∧
      Wrote b (chunkLengths entry.fileChunks ++ chunkWords entry.fileChunks) b' := by
  rw [writeEntryChunks, toNat_nchunks h, ← chunkWords_fileChunks]
  by_cases hnone : trimmedChunks entry.chunks entry.nchunks = 0
  · have hlengths : chunkLengths entry.fileChunks = [] := by
      rw [BlockRefTableEntry.fileChunks, hnone]
      rfl
    rw [if_neg (not_not.mpr hnone), hlengths]
    exact writeChunks_eq h.inside b
  · rw [if_pos hnone]
    obtain ⟨b', heq, hwrote⟩ := writeChunks_eq h.inside (blockRefTableWrite b (chunkLengths entry.fileChunks))
    exact ⟨b', heq, (wrote_write b _).trans hwrote⟩

theorem writeEntry_eq {entry : BlockRefTableEntry} (h : Writable entry) (b : WriteBuffer) :
    ∃ b', blockRefTableWriteEntry b entry = some b' ∧ Wrote b (entryBytes entry) b' := by
  obtain ⟨b', heq, hwrote⟩ := writeEntryChunks_eq h (blockRefTableWrite b (serializedEntry.bytes (serialize entry)))
  exact ⟨b', heq, (wrote_write b _).trans hwrote⟩

def fileBody (entries : List BlockRefTableEntry) : Bytes :=
  CLayout.u32.bytes blockRefTableMagic ++ (entries.flatMap entryBytes ++ zentry)

def fileImage (entries : List BlockRefTableEntry) : Bytes :=
  fileBody entries ++ CLayout.u32.bytes (finCrc32c (compCrc32c initCrc32c (fileBody entries)))

theorem fileTerminate_eq {b : WriteBuffer} {bytes : Bytes} (h : Wrote WriteBuffer.init bytes b) :
    blockRefTableFileTerminate b =
      bytes ++ zentry ++ CLayout.u32.bytes (finCrc32c (compCrc32c initCrc32c (bytes ++ zentry))) := by
  have hzentry := h.trans (wrote_write b zentry)
  have hcrc := hzentry.trans (wrote_write _ (CLayout.u32.bytes (finCrc32c (blockRefTableWrite b zentry).crc)))
  have hwritten := hcrc.written
  rw [hzentry.crc] at hwritten
  rw [blockRefTableFileTerminate, hzentry.crc]
  exact hwritten

theorem wrote_createWriter : Wrote WriteBuffer.init (CLayout.u32.bytes blockRefTableMagic) createBlockRefTableWriter :=
  wrote_write _ _

theorem fileTerminate_entries {b : WriteBuffer} {entries : List BlockRefTableEntry}
    (h : Wrote createBlockRefTableWriter (entries.flatMap entryBytes) b) :
    blockRefTableFileTerminate b = fileImage entries := by
  rw [fileTerminate_eq (wrote_createWriter.trans h), fileImage, fileBody, List.append_assoc (CLayout.u32.bytes _)]

theorem writeEntries_eq {entries : List BlockRefTableEntry} (h : ∀ entry ∈ entries, Writable entry) (b : WriteBuffer) :
    ∃ b', writeEntries b entries = some b' ∧ Wrote b (entries.flatMap entryBytes) b' := by
  induction entries generalizing b with
  | nil => exact ⟨b, rfl, wrote_nothing b⟩
  | cons entry entries ih =>
    obtain ⟨b₁, heq₁, hwrote₁⟩ := writeEntry_eq (h entry List.mem_cons_self) b
    obtain ⟨b₂, heq₂, hwrote₂⟩ := ih (fun entry' hentry' => h entry' (List.mem_cons_of_mem _ hentry')) b₁
    refine ⟨b₂, ?_, ?_⟩
    · rw [writeEntries, heq₁, Option.bind_eq_bind, Option.bind_some]
      exact heq₂
    · rw [List.flatMap_cons]
      exact hwrote₁.trans hwrote₂

theorem writtenFile_eq {entries : List BlockRefTableEntry} (h : ∀ entry ∈ entries, Writable entry) :
    writtenFile entries = some (fileImage entries) := by
  obtain ⟨b, heq, hwrote⟩ := writeEntries_eq h createBlockRefTableWriter
  rw [writtenFile, heq, Option.map_some, fileTerminate_entries hwrote]

def keyRank (key : BlockRefTableKey) : Int :=
  ((key.rlocator.spcOid.toNat * 2 ^ 32 + key.rlocator.dbOid.toNat) * 2 ^ 32 + key.rlocator.relNumber.toNat) * 2 ^ 32 +
    (key.forknum.toInt + 2 ^ 31)

theorem comparator_eq (entry entry' : BlockRefTableEntry) :
    blockRefTableComparator (serialize entry) (serialize entry') = (keyRank entry.key - keyRank entry'.key).sign := by
  have hdb := entry.key.rlocator.dbOid.toNat_lt
  have hdb' := entry'.key.rlocator.dbOid.toNat_lt
  have hrel := entry.key.rlocator.relNumber.toNat_lt
  have hrel' := entry'.key.rlocator.relNumber.toNat_lt
  have hlo := entry.key.forknum.le_toInt
  have hhi := entry.key.forknum.toInt_lt
  have hlo' := entry'.key.forknum.le_toInt
  have hhi' := entry'.key.forknum.toInt_lt
  simp only [blockRefTableComparator, serialize, keyRank, gt_iff_lt, UInt32.lt_iff_toNat_lt, Int32.lt_iff_toInt_lt]
  split_ifs
  all_goals first
    | exact (Int.sign_eq_one_of_pos (by omega)).symm
    | exact (Int.sign_eq_neg_one_of_neg (by omega)).symm
    | exact (Int.sign_eq_zero_iff_zero.mpr (by omega)).symm

theorem comparator_iff (entry entry' : BlockRefTableEntry) :
    blockRefTableComparator (serialize entry) (serialize entry') ≤ 0 ↔ keyRank entry.key ≤ keyRank entry'.key := by
  rw [comparator_eq, Int.sign_nonpos_iff]
  omega

theorem comparator_lt_iff (entry entry' : BlockRefTableEntry) :
    blockRefTableComparator (serialize entry) (serialize entry') < 0 ↔ keyRank entry.key < keyRank entry'.key := by
  rw [comparator_eq, Int.sign_neg_iff]
  omega

theorem keyRank_inj {key key' : BlockRefTableKey} (h : keyRank key = keyRank key') : key = key' := by
  obtain ⟨⟨spcOid, dbOid, relNumber⟩, forknum⟩ := key
  obtain ⟨⟨spcOid', dbOid', relNumber'⟩, forknum'⟩ := key'
  have hdb := dbOid.toNat_lt
  have hdb' := dbOid'.toNat_lt
  have hrel := relNumber.toNat_lt
  have hrel' := relNumber'.toNat_lt
  have hlo := forknum.le_toInt
  have hhi := forknum.toInt_lt
  have hlo' := forknum'.le_toInt
  have hhi' := forknum'.toInt_lt
  simp only [keyRank] at h
  congr 2
  · exact UInt32.toNat_inj.mp (by omega)
  · exact UInt32.toNat_inj.mp (by omega)
  · exact UInt32.toNat_inj.mp (by omega)
  · exact Int32.toInt_inj.mp (by omega)

def entryLE (entry entry' : BlockRefTableEntry) : Bool :=
  blockRefTableComparator (serialize entry) (serialize entry') ≤ 0

theorem entryLE_iff {entry entry' : BlockRefTableEntry} : entryLE entry entry' = true ↔ keyRank entry.key ≤ keyRank entry'.key := by
  rw [entryLE, decide_eq_true_iff]
  exact comparator_iff entry entry'

theorem pairwise_sorted (entries : List BlockRefTableEntry) :
    (entries.mergeSort entryLE).Pairwise fun entry entry' => entryLE entry entry' = true := by
  apply List.pairwise_mergeSort
  · intro a b c hab hbc
    rw [entryLE_iff] at hab hbc ⊢
    exact hab.trans hbc
  · intro a b
    rw [Bool.or_eq_true, entryLE_iff, entryLE_iff]
    exact le_total _ _

theorem writeSorted_eq {brtab entries : List BlockRefTableEntry} (hnodup : (brtab.map BlockRefTableEntry.key).Nodup)
    (hmem : ∀ entry ∈ entries, entry ∈ brtab) (b : WriteBuffer) :
    writeSorted brtab b (entries.map serialize) = writeEntries b entries := by
  induction entries generalizing b with
  | nil => rfl
  | cons entry entries ih =>
    have hlookup : BlockRefTable.lookup brtab ⟨(serialize entry).rlocator, (serialize entry).forknum⟩ = some entry :=
      lookup_of_mem hnodup (hmem entry List.mem_cons_self)
    rw [List.map_cons, writeSorted, hlookup, writeEntries, blockRefTableWriteEntry]
    dsimp only
    congr 1
    apply funext
    intro b'
    exact ih (fun entry' hentry' => hmem entry' (List.mem_cons_of_mem _ hentry')) b'

theorem writeBlockRefTable_eq {brtab iterated : List BlockRefTableEntry} (hnodup : (brtab.map BlockRefTableEntry.key).Nodup)
    (hwritable : ∀ entry ∈ brtab, Writable entry) (hperm : iterated.Perm brtab) :
    writeBlockRefTable brtab iterated = some (fileImage (iterated.mergeSort entryLE)) := by
  have hsorted : (iterated.mergeSort entryLE).Perm brtab := (List.mergeSort_perm _ _).trans hperm
  have hmap : (iterated.mergeSort entryLE).map serialize =
      (iterated.map serialize).mergeSort fun sa sb => blockRefTableComparator sa sb ≤ 0 := by
    apply List.map_mergeSort
    intro entry _ entry' _
    rfl
  have hmem : ∀ entry ∈ iterated.mergeSort entryLE, entry ∈ brtab := fun _ => hsorted.mem_iff.mp
  rw [writeBlockRefTable, ← hmap, writeSorted_eq hnodup hmem]
  exact writtenFile_eq fun entry hentry => hwritable entry (hmem entry hentry)

end CdcKafka.BlockRef
