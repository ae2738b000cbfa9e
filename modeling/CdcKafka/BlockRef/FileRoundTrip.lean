import CdcKafka.BlockRef.FileImage
import CdcKafka.BlockRef.FileReader
import CdcKafka.BlockRef.RangeQuery

/-! What a reader gets out of the file that was written of a block reference table. -/

namespace CdcKafka.BlockRef

open CdcKafka.Lib CdcKafka.Xlog

variable {build : Build} {splits : Nat → Nat} {file rest : Bytes}

structure At (file : Bytes) (b : ReadBuffer) (rest : Bytes) : Prop where
  unread : b.unread = rest
  crc : ∃ before, file = before ++ rest ∧ b.crc = compCrc32c initCrc32c before

theorem at_init : At file (ReadBuffer.init file) file := ⟨rfl, [], rfl, rfl⟩

theorem Advanced.at {b b' : ReadBuffer} {bytes : Bytes} {n : Nat} (hat : At file b (bytes ++ rest)) (hn : bytes.length = n)
    (h : Advanced b n b') : At file b' rest := by
  obtain ⟨before, hfile, hcrc⟩ := hat.crc
  refine ⟨?_, before ++ bytes, ?_, ?_⟩
  · rw [h.unread, hat.unread, List.drop_left' hn]
  · rw [hfile, List.append_assoc]
  · rw [h.crc, hat.unread, List.take_left' hn, hcrc, compCrc32c_append]

theorem read_at {b : ReadBuffer} {bytes : Bytes} {n capacity : Nat} (hat : At file b (bytes ++ rest)) (hn : bytes.length = n)
    (hcapacity : n ≤ capacity) :
    ∃ b', At file b' rest ∧ blockRefTableRead splits capacity n [] b = .ok (bytes, b') := by
  obtain ⟨b', hadv, heq⟩ := @read_ok splits capacity n b hcapacity (by rw [hat.unread, List.length_append]; omega)
  refine ⟨b', hadv.at hat hn, ?_⟩
  rw [heq, hat.unread, List.take_left' hn]

theorem length_u16s (words : List UInt16) : (u16s words).length = 2 * words.length := by
  rw [u16s, CLayout.length_flatMap_bytes, Nat.mul_comm]
  rfl

theorem take_drop_u16s {words : List UInt16} {i : Nat} {w : UInt16} (h : words[i]? = some w) :
    ((u16s words).drop (2 * i)).take 2 = CLayout.u16.bytes w := by
  induction words generalizing i with
  | nil => exact absurd h.symm (Option.some_ne_none w)
  | cons w' words ih =>
    have hfirst : (CLayout.u16.bytes w').length = 2 := CLayout.u16.length_bytes w'
    rw [u16s, List.flatMap_cons]
    cases i with
    | zero => rw [Nat.mul_zero, List.drop_zero, List.take_left' hfirst, Option.some_inj.mp h]
    | succ i =>
      rw [Nat.mul_succ, Nat.add_comm, ← List.drop_drop, List.drop_left' hfirst]
      exact ih h

theorem wordsOver_u16s {words : List UInt16} {i : Nat} {w : UInt16} (h : words[i]? = some w) (old : Nat → UInt16) :
    wordsOver (u16s words) old i = w := by
  obtain ⟨hi, _⟩ := List.getElem?_eq_some_iff.mp h
  rw [wordsOver, if_pos (by rw [length_u16s]; omega), take_drop_u16s h, CLayout.ofBytes_bytes]

theorem wordsOver_entries {c : Chunk} {i : Nat} (h : i < c.usage) (old : Nat → UInt16) :
    wordsOver (u16s c.entries) old i = c.data i := by
  apply wordsOver_u16s
  rw [Chunk.entries, List.getElem?_map, List.getElem?_range' h, Option.map_some]
  congr 2
  omega

def chunksBlocks : Nat → List Chunk → List BlockNumber
  | _, [] => []
  | chunkno, c :: chunks => chunkRest c.data c.usage chunkno 0 ++ chunksBlocks (chunkno + 1) chunks

theorem chunkRest_congr {data data' : Nat → UInt16} {size : Nat} (h : ∀ i < size, data i = data' i) (chunkno : Nat) :
    chunkRest data size chunkno 0 = chunkRest data' size chunkno 0 := by
  rw [chunkRest, chunkRest]
  split
  · next hbitmap =>
    have hmax : maxEntriesPerChunk = 4096 := by decide
    have hper : blocksPerChunk = 65536 := rfl
    rw [bitsFound, bitsFound]
    congr 1
    apply List.filter_congr
    intro i hi
    rw [List.mem_range'_1] at hi
    rw [hasBit, hasBit, h (i / 16) (by omega)]
  · rw [offsetsFound, offsetsFound]
    apply List.map_congr_left
    intro i hi
    rw [List.mem_range'_1] at hi
    rw [h i (by omega)]

structure Draining (file : Bytes) (r : BlockRefTableReader) (chunks : List Chunk) (rest : Bytes) : Prop where
  total : r.totalChunks = r.consumedChunks + chunks.length
  sizes : ∀ i c, chunks[i]? = some c → (r.chunkSize (r.consumedChunks + i)).toNat = c.usage
  fits : ∀ c ∈ chunks, c.usage ≤ maxEntriesPerChunk
  at_chunks : At file r.buffer (chunkWords chunks ++ rest)

def BlockRefTableReader.todo (r : BlockRefTableReader) (chunks : List Chunk) : List BlockNumber :=
  r.current ++ chunksBlocks r.consumedChunks chunks

theorem length_entries (c : Chunk) : c.entries.length = c.usage := by
  rw [Chunk.entries, List.length_map, List.length_range']

theorem Draining.readChunk {r : BlockRefTableReader} {c : Chunk} {chunks : List Chunk}
    (h : Draining file r (c :: chunks) rest) :
    ∃ r', readChunk splits r = .ok r' ∧ Draining file r' chunks rest ∧
      r'.todo chunks = chunksBlocks r.consumedChunks (c :: chunks) := by
  have hsize : (r.chunkSize r.consumedChunks).toNat = c.usage := h.sizes 0 c rfl
  have hfits := h.fits c List.mem_cons_self
  have hchunks := h.at_chunks
  rw [chunkWords, List.flatMap_cons, List.append_assoc] at hchunks
  have hlen : (u16s c.entries).length = 2 * c.usage := by rw [length_u16s, length_entries]
  rcases @readChunk_cases splits r with ⟨hover, _⟩ | ⟨hends, _⟩ | ⟨_, _, buffer, hadv, heq⟩
  · omega
  · rw [hsize, hchunks.unread, List.length_append, hlen] at hends
    omega
  · rw [hsize] at hadv heq
    have htake : r.buffer.unread.take (2 * c.usage) = u16s c.entries := by
      rw [hchunks.unread, List.take_left' hlen]
    rw [htake] at heq
    refine ⟨_, heq, ⟨?_, fun i c' hc' => ?_, fun c' hc' => h.fits c' (List.mem_cons_of_mem _ hc'), hadv.at hchunks hlen⟩, ?_⟩
    · have htotal := h.total
      rw [List.length_cons] at htotal
      dsimp only
      omega
    · have hsizes := h.sizes (i + 1) c' hc'
      rw [← Nat.add_assoc, Nat.add_right_comm] at hsizes
      exact hsizes
    · rw [BlockRefTableReader.todo, chunksBlocks, BlockRefTableReader.current]
      dsimp only
      rw [if_neg (Nat.succ_ne_zero _), Nat.add_sub_cancel, hsize]
      congr 1
      exact chunkRest_congr (fun i hi => wordsOver_entries hi _) _

theorem getBlocksLoop_drains (nblocks : Nat) {r : BlockRefTableReader} {chunks : List Chunk}
    (h : Draining file r chunks rest) (blocks : List BlockNumber) :
    ∃ r' chunks', getBlocksLoop splits nblocks chunks.length r blocks =
        .ok (blocks ++ (r.todo chunks).take (nblocks - blocks.length), r') ∧
      Draining file r' chunks' rest ∧ r'.todo chunks' = (r.todo chunks).drop (nblocks - blocks.length) ∧
      (blocks.length + (r.todo chunks).length < nblocks → chunks' = []) := by
  induction chunks generalizing r blocks with
  | nil =>
    obtain ⟨position, hscan, hcurrent⟩ := scanChunk_eq nblocks r blocks
    have htodo : r.todo [] = r.current := List.append_nil _
    refine ⟨{ r with chunkPosition := position }, [], ?_, ⟨h.total, h.sizes, h.fits, h.at_chunks⟩, ?_, fun _ => rfl⟩
    · rw [List.length_nil, getBlocksLoop, hscan, ok_bind, htodo]
      dsimp only
      split <;> rfl
    · rw [htodo, ← hcurrent]
      exact List.append_nil _
  | cons c chunks ih =>
    obtain ⟨position, hscan, hcurrent⟩ := scanChunk_eq nblocks r blocks
    have hscanned : Draining file { r with chunkPosition := position } (c :: chunks) rest :=
      ⟨h.total, h.sizes, h.fits, h.at_chunks⟩
    rw [List.length_cons, getBlocksLoop, hscan, ok_bind, BlockRefTableReader.todo]
    dsimp only
    rw [List.length_append, List.length_take]
    by_cases hfull : nblocks ≤ blocks.length + min (nblocks - blocks.length) r.current.length
    · have hroom : nblocks - blocks.length ≤ r.current.length := by omega
      refine ⟨{ r with chunkPosition := position }, c :: chunks, ?_, hscanned, ?_, fun hmore => ?_⟩
      · rw [if_pos hfull, List.take_append_of_le_length hroom]
      · rw [BlockRefTableReader.todo, hcurrent, List.drop_append_of_le_length hroom]
      · rw [List.length_append] at hmore
        omega
    · have hroom : r.current.length ≤ nblocks - blocks.length := by omega
      obtain ⟨r₁, hread, hdraining, htodo⟩ := @Draining.readChunk splits _ _ _ _ _ hscanned
      obtain ⟨r', chunks', heq, hdraining', htodo', hend⟩ := ih hdraining (blocks ++ r.current)
      have hless : nblocks - (blocks ++ r.current).length = nblocks - blocks.length - r.current.length := by
        rw [List.length_append]
        omega
      rw [hless, htodo] at heq htodo'
      rw [htodo, List.length_append] at hend
      refine ⟨r', chunks', ?_, hdraining', ?_, fun hmore => hend ?_⟩
      · rw [if_neg hfull, hread, ok_bind, List.take_of_length_le hroom, heq, List.take_append, List.take_of_length_le hroom,
          List.append_assoc]
      · rw [htodo', List.drop_append, List.drop_eq_nil_of_le hroom, List.nil_append]
      · rw [List.length_append] at hmore
        exact (Nat.add_assoc _ _ _).trans_lt hmore

theorem getBlocks_drains (nblocks : Nat) {r : BlockRefTableReader} {chunks : List Chunk} (h : Draining file r chunks rest) :
    ∃ r' chunks', blockRefTableReaderGetBlocks splits r nblocks = .ok ((r.todo chunks).take nblocks, r') ∧
      Draining file r' chunks' rest ∧ r'.todo chunks' = (r.todo chunks).drop nblocks ∧
      ((r.todo chunks).length < nblocks → chunks' = []) := by
  have hleft : r.totalChunks - r.consumedChunks = chunks.length := by
    have htotal := h.total
    omega
  obtain ⟨r', chunks', heq, hdraining, htodo, hend⟩ := @getBlocksLoop_drains splits _ _ nblocks _ _ h []
  rw [List.length_nil, Nat.sub_zero] at heq htodo
  rw [List.length_nil, Nat.zero_add] at hend
  exact ⟨r', chunks', by rw [blockRefTableReaderGetBlocks, hleft, heq, List.nil_append], hdraining, htodo, hend⟩

theorem bmod_eq_self {n m : Nat} (h : 2 * n < m) : (n : Int).bmod m = n := by
  have hmod : (n : Int) % (m : Int) = n := Int.emod_eq_of_lt (Int.natCast_nonneg n) (by omega)
  rw [Int.bmod_def, hmod, if_pos (by omega)]

theorem intLength_eq {size : Nat} (h : size < 2 ^ 31) : intLength size = size := by
  have hsize : 2 * size < 2 ^ 32 := by omega
  exact (congrArg Int.toNat (bmod_eq_self hsize)).trans (Int.toNat_natCast size)

theorem serialize_ne_zentry {entry : BlockRefTableEntry} (h : entry.key.rlocator.spcOid ≠ 0) :
    serializedEntry.bytes (serialize entry) ≠ zentry := by
  intro heq
  have hback := congrArg serializedEntry.ofBytes heq
  rw [serializedEntry.ofBytes_bytes] at hback
  apply h
  have hzero : (serializedEntry.ofBytes zentry).rlocator.spcOid = 0 := by decide
  exact (congrArg (fun s => s.rlocator.spcOid) hback).trans hzero

theorem nextRelation_entry (junk : Nat → UInt16) {r : BlockRefTableReader} {entry : BlockRefTableEntry}
    (hspc : entry.key.rlocator.spcOid ≠ 0) (hwritable : Writable entry)
    (hfits : ∀ c ∈ entry.chunks, c.usage ≤ maxEntriesPerChunk) (hat : At file r.buffer (entryBytes entry ++ rest)) :
    ∃ r', blockRefTableReaderNextRelation build splits junk r = .ok (some (entry.key, entry.limitBlock), r') ∧
      Draining file r' entry.fileChunks rest ∧ r'.todo entry.fileChunks = chunksBlocks 0 entry.fileChunks := by
  obtain ⟨m, hm⟩ : ∃ m, m = trimmedChunks entry.chunks entry.nchunks := ⟨_, rfl⟩
  obtain ⟨hle, _⟩ := trimmedChunks_spec entry.nchunks (Nat.le_refl entry.chunks.length)
  have hmax : maxChunks = 65536 := rfl
  have hsmall := hwritable.count
  have hmem : ∀ c ∈ entry.fileChunks, c ∈ entry.chunks := fun _ => List.mem_of_mem_take
  have hcount : entry.fileChunks.length = m := by
    rw [BlockRefTableEntry.fileChunks, List.length_take, ← hm]
    have hlen : entry.nchunks = entry.chunks.length := rfl
    omega
  have hlengths : (chunkLengths entry.fileChunks).length = 2 * m := by
    rw [chunkLengths, length_u16s, List.length_map, hcount]
  have hpalloc : build.palloc (2 * m) = true := by
    cases build with
    | backend => exact decide_eq_true (by omega)
    | frontend => rfl
  rw [entryBytes, List.append_assoc, List.append_assoc] at hat
  obtain ⟨b₁, hat₁, hread₁⟩ := @read_at splits _ _ _ _ sizeOfSerializedEntry sizeOfSerializedEntry hat
    (serializedEntry.length_bytes _) (Nat.le_refl _)
  obtain ⟨b₂, hat₂, hread₂⟩ := @read_at splits _ _ _ _ (2 * m) (2 * m) hat₁ hlengths (Nat.le_refl _)
  have hnchunks : (serialize entry).nchunks.toNat = m := (toNat_nchunks hwritable).trans hm.symm
  have hkey : (⟨(serialize entry).rlocator, (serialize entry).forknum⟩ : BlockRefTableKey) = entry.key := rfl
  refine ⟨⟨b₂, m, 0, wordsOver (chunkLengths entry.fileChunks) junk, r.chunkData, r.chunkPosition⟩, ?_, ⟨?_, fun i c hc => ?_,
    fun c hc => hfits c (hmem c hc), hat₂⟩, ?_⟩
  · rw [blockRefTableReaderNextRelation, hread₁, ok_bind]
    dsimp only
    rw [if_neg (serialize_ne_zentry hspc), serializedEntry.ofBytes_bytes, hnchunks, readChunkSizes, if_pos hpalloc,
      intLength_eq (by omega), hread₂]
    dsimp only [Except.map]
    rw [hkey]
    rfl
  · exact (hcount.symm.trans (Nat.zero_add _).symm)
  · dsimp only
    have hword : (entry.fileChunks.map fun c => UInt16.ofNat c.usage)[0 + i]? = some (UInt16.ofNat c.usage) := by
      rw [Nat.zero_add, List.getElem?_map, hc, Option.map_some]
    have husage := hfits c (hmem c (List.mem_of_getElem? hc))
    have hper : maxEntriesPerChunk = 4096 := by decide
    rw [chunkLengths, wordsOver_u16s hword, UInt16.toNat_ofNat', Nat.mod_eq_of_lt (by omega)]
  · rfl

theorem nextRelation_end (junk : Nat → UInt16) {r : BlockRefTableReader} {body : Bytes} (hfile : file = body ++ rest)
    (hrest : rest = CLayout.u32.bytes (finCrc32c (compCrc32c initCrc32c body))) (hat : At file r.buffer (zentry ++ rest)) :
    ∃ r', blockRefTableReaderNextRelation build splits junk r = .ok (none, r') := by
  obtain ⟨b₁, hat₁, hread₁⟩ := @read_at splits _ _ _ _ sizeOfSerializedEntry sizeOfSerializedEntry hat
    List.length_replicate (Nat.le_refl _)
  obtain ⟨before, hbefore, hcrc⟩ := hat₁.crc
  have hbody : before = body := List.append_cancel_right (hbefore.symm.trans hfile)
  rw [← List.append_nil rest] at hat₁
  obtain ⟨b₂, _, hread₂⟩ := @read_at splits _ _ _ _ 4 4 hat₁ (by rw [hrest]; exact CLayout.u32.length_bytes _) (Nat.le_refl 4)
  refine ⟨{ r with buffer := b₂ }, ?_⟩
  rw [blockRefTableReaderNextRelation, hread₁, ok_bind]
  dsimp only
  rw [if_pos rfl, readChecksum, hread₂, ok_bind]
  dsimp only
  rw [hcrc, hbody, hrest, CLayout.u32.ofBytes_bytes, if_neg (not_not.mpr rfl)]
  rfl

theorem chunkRest_holds {c : Chunk} {P : UInt16 → Prop} (h : ChunkHolds c P) (chunkno : Nat) :
    (chunkRest c.data c.usage chunkno 0).Nodup ∧
      ∀ b, b ∈ chunkRest c.data c.usage chunkno 0 ↔ ∃ o, P o ∧ blockAt chunkno o = b := by
  have hall : ∀ o : UInt16, 0 ≤ o.toNat ∧ o.toNat < blocksPerChunk := fun o => ⟨Nat.zero_le _, o.toNat_lt⟩
  have hrest : ∃ found : List BlockNumber, found = chunkRest c.data c.usage chunkno 0 ∧ found.Nodup ∧ ∀ b, b ∈ found ↔
      ∃ o, P o ∧ (0 ≤ o.toNat ∧ o.toNat < blocksPerChunk) ∧ blockAt chunkno o = b := by
    rcases h with h | h
    · refine ⟨bitmapFound c chunkno blocksPerChunk 0, ?_, bitmapFound_holds h chunkno 0 blocksPerChunk⟩
      rw [chunkRest, if_pos h.usage, bitmapFound, Nat.min_self, bitsFound]
    · refine ⟨arrayFound c chunkno 0 blocksPerChunk c.usage 0, ?_, arrayFound_holds h chunkno 0 blocksPerChunk⟩
      have hkeep : (((List.range' 0 c.usage).map c.data).filter fun offset => 0 ≤ offset.toNat ∧ offset.toNat < blocksPerChunk) =
          (List.range' 0 c.usage).map c.data := List.filter_eq_self.mpr fun o _ => decide_eq_true (hall o)
      rw [chunkRest, if_neg h.usage_ne, arrayFound, hkeep, List.map_map, offsetsFound]
      rfl
  obtain ⟨found, hfound, hnodup, hmem⟩ := hrest
  rw [← hfound]
  refine ⟨hnodup, fun b => (hmem b).trans (exists_congr fun o => ?_)⟩
  rw [and_iff_right (hall o)]

theorem chunksBlocks_holds {blocks : Finset BlockNumber} {chunks : List Chunk} {chunkno : Nat}
    (hcount : chunkno + chunks.length ≤ maxChunks)
    (h : ∀ i c, chunks[i]? = some c → ChunkHolds c fun o => blockAt (chunkno + i) o ∈ blocks) :
    (chunksBlocks chunkno chunks).Nodup ∧ ∀ b, b ∈ chunksBlocks chunkno chunks ↔
      b ∈ blocks ∧ chunkno ≤ b.toNat / blocksPerChunk ∧ b.toNat / blocksPerChunk < chunkno + chunks.length := by
  induction chunks generalizing chunkno with
  | nil =>
    refine ⟨List.nodup_nil, fun b => iff_of_false List.not_mem_nil ?_⟩
    rintro ⟨_, hfrom, hto⟩
    rw [List.length_nil] at hto
    omega
  | cons c chunks ih =>
    rw [List.length_cons] at hcount
    obtain ⟨hnodup, hmem⟩ := chunkRest_holds (h 0 c rfl) chunkno
    have hrest : ∀ i c', chunks[i]? = some c' → ChunkHolds c' fun o => blockAt (chunkno + 1 + i) o ∈ blocks := by
      intro i c' hc'
      rw [Nat.add_right_comm]
      exact h (i + 1) c' hc'
    obtain ⟨hnodup', hmem'⟩ := ih (by omega) hrest
    have hfirst : ∀ b, b ∈ chunkRest c.data c.usage chunkno 0 ↔ b ∈ blocks ∧ b.toNat / blocksPerChunk = chunkno := by
      intro b
      rw [hmem b, Nat.add_zero]
      refine ⟨?_, ?_⟩
      · rintro ⟨o, hin, rfl⟩
        exact ⟨hin, ((blockAt_eq_iff (by omega)).mp rfl).1.symm⟩
      · rintro ⟨hin, hchunk⟩
        have hb := (@blockAt_eq_iff chunkno (by omega) (UInt16.ofNat (b.toNat % blocksPerChunk)) b).mpr ⟨hchunk.symm, rfl⟩
        exact ⟨_, hb.symm ▸ hin, hb⟩
    rw [chunksBlocks, List.length_cons]
    refine ⟨hnodup.append hnodup' fun b hb hb' => ?_, fun b => ?_⟩
    · have hchunk := ((hfirst b).mp hb).2
      have hbehind := ((hmem' b).mp hb').2.1
      omega
    · rw [List.mem_append, hfirst b, hmem' b, ← and_or_left]
      refine and_congr_right fun _ => ?_
      omega

theorem usage_ne_zero {c : Chunk} {P : UInt16 → Prop} (h : ChunkHolds c P) {o : UInt16} (ho : P o) : c.usage ≠ 0 := by
  rcases h with h | h
  · rw [h.usage]
    decide
  · intro hzero
    have hmem := (h.mem o).mp ho
    rw [Chunk.entries, hzero] at hmem
    exact List.not_mem_nil hmem

theorem fileChunks_blocks {entry : BlockRefTableEntry} {f : Fork} (h : EntryHolds entry f) :
    (chunksBlocks 0 entry.fileChunks).Nodup ∧ ∀ b, b ∈ chunksBlocks 0 entry.fileChunks ↔ b ∈ f.blocks := by
  obtain ⟨hle, hunused⟩ := trimmedChunks_spec entry.nchunks (Nat.le_refl entry.chunks.length)
  have hlen : entry.nchunks = entry.chunks.length := rfl
  have hcount := h.count.le
  have htaken : entry.fileChunks.length = trimmedChunks entry.chunks entry.nchunks := by
    rw [BlockRefTableEntry.fileChunks, List.length_take]
    omega
  have hchunks : ∀ i c, entry.fileChunks[i]? = some c → ChunkHolds c fun o => blockAt (0 + i) o ∈ f.blocks := by
    intro i c hc
    obtain ⟨hi, _⟩ := List.getElem?_eq_some_iff.mp hc
    rw [BlockRefTableEntry.fileChunks, List.getElem?_take_of_lt (htaken ▸ hi)] at hc
    rw [Nat.zero_add]
    exact h.chunk i c hc
  obtain ⟨hnodup, hmem⟩ := chunksBlocks_holds (by omega) hchunks
  refine ⟨hnodup, fun b => (hmem b).trans (and_iff_left_of_imp fun hb => ⟨Nat.zero_le _, ?_⟩)⟩
  have hin : b.toNat / blocksPerChunk < entry.chunks.length := h.inside b hb
  have hget := List.getElem?_eq_getElem hin
  have hblock := (blockAt_eq_iff (hin.trans_le hcount)).mpr ⟨rfl, rfl⟩
  have hused := usage_ne_zero (h.chunk _ _ hget) (hblock.symm ▸ hb)
  rw [htaken, Nat.zero_add]
  by_contra hbehind
  exact hused (hunused _ _ hget (by omega) (by omega))

structure ReadRelation where
  key : BlockRefTableKey
  limitBlock : BlockNumber
  blocks : List BlockNumber

section Read

variable (build splits) (junk : Nat → UInt16) (sizes : Nat → Nat)

/-- Calls `BlockRefTableReaderGetBlocks` until it returns 0, with room for as many blocks in each call as `sizes` says. -/
def drainRelation : Nat → Nat → BlockRefTableReader → List BlockNumber →
    Option (Except Stop (List BlockNumber × Nat × BlockRefTableReader))
  | 0, _, _, _ => none
  | fuel + 1, call, r, got =>
    match blockRefTableReaderGetBlocks splits r (sizes call) with
    | .error e => some (.error e)
    | .ok (blocks, r) =>
      if blocks.length = 0 then some (.ok (got, call + 1, r)) else drainRelation fuel (call + 1) r (got ++ blocks)

def readRelations : Nat → Nat → BlockRefTableReader → List ReadRelation → Option (Except Stop (List ReadRelation))
  | 0, _, _, _ => none
  | fuel + 1, call, r, relations =>
    match blockRefTableReaderNextRelation build splits junk r with
    | .error e => some (.error e)
    | .ok (none, _) => some (.ok relations)
    | .ok (some (key, limitBlock), r) =>
      match drainRelation splits sizes fuel call r [] with
      | none => none
      | some (.error e) => some (.error e)
      | some (.ok (blocks, call, r)) => readRelations fuel call r (relations ++ [⟨key, limitBlock, blocks⟩])

def readFile (fuel : Nat) (file : Bytes) : Option (Except Stop (List ReadRelation)) :=
  match createBlockRefTableReader splits file with
  | .error e => some (.error e)
  | .ok r => readRelations build splits junk sizes fuel 0 r []

end Read

variable {junk : Nat → UInt16} {sizes : Nat → Nat}

theorem drainRelation_eq (hsizes : ∀ i, 0 < sizes i) {r : BlockRefTableReader} {chunks : List Chunk}
    (h : Draining file r chunks rest) (call : Nat) (got : List BlockNumber) :
    ∃ call' r', At file r'.buffer rest ∧ ∀ fuel, (r.todo chunks).length < fuel →
      drainRelation splits sizes fuel call r got = some (.ok (got ++ r.todo chunks, call', r')) := by
  induction hn : (r.todo chunks).length using Nat.strong_induction_on generalizing r chunks call got with
  | h n ih =>
    obtain ⟨r₁, chunks₁, heq, hdraining, htodo, hend⟩ := @getBlocks_drains splits _ _ (sizes call) _ _ h
    have hpos := hsizes call
    by_cases hdone : r.todo chunks = []
    · rw [hdone, List.length_nil] at hend
      have hat := hdraining.at_chunks
      rw [hend hpos] at hat
      refine ⟨call + 1, r₁, hat, fun fuel hfuel => ?_⟩
      obtain ⟨fuel, rfl⟩ := Nat.exists_eq_add_of_lt hfuel
      rw [drainRelation, heq]
      dsimp only
      rw [hdone, List.take_nil, if_pos List.length_nil, List.append_nil]
    · have hlen : (r.todo chunks).length ≠ 0 := fun hzero => hdone (List.length_eq_zero_iff.mp hzero)
      have hless : (r₁.todo chunks₁).length < n := by
        rw [htodo, List.length_drop]
        omega
      obtain ⟨call', r', hat, hdrain⟩ := ih _ hless hdraining (call + 1) (got ++ (r.todo chunks).take (sizes call)) rfl
      refine ⟨call', r', hat, fun fuel hfuel => ?_⟩
      obtain ⟨fuel, rfl⟩ := Nat.exists_eq_add_of_lt hfuel
      rw [drainRelation, heq]
      dsimp only
      rw [if_neg (by rw [List.length_take]; omega), hdrain _ (by omega), htodo, List.append_assoc, List.take_append_drop]

def readRelation (entry : BlockRefTableEntry) : ReadRelation :=
  ⟨entry.key, entry.limitBlock, chunksBlocks 0 entry.fileChunks⟩

structure Readable (entry : BlockRefTableEntry) : Prop where
  spcOid : entry.key.rlocator.spcOid ≠ 0
  writable : Writable entry
  fits : ∀ c ∈ entry.chunks, c.usage ≤ maxEntriesPerChunk

theorem readRelations_eq (hsizes : ∀ i, 0 < sizes i) {entries : List BlockRefTableEntry}
    (hentries : ∀ entry ∈ entries, Readable entry) {body : Bytes} (hfile : file = body ++ rest)
    (hrest : rest = CLayout.u32.bytes (finCrc32c (compCrc32c initCrc32c body))) {r : BlockRefTableReader}
    (hat : At file r.buffer (entries.flatMap entryBytes ++ (zentry ++ rest))) (call : Nat) (relations : List ReadRelation) :
    ∃ fuel₀, ∀ fuel, fuel₀ ≤ fuel →
      readRelations build splits junk sizes fuel call r relations = some (.ok (relations ++ entries.map readRelation)) := by
  induction entries generalizing r call relations with
  | nil =>
    refine ⟨1, fun fuel hfuel => ?_⟩
    obtain ⟨r', heq⟩ := @nextRelation_end build splits _ _ junk _ _ hfile hrest hat
    obtain ⟨fuel, rfl⟩ := Nat.exists_eq_add_of_le' hfuel
    rw [readRelations, heq, List.map_nil, List.append_nil]
  | cons entry entries ih =>
    have hentry := hentries entry List.mem_cons_self
    rw [List.flatMap_cons, List.append_assoc] at hat
    obtain ⟨r₁, heq, hdraining, htodo⟩ := @nextRelation_entry build splits _ _ junk _ _ hentry.spcOid hentry.writable
      hentry.fits hat
    obtain ⟨call', r₂, hat₂, hdrain⟩ := @drainRelation_eq splits _ _ sizes hsizes _ _ hdraining call []
    obtain ⟨fuel₀, hrest₀⟩ := ih (fun entry' hentry' => hentries entry' (List.mem_cons_of_mem _ hentry')) hat₂ call'
      (relations ++ [readRelation entry])
    refine ⟨max fuel₀ ((r₁.todo entry.fileChunks).length + 1) + 1, fun fuel hfuel => ?_⟩
    obtain ⟨fuel, rfl⟩ := Nat.exists_eq_add_of_le' ((Nat.le_add_left 1 _).trans hfuel)
    rw [readRelations, heq]
    dsimp only
    rw [hdrain fuel (by omega), htodo]
    dsimp only
    have happend : relations ++ readRelation entry :: entries.map readRelation =
        relations ++ [readRelation entry] ++ entries.map readRelation := by
      rw [List.append_assoc, List.singleton_append]
    rw [List.nil_append, List.map_cons, happend]
    exact hrest₀ fuel (by omega)

theorem readFile_eq (hsizes : ∀ i, 0 < sizes i) {entries : List BlockRefTableEntry} (hentries : ∀ entry ∈ entries, Readable entry) :
    ∃ fuel, readFile build splits junk sizes fuel (fileImage entries) = some (.ok (entries.map readRelation)) := by
  obtain ⟨sum, hsum⟩ : ∃ sum, sum = CLayout.u32.bytes (finCrc32c (compCrc32c initCrc32c (fileBody entries))) := ⟨_, rfl⟩
  have hfile : fileImage entries = fileBody entries ++ sum := by rw [hsum, fileImage]
  have hat : At (fileImage entries) (ReadBuffer.init (fileImage entries))
      (CLayout.u32.bytes blockRefTableMagic ++ (entries.flatMap entryBytes ++ (zentry ++ sum))) := by
    have hsplit : fileImage entries =
        CLayout.u32.bytes blockRefTableMagic ++ (entries.flatMap entryBytes ++ (zentry ++ sum)) := by
      rw [hfile, fileBody, List.append_assoc, List.append_assoc]
    exact hsplit ▸ at_init
  obtain ⟨b, hat', hread⟩ := @read_at splits _ _ _ _ 4 4 hat (CLayout.u32.length_bytes _) (Nat.le_refl 4)
  obtain ⟨fuel, heq⟩ := @readRelations_eq build splits _ _ junk sizes hsizes entries hentries _ hfile hsum
    ⟨b, 0, 0, fun _ => 0, fun _ => 0, 0⟩ hat' 0 []
  refine ⟨fuel, ?_⟩
  rw [readFile, createBlockRefTableReader, hread, ok_bind]
  dsimp only
  rw [CLayout.u32.ofBytes_bytes, if_neg (not_not.mpr rfl)]
  exact heq fuel (Nat.le_refl fuel)

def keyBefore (key key' : BlockRefTableKey) : Prop :=
  blockRefTableComparator ⟨key.rlocator, key.forknum, 0, 0⟩ ⟨key'.rlocator, key'.forknum, 0, 0⟩ < 0

structure ReadsBack (ops : List TableOp) (relations : List ReadRelation) : Prop where
  sorted : relations.Pairwise fun relation relation' => keyBefore relation.key relation'.key
  keys : ∀ key, key ∈ relations.map ReadRelation.key ↔ ∃ op ∈ ops, op.key = key
  limit : ∀ relation ∈ relations, relation.limitBlock = (forkAfter ops relation.key).limit
  nodup : ∀ relation ∈ relations, relation.blocks.Nodup
  blocks : ∀ relation ∈ relations, relation.blocks.toFinset = (forkAfter ops relation.key).blocks

theorem readable_of_holds {entry : BlockRefTableEntry} {f : Fork} (h : EntryHolds entry f)
    (hspc : entry.key.rlocator.spcOid ≠ 0) : Readable entry := by
  refine ⟨hspc, h.writable, fun c hc => ?_⟩
  obtain ⟨k, hk, hget⟩ := List.getElem_of_mem hc
  rcases h.chunk k c (List.getElem?_eq_some_iff.mpr ⟨hk, hget⟩) with hbitmap | harray
  · exact hbitmap.usage.le
  · exact harray.lt.le

theorem readsBack_of_sorted {brtab entries : List BlockRefTableEntry} {ops : List TableOp} (h : TableHolds brtab ops)
    (hperm : entries.Perm brtab)
    (hsorted : entries.Pairwise fun entry entry' => blockRefTableComparator (serialize entry) (serialize entry') ≤ 0) :
    ReadsBack ops (entries.map readRelation) := by
  have hkeys : (entries.map readRelation).map ReadRelation.key = entries.map BlockRefTableEntry.key := by
    rw [List.map_map]
    rfl
  have hentry : ∀ entry ∈ entries, EntryHolds entry (forkAfter ops entry.key) :=
    fun entry hmem => h.entry entry (hperm.mem_iff.mp hmem)
  have hof : ∀ relation ∈ entries.map readRelation, ∃ entry ∈ entries, readRelation entry = relation :=
    fun _ => List.mem_map.mp
  refine ⟨?_, fun key => ?_, fun relation hrelation => ?_, fun relation hrelation => ?_, fun relation hrelation => ?_⟩
  · have hnodup : entries.Pairwise fun entry entry' => entry.key ≠ entry'.key :=
      List.pairwise_map.mp ((hperm.map BlockRefTableEntry.key).nodup_iff.mpr h.nodup)
    rw [List.pairwise_map]
    refine (hsorted.and hnodup).imp fun {entry entry'} hboth => ?_
    apply (comparator_lt_iff entry entry').mpr
    exact lt_of_le_of_ne ((comparator_iff entry entry').mp hboth.1) fun heq => hboth.2 (keyRank_inj heq)
  · rw [hkeys, (hperm.map BlockRefTableEntry.key).mem_iff]
    exact h.touched key
  · obtain ⟨entry, hmem, rfl⟩ := hof relation hrelation
    exact (hentry entry hmem).limit
  · obtain ⟨entry, hmem, rfl⟩ := hof relation hrelation
    exact (fileChunks_blocks (hentry entry hmem)).1
  · obtain ⟨entry, hmem, rfl⟩ := hof relation hrelation
    apply Finset.ext
    intro b
    rw [List.mem_toFinset]
    exact (fileChunks_blocks (hentry entry hmem)).2 b

variable (build splits junk sizes) in
/-- The file of a table, or of its entries in order, is read back with whatever sizes of calls and pieces. -/
theorem block_ref_file_round_trip (ops : List TableOp) (hspc : ∀ op ∈ ops, op.key.rlocator.spcOid ≠ 0)
    (hsizes : ∀ i, 0 < sizes i) :
    ∃ brtab, runOps [] ops = some brtab ∧ ∀ entries : List BlockRefTableEntry, entries.Perm brtab →
      (∃ file fuel relations, writeBlockRefTable brtab entries = some file ∧
        readFile build splits junk sizes fuel file = some (.ok relations) ∧ ReadsBack ops relations) ∧
      (entries.Pairwise (fun entry entry' => blockRefTableComparator (serialize entry) (serialize entry') ≤ 0) →
        ∃ file fuel relations, writtenFile entries = some file ∧
          readFile build splits junk sizes fuel file = some (.ok relations) ∧ ReadsBack ops relations) := by
  obtain ⟨brtab, hrun, h⟩ := runOps_holds ops
  have hreadable : ∀ entry ∈ brtab, Readable entry := by
    intro entry hmem
    obtain ⟨op, hop, hkey⟩ := (h.touched entry.key).mp (List.mem_map_of_mem hmem)
    exact readable_of_holds (h.entry entry hmem) (hkey ▸ hspc op hop)
  have hread : ∀ entries : List BlockRefTableEntry, entries.Perm brtab →
      ∃ fuel, readFile build splits junk sizes fuel (fileImage entries) = some (.ok (entries.map readRelation)) :=
    fun entries hperm => readFile_eq hsizes fun entry hmem => hreadable entry (hperm.mem_iff.mp hmem)
  refine ⟨brtab, hrun, fun entries hperm => ⟨?_, fun hsorted => ?_⟩⟩
  · have hperm' : (entries.mergeSort entryLE).Perm brtab := (List.mergeSort_perm _ _).trans hperm
    obtain ⟨fuel, hfile⟩ := hread _ hperm'
    refine ⟨_, fuel, _, writeBlockRefTable_eq h.nodup (fun entry hmem => (hreadable entry hmem).writable) hperm, hfile, ?_⟩
    exact readsBack_of_sorted h hperm' ((pairwise_sorted entries).imp fun hle => of_decide_eq_true hle)
  · obtain ⟨fuel, hfile⟩ := hread _ hperm
    refine ⟨_, fuel, _, writtenFile_eq fun entry hmem => (hreadable entry (hperm.mem_iff.mp hmem)).writable, hfile, ?_⟩
    exact readsBack_of_sorted h hperm hsorted

theorem block_ref_file_round_trip_two : ∃ brtab file fuel relations,
      runOps [] [.mark sampleKey 5 fun _ => 0, .setLimit ⟨⟨1664, 0, 1262⟩, 0⟩ 3] = some brtab ∧
      writeBlockRefTable brtab brtab = some file ∧
      readFile .backend (fun _ => 6) (fun _ => 0) (fun _ => 1) fuel file = some (.ok relations) ∧
      ReadsBack [.mark sampleKey 5 fun _ => 0, .setLimit ⟨⟨1664, 0, 1262⟩, 0⟩ 3] relations := by
  have hspc : ∀ op ∈ [TableOp.mark sampleKey 5 fun _ => 0, .setLimit ⟨⟨1664, 0, 1262⟩, 0⟩ 3],
      op.key.rlocator.spcOid ≠ 0 := by
    intro op hop
    rcases List.mem_cons.mp hop with rfl | hop
    · decide
    · rw [List.mem_singleton.mp hop]
      decide
  obtain ⟨brtab, hrun, hall⟩ :=
    block_ref_file_round_trip .backend (fun _ => 6) (fun _ => 0) (fun _ => 1) _ hspc fun _ => Nat.one_pos
  obtain ⟨⟨file, fuel, relations, hwrite, hread, hback⟩, _⟩ := hall brtab (List.Perm.refl brtab)
  exact ⟨brtab, file, fuel, relations, hrun, hwrite, hread, hback⟩

end CdcKafka.BlockRef
