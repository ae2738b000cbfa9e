import CdcKafka.BlockRef.Table
import Mathlib.Data.Finset.Card
import Mathlib.Data.List.Induction

/-! Which range queries a block reference table answers exactly. -/

namespace CdcKafka.BlockRef

open CdcKafka.Lib

variable {c : Chunk} {P : UInt16 → Prop} {n : Nat}

def deliver (n : Nat) (ok : Bool) : List BlockNumber → List BlockNumber → Option Got
  | [], blocks => if ok then some (false, blocks) else none
  | b :: found, blocks => putBlock n blocks b >>= fun got => got.unlessFull (deliver n ok found)

theorem deliver_append {ok : Bool} (found found' blocks : List BlockNumber) : deliver n ok (found ++ found') blocks =
      deliver n true found blocks >>= fun got => got.unlessFull (deliver n ok found') := by
  induction found generalizing blocks with
  | nil => rfl
  | cons b found ih =>
    rw [List.cons_append, deliver, deliver]
    cases hput : putBlock n blocks b with
    | none => rfl
    | some got =>
      obtain ⟨full, blocks'⟩ := got
      cases full with
      | true => rfl
      | false => exact ih blocks'

theorem deliver_last {ok : Bool} (found blocks : List BlockNumber) : deliver n ok found blocks =
      deliver n ok found blocks >>= fun got => got.unlessFull (deliver n true []) := by
  induction found generalizing blocks with
  | nil =>
    cases ok <;> rfl
  | cons b found ih =>
    rw [deliver]
    cases hput : putBlock n blocks b with
    | none => rfl
    | some got =>
      obtain ⟨full, blocks'⟩ := got
      cases full with
      | true => rfl
      | false => exact ih blocks'

theorem deliver_eq {ok : Bool} (found blocks : List BlockNumber) (hroom : blocks.length < n) :
    deliver n ok found blocks =
      if n ≤ blocks.length + found.length then some (true, blocks ++ found.take (n - blocks.length))
      else if ok then some (false, blocks ++ found) else none := by
  induction found generalizing blocks with
  | nil =>
    rw [deliver, List.length_nil, if_neg (by omega : ¬n ≤ blocks.length + 0), List.append_nil]
  | cons b found ih =>
    have hput : putBlock n blocks b = some (decide (blocks.length + 1 = n), blocks ++ [b]) := if_pos hroom
    have hlen : (blocks ++ [b]).length = blocks.length + 1 := List.length_append
    rw [deliver, hput, Option.bind_eq_bind, Option.bind_some, List.length_cons, Got.unlessFull]
    by_cases hfull : blocks.length + 1 = n
    · have hone : n - blocks.length = 1 := by omega
      rw [if_pos (decide_eq_true hfull), if_pos (by omega), decide_eq_true hfull, hone]
      rfl
    · have hmore : n - blocks.length = n - (blocks.length + 1) + 1 := by omega
      rw [if_neg (by rw [decide_eq_true_iff]; exact hfull), ih _ (by dsimp only; omega), hlen, hmore, List.take_succ_cons]
      rw [List.append_assoc, List.append_assoc, List.singleton_append, List.singleton_append]
      have hiff : n ≤ blocks.length + 1 + found.length ↔ n ≤ blocks.length + (found.length + 1) := by omega
      rw [if_congr hiff rfl rfl]

def bitmapFound (c : Chunk) (chunkno stopOffset i : Nat) : List BlockNumber :=
  ((List.range' i (min stopOffset blocksPerChunk - i)).filter (hasBit c.data)).map fun i =>
    UInt32.ofNat (chunkno * blocksPerChunk + i)

def arrayFound (c : Chunk) (chunkno startOffset stopOffset left i : Nat) : List BlockNumber :=
  (((List.range' i left).map c.data).filter fun offset => startOffset ≤ offset.toNat ∧ offset.toNat < stopOffset).map
    fun offset => UInt32.ofNat (chunkno * blocksPerChunk + offset.toNat)

theorem bitmapBlocks_eq (hsize : c.size = maxEntriesPerChunk) (chunkno stopOffset i : Nat) (hi : i ≤ blocksPerChunk)
    (blocks : List BlockNumber) :
    bitmapBlocks c chunkno n stopOffset i blocks =
      deliver n (stopOffset ≤ blocksPerChunk) (bitmapFound c chunkno stopOffset i) blocks := by
  have hper : blocksPerChunk = 65536 := rfl
  have hmax : maxEntriesPerChunk = 4096 := by decide
  induction hn : blocksPerChunk - i generalizing i blocks with
  | zero =>
    have hnone : bitmapFound c chunkno stopOffset i = [] := by
      rw [bitmapFound, (by omega : min stopOffset blocksPerChunk - i = 0)]
      rfl
    rw [bitmapBlocks, hnone, deliver]
    by_cases hstop : i < stopOffset
    · have hget : c.get (i / blocksPerEntry) = none := by
        apply if_neg
        change ¬i / 16 < c.size
        omega
      rw [if_pos hstop, hget, if_neg (by rw [decide_eq_true_iff]; omega)]
      rfl
    · rw [if_neg hstop, if_pos (decide_eq_true (by omega))]
  | succ m ih =>
    rw [bitmapBlocks]
    by_cases hstop : i < stopOffset
    · have hget : c.get (i / blocksPerEntry) = some (c.data (i / blocksPerEntry)) := by
        apply if_pos
        change i / 16 < c.size
        omega
      have hfound : bitmapFound c chunkno stopOffset i =
          (if hasBit c.data i then [UInt32.ofNat (chunkno * blocksPerChunk + i)] else []) ++
            bitmapFound c chunkno stopOffset (i + 1) := by
        rw [bitmapFound, (by omega : min stopOffset blocksPerChunk - i = min stopOffset blocksPerChunk - (i + 1) + 1),
          List.range'_succ, List.filter_cons]
        split
        · rfl
        · rfl
      rw [if_pos hstop, hget, Option.bind_eq_bind, Option.bind_some, hfound]
      by_cases hbit : hasBit c.data i = true
      · have hword : c.data (i / blocksPerEntry) &&& wordBit (i % blocksPerEntry) ≠ 0 := of_decide_eq_true hbit
        rw [if_pos hbit, if_pos hword, List.singleton_append, deliver]
        congr 1
        apply funext
        intro got
        rw [Got.unlessFull, Got.unlessFull, ih (i + 1) (by omega) got.2 (by omega)]
      · have hword : ¬c.data (i / blocksPerEntry) &&& wordBit (i % blocksPerEntry) ≠ 0 := fun h => hbit (decide_eq_true h)
        rw [if_neg hbit, if_neg hword, List.nil_append]
        exact ih (i + 1) (by omega) blocks (by omega)
    · have hnone : bitmapFound c chunkno stopOffset i = [] := by
        rw [bitmapFound, (by omega : min stopOffset blocksPerChunk - i = 0)]
        rfl
      rw [if_neg hstop, hnone, deliver, if_pos (decide_eq_true (by omega))]

theorem arrayBlocks_eq (chunkno startOffset stopOffset left i : Nat) (hsize : i + left ≤ c.size) (blocks : List BlockNumber) :
    arrayBlocks c chunkno n startOffset stopOffset left i blocks =
      deliver n true (arrayFound c chunkno startOffset stopOffset left i) blocks := by
  induction left generalizing i blocks with
  | zero => rfl
  | succ left ih =>
    rw [arrayBlocks, get_eq (by omega), Option.bind_eq_bind, Option.bind_some, arrayFound, List.range'_succ, List.map_cons,
      List.filter_cons]
    by_cases hin : startOffset ≤ (c.data i).toNat ∧ (c.data i).toNat < stopOffset
    · rw [if_pos hin, if_pos (decide_eq_true hin), List.map_cons, deliver]
      congr 1
      apply funext
      intro got
      rw [Got.unlessFull, Got.unlessFull, ih (i + 1) (by omega) got.2, arrayFound]
    · rw [if_neg hin, if_neg (by rw [decide_eq_true_iff]; exact hin)]
      exact ih (i + 1) (by omega) blocks

theorem bitmapFound_holds (h : BitmapHolds c P) (chunkno startOffset stopOffset : Nat) :
    (bitmapFound c chunkno stopOffset startOffset).Nodup ∧ ∀ b, b ∈ bitmapFound c chunkno stopOffset startOffset ↔
      ∃ o, P o ∧ (startOffset ≤ o.toNat ∧ o.toNat < stopOffset) ∧ blockAt chunkno o = b := by
  have hper : blocksPerChunk = 65536 := rfl
  refine ⟨?_, fun b => ?_⟩
  · apply List.Nodup.map_on _ ((List.nodup_range' ..).filter _)
    intro i hi j hj heq
    have hi := List.mem_range'_1.mp (List.mem_filter.mp hi).1
    have hj := List.mem_range'_1.mp (List.mem_filter.mp hj).1
    rw [← UInt32.toNat_inj, UInt32.toNat_ofNat', UInt32.toNat_ofNat', hper] at heq
    omega
  · rw [bitmapFound, List.mem_map]
    refine ⟨?_, ?_⟩
    · rintro ⟨i, hi, rfl⟩
      obtain ⟨hrange, hbit⟩ := List.mem_filter.mp hi
      have hrange := List.mem_range'_1.mp hrange
      have hnat : (UInt16.ofNat i).toNat = i := by
        rw [UInt16.toNat_ofNat']
        omega
      refine ⟨UInt16.ofNat i, ?_, ?_, ?_⟩
      · rw [h.bits, hnat]
        exact hbit
      · omega
      · rw [blockAt, hnat]
    · rintro ⟨o, hP, hrange, rfl⟩
      have ho := o.toNat_lt
      refine ⟨o.toNat, List.mem_filter.mpr ⟨List.mem_range'_1.mpr ?_, (h.bits o).mp hP⟩, rfl⟩
      omega

theorem arrayFound_holds (h : ArrayHolds c P) (chunkno startOffset stopOffset : Nat) :
    (arrayFound c chunkno startOffset stopOffset c.usage 0).Nodup ∧
      ∀ b, b ∈ arrayFound c chunkno startOffset stopOffset c.usage 0 ↔
        ∃ o, P o ∧ (startOffset ≤ o.toNat ∧ o.toNat < stopOffset) ∧ blockAt chunkno o = b := by
  have hper : blocksPerChunk = 65536 := rfl
  refine ⟨?_, fun b => ?_⟩
  · apply List.Nodup.map_on _ (h.nodup.filter _)
    intro o _ o' _ heq
    have ho := o.toNat_lt
    have ho' := o'.toNat_lt
    rw [← UInt32.toNat_inj, UInt32.toNat_ofNat', UInt32.toNat_ofNat', hper] at heq
    rw [← UInt16.toNat_inj]
    omega
  · rw [arrayFound, List.mem_map]
    refine exists_congr fun o => ?_
    rw [List.mem_filter, decide_eq_true_iff, h.mem o, and_assoc]
    rfl

theorem chunkBlocks_eq (h : ChunkHolds c P) (chunkno : Nat) {startOffset : Nat} (hstart : startOffset ≤ blocksPerChunk)
    (stopOffset : Nat) :
    ∃ found : List BlockNumber, found.Nodup ∧
      (∀ b, b ∈ found ↔ ∃ o, P o ∧ (startOffset ≤ o.toNat ∧ o.toNat < stopOffset) ∧ blockAt chunkno o = b) ∧
      ∀ blocks, chunkBlocks c chunkno n startOffset stopOffset blocks =
        deliver n (c.usage ≠ maxEntriesPerChunk ∨ stopOffset ≤ blocksPerChunk) found blocks := by
  rcases h with h | h
  · obtain ⟨hnodup, hmem⟩ := bitmapFound_holds h chunkno startOffset stopOffset
    refine ⟨_, hnodup, hmem, fun blocks => ?_⟩
    rw [chunkBlocks, if_pos h.usage, bitmapBlocks_eq h.size chunkno stopOffset startOffset hstart]
    congr 1
    apply decide_eq_decide.mpr
    rw [or_iff_right (not_not.mpr h.usage)]
  · obtain ⟨hnodup, hmem⟩ := arrayFound_holds h chunkno startOffset stopOffset
    refine ⟨_, hnodup, hmem, fun blocks => ?_⟩
    rw [chunkBlocks, if_neg h.usage_ne, arrayBlocks_eq _ _ _ _ _ (by rw [Nat.zero_add]; exact h.le)]
    congr 1
    exact (decide_eq_true (.inl h.usage_ne)).symm

section Entry

variable {entry : BlockRefTableEntry} {f : Fork} {startBlkno stopBlkno : BlockNumber} {stopChunkno : Nat}

def lastBitmapOverrun (entry : BlockRefTableEntry) (stopBlkno : BlockNumber) : Prop :=
  entry.nchunks * blocksPerChunk < stopBlkno.toNat ∧
    ∃ c, entry.chunks[entry.nchunks - 1]? = some c ∧ c.usage = maxEntriesPerChunk

theorem offsets_iff {start stop chunkno b : Nat} (hfirst : start / blocksPerChunk ≤ chunkno) (hlt : chunkno < stopChunkno)
    (hceil : (stopChunkno - 1) * blocksPerChunk < stop) (hb : b / blocksPerChunk = chunkno) :
    ((if chunkno = start / blocksPerChunk then start % blocksPerChunk else 0) ≤ b % blocksPerChunk ∧
        b % blocksPerChunk < if chunkno = stopChunkno - 1 then stop - chunkno * blocksPerChunk else blocksPerChunk) ↔
      start ≤ b ∧ b < stop := by
  have hper : blocksPerChunk = 65536 := rfl
  rw [hper] at hfirst hceil hb ⊢
  apply and_congr
  · split <;> omega
  · split <;> omega

theorem chunk_found (h : EntryHolds entry f) {chunkno : Nat} (hfirst : startBlkno.toNat / blocksPerChunk ≤ chunkno)
    (hlt : chunkno < stopChunkno) (hle : stopChunkno ≤ entry.nchunks)
    (hceil : (stopChunkno - 1) * blocksPerChunk < stopBlkno.toNat) :
    ∃ c, entry.chunks[chunkno]? = some c ∧ ∃ found : List BlockNumber, found.Nodup ∧
      (∀ b, b ∈ found ↔ b ∈ f.blocks ∧ b.toNat / blocksPerChunk = chunkno ∧ startBlkno ≤ b ∧ b < stopBlkno) ∧
      ∀ blocks, chunkBlocks c chunkno n
          (if chunkno = startBlkno.toNat / blocksPerChunk then startBlkno.toNat % blocksPerChunk else 0)
          (if chunkno = stopChunkno - 1 then stopBlkno.toNat - chunkno * blocksPerChunk else blocksPerChunk) blocks =
        deliver n (c.usage ≠ maxEntriesPerChunk ∨
          (if chunkno = stopChunkno - 1 then stopBlkno.toNat - chunkno * blocksPerChunk else blocksPerChunk) ≤
            blocksPerChunk) found blocks := by
  have hget := List.getElem?_eq_getElem (hlt.trans_le hle)
  have hmax : chunkno < maxChunks := hlt.trans_le (hle.trans h.count.le)
  have hstart : (if chunkno = startBlkno.toNat / blocksPerChunk then startBlkno.toNat % blocksPerChunk else 0) ≤
      blocksPerChunk := by
    have hmod := Nat.mod_lt startBlkno.toNat (by decide : 0 < blocksPerChunk)
    split <;> omega
  obtain ⟨found, hnodup, hmem, heq⟩ := @chunkBlocks_eq _ _ n (h.chunk chunkno _ hget) chunkno _ hstart
    (if chunkno = stopChunkno - 1 then stopBlkno.toNat - chunkno * blocksPerChunk else blocksPerChunk)
  refine ⟨_, hget, found, hnodup, fun b => ?_, heq⟩
  rw [hmem b, UInt32.le_iff_toNat_le, UInt32.lt_iff_toNat_lt]
  refine ⟨?_, ?_⟩
  · rintro ⟨o, hin, hrange, hb⟩
    obtain ⟨hchunk, ho⟩ := (blockAt_eq_iff hmax).mp hb
    have hoff : o.toNat = b.toNat % blocksPerChunk := by
      rw [ho, UInt16.toNat_ofNat']
      exact Nat.mod_mod _ _
    rw [hoff] at hrange
    exact ⟨hb ▸ hin, hchunk.symm, (offsets_iff hfirst hlt hceil hchunk.symm).mp hrange⟩
  · rintro ⟨hin, hchunk, hrange⟩
    have hoff : (UInt16.ofNat (b.toNat % blocksPerChunk)).toNat = b.toNat % blocksPerChunk := by
      rw [UInt16.toNat_ofNat']
      exact Nat.mod_mod _ _
    have hb := (blockAt_eq_iff hmax).mpr ⟨hchunk.symm, rfl⟩
    refine ⟨UInt16.ofNat (b.toNat % blocksPerChunk), hb.symm ▸ hin, ?_, hb⟩
    rw [hoff]
    exact (offsets_iff hfirst hlt hceil hchunk).mpr hrange

theorem last_in_chunk_iff {c : Chunk} {chunkno : Nat} (hget : entry.chunks[chunkno]? = some c) (hlast : chunkno = stopChunkno - 1)
    (hpos : chunkno < stopChunkno) (hle : stopChunkno ≤ entry.nchunks)
    (hclamped : stopBlkno.toNat ≤ stopChunkno * blocksPerChunk ∨ stopChunkno = entry.nchunks) :
    (c.usage ≠ maxEntriesPerChunk ∨ stopBlkno.toNat - chunkno * blocksPerChunk ≤ blocksPerChunk) ↔
      ¬lastBitmapOverrun entry stopBlkno := by
  have hper : blocksPerChunk = 65536 := rfl
  rw [lastBitmapOverrun, hper]
  rw [hper] at hclamped
  rcases hclamped with hstop | hall
  · refine iff_of_true (.inr (by omega)) ?_
    rintro ⟨hbehind, _⟩
    omega
  · have hlastChunk : entry.chunks[entry.nchunks - 1]? = some c := by
      rw [← hall, ← hlast]
      exact hget
    rw [hlastChunk, not_and_or, not_lt, or_comm]
    apply or_congr
    · omega
    · refine ⟨?_, ?_⟩
      · rintro hne ⟨c', hc', husage⟩
        exact hne (Option.some_inj.mp hc' ▸ husage)
      · exact fun hnone husage => hnone ⟨c, rfl, husage⟩

theorem blocksFrom_eq (h : EntryHolds entry f) (hle : stopChunkno ≤ entry.nchunks)
    (hceil : (stopChunkno - 1) * blocksPerChunk < stopBlkno.toNat)
    (hclamped : stopBlkno.toNat ≤ stopChunkno * blocksPerChunk ∨ stopChunkno = entry.nchunks) (left chunkno : Nat)
    (hfirst : startBlkno.toNat / blocksPerChunk ≤ chunkno) (hleft : chunkno + left = stopChunkno) :
    ∃ (ok : Bool) (found : List BlockNumber), (ok = true ↔ left = 0 ∨ ¬lastBitmapOverrun entry stopBlkno) ∧ found.Nodup ∧
      (∀ b, b ∈ found ↔ b ∈ f.blocks ∧ (chunkno ≤ b.toNat / blocksPerChunk ∧ b.toNat / blocksPerChunk < stopChunkno) ∧
        startBlkno ≤ b ∧ b < stopBlkno) ∧
      ∀ blocks, blocksFrom entry startBlkno stopBlkno n stopChunkno left chunkno blocks = deliver n ok found blocks := by
  have hper : blocksPerChunk = 65536 := rfl
  induction left generalizing chunkno with
  | zero =>
    refine ⟨true, [], iff_of_true rfl (.inl rfl), List.nodup_nil, fun b => ?_, fun blocks => rfl⟩
    refine iff_of_false List.not_mem_nil ?_
    rintro ⟨_, hrange, _⟩
    omega
  | succ left ih =>
    obtain ⟨c, hget, found, hnodup, hmem, heq⟩ :=
      @chunk_found n _ _ _ _ _ h chunkno hfirst (by omega : chunkno < stopChunkno) hle hceil
    cases left with
    | zero =>
      -- This is the last chunk that is looked at.
      have hlast : chunkno = stopChunkno - 1 := by omega
      have hin := last_in_chunk_iff hget hlast (by omega) hle hclamped
      rw [if_pos hlast] at heq
      refine ⟨c.usage ≠ maxEntriesPerChunk ∨ stopBlkno.toNat - chunkno * blocksPerChunk ≤ blocksPerChunk, found, ?_, hnodup,
        fun b => ?_, fun blocks => ?_⟩
      · rw [decide_eq_true_iff, or_iff_right (Nat.succ_ne_zero 0)]
        exact hin
      · rw [hmem b]
        refine and_congr_right fun _ => and_congr_left fun _ => ?_
        omega
      · rw [blocksFrom, hget]
        dsimp only
        rw [if_pos hlast, heq]
        exact (deliver_last found blocks).symm
    | succ left =>
      obtain ⟨ok, found', hok, hnodup', hmem', heq'⟩ := ih (chunkno + 1) (by omega) (by omega)
      have hnotLast : ¬chunkno = stopChunkno - 1 := by omega
      refine ⟨ok, found ++ found', ?_, ?_, fun b => ?_, fun blocks => ?_⟩
      · rw [hok, or_iff_right (Nat.succ_ne_zero left), or_iff_right (Nat.succ_ne_zero _)]
      · apply hnodup.append hnodup'
        intro b hb hb'
        have hchunk := ((hmem b).mp hb).2.1
        have hbehind := ((hmem' b).mp hb').2.1.1
        omega
      · rw [List.mem_append, hmem b, hmem' b, ← and_or_left, ← or_and_right]
        refine and_congr_right fun _ => and_congr_left fun _ => ?_
        omega
      · rw [blocksFrom, hget]
        dsimp only
        rw [heq, if_neg hnotLast, decide_eq_true (.inr (Nat.le_refl _)), deliver_append]
        congr 1
        apply funext
        intro got
        rw [Got.unlessFull, Got.unlessFull, heq' got.2]

def asked (f : Fork) (startBlkno stopBlkno : BlockNumber) : Finset BlockNumber :=
  f.blocks.filter fun b => startBlkno ≤ b ∧ b < stopBlkno

def AnswersExactly (entry : BlockRefTableEntry) (f : Fork) (startBlkno stopBlkno : BlockNumber) (nblocks : Nat) : Prop :=
  ∃ blocks, blockRefTableEntryGetBlocks entry startBlkno stopBlkno nblocks = some blocks ∧ blocks.Nodup ∧
    (∀ b ∈ blocks, b ∈ asked f startBlkno stopBlkno) ∧ blocks.length = min nblocks (asked f startBlkno stopBlkno).card

def QueryInside (entry : BlockRefTableEntry) (f : Fork) (startBlkno stopBlkno : BlockNumber) (nblocks : Nat) : Prop :=
  (nblocks = 0 → asked f startBlkno stopBlkno = ∅) ∧
    (startBlkno.toNat / blocksPerChunk < entry.nchunks → lastBitmapOverrun entry stopBlkno →
      0 < nblocks ∧ nblocks ≤ (asked f startBlkno stopBlkno).card)

theorem getBlocks_eq (h : EntryHolds entry f) (hlt : startBlkno < stopBlkno) : ∃ (ok : Bool) (found : List BlockNumber),
      (ok = true ↔ (startBlkno.toNat / blocksPerChunk < entry.nchunks → ¬lastBitmapOverrun entry stopBlkno)) ∧
      found.Nodup ∧ (∀ b, b ∈ found ↔ b ∈ asked f startBlkno stopBlkno) ∧
      blockRefTableEntryGetBlocks entry startBlkno stopBlkno n = (deliver n ok found []).map (·.2) := by
  have hper : blocksPerChunk = 65536 := rfl
  have hlt := UInt32.lt_iff_toNat_lt.mp hlt
  obtain ⟨ceil, hceil⟩ : ∃ ceil, ceil =
      stopBlkno.toNat / blocksPerChunk + if stopBlkno.toNat % blocksPerChunk ≠ 0 then 1 else 0 := ⟨_, rfl⟩
  have hbounds : (ceil - 1) * 65536 < stopBlkno.toNat ∧ stopBlkno.toNat ≤ ceil * 65536 := by
    rw [hceil, hper]
    split <;> omega
  obtain ⟨stopChunkno, hstop⟩ : ∃ s, s = if entry.nchunks < ceil then entry.nchunks else ceil := ⟨_, rfl⟩
  have hwithin : stopChunkno ≤ entry.nchunks ∧ stopChunkno ≤ ceil ∧ (stopChunkno = ceil ∨ stopChunkno = entry.nchunks) := by
    rw [hstop]
    split <;> omega
  have hget : blockRefTableEntryGetBlocks entry startBlkno stopBlkno n =
      (blocksFrom entry startBlkno stopBlkno n stopChunkno (stopChunkno - startBlkno.toNat / blocksPerChunk)
        (startBlkno.toNat / blocksPerChunk) []).map (·.2) := by
    rw [hstop, hceil]
    rfl
  rw [hget]
  by_cases hfirst : startBlkno.toNat / blocksPerChunk < stopChunkno
  · obtain ⟨ok, found, hok, hnodup, hmem, heq⟩ :=
      @blocksFrom_eq n _ _ startBlkno stopBlkno stopChunkno h hwithin.1 (by rw [hper]; omega) (by rw [hper]; omega)
        (stopChunkno - startBlkno.toNat / blocksPerChunk) _ (Nat.le_refl _) (by omega)
    refine ⟨ok, found, ?_, hnodup, fun b => ?_, by rw [heq]⟩
    · rw [hok, or_iff_right (by omega)]
      exact ⟨fun hinside _ => hinside, fun hinside => hinside (by omega)⟩
    · rw [hmem b, asked, Finset.mem_filter, UInt32.le_iff_toNat_le, UInt32.lt_iff_toNat_lt]
      refine and_congr_right fun hin => and_iff_right_of_imp fun hrange => ?_
      have hinside := h.inside b hin
      rw [hper] at hinside ⊢
      omega
  · -- All of the range is behind the last chunk.
    have hnone : stopChunkno - startBlkno.toNat / blocksPerChunk = 0 := by omega
    refine ⟨true, [], ?_, List.nodup_nil, fun b => ?_, by rw [hnone]; rfl⟩
    · refine iff_of_true rfl fun hin => ?_
      rw [hper] at hin hfirst
      omega
    · refine iff_of_false List.not_mem_nil fun hb => ?_
      rw [asked, Finset.mem_filter, UInt32.le_iff_toNat_le, UInt32.lt_iff_toNat_lt] at hb
      have hinside := h.inside b hb.1
      rw [hper] at hinside hfirst
      omega

theorem answersExactly_iff (h : EntryHolds entry f) (hlt : startBlkno < stopBlkno) :
    AnswersExactly entry f startBlkno stopBlkno n ↔ QueryInside entry f startBlkno stopBlkno n := by
  obtain ⟨ok, found, hok, hnodup, hmem, heq⟩ := @getBlocks_eq n _ _ _ _ h hlt
  have hcard : (asked f startBlkno stopBlkno).card = found.length := by
    rw [← List.toFinset_card_of_nodup hnodup]
    congr 1
    apply Finset.ext
    intro b
    rw [List.mem_toFinset, hmem b]
  have hempty : asked f startBlkno stopBlkno = ∅ ↔ found = [] := by
    rw [← Finset.card_eq_zero, hcard, List.length_eq_zero_iff]
  rw [AnswersExactly, QueryInside, heq, hcard, hempty]
  by_cases hn : n = 0
  · subst hn
    cases found with
    | nil =>
      rw [deliver]
      cases ok with
      | true =>
        refine iff_of_true ⟨[], rfl, List.nodup_nil, fun b hb => absurd hb List.not_mem_nil, rfl⟩ ⟨fun _ => rfl, ?_⟩
        exact fun hin hover => absurd hover (hok.mp rfl hin)
      | false =>
        refine iff_of_false (fun ⟨_, hnone, _⟩ => Option.some_ne_none _ hnone.symm) ?_
        rintro ⟨_, hinside⟩
        have hall := hok.mpr fun hin hover => absurd (hinside hin hover).1 (Nat.lt_irrefl 0)
        exact Bool.false_ne_true hall
    | cons b found =>
      refine iff_of_false (fun ⟨_, hnone, _⟩ => Option.some_ne_none _ hnone.symm) ?_
      exact fun hinside => List.cons_ne_nil _ _ (hinside.1 rfl)
  · have hpos : 0 < n := Nat.pos_of_ne_zero hn
    rw [deliver_eq found [] hpos, List.length_nil, Nat.zero_add, List.nil_append, List.nil_append, Nat.sub_zero]
    by_cases hfull : n ≤ found.length
    · rw [if_pos hfull]
      refine iff_of_true ⟨found.take n, rfl, hnodup.take, fun b hb => ?_, List.length_take⟩ ?_
      · exact (hmem b).mp (List.mem_of_mem_take hb)
      · exact ⟨fun hzero => absurd hzero hn, fun _ _ => ⟨hpos, hfull⟩⟩
    · rw [if_neg hfull]
      cases ok with
      | true =>
        refine iff_of_true ⟨found, rfl, hnodup, fun b => (hmem b).mp, by omega⟩ ⟨fun hzero => absurd hzero hn, ?_⟩
        exact fun hin hover => absurd hover (hok.mp rfl hin)
      | false =>
        refine iff_of_false (fun ⟨_, hnone, _⟩ => Option.some_ne_none _ hnone.symm) ?_
        rintro ⟨_, hinside⟩
        exact Bool.false_ne_true (hok.mpr fun hin hover => hfull (hinside hin hover).2)

end Entry

theorem forkAfter_limit (ops : List TableOp) (key : BlockRefTableKey) :
    ((forkAfter ops key).limit = invalidBlockNumber ∨ TableOp.setLimit key (forkAfter ops key).limit ∈ ops) ∧
      ∀ l, TableOp.setLimit key l ∈ ops → (forkAfter ops key).limit ≤ l := by
  induction ops using List.reverseRecOn with
  | nil => exact ⟨.inl rfl, fun l hl => absurd hl List.not_mem_nil⟩
  | append_singleton ops op ih =>
    obtain ⟨hset, hle⟩ := ih
    have hold : (forkAfter ops key).limit = invalidBlockNumber ∨
        TableOp.setLimit key (forkAfter ops key).limit ∈ ops ++ [op] := hset.imp_right (List.mem_append_left _)
    rw [forkAfter_append]
    by_cases hkey : op.key = key
    · rw [if_pos hkey]
      cases op with
      | mark key' b junk =>
        refine ⟨hold, fun l hl => ?_⟩
        rcases List.mem_append.mp hl with hl | hl
        · exact hle l hl
        · exact TableOp.noConfusion (List.mem_singleton.mp hl)
      | setLimit key' l' =>
        have hsame : key' = key := hkey
        subst hsame
        rw [TableOp.onFork, Fork.setLimit]
        split
        · next hlower =>
          refine ⟨.inr (List.mem_append_right _ (List.mem_singleton_self _)), fun l hl => ?_⟩
          rcases List.mem_append.mp hl with hl | hl
          · exact UInt32.le_of_lt (UInt32.lt_of_lt_of_le hlower (hle l hl))
          · rw [(TableOp.setLimit.inj (List.mem_singleton.mp hl)).2]
            exact UInt32.le_refl _
        · next hhigher =>
          refine ⟨hold, fun l hl => ?_⟩
          rcases List.mem_append.mp hl with hl | hl
          · exact hle l hl
          · rw [(TableOp.setLimit.inj (List.mem_singleton.mp hl)).2]
            exact UInt32.not_lt.mp hhigher
    · rw [if_neg hkey]
      refine ⟨hold, fun l hl => ?_⟩
      rcases List.mem_append.mp hl with hl | hl
      · exact hle l hl
      · rw [← List.mem_singleton.mp hl] at hkey
        exact absurd rfl hkey

/-- After any operations, a query is answered exactly if and only if it keeps inside the entry's chunks. -/
theorem range_queries_exact_iff (ops : List TableOp) : ∃ brtab, runOps [] ops = some brtab ∧ ∀ key,
      (brtab.lookup key = none → ∀ op ∈ ops, op.key ≠ key) ∧
      ∀ entry, brtab.lookup key = some entry →
        (entry.limitBlock = invalidBlockNumber ∨ TableOp.setLimit key entry.limitBlock ∈ ops) ∧
        (∀ l, TableOp.setLimit key l ∈ ops → entry.limitBlock ≤ l) ∧
        ∀ startBlkno stopBlkno nblocks, startBlkno < stopBlkno →
          (AnswersExactly entry (forkAfter ops key) startBlkno stopBlkno nblocks ↔
            QueryInside entry (forkAfter ops key) startBlkno stopBlkno nblocks) := by
  obtain ⟨brtab, hrun, h⟩ := runOps_holds ops
  refine ⟨brtab, hrun, fun key => ⟨fun hnone op hop hkey => ?_, fun entry hlookup => ?_⟩⟩
  · exact lookup_none hnone ((h.touched key).mpr ⟨op, hop, hkey⟩)
  · obtain ⟨hmem, hkey⟩ := lookup_some hlookup
    have hentry := h.entry entry hmem
    obtain ⟨hset, hle⟩ := forkAfter_limit ops key
    rw [hkey] at hentry
    rw [hentry.limit]
    exact ⟨hset, hle, fun _ _ _ hlt => answersExactly_iff hentry hlt⟩

def sampleKey : BlockRefTableKey := ⟨⟨1663, 5, 16384⟩, 0⟩

theorem range_queries_exact_one :
    ∃ brtab entry, runOps [] [.mark sampleKey 5 fun _ => 0] = some brtab ∧ brtab.lookup sampleKey = some entry ∧
      AnswersExactly entry (forkAfter [.mark sampleKey 5 fun _ => 0] sampleKey) 0 10 3 := by
  obtain ⟨brtab, hrun, hall⟩ := range_queries_exact_iff [.mark sampleKey 5 fun _ => 0]
  obtain ⟨hnone, hsome⟩ := hall sampleKey
  cases hlookup : brtab.lookup sampleKey with
  | none => exact absurd rfl (hnone hlookup _ (List.mem_singleton_self _))
  | some entry =>
    refine ⟨brtab, entry, hrun, hlookup, ((hsome entry hlookup).2.2 0 10 3 (by decide)).mpr ⟨fun h => absurd h (by decide), ?_⟩⟩
    intro hfirst hover
    have hstop : (10 : BlockNumber).toNat = 10 := by decide
    have hlong := hover.1
    have hper : blocksPerChunk = 65536 := rfl
    have hpos : 0 < entry.nchunks := Nat.zero_lt_of_lt hfirst
    rw [hstop, hper] at hlong
    omega

theorem ChunkHolds.usage_of_many (h : ChunkHolds c P) {offsets : List UInt16} (hnodup : offsets.Nodup)
    (hmany : maxEntriesPerChunk ≤ offsets.length) (hP : ∀ o ∈ offsets, P o) : c.usage = maxEntriesPerChunk := by
  rcases h with h | h
  · exact h.usage
  · have hsub : offsets ⊆ c.entries := fun o ho => (h.mem o).mp (hP o ho)
    have hlen := (List.subperm_of_subset hnodup hsub).length_le
    have hentries : c.entries.length = c.usage := by
      rw [Chunk.entries, List.length_map, List.length_range']
    have hlt := h.lt
    omega

theorem forkAfter_marks (key : BlockRefTableKey) (bs : List BlockNumber) :
    (forkAfter (bs.map fun b => .mark key b fun _ => 0) key).blocks = bs.toFinset := by
  induction bs using List.reverseRecOn with
  | nil => rfl
  | append_singleton bs b ih =>
    rw [List.map_append, List.map_singleton, forkAfter_append]
    apply Finset.ext
    intro b'
    have hmarked : (TableOp.mark key b fun _ => 0).key = key := rfl
    rw [if_pos hmarked]
    change b' ∈ insert b (forkAfter (bs.map fun b => .mark key b fun _ => 0) key).blocks ↔ _
    rw [ih, Finset.mem_insert, List.mem_toFinset, List.mem_toFinset, List.mem_append, List.mem_singleton, or_comm]

theorem markBlock_nchunks {entry entry' : BlockRefTableEntry} {junk : Nat → UInt16} {b : BlockNumber}
    (h : blockRefTableEntryMarkBlockModified junk entry b = some entry') :
    entry'.nchunks = (enlargeChunks entry.chunks (b.toNat / blocksPerChunk)).length := by
  rw [blockRefTableEntryMarkBlockModified] at h
  split at h
  · exact absurd h.symm (Option.some_ne_none _)
  · obtain ⟨c, _, rfl⟩ := Option.map_eq_some_iff.mp h
    rw [BlockRefTableEntry.nchunks, List.length_set]

theorem enlargeChunks_length {chunks : List Chunk} (hlen : chunks.length = 0 ∨ chunks.length = 16) {k : Nat} (hk : k < 16) :
    (enlargeChunks chunks k).length = 16 := by
  rw [enlargeChunks]
  split
  · next hle =>
    dsimp only
    rw [List.length_append, List.length_replicate, doubledUpTo, if_neg (by omega)]
    omega
  · omega

theorem runOps_nchunks (key : BlockRefTableKey) {bs : List BlockNumber} (hbs : ∀ b ∈ bs, b.toNat / blocksPerChunk < 16)
    {brtab brtab' : BlockRefTable} (h : ∀ entry ∈ brtab, entry.nchunks = 16)
    (hrun : runOps brtab (bs.map fun b => .mark key b fun _ => 0) = some brtab') : ∀ entry ∈ brtab', entry.nchunks = 16 := by
  induction bs generalizing brtab with
  | nil => exact Option.some_inj.mp hrun ▸ h
  | cons b bs ih =>
    have hb := hbs b List.mem_cons_self
    rw [List.map_cons, runOps] at hrun
    obtain ⟨brtab₁, hone, hrest⟩ := Option.bind_eq_some_iff.mp hrun
    refine ih (fun b' hb' => hbs b' (List.mem_cons_of_mem _ hb')) (fun entry hentry => ?_) hrest
    rw [TableOp.run, blockRefTableMarkBlockModified] at hone
    split at hone
    · obtain ⟨marked, hmarked, rfl⟩ := Option.map_eq_some_iff.mp hone
      rcases List.mem_append.mp hentry with hold | hnew
      · exact h entry hold
      · rw [List.mem_singleton.mp hnew, markBlock_nchunks hmarked]
        exact enlargeChunks_length (.inl rfl) hb
    · next found hfound =>
      obtain ⟨marked, hmarked, rfl⟩ := Option.map_eq_some_iff.mp hone
      obtain ⟨old, hold, rfl⟩ := List.mem_map.mp hentry
      split
      · rw [markBlock_nchunks hmarked]
        exact enlargeChunks_length (.inr (h found (lookup_some hfound).1)) hb
      · exact h old hold

def fullChunk : List BlockNumber := ((List.range maxEntriesPerChunk).map UInt16.ofNat).map (blockAt 15)

theorem bitmap_read_behind_end :
    ∃ brtab entry, runOps [] (fullChunk.map fun b => .mark sampleKey b fun _ => 0) = some brtab ∧
      brtab.lookup sampleKey = some entry ∧
      ¬AnswersExactly entry (forkAfter (fullChunk.map fun b => .mark sampleKey b fun _ => 0) sampleKey) 983040
        invalidBlockNumber 5000 := by
  have hper : blocksPerChunk = 65536 := rfl
  have hmax : maxEntriesPerChunk = 4096 := by decide
  obtain ⟨brtab, hrun, h⟩ := runOps_holds (fullChunk.map fun b => .mark sampleKey b fun _ => 0)
  have hin : ∀ b ∈ fullChunk, b.toNat / blocksPerChunk = 15 := by
    intro b hb
    obtain ⟨i, _, rfl⟩ := List.mem_map.mp hb
    exact ((blockAt_eq_iff (by decide)).mp rfl).1.symm
  have hsixteen := runOps_nchunks sampleKey (fun b hb => by rw [hin b hb]; decide)
    (fun entry hentry => absurd hentry List.not_mem_nil) hrun
  have hfirst : blockAt 15 0 ∈ fullChunk :=
    List.mem_map_of_mem (List.mem_map.mpr ⟨0, List.mem_range.mpr (by decide), rfl⟩)
  have htouched := (h.touched sampleKey).mpr ⟨_, List.mem_map_of_mem hfirst, rfl⟩
  obtain ⟨entry, hmem, hkey⟩ := List.mem_map.mp htouched
  have hentry := h.entry entry hmem
  rw [hkey] at hentry
  have hlookup := lookup_of_mem h.nodup hmem
  rw [hkey] at hlookup
  refine ⟨brtab, entry, hrun, hlookup, ?_⟩
  rw [answersExactly_iff hentry (by decide)]
  rintro ⟨_, hinside⟩
  have hnchunks := hsixteen entry hmem
  have hget : entry.chunks[15]? = some (entry.chunks.get ⟨15, by rw [← BlockRefTableEntry.nchunks, hnchunks]; decide⟩) :=
    List.getElem?_eq_getElem _
  have hover : lastBitmapOverrun entry invalidBlockNumber := by
    refine ⟨by rw [hnchunks]; decide, _, by rw [hnchunks]; exact hget, ?_⟩
    -- An array has no room for so many offsets.
    apply @ChunkHolds.usage_of_many _ _ (hentry.chunk 15 _ hget) ((List.range maxEntriesPerChunk).map UInt16.ofNat)
    · apply List.Nodup.map_on _ List.nodup_range
      intro i hi j hj heq
      rw [List.mem_range] at hi hj
      rw [← UInt16.toNat_inj, UInt16.toNat_ofNat', UInt16.toNat_ofNat'] at heq
      omega
    · rw [List.length_map, List.length_range]
    · intro o ho
      rw [forkAfter_marks, List.mem_toFinset]
      exact List.mem_map_of_mem ho
  have hroom := (hinside (by rw [hnchunks]; decide) hover).2
  have hcard : (asked (forkAfter (fullChunk.map fun b => .mark sampleKey b fun _ => 0) sampleKey) 983040
      invalidBlockNumber).card ≤ maxEntriesPerChunk := by
    refine (Finset.card_filter_le _ _).trans ?_
    rw [forkAfter_marks]
    refine (List.toFinset_card_le _).trans ?_
    rw [fullChunk, List.length_map, List.length_map, List.length_range]
  omega

end CdcKafka.BlockRef
