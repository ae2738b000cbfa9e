import CdcKafka.BlockRef.Tracking

/-! The marked blocks of each fork and its limit, and that a block reference table keeps track of them. -/

namespace CdcKafka.BlockRef

open CdcKafka.Lib

variable {entry : BlockRefTableEntry}

structure Fork where
  limit : BlockNumber
  blocks : Finset BlockNumber

namespace Fork

def untouched : Fork := ⟨invalidBlockNumber, ∅⟩

def mark (f : Fork) (b : BlockNumber) : Fork := { f with blocks := insert b f.blocks }

def setLimit (f : Fork) (l : BlockNumber) : Fork := if l < f.limit then ⟨l, f.blocks.filter (· < l)⟩ else f

end Fork

def blockAt (chunkno : Nat) (offset : UInt16) : BlockNumber := UInt32.ofNat (chunkno * blocksPerChunk + offset.toNat)

def maxChunks : Nat := 2 ^ 16

def ChunkCount (n : Nat) : Prop := n = 0 ∨ ∃ j ≤ 12, n = 16 * 2 ^ j

structure EntryHolds (entry : BlockRefTableEntry) (f : Fork) : Prop where
  limit : entry.limitBlock = f.limit
  count : ChunkCount entry.nchunks
  chunk : ∀ k c, entry.chunks[k]? = some c → ChunkHolds c fun o => blockAt k o ∈ f.blocks
  inside : ∀ b ∈ f.blocks, b.toNat / blocksPerChunk < entry.nchunks

theorem ChunkCount.le {n : Nat} (h : ChunkCount n) : n ≤ maxChunks := by
  rcases h with hzero | ⟨j, hj, hpow⟩
  · rw [hzero]
    exact Nat.zero_le _
  · rw [hpow]
    exact Nat.mul_le_mul_left 16 (Nat.pow_le_pow_right (by decide) hj)

theorem toNat_blockAt {k : Nat} (hk : k < maxChunks) (o : UInt16) : (blockAt k o).toNat = k * blocksPerChunk + o.toNat := by
  have hmax : maxChunks = 65536 := rfl
  have hper : blocksPerChunk = 65536 := rfl
  have ho := o.toNat_lt
  rw [blockAt, UInt32.toNat_ofNat']
  apply Nat.mod_eq_of_lt
  rw [hper]
  omega

theorem blockAt_eq_iff {k : Nat} (hk : k < maxChunks) {o : UInt16} {b : BlockNumber} :
    blockAt k o = b ↔ k = b.toNat / blocksPerChunk ∧ o = UInt16.ofNat (b.toNat % blocksPerChunk) := by
  have hper : blocksPerChunk = 65536 := rfl
  have ho := o.toNat_lt
  rw [← UInt32.toNat_inj, toNat_blockAt hk, ← UInt16.toNat_inj, UInt16.toNat_ofNat', hper]
  omega

theorem chunk_lt (b : BlockNumber) : b.toNat / blocksPerChunk < maxChunks := by
  have hmax : maxChunks = 65536 := rfl
  have hper : blocksPerChunk = 65536 := rfl
  have hb := b.toNat_lt
  rw [hper]
  omega

theorem entryHolds_new (key : BlockRefTableKey) {f : Fork} (hnone : f.blocks = ∅) : EntryHolds ⟨key, f.limit, []⟩ f := by
  refine ⟨rfl, .inl rfl, fun k c hc => ?_, fun b hb => ?_⟩
  · rw [List.getElem?_nil] at hc
    exact absurd hc.symm (Option.some_ne_none c)
  · rw [hnone] at hb
    exact absurd hb (Finset.notMem_empty b)

theorem setLimit_untouched (l : BlockNumber) :
    (Fork.untouched.setLimit l).limit = l ∧ (Fork.untouched.setLimit l).blocks = ∅ := by
  rw [Fork.setLimit]
  split
  · exact ⟨rfl, Finset.filter_empty _⟩
  · next hle =>
    refine ⟨UInt32.le_antisymm (UInt32.not_lt.mp hle) ?_, rfl⟩
    have hl := l.toNat_lt
    have hinvalid : Fork.untouched.limit.toNat = 4294967295 := by decide
    rw [UInt32.le_iff_toNat_le, hinvalid]
    omega

theorem doubledUpTo_eq (i : Nat) (hi : i ≤ 12) {m needed : Nat} (hm : m = 16 * 2 ^ i) (hneeded : needed ≤ maxChunks)
    (hpos : 0 < m) : needed ≤ doubledUpTo m needed hpos ∧ ∃ j ≤ 12, doubledUpTo m needed hpos = 16 * 2 ^ j := by
  induction hn : 12 - i generalizing i m with
  | zero =>
    have hmax : maxChunks = 16 * 2 ^ 12 := by decide
    have h12 : i = 12 := by omega
    rw [h12] at hm
    rw [doubledUpTo, if_neg (by omega)]
    exact ⟨by omega, 12, Nat.le_refl 12, hm⟩
  | succ n ih =>
    rw [doubledUpTo]
    split
    · apply ih (i + 1) (by omega) _ _ (by omega)
      rw [hm, Nat.pow_succ, Nat.mul_assoc]
    · exact ⟨by omega, i, hi, hm⟩

theorem enlargeChunks_eq {chunks : List Chunk} {chunkno : Nat} (hk : chunkno < maxChunks) (hcount : ChunkCount chunks.length) :
    chunkno < (enlargeChunks chunks chunkno).length ∧
      (∃ n, enlargeChunks chunks chunkno = chunks ++ List.replicate n Chunk.empty) ∧
      ChunkCount (enlargeChunks chunks chunkno).length := by
  rw [enlargeChunks]
  split
  · next hle =>
    have hmax : ∃ i ≤ 12, max 16 chunks.length = 16 * 2 ^ i := by
      rcases hcount with hzero | ⟨j, hj, hpow⟩
      · exact ⟨0, Nat.zero_le 12, by rw [hzero]; rfl⟩
      · refine ⟨j, hj, ?_⟩
        have hone : 0 < 2 ^ j := Nat.two_pow_pos j
        omega
    obtain ⟨i, hi, hpow⟩ := hmax
    obtain ⟨hroom, hdoubled⟩ :=
      doubledUpTo_eq i hi hpow (by omega : chunkno + 1 ≤ maxChunks) (by omega : 0 < max 16 chunks.length)
    have hlen : (chunks ++ List.replicate (doubledUpTo (max 16 chunks.length) (chunkno + 1) (by omega) - chunks.length)
        Chunk.empty).length = doubledUpTo (max 16 chunks.length) (chunkno + 1) (by omega) := by
      rw [List.length_append, List.length_replicate]
      omega
    dsimp only
    rw [hlen]
    exact ⟨by omega, ⟨_, rfl⟩, .inr hdoubled⟩
  · exact ⟨by omega, ⟨0, (List.append_nil _).symm⟩, hcount⟩

theorem EntryHolds.enlarge {f : Fork} (h : EntryHolds entry f) {chunkno : Nat} (hk : chunkno < maxChunks) :
    EntryHolds { entry with chunks := enlargeChunks entry.chunks chunkno } f := by
  obtain ⟨_, ⟨n, happend⟩, hcount⟩ := enlargeChunks_eq hk h.count
  refine ⟨h.limit, hcount, fun k c hc => ?_, fun b hb => ?_⟩
  · obtain ⟨hin, _⟩ := List.getElem?_eq_some_iff.mp hc
    have hmax : k < maxChunks := hin.trans_le hcount.le
    dsimp only at hc
    rw [happend] at hc
    by_cases hold : k < entry.chunks.length
    · rw [List.getElem?_append_left hold] at hc
      exact h.chunk k c hc
    · -- No block can be in one of the new chunks.
      rw [List.getElem?_append_right (by omega), List.getElem?_replicate] at hc
      obtain ⟨_, hempty⟩ := Option.ite_none_right_eq_some.mp hc
      rw [← Option.some_inj.mp hempty]
      refine holds_empty.congr fun o => ?_
      refine iff_of_false id fun hmem => ?_
      have hinside := h.inside _ hmem
      rw [← ((blockAt_eq_iff hmax).mp rfl).1] at hinside
      exact hold hinside
  · have hinside := h.inside b hb
    change _ < (enlargeChunks entry.chunks chunkno).length
    rw [happend, List.length_append]
    exact hinside.trans_le (Nat.le_add_right _ _)

theorem EntryHolds.markBlock {f : Fork} (h : EntryHolds entry f) (junk : Nat → UInt16) (b : BlockNumber) :
    ∃ entry', blockRefTableEntryMarkBlockModified junk entry b = some entry' ∧ entry'.key = entry.key ∧
      EntryHolds entry' (f.mark b) := by
  have hk := chunk_lt b
  obtain ⟨hroom, _, hcount⟩ := enlargeChunks_eq hk h.count
  have henlarged := h.enlarge hk
  have hget := List.getElem?_eq_getElem hroom
  obtain ⟨c', hmark, hc'⟩ :=
    @ChunkHolds.mark _ _ junk (henlarged.chunk _ _ hget) (UInt16.ofNat (b.toNat % blocksPerChunk))
  refine ⟨{ entry with chunks := (enlargeChunks entry.chunks (b.toNat / blocksPerChunk)).set (b.toNat / blocksPerChunk) c' },
    ?_, rfl, ?_⟩
  · rw [blockRefTableEntryMarkBlockModified, hget]
    dsimp only
    rw [hmark, Option.map_some]
  · refine ⟨h.limit, ?_, fun k c hc => ?_, fun b' hb' => ?_⟩
    · rw [BlockRefTableEntry.nchunks, List.length_set]
      exact hcount
    · dsimp only at hc
      obtain ⟨hin, _⟩ := List.getElem?_eq_some_iff.mp hc
      rw [List.length_set] at hin
      have hmax : k < maxChunks := hin.trans_le hcount.le
      by_cases hsame : b.toNat / blocksPerChunk = k
      · subst hsame
        rw [List.getElem?_set_self hin] at hc
        rw [← Option.some_inj.mp hc]
        refine hc'.congr fun o => ?_
        rw [Fork.mark, Finset.mem_insert, blockAt_eq_iff hmax, and_iff_right rfl]
      · rw [List.getElem?_set_ne hsame] at hc
        refine (henlarged.chunk k c hc).congr fun o => ?_
        rw [Fork.mark, Finset.mem_insert, blockAt_eq_iff hmax]
        exact (or_iff_right fun heq => hsame heq.1.symm).symm
    · rw [BlockRefTableEntry.nchunks, List.length_set]
      rcases Finset.mem_insert.mp hb' with rfl | hold
      · exact hroom
      · exact henlarged.inside b' hold

theorem EntryHolds.setLimit {f : Fork} (h : EntryHolds entry f) (l : BlockNumber) :
    ∃ entry', blockRefTableEntrySetLimitBlock entry l = some entry' ∧ entry'.key = entry.key ∧
      EntryHolds entry' (f.setLimit l) := by
  rw [blockRefTableEntrySetLimitBlock, h.limit]
  by_cases hle : f.limit ≤ l
  · rw [if_pos hle, Fork.setLimit, if_neg (UInt32.not_lt.mpr hle)]
    exact ⟨entry, rfl, rfl, h⟩
  rw [if_neg hle, Fork.setLimit, if_pos (UInt32.not_le.mp hle)]
  dsimp only
  have hper : blocksPerChunk = 65536 := rfl
  cases hchunk : entry.chunks[l.toNat / blocksPerChunk]? with
  | none =>
    -- Every block is in a chunk before that of the limit.
    have hall : f.blocks.filter (· < l) = f.blocks := by
      apply Finset.filter_true_of_mem
      intro b hb
      have hinside : b.toNat / blocksPerChunk < entry.chunks.length := h.inside b hb
      have hbehind := List.getElem?_eq_none_iff.mp hchunk
      rw [hper] at hinside hbehind
      rw [UInt32.lt_iff_toNat_lt]
      omega
    rw [hall]
    exact ⟨_, rfl, rfl, rfl, h.count, h.chunk, h.inside⟩
  | some c =>
    obtain ⟨hlimitIn, _⟩ := List.getElem?_eq_some_iff.mp hchunk
    obtain ⟨c', heq, hc'⟩ := (h.chunk _ _ hchunk).limit (l.toNat % blocksPerChunk)
    dsimp only
    rw [heq, Option.map_some]
    have hlen : ((discardAbove (l.toNat / blocksPerChunk) entry.chunks).set (l.toNat / blocksPerChunk) c').length =
        entry.chunks.length := by
      rw [List.length_set, discardAbove, List.length_mapIdx]
    refine ⟨_, rfl, rfl, rfl, ?_, fun k d hd => ?_, fun b hb => ?_⟩
    · rw [BlockRefTableEntry.nchunks, hlen]
      exact h.count
    · dsimp only at hd
      obtain ⟨hin, _⟩ := List.getElem?_eq_some_iff.mp hd
      rw [hlen] at hin
      have hmax : k < maxChunks := hin.trans_le h.count.le
      have hbelow : ∀ o, blockAt k o ∈ f.blocks.filter (· < l) ↔
          k * blocksPerChunk + o.toNat < l.toNat ∧ blockAt k o ∈ f.blocks := by
        intro o
        rw [Finset.mem_filter, UInt32.lt_iff_toNat_lt, toNat_blockAt hmax, and_comm]
      by_cases hsame : l.toNat / blocksPerChunk = k
      · rw [hsame, List.getElem?_set_self (by rw [discardAbove, List.length_mapIdx]; exact hin)] at hd
        rw [← Option.some_inj.mp hd]
        refine hc'.congr fun o => ?_
        rw [hbelow o, hsame]
        refine and_congr_left fun _ => ?_
        rw [hper] at hsame ⊢
        omega
      · rw [List.getElem?_set_ne hsame, discardAbove, List.getElem?_mapIdx] at hd
        obtain ⟨c₀, hc₀, hd⟩ := Option.map_eq_some_iff.mp hd
        have hold := h.chunk k c₀ hc₀
        rw [← hd]
        split
        · next hbehind =>
          refine hold.discard.congr fun o => ?_
          refine iff_of_false id fun hmem => ?_
          have hlt := ((hbelow o).mp hmem).1
          rw [hper] at hlt hbehind
          omega
        · next hbehind =>
          refine hold.congr fun o => ?_
          have ho := o.toNat_lt
          rw [hbelow o]
          refine (and_iff_right ?_).symm
          rw [hper] at hsame hbehind ⊢
          omega
    · rw [BlockRefTableEntry.nchunks, hlen]
      exact h.inside b (Finset.mem_filter.mp hb).1

inductive TableOp where
  | mark (key : BlockRefTableKey) (blknum : BlockNumber) (junk : Nat → UInt16)
  | setLimit (key : BlockRefTableKey) (limitBlock : BlockNumber)

namespace TableOp

def key : TableOp → BlockRefTableKey
  | mark key _ _ => key
  | setLimit key _ => key

def run (brtab : BlockRefTable) : TableOp → Option BlockRefTable
  | mark key blknum junk => blockRefTableMarkBlockModified junk brtab key blknum
  | setLimit key limitBlock => blockRefTableSetLimitBlock brtab key limitBlock

def onFork (f : Fork) : TableOp → Fork
  | mark _ blknum _ => f.mark blknum
  | setLimit _ limitBlock => f.setLimit limitBlock

end TableOp

def runOps (brtab : BlockRefTable) : List TableOp → Option BlockRefTable
  | [] => some brtab
  | op :: ops => (op.run brtab) >>= fun brtab => runOps brtab ops

def forkAfter (ops : List TableOp) (key : BlockRefTableKey) : Fork :=
  (ops.filter fun op => op.key = key).foldl TableOp.onFork Fork.untouched

structure TableHolds (brtab : BlockRefTable) (ops : List TableOp) : Prop where
  nodup : (brtab.map BlockRefTableEntry.key).Nodup
  entry : ∀ entry ∈ brtab, EntryHolds entry (forkAfter ops entry.key)
  touched : ∀ key, key ∈ brtab.map BlockRefTableEntry.key ↔ ∃ op ∈ ops, op.key = key

theorem forkAfter_append (ops : List TableOp) (op : TableOp) (key : BlockRefTableKey) :
    forkAfter (ops ++ [op]) key = if op.key = key then op.onFork (forkAfter ops key) else forkAfter ops key := by
  rw [forkAfter, List.filter_append, List.foldl_append, List.filter_singleton]
  by_cases hkey : op.key = key
  · rw [if_pos hkey, decide_eq_true hkey]
    rfl
  · rw [if_neg hkey, decide_eq_false hkey]
    rfl

theorem forkAfter_untouched {ops : List TableOp} {key : BlockRefTableKey} (h : ¬∃ op ∈ ops, op.key = key) :
    forkAfter ops key = Fork.untouched := by
  have hnone : (ops.filter fun op => op.key = key) = [] := by
    apply List.filter_eq_nil_iff.mpr
    intro op hop
    rw [decide_eq_true_iff]
    exact fun heq => h ⟨op, hop, heq⟩
  rw [forkAfter, hnone]
  rfl

theorem lookup_some {brtab : BlockRefTable} {key : BlockRefTableKey} (h : brtab.lookup key = some entry) :
    entry ∈ brtab ∧ entry.key = key := by
  rw [BlockRefTable.lookup] at h
  have hkey := List.find?_some h
  exact ⟨List.mem_of_find?_eq_some h, of_decide_eq_true hkey⟩

theorem lookup_none {brtab : BlockRefTable} {key : BlockRefTableKey} (h : brtab.lookup key = none) :
    key ∉ brtab.map BlockRefTableEntry.key := by
  intro hmem
  obtain ⟨entry, hentry, hkey⟩ := List.mem_map.mp hmem
  exact List.find?_eq_none.mp h entry hentry (decide_eq_true hkey)

theorem lookup_of_mem {brtab : BlockRefTable} (hnodup : (brtab.map BlockRefTableEntry.key).Nodup) (hmem : entry ∈ brtab) :
    brtab.lookup entry.key = some entry := by
  cases hlookup : brtab.lookup entry.key with
  | none => exact absurd (List.mem_map_of_mem hmem) (lookup_none hlookup)
  | some found =>
    obtain ⟨hfound, hkey⟩ := lookup_some hlookup
    rw [List.inj_on_of_nodup_map hnodup hfound hmem hkey]

theorem map_key_store (brtab : BlockRefTable) (entry : BlockRefTableEntry) :
    (brtab.store entry).map BlockRefTableEntry.key = brtab.map BlockRefTableEntry.key := by
  rw [BlockRefTable.store, List.map_map]
  apply List.map_congr_left
  intro entry' _
  rw [Function.comp_apply]
  split
  · next hkey => exact hkey.symm
  · rfl

theorem mem_touched_append {ops : List TableOp} {op : TableOp} {key : BlockRefTableKey} :
    (∃ op' ∈ ops ++ [op], op'.key = key) ↔ (∃ op' ∈ ops, op'.key = key) ∨ op.key = key := by
  refine ⟨?_, ?_⟩
  · rintro ⟨op', hop', hkey⟩
    rcases List.mem_append.mp hop' with hold | hnew
    · exact .inl ⟨op', hold, hkey⟩
    · exact .inr (List.mem_singleton.mp hnew ▸ hkey)
  · rintro (⟨op', hop', hkey⟩ | hkey)
    · exact ⟨op', List.mem_append_left _ hop', hkey⟩
    · exact ⟨op, List.mem_append_right _ (List.mem_singleton_self op), hkey⟩

section Step

variable {brtab : BlockRefTable} {ops : List TableOp} {op : TableOp}

theorem TableHolds.append (h : TableHolds brtab ops) (hlookup : brtab.lookup op.key = none) (hkey : entry.key = op.key)
    (hentry : EntryHolds entry (op.onFork Fork.untouched)) : TableHolds (brtab ++ [entry]) (ops ++ [op]) := by
  have hnone := lookup_none hlookup
  refine ⟨?_, fun entry' hentry' => ?_, fun key => ?_⟩
  · rw [List.map_append, List.map_singleton, hkey, ← List.concat_eq_append]
    exact h.nodup.concat hnone
  · rw [forkAfter_append]
    rcases List.mem_append.mp hentry' with hold | hnew
    · rw [if_neg]
      · exact h.entry entry' hold
      · intro heq
        exact hnone (heq ▸ List.mem_map_of_mem hold)
    · have huntouched := forkAfter_untouched fun htouched => hnone ((h.touched op.key).mpr htouched)
      rw [List.mem_singleton.mp hnew, if_pos hkey.symm, hkey, huntouched]
      exact hentry
  · rw [List.map_append, List.mem_append, h.touched, List.map_singleton, List.mem_singleton, mem_touched_append, hkey,
      eq_comm]

theorem TableHolds.store (h : TableHolds brtab ops) {found : BlockRefTableEntry} (hlookup : brtab.lookup op.key = some found)
    (hkey : entry.key = found.key) (hentry : EntryHolds entry (op.onFork (forkAfter ops found.key))) :
    TableHolds (brtab.store entry) (ops ++ [op]) := by
  obtain ⟨hmem, hfound⟩ := lookup_some hlookup
  refine ⟨?_, fun entry' hentry' => ?_, fun key => ?_⟩
  · rw [map_key_store]
    exact h.nodup
  · rw [forkAfter_append]
    obtain ⟨old, hold, rfl⟩ := List.mem_map.mp hentry'
    split
    · next hsame =>
      rw [hkey, hfound, if_pos rfl, ← hfound]
      exact hentry
    · next hother =>
      rw [if_neg]
      · exact h.entry old hold
      · intro heq
        exact hother (by rw [hkey, hfound, heq])
  · rw [map_key_store, h.touched, mem_touched_append]
    refine (or_iff_left_of_imp fun heq => ?_).symm
    rw [← h.touched, ← heq, ← hfound]
    exact List.mem_map_of_mem hmem

theorem TableHolds.run (h : TableHolds brtab ops) : ∃ brtab', op.run brtab = some brtab' ∧ TableHolds brtab' (ops ++ [op]) := by
  cases op with
  | mark key blknum junk =>
    rw [TableOp.run, blockRefTableMarkBlockModified]
    cases hlookup : brtab.lookup key with
    | none =>
      have hnew : EntryHolds ⟨key, invalidBlockNumber, []⟩ Fork.untouched :=
        @entryHolds_new key Fork.untouched rfl
      obtain ⟨entry', heq, hkey, hentry⟩ := hnew.markBlock junk blknum
      dsimp only
      rw [heq]
      exact ⟨_, rfl, h.append hlookup hkey hentry⟩
    | some found =>
      obtain ⟨hmem, _⟩ := lookup_some hlookup
      obtain ⟨entry', heq, hkey, hentry⟩ := (h.entry found hmem).markBlock junk blknum
      dsimp only
      rw [heq]
      exact ⟨_, rfl, @TableHolds.store _ _ _ (.mark key blknum junk) h _ hlookup hkey hentry⟩
  | setLimit key limitBlock =>
    rw [TableOp.run, blockRefTableSetLimitBlock]
    cases hlookup : brtab.lookup key with
    | none =>
      obtain ⟨hlimit, hnone⟩ := setLimit_untouched limitBlock
      have hentry := entryHolds_new key hnone
      rw [hlimit] at hentry
      exact ⟨_, rfl, @TableHolds.append _ _ _ (.setLimit key limitBlock) h hlookup rfl hentry⟩
    | some found =>
      obtain ⟨hmem, _⟩ := lookup_some hlookup
      obtain ⟨entry', heq, hkey, hentry⟩ := (h.entry found hmem).setLimit limitBlock
      dsimp only
      rw [heq]
      exact ⟨_, rfl, @TableHolds.store _ _ _ (.setLimit key limitBlock) h _ hlookup hkey hentry⟩

end Step

theorem TableHolds.runOps {ops : List TableOp} {brtab : BlockRefTable} {done : List TableOp} (h : TableHolds brtab done) :
    ∃ brtab', runOps brtab ops = some brtab' ∧ TableHolds brtab' (done ++ ops) := by
  induction ops generalizing brtab done with
  | nil => exact ⟨brtab, rfl, (List.append_nil done).symm ▸ h⟩
  | cons op ops ih =>
    obtain ⟨brtab₁, hrun, h₁⟩ := @TableHolds.run _ _ op h
    obtain ⟨brtab₂, hruns, h₂⟩ := ih h₁
    refine ⟨brtab₂, ?_, ?_⟩
    · rw [BlockRef.runOps, hrun, Option.bind_eq_bind, Option.bind_some]
      exact hruns
    · rw [List.append_assoc, List.singleton_append] at h₂
      exact h₂

theorem tableHolds_empty : TableHolds [] [] := by
  refine ⟨List.nodup_nil, fun entry hentry => absurd hentry List.not_mem_nil, fun key => ?_⟩
  refine iff_of_false List.not_mem_nil ?_
  rintro ⟨op, hop, _⟩
  exact List.not_mem_nil hop

theorem runOps_holds (ops : List TableOp) : ∃ brtab, runOps [] ops = some brtab ∧ TableHolds brtab ops :=
  tableHolds_empty.runOps

end CdcKafka.BlockRef
