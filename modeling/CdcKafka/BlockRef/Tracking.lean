import CdcKafka.BlockRef.Entry
import Mathlib.Data.Finset.Filter
import Mathlib.Data.Finset.Insert
import Mathlib.Data.List.Nodup

/-! What a block reference table keeps track of: the marked blocks of each fork, and its limit. -/

namespace CdcKafka.BlockRef

open CdcKafka.Lib

variable {c c' : Chunk} {P : UInt16 → Prop} {junk : Nat → UInt16}

def Chunk.entries (c : Chunk) : List UInt16 := (List.range' 0 c.usage).map c.data

def Chunk.Sized (c : Chunk) : Prop := c.size = 0 ∨ ∃ k ≤ 8, c.size = 16 * 2 ^ k

structure BitmapHolds (c : Chunk) (P : UInt16 → Prop) : Prop where
  size : c.size = maxEntriesPerChunk
  usage : c.usage = maxEntriesPerChunk
  bits : ∀ o, P o ↔ hasBit c.data o.toNat = true

structure ArrayHolds (c : Chunk) (P : UInt16 → Prop) : Prop where
  sized : c.Sized
  lt : c.usage < maxEntriesPerChunk
  le : c.usage ≤ c.size
  nodup : c.entries.Nodup
  mem : ∀ o, P o ↔ o ∈ c.entries

def ChunkHolds (c : Chunk) (P : UInt16 → Prop) : Prop := BitmapHolds c P ∨ ArrayHolds c P

theorem ArrayHolds.usage_ne (h : ArrayHolds c P) : c.usage ≠ maxEntriesPerChunk := h.lt.ne

theorem get_eq {i : Nat} (h : i < c.size) : c.get i = some (c.data i) := if_pos h

theorem put_eq {i : Nat} {w : UInt16} (h : i < c.size) :
    c.put i w = some { c with data := Function.update c.data i w } := if_pos h

theorem holds_empty : ChunkHolds Chunk.empty fun _ => False := by
  refine .inr ⟨.inl rfl, by decide, Nat.le_refl 0, List.nodup_nil, fun o => ?_⟩
  exact iff_of_false id List.not_mem_nil

theorem ChunkHolds.congr {Q : UInt16 → Prop} (h : ChunkHolds c P) (hPQ : ∀ o, P o ↔ Q o) : ChunkHolds c Q := by
  rcases h with h | h
  · exact .inl ⟨h.size, h.usage, fun o => (hPQ o).symm.trans (h.bits o)⟩
  · exact .inr ⟨h.sized, h.lt, h.le, h.nodup, fun o => (hPQ o).symm.trans (h.mem o)⟩

theorem ChunkHolds.discard (h : ChunkHolds c P) : ChunkHolds { c with usage := 0 } fun _ => False := by
  have hsized : c.Sized := by
    rcases h with h | h
    · exact .inr ⟨8, Nat.le_refl 8, h.size⟩
    · exact h.sized
  have hzero : 0 < maxEntriesPerChunk := by decide
  refine .inr ⟨hsized, hzero, Nat.zero_le _, List.nodup_nil, fun o => ?_⟩
  exact iff_of_false id List.not_mem_nil

theorem filterBelow_eq {d : Nat → UInt16} (limit left i j : Nat) (hji : j ≤ i) (hsize : i + left ≤ c.size)
    (hrest : ∀ m, i ≤ m → c.data m = d m) :
    ∃ c', filterBelow limit left i j c = some c' ∧ c'.size = c.size ∧ c'.usage ≤ j + left ∧
      c'.entries = (List.range' 0 j).map c.data ++ ((List.range' i left).map d).filter fun w => w.toNat < limit := by
  induction left generalizing i j c with
  | zero =>
    refine ⟨{ c with usage := j }, rfl, rfl, Nat.le_refl j, ?_⟩
    exact (List.append_nil _).symm
  | succ left ih =>
    have hget : c.get i = some (d i) := by
      rw [get_eq (by omega), hrest i (Nat.le_refl i)]
    rw [filterBelow, hget, Option.bind_eq_bind, Option.bind_some, List.range'_succ, List.map_cons, List.filter_cons]
    by_cases hlow : (d i).toNat < limit
    · have hput : c.put j (d i) = some { c with data := Function.update c.data j (d i) } := put_eq (by omega)
      have hkept : (List.range' 0 j).map (Function.update c.data j (d i)) = (List.range' 0 j).map c.data := by
        apply List.map_congr_left
        intro m hm
        rw [List.mem_range'_1] at hm
        exact Function.update_of_ne (by omega) _ _
      have hrest' : ∀ m, i + 1 ≤ m → Function.update c.data j (d i) m = d m := by
        intro m hm
        rw [Function.update_of_ne (by omega), hrest m (by omega)]
      rw [if_pos hlow, if_pos (decide_eq_true hlow), hput, Option.bind_eq_bind, Option.bind_some]
      obtain ⟨c', heq, hsize', husage, hentries⟩ :=
        @ih { c with data := Function.update c.data j (d i) } (i + 1) (j + 1) (by omega) (by dsimp only; omega) hrest'
      refine ⟨c', heq, hsize', by omega, ?_⟩
      rw [hentries, List.range'_1_concat, List.map_append, hkept, List.map_singleton, Nat.zero_add]
      dsimp only
      rw [Function.update_self, List.append_assoc, List.singleton_append]
    · rw [if_neg hlow, if_neg (by rw [decide_eq_true_iff]; exact hlow)]
      obtain ⟨c', heq, hsize', husage, hentries⟩ :=
        ih (i + 1) j (by omega) (by omega) fun m hm => hrest m (by omega)
      exact ⟨c', heq, hsize', by omega, hentries⟩

theorem clearBits_eq (offset : Nat) (hsize : c.size = maxEntriesPerChunk) :
    ∃ c', clearBits c offset = some c' ∧ c'.size = c.size ∧ c'.usage = c.usage ∧
      ∀ o < blocksPerChunk, hasBit c'.data o = true ↔ o < offset ∧ hasBit c.data o = true := by
  induction hn : blocksPerChunk - offset generalizing c offset with
  | zero =>
    refine ⟨c, ?_, rfl, rfl, fun o ho => ?_⟩
    · rw [clearBits, if_neg (by omega)]
    · rw [and_iff_right (by omega)]
  | succ n ih =>
    have hin : offset / blocksPerEntry < c.size := by
      have hchunk : blocksPerChunk = 65536 := rfl
      rw [hsize]
      change offset / 16 < 65536 / 16
      omega
    obtain ⟨c', heq, hsize', husage, hbits⟩ :=
      @ih { c with data := clearBit c.data offset } (offset + 1) hsize (by omega)
    refine ⟨c', ?_, hsize', husage, fun o ho => ?_⟩
    · rw [clearBits, if_pos (by omega), if_pos hin]
      exact heq
    · rw [hbits o ho, hasBit_clearBit, ← and_assoc]
      apply and_congr_left
      intro _
      omega

theorem ChunkHolds.limit (h : ChunkHolds c P) (limit : Nat) :
    ∃ c', limitChunk c limit = some c' ∧ ChunkHolds c' fun o => o.toNat < limit ∧ P o := by
  rcases h with h | h
  · obtain ⟨c', heq, hsize, husage, hbits⟩ := clearBits_eq limit h.size
    refine ⟨c', ?_, .inl ⟨hsize.trans h.size, husage.trans h.usage, fun o => ?_⟩⟩
    · rw [limitChunk, if_pos h.usage, heq]
    · rw [hbits o.toNat o.toNat_lt, h.bits o]
  · obtain ⟨c', heq, hsize, husage, hentries⟩ :=
      filterBelow_eq limit c.usage 0 0 (Nat.le_refl 0) (by rw [Nat.zero_add]; exact h.le) fun m _ => rfl
    have hlt := h.lt
    have hle := h.le
    have hfiltered : c'.entries = c.entries.filter fun w => w.toNat < limit := hentries
    refine ⟨c', ?_, .inr ⟨?_, by omega, by omega, ?_, fun o => ?_⟩⟩
    · rw [limitChunk, if_neg h.usage_ne, heq]
    · rw [Chunk.Sized, hsize]
      exact h.sized
    · rw [hfiltered]
      exact h.nodup.filter _
    · rw [hfiltered, List.mem_filter, decide_eq_true_iff, h.mem o, and_comm]

theorem hasOffset_eq (offset : UInt16) (left i : Nat) (hsize : i + left ≤ c.size) :
    hasOffset c offset left i = some (decide (offset ∈ (List.range' i left).map c.data)) := by
  induction left generalizing i with
  | zero => exact congrArg some (decide_eq_false List.not_mem_nil).symm
  | succ left ih =>
    rw [hasOffset, get_eq (by omega), Option.bind_eq_bind, Option.bind_some, List.range'_succ, List.map_cons]
    by_cases heq : c.data i = offset
    · have hmem : offset ∈ c.data i :: (List.range' (i + 1) left).map c.data := by
        rw [heq]
        exact List.mem_cons_self
      rw [if_pos heq, decide_eq_true hmem]
    · rw [if_neg heq, ih (i + 1) (by omega)]
      congr 1
      apply decide_eq_decide.mpr
      rw [List.mem_cons]
      exact (or_iff_right (Ne.symm heq)).symm

theorem toBitmap_eq (newchunk : Nat → UInt16) (left j : Nat) (hsize : j + left ≤ c.size) :
    ∃ bitmap, toBitmap c left j newchunk = some bitmap ∧ ∀ o : UInt16, hasBit bitmap o.toNat = true ↔
      o ∈ (List.range' j left).map c.data ∨ hasBit newchunk o.toNat = true := by
  induction left generalizing j newchunk with
  | zero => exact ⟨newchunk, rfl, fun o => (or_iff_right List.not_mem_nil).symm⟩
  | succ left ih =>
    obtain ⟨bitmap, heq, hbits⟩ := ih (setBit newchunk (c.data j).toNat) (j + 1) (by omega)
    refine ⟨bitmap, ?_, fun o => ?_⟩
    · rw [toBitmap, get_eq (by omega), Option.bind_eq_bind, Option.bind_some]
      exact heq
    · rw [hbits o, hasBit_setBit, List.range'_succ, List.map_cons, List.mem_cons, UInt16.toNat_inj, or_left_comm, or_assoc]

theorem enlargeChunk_sized (h : ArrayHolds c P) (hsize : c.size ≠ 0) (hlast : c.usage ≠ maxEntriesPerChunk - 1) :
    (enlargeChunk junk c).Sized ∧ c.usage < (enlargeChunk junk c).size := by
  rcases h.sized with hzero | ⟨k, hk, hpow⟩
  · exact absurd hzero hsize
  by_cases hfull : c.usage = c.size
  · rw [enlargeChunk, if_pos hfull]
    -- The size of a full array is below that of a bitmap.
    have hne : k ≠ 8 := by
      intro heq
      rw [heq] at hpow
      have hlt := h.lt
      have hmax : maxEntriesPerChunk = 16 * 2 ^ 8 := by decide
      omega
    refine ⟨.inr ⟨k + 1, by omega, ?_⟩, by dsimp only; omega⟩
    dsimp only
    rw [hpow, Nat.pow_succ, Nat.mul_assoc]
  · have hle := h.le
    rw [enlargeChunk, if_neg hfull]
    exact ⟨h.sized, by omega⟩

theorem enlargeChunk_data : (List.range' 0 c.usage).map (enlargeChunk junk c).data = c.entries := by
  by_cases hfull : c.usage = c.size
  · rw [enlargeChunk, if_pos hfull]
    apply List.map_congr_left
    intro m hm
    rw [List.mem_range'_1] at hm
    exact if_pos (by omega)
  · rw [enlargeChunk, if_neg hfull]
    rfl

theorem ArrayHolds.append (h : ArrayHolds c P) (hsize : c.size ≠ 0) (hlast : c.usage ≠ maxEntriesPerChunk - 1)
    {offset : UInt16} (hnew : offset ∉ c.entries) :
    ∃ c', ((enlargeChunk junk c).put c.usage offset).map (fun c => { c with usage := c.usage + 1 }) = some c' ∧
      ArrayHolds c' fun o => o = offset ∨ P o := by
  obtain ⟨hsized, hroom⟩ := @enlargeChunk_sized c P junk h hsize hlast
  have husage : (enlargeChunk junk c).usage = c.usage := by
    rw [enlargeChunk]
    split <;> rfl
  have hlt := h.lt
  rw [put_eq hroom, Option.map_some]
  refine ⟨_, rfl, ?_⟩
  have hentries : (List.range' 0 (c.usage + 1)).map (Function.update (enlargeChunk junk c).data c.usage offset) =
      c.entries ++ [offset] := by
    rw [List.range'_1_concat, List.map_append, List.map_singleton, Nat.zero_add, Function.update_self,
      ← @enlargeChunk_data c junk]
    congr 1
    apply List.map_congr_left
    intro m hm
    rw [List.mem_range'_1] at hm
    exact Function.update_of_ne (by omega) _ _
  refine ⟨hsized, ?_, ?_, ?_, fun o => ?_⟩
  · dsimp only
    omega
  · dsimp only
    omega
  · rw [Chunk.entries]
    dsimp only
    rw [husage, hentries]
    exact List.concat_eq_append ▸ h.nodup.concat hnew
  · rw [Chunk.entries]
    dsimp only
    rw [husage, hentries, List.mem_append, List.mem_singleton, h.mem o, or_comm]

theorem ChunkHolds.mark (h : ChunkHolds c P) (offset : UInt16) :
    ∃ c', markInChunk junk c offset = some c' ∧ ChunkHolds c' fun o => o = offset ∨ P o := by
  rcases h with h | h
  · have hsize : c.size ≠ 0 := by
      rw [h.size]
      decide
    have hin : offset.toNat / blocksPerEntry < c.size := by
      have hlt := offset.toNat_lt
      rw [h.size]
      change offset.toNat / 16 < 65536 / 16
      omega
    rw [markInChunk, if_neg hsize, if_pos h.usage, if_pos hin]
    refine ⟨_, rfl, .inl ⟨h.size, h.usage, fun o => ?_⟩⟩
    rw [hasBit_setBit, h.bits o, UInt16.toNat_inj]
  · by_cases hsize : c.size = 0
    · have husage : c.usage = 0 := Nat.eq_zero_of_le_zero (hsize ▸ h.le)
      have hnone : c.entries = [] := by
        rw [Chunk.entries, husage]
        rfl
      have hone : 1 < maxEntriesPerChunk := by decide
      rw [markInChunk, if_pos hsize]
      refine ⟨_, rfl, .inr ⟨.inr ⟨0, Nat.zero_le 8, rfl⟩, hone, ?_, List.nodup_singleton _, fun o => ?_⟩⟩
      · change 1 ≤ 16
        decide
      · rw [h.mem o, hnone, or_iff_left List.not_mem_nil, Chunk.entries]
        dsimp only
        rw [List.range'_one, List.map_singleton, Function.update_self, List.mem_singleton]
    · have hhas : hasOffset c offset c.usage 0 = some (decide (offset ∈ c.entries)) :=
        hasOffset_eq offset c.usage 0 (by rw [Nat.zero_add]; exact h.le)
      rw [markInChunk, if_neg hsize, if_neg h.usage_ne, hhas]
      by_cases hmem : offset ∈ c.entries
      · rw [decide_eq_true hmem]
        refine ⟨c, rfl, ChunkHolds.congr (.inr h) fun o => ?_⟩
        refine (or_iff_right_of_imp fun heq => ?_).symm
        rw [heq, h.mem offset]
        exact hmem
      · rw [decide_eq_false hmem]
        dsimp only
        by_cases hlast : c.usage = maxEntriesPerChunk - 1
        · obtain ⟨bitmap, heq, hbits⟩ := toBitmap_eq (fun _ => 0) c.usage 0 (by rw [Nat.zero_add]; exact h.le)
          rw [if_pos hlast, heq, Option.map_some]
          refine ⟨_, rfl, .inl ⟨rfl, rfl, fun o => ?_⟩⟩
          rw [hasBit_setBit, hbits o, hasBit_zero, UInt16.toNat_inj, h.mem o, or_iff_left (by decide : ¬false = true)]
          rfl
        · rw [if_neg hlast]
          obtain ⟨c', heq, hc'⟩ := @ArrayHolds.append c P junk h hsize hlast offset hmem
          exact ⟨c', heq, .inr hc'⟩

end CdcKafka.BlockRef
