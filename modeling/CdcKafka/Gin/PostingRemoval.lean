import CdcKafka.Gin.PostingRoundTrip

/-! That a posting list does not grow when items are removed from it. -/

namespace CdcKafka.Gin

open CdcKafka.Lib

variable {ip : ItemPointerData} {ipd sub : List ItemPointerData} {prev prev' maxsize : Nat}

theorem Above.mono (h : Above prev ipd) (hle : prev' ≤ prev) : Above prev' ipd := by
  cases ipd with
  | nil => trivial
  | cons ip ipd => exact ⟨h.1, Nat.lt_of_le_of_lt hle h.2.1, h.2.2⟩

theorem Above.sublist (h : Above prev ipd) (hsub : sub.Sublist ipd) : Above prev sub := by
  induction hsub generalizing prev with
  | slnil => trivial
  | cons ip hsub ih => exact ih (h.2.2.mono h.2.1.le)
  | cons_cons ip hsub ih => exact ⟨h.1, h.2.1, ih h.2.2⟩

theorem length_packedFrom_skip (hle : prev ≤ prev') (h : Above prev' sub) :
    (packedFrom prev sub).length ≤ (encodeVarbyte (prev' - prev)).length + (packedFrom prev' sub).length := by
  cases sub with
  | nil => exact Nat.zero_le _
  | cons ip sub =>
    have hlt := h.2.1
    have hsum : itemptrToUint64 ip - prev = prev' - prev + (itemptrToUint64 ip - prev') := by omega
    have hadd := length_encodeVarbyte_add (prev' - prev) (itemptrToUint64 ip - prev')
    rw [packedFrom, packedFrom, List.length_append, List.length_append, hsum]
    omega

theorem length_packedFrom_sublist (h : Above prev ipd) (hsub : sub.Sublist ipd) :
    (packedFrom prev sub).length ≤ (packedFrom prev ipd).length := by
  induction hsub generalizing prev with
  | slnil => exact Nat.le_refl _
  | cons ip hsub ih =>
    have hskip := length_packedFrom_skip h.2.1.le (h.2.2.sublist hsub)
    have hbehind := ih h.2.2
    rw [packedFrom, List.length_append]
    omega
  | cons_cons ip hsub ih =>
    rw [packedFrom, packedFrom, List.length_append, List.length_append]
    exact Nat.add_le_add_left (ih h.2.2) _

theorem length_packedFrom_cons_le (prev : Nat) (ip : ItemPointerData) (ipd : List ItemPointerData) :
    (packedFrom (itemptrToUint64 ip) ipd).length ≤ (packedFrom prev (ip :: ipd)).length := by
  rw [packedFrom, List.length_append]
  exact Nat.le_add_left _ _

theorem length_packed_sublist (h : Increasing ipd) (hsub : sub.Sublist ipd) :
    (packed sub).length ≤ (packed ipd).length := by
  cases hsub with
  | slnil => exact Nat.le_refl _
  | cons first hsub =>
    cases sub with
    | nil => exact Nat.zero_le _
    | cons ip sub =>
      exact Nat.le_trans (length_packedFrom_cons_le _ ip sub) (length_packedFrom_sublist h.above hsub)
  | cons_cons first hsub => exact length_packedFrom_sublist h.above hsub

theorem Increasing.sublist (h : Increasing ipd) (hsub : sub.Sublist ipd) : Increasing sub :=
  ⟨h.sorted.sublist hsub, fun ip hip => h.offsets ip (hsub.subset hip)⟩

theorem shortalign_mono {m n : Nat} (h : m ≤ n) : shortalign m ≤ shortalign n :=
  Nat.mul_le_mul_right 2 (Nat.div_le_div_right (Nat.succ_le_succ h))

theorem ginCompress_complete (h : Increasing ipd) (hne : ipd ≠ []) (hfits : segmentSize ipd ≤ maxsize) :
    ∃ seg, ginCompressPostingList ipd maxsize = some (seg, ipd.length) ∧
      seg.nbytes = UInt16.ofNat (packed ipd).length := by
  obtain ⟨seg, n, hcompress, hseg⟩ := ginCompress_eq h hne (Nat.le_trans (Nat.le_add_right _ _) hfits)
  have hall : n = ipd.length := by
    by_contra hpart
    have hle := hseg.le
    have hnext := hseg.next (by omega)
    have hprefix := shortalign_mono (length_packed_take (n + 1) ipd)
    rw [segmentSize] at hfits hnext
    omega
  subst hall
  refine ⟨seg, hcompress, ?_⟩
  rw [hseg.nbytes, List.take_length]

theorem header_of_ginCompress {p : GinPostingList × Nat} (h : ginCompressPostingList ipd maxsize = some p) :
    sizeOfHeader ≤ maxsize := by
  cases ipd with
  | nil => cases h
  | cons first ipd =>
    rw [ginCompressPostingList] at h
    split at h
    · cases h
    · next hdown =>
      rw [shortalignDown] at hdown
      omega

theorem segmentSize_of_complete {seg : GinPostingList} (h : Increasing ipd)
    (hcompress : ginCompressPostingList ipd maxsize = some (seg, ipd.length)) :
    segmentSize ipd ≤ maxsize ∧ seg.nbytes = UInt16.ofNat (packed ipd).length := by
  have hne : ipd ≠ [] := by
    rintro rfl
    cases hcompress
  obtain ⟨seg', n, hcompress', hseg⟩ := ginCompress_eq h hne (header_of_ginCompress hcompress)
  rw [hcompress'] at hcompress
  cases hcompress
  have hfits := hseg.fits
  have hnbytes := hseg.nbytes
  rw [List.take_length] at hfits hnbytes
  exact ⟨hfits, hnbytes⟩

theorem size_of_nbytes {seg : GinPostingList} (h : seg.nbytes = UInt16.ofNat (packed ipd).length)
    (hshort : (packed ipd).length < 2 ^ 16) : seg.size = segmentSize ipd := by
  have hnbytes : (UInt16.ofNat (packed ipd).length).toNat = (packed ipd).length := UInt16.toNat_ofNat_of_lt hshort
  rw [GinPostingList.size, h, hnbytes, segmentSize]

theorem removed_items_never_grow {seg : GinPostingList} (h : Increasing ipd)
    (hcompress : ginCompressPostingList ipd maxsize = some (seg, ipd.length)) (hsub : sub.Sublist ipd)
    (hne : sub ≠ []) :
    (packed sub).length ≤ (packed ipd).length ∧ ∃ seg', ginCompressPostingList sub maxsize = some (seg', sub.length) ∧
        ((packed ipd).length < 2 ^ 16 → seg'.size ≤ seg.size) := by
  obtain ⟨hfits, hnbytes⟩ := segmentSize_of_complete h hcompress
  have hle := length_packed_sublist h hsub
  have hsize : segmentSize sub ≤ segmentSize ipd := Nat.add_le_add_left (shortalign_mono hle) _
  obtain ⟨seg', hcompress', hnbytes'⟩ := ginCompress_complete (h.sublist hsub) hne (Nat.le_trans hsize hfits)
  refine ⟨hle, seg', hcompress', fun hshort => ?_⟩
  rw [size_of_nbytes hnbytes' (Nat.lt_of_le_of_lt hle hshort), size_of_nbytes hnbytes hshort]
  exact hsize

theorem removed_items_never_grow_one : ∃ seg seg', ginCompressPostingList [⟨1, 1⟩, ⟨1, 2⟩] 10 = some (seg, 2) ∧
      ginCompressPostingList [⟨1, 2⟩] 10 = some (seg', 1) ∧ seg'.size ≤ seg.size := by
  have hinc : Increasing [⟨1, 1⟩, ⟨1, 2⟩] := ⟨by decide, by decide⟩
  have hcode : packed [⟨1, 1⟩, ⟨1, 2⟩] = [1] := by decide +kernel
  obtain ⟨seg, hcompress, -⟩ := ginCompress_complete hinc (List.cons_ne_nil _ _)
    (by rw [segmentSize, hcode]; decide : segmentSize [⟨1, 1⟩, ⟨1, 2⟩] ≤ 10)
  have hsub : List.Sublist [⟨1, 2⟩] [(⟨1, 1⟩ : ItemPointerData), ⟨1, 2⟩] := List.sublist_cons_self _ _
  obtain ⟨-, seg', hcompress', hsize⟩ := removed_items_never_grow hinc hcompress hsub (List.cons_ne_nil _ _)
  exact ⟨seg, seg', hcompress, hcompress', hsize (by rw [hcode]; decide)⟩

/-- Without its last item the list has 65534 bytes, and with it 65536, of which none is counted. -/
theorem uncounted_list_smaller : Increasing (blockStarts 0 32769) ∧ ∃ seg seg',
    ginCompressPostingList (blockStarts 0 32769) 65544 = some (seg, (blockStarts 0 32769).length) ∧
      (blockStarts 0 32768).Sublist (blockStarts 0 32769) ∧
      ginCompressPostingList (blockStarts 0 32768) 65544 = some (seg', (blockStarts 0 32768).length) ∧
      seg.size < seg'.size := by
  refine ⟨increasing_blockStarts (by decide), ?_⟩
  obtain ⟨seg, hcompress, hnbytes, -⟩ :=
    compressed_blockStarts (by decide : 32768 < 2 ^ 32) (by decide : sizeOfHeader + shortalign (2 * 32768) ≤ 65544)
  obtain ⟨seg', hcompress', hnbytes', -⟩ :=
    compressed_blockStarts (by decide : 32767 < 2 ^ 32) (by decide : sizeOfHeader + shortalign (2 * 32767) ≤ 65544)
  rw [length_blockStarts, length_blockStarts]
  refine ⟨seg, seg', hcompress, ?_, hcompress', ?_⟩
  · have hrange : List.range' 0 32769 = List.range' 0 32768 ++ [32768] := List.range'_1_concat
    rw [blockStarts, blockStarts, hrange, List.map_append]
    exact List.sublist_append_left _ _
  · rw [GinPostingList.size, GinPostingList.size, hnbytes, hnbytes']
    decide

end CdcKafka.Gin
