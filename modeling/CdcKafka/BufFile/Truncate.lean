import CdcKafka.BufFile.Flat

/-! Truncating a file of a file set, and rolling a spool file back to a position that was told
while it was written. -/

namespace CdcKafka.BufFile
open CdcKafka.Lib

/-- Segment `fileno + n` and those below it down to `fileno` are deleted or cut. Carries the
segments that are left, and the segment and offset where the file now ends. -/
def truncateLoop (g : Geometry) (fileno offset : Nat) : Nat → List Segment × Nat × Nat → List Segment × Nat × Nat
  | 0, s => s
  | n + 1, (files, newFile, _) =>
    let i := fileno + n
    if (i ≠ fileno ∨ offset = 0) ∧ i ≠ 0 then
      truncateLoop g fileno offset n (files.take i, if i = fileno then newFile - 1 else newFile, g.maxPhysicalFilesize)
    else
      truncateLoop g fileno offset n (files.set i (fileTruncate (files.getD i []) offset), newFile, offset)

def truncateFileSet (g : Geometry) (file : File) (fileno offset : Nat) : File :=
  let (files, newFile, newOffset) :=
    truncateLoop g fileno offset (file.numFiles - fileno) (file.files, fileno, file.curOffset)
  let file := { file with files := files }
  if newFile = file.curFile ∧ file.curOffset ≤ newOffset ∧ newOffset ≤ file.curOffset + file.nbytes then
    { file with
      pos := if newOffset ≤ file.curOffset + file.pos then newOffset - file.curOffset else file.pos
      buffer := file.buffer.take (newOffset - file.curOffset) }
  else if newFile = file.curFile ∧ newOffset < file.curOffset then
    { file with curOffset := newOffset, pos := 0, buffer := [] }
  else if newFile < file.curFile then
    { file with curFile := newFile, curOffset := newOffset, pos := 0, buffer := [] }
  else file

variable {g : Geometry} {files : List Segment} {fileno offset : Nat}

def truncated (files : List Segment) (fileno offset : Nat) : List Segment :=
  if files.length ≤ fileno then files
  else if offset = 0 ∧ fileno ≠ 0 then files.take fileno
  else files.take fileno ++ [fileTruncate (files.getD fileno []) offset]

theorem truncateLoop_files (n : Nat) (hlen : files.length = fileno + n) (newFile newOffset : Nat) :
    (truncateLoop g fileno offset n (files, newFile, newOffset)).1 = truncated files fileno offset := by
  induction n generalizing files newFile newOffset with
  | zero => simp [truncateLoop, truncated, hlen]
  | succ n ih =>
    have hnot : ¬ files.length ≤ fileno := by omega
    cases n with
    | zero =>
      -- the last turn is about the given segment itself
      by_cases hdel : offset = 0 ∧ fileno ≠ 0
      · simp [truncateLoop, truncated, hnot, hdel]
      · have hkeep : ¬ ((fileno + 0 ≠ fileno ∨ offset = 0) ∧ fileno + 0 ≠ 0) := by simpa using hdel
        rw [truncateLoop, if_neg hkeep, truncateLoop, truncated, if_neg hnot, if_neg hdel, Nat.add_zero]
        show files.set fileno _ = _
        rw [List.set_eq_take_append_cons_drop, if_pos (by omega), List.drop_eq_nil_of_le (by omega)]
    | succ n =>
      have hdel : (fileno + (n + 1) ≠ fileno ∨ offset = 0) ∧ fileno + (n + 1) ≠ 0 := ⟨Or.inl (by omega), by omega⟩
      have hshort : (files.take (fileno + (n + 1))).length = fileno + (n + 1) := by
        rw [List.length_take]; omega
      rw [truncateLoop, if_pos hdel, ih hshort]
      -- the segments up to the given one are as before
      have hnot' : ¬ (files.take (fileno + (n + 1))).length ≤ fileno := by omega
      have hget : (files.take (fileno + (n + 1))).getD fileno [] = files.getD fileno [] := by
        simp [List.getD_eq_getElem?_getD]
      simp only [truncated, if_neg hnot, if_neg hnot', List.take_take, hget]
      rw [Nat.min_eq_left (by omega)]

theorem truncateFileSet_files (file : File) (fileno offset : Nat) :
    (truncateFileSet g file fileno offset).files = truncated file.files fileno offset ∧
      (truncateFileSet g file fileno offset).dirty = file.dirty := by
  have hloop : (truncateLoop g fileno offset (file.numFiles - fileno) (file.files, fileno, file.curOffset)).1 =
      truncated file.files fileno offset := by
    by_cases hle : file.numFiles ≤ fileno
    · have hle' : file.files.length ≤ fileno := hle
      rw [Nat.sub_eq_zero_of_le hle, truncateLoop, truncated, if_pos hle']
    · apply truncateLoop_files
      simp only [File.numFiles] at hle ⊢
      omega
  rw [← hloop]
  unfold truncateFileSet
  generalize truncateLoop g fileno offset (file.numFiles - fileno) (file.files, fileno, file.curOffset) = r
  dsimp only
  split
  · exact ⟨rfl, rfl⟩
  · split
    · exact ⟨rfl, rfl⟩
    · split
      · exact ⟨rfl, rfl⟩
      · exact ⟨rfl, rfl⟩

theorem filled_take (h : Filled g.maxPhysicalFilesize files) (hlt : fileno < files.length) :
    ∀ s ∈ files.take fileno, s.length = g.maxPhysicalFilesize := by
  intro s hs
  obtain ⟨i, hi, rfl⟩ := List.mem_take_iff_getElem.mp hs
  have hfull := h.length_getD (k := i) (by omega)
  rwa [List.getD_eq_getElem _ _ (by omega)] at hfull

theorem truncated_filled (h : Layout g files) (fileno offset : Nat) :
    Filled g.maxPhysicalFilesize (truncated files fileno offset) ∧ truncated files fileno offset ≠ [] := by
  unfold truncated
  by_cases hle : files.length ≤ fileno
  · rw [if_pos hle]
    exact ⟨h.filled, h.ne_nil⟩
  · rw [if_neg hle]
    have htake := filled_take h.filled (Nat.lt_of_not_le hle)
    by_cases hdel : offset = 0 ∧ fileno ≠ 0
    · rw [if_pos hdel]
      refine ⟨fun s hs => htake s (List.dropLast_subset _ hs), ?_⟩
      apply List.ne_nil_of_length_pos
      rw [List.length_take]
      omega
    · rw [if_neg hdel]
      refine ⟨fun s hs => ?_, by simp⟩
      rw [List.dropLast_concat] at hs
      exact htake s hs

theorem truncated_flatten (h : Layout g files) (hle : offset ≤ g.maxPhysicalFilesize)
    (hin : fileno * g.maxPhysicalFilesize + offset ≤ files.flatten.length) :
    (truncated files fileno offset).flatten = files.flatten.take (fileno * g.maxPhysicalFilesize + offset) := by
  have hM := g.max_pos
  have htotal := h.flatten_length_le
  unfold truncated
  by_cases hend : files.length ≤ fileno
  · -- the position is the end of the last segment
    rw [if_pos hend, List.take_of_length_le]
    have := Nat.mul_le_mul_right g.maxPhysicalFilesize hend
    omega
  · rw [if_neg hend]
    have hlt : fileno < files.length := by omega
    have hpre := h.filled.length_take hlt
    have hsplit := flatten_split files fileno
    by_cases hdel : offset = 0 ∧ fileno ≠ 0
    · rw [if_pos hdel, hdel.1, Nat.add_zero, ← hpre]
      conv_rhs => rw [hsplit]
      simp
    · rw [if_neg hdel, List.flatten_append, List.flatten_singleton, ← hpre]
      conv_rhs => rw [hsplit, List.take_length_add_append]
      congr 1
      have hseg : offset ≤ (files.getD fileno []).length := by
        by_cases hlast : fileno + 1 < files.length
        · rw [h.filled.length_getD hlast]
          exact hle
        · have hlen := h.filled.length_flatten h.ne_nil
          have hidx : files.length - 1 = fileno := by omega
          rw [hidx] at hlen
          omega
      rw [fileTruncate, Nat.sub_eq_zero_of_le hseg, List.take_append_of_le_length hseg]
      simp

theorem truncated_flatten_past (h : Layout g files) (hgt : g.maxPhysicalFilesize < offset)
    (hin : fileno * g.maxPhysicalFilesize + offset ≤ files.flatten.length) :
    (truncated files fileno offset).flatten = files.flatten.take ((fileno + 1) * g.maxPhysicalFilesize) ++
        List.replicate (offset - g.maxPhysicalFilesize) 0 := by
  have hM := g.max_pos
  have htotal := h.flatten_length_le
  have hnext : fileno + 1 < files.length := by
    by_contra hge
    have := Nat.mul_le_mul_right g.maxPhysicalFilesize (Nat.le_of_not_lt hge)
    rw [Nat.add_mul] at this
    omega
  have hfull := h.filled.length_getD hnext
  have hpre := h.filled.length_take hnext
  have hshort : (files.getD fileno []).length ≤ offset := by omega
  unfold truncated
  rw [if_neg (by omega), if_neg (by omega), List.flatten_append, List.flatten_singleton, fileTruncate,
    List.take_of_length_le hshort, hfull, ← List.append_assoc]
  congr 1
  have hsplit : files.flatten = (files.take (fileno + 1)).flatten ++ (files.drop (fileno + 1)).flatten := by
    rw [← List.flatten_append, List.take_append_drop]
  conv_rhs => rw [hsplit, ← hpre, List.take_left]
  rw [List.take_succ_eq_append_getElem (by omega), List.flatten_append, List.flatten_singleton,
    List.getD_eq_getElem _ _ (by omega)]

theorem truncated_flatten_iff (h : Layout g files)
    (hin : fileno * g.maxPhysicalFilesize + offset ≤ files.flatten.length) :
    (truncated files fileno offset).flatten = files.flatten.take (fileno * g.maxPhysicalFilesize + offset) ↔
      offset ≤ g.maxPhysicalFilesize ∨ ∀ b ∈ (files.flatten.take (fileno * g.maxPhysicalFilesize + offset)).drop
        ((fileno + 1) * g.maxPhysicalFilesize), b = 0 := by
  by_cases hle : offset ≤ g.maxPhysicalFilesize
  · exact ⟨fun _ => Or.inl hle, fun _ => truncated_flatten h hle hin⟩
  · have hgt : g.maxPhysicalFilesize < offset := by omega
    have hsum : (fileno + 1) * g.maxPhysicalFilesize + (offset - g.maxPhysicalFilesize) =
        fileno * g.maxPhysicalFilesize + offset := by
      rw [Nat.add_mul]; omega
    rw [truncated_flatten_past h hgt hin, ← hsum, List.take_add, List.append_cancel_left_eq]
    have hlen : (files.flatten.take ((fileno + 1) * g.maxPhysicalFilesize)).length =
        (fileno + 1) * g.maxPhysicalFilesize := by
      rw [List.length_take]; omega
    conv_rhs => rw [List.drop_append_of_le_length (by omega), List.drop_eq_nil_of_le (by omega), List.nil_append]
    have hlost : ((files.flatten.drop ((fileno + 1) * g.maxPhysicalFilesize)).take
        (offset - g.maxPhysicalFilesize)).length = offset - g.maxPhysicalFilesize := by
      simp only [List.length_take, List.length_drop]
      omega
    rw [or_iff_right hle, eq_comm, List.eq_replicate_iff]
    exact ⟨fun hz => hz.2, fun hz => ⟨hlost, hz⟩⟩

inductive SpoolCall
  | write (bytes : List UInt8)
  /-- The end of a chunk and the start of the next: the file is closed, opened again and
  positioned at its end. -/
  | reopen

def spoolExec (g : Geometry) (file : File) : SpoolCall → File
  | .write bytes => write g file bytes
  | .reopen => (seek g (openFileSet (close g file)) 0 0 .seekEnd).2

def spool (g : Geometry) (calls : List SpoolCall) : File := calls.foldl (spoolExec g) createFileSet

def SpoolCall.bytes : SpoolCall → List UInt8
  | .write bytes => bytes
  | .reopen => []

def written (calls : List SpoolCall) : List UInt8 := calls.flatMap SpoolCall.bytes

def rolledBack (g : Geometry) (calls : List SpoolCall) (position : Nat × Nat) : File :=
  openFileSet (close g (truncateFileSet g (openFileSet (close g (spool g calls))) position.1 position.2))

theorem Inv.spoolExec {file : File} {data : List UInt8} (h : Inv g file data data.length) (call : SpoolCall) :
    Inv g (spoolExec g file call) (data ++ call.bytes) (data ++ call.bytes).length := by
  cases call with
  | write bytes =>
    have hwrite := h.write fun (_ : bytes ≠ []) => h.not_detached (Nat.le_refl _)
    rw [pwrite_end, ← List.length_append] at hwrite
    exact hwrite
  | reopen =>
    obtain ⟨hlayout, hdata⟩ := h.close
    have hopen := Inv.opened hlayout
    rw [hdata] at hopen
    obtain ⟨-, hinv⟩ := hopen.seek 0 0 .seekEnd fun _ => rfl
    -- the end of the array is inside the segments it has
    have hok : ¬ ((data.length : Int) < 0 ∨ capacity g data.length < (data.length : Int)) := by
      have := h.cursor_le
      omega
    simp only [Flat.seek, Flat.seekTo, if_neg hok, Int.toNat_natCast] at hinv
    simpa [SpoolCall.bytes, BufFile.spoolExec] using hinv

theorem spool_inv (g : Geometry) (calls : List SpoolCall) :
    Inv g (spool g calls) (written calls) (written calls).length := by
  have hrun : ∀ (calls : List SpoolCall) (file : File) (data : List UInt8), Inv g file data data.length →
      Inv g (calls.foldl (BufFile.spoolExec g) file) (data ++ written calls) (data ++ written calls).length := by
    intro calls
    induction calls with
    | nil =>
      intro file data h
      simpa [written] using h
    | cons call calls ih =>
      intro file data h
      have hrest := ih _ _ (h.spoolExec call)
      rw [List.append_assoc] at hrest
      exact hrest
  exact hrun calls createFileSet [] (Inv.opened (Layout.single g))

theorem rolledBack_read (g : Geometry) (calls : List SpoolCall) (position : Nat × Nat) (size : Nat) :
    (read g (rolledBack g calls position) size).1 =
      (truncated (close g (spool g calls)) position.1 position.2).flatten.take size := by
  obtain ⟨hlayout, -⟩ := (spool_inv g calls).close
  obtain ⟨hfiles, hdirty⟩ := truncateFileSet_files (g := g) (openFileSet (close g (spool g calls)))
    position.1 position.2
  have hdirty : (truncateFileSet g (openFileSet (close g (spool g calls))) position.1 position.2).dirty = false :=
    hdirty
  have hclose : close g (truncateFileSet g (openFileSet (close g (spool g calls))) position.1 position.2) =
      truncated (close g (spool g calls)) position.1 position.2 := by
    rw [close, flush, if_neg (by simp [hdirty]), hfiles]
    rfl
  obtain ⟨hfilled, hne⟩ := truncated_filled hlayout position.1 position.2
  -- a file that has just been opened is clean, whatever the length of its last segment
  have hclean : Clean g (rolledBack g calls position)
      (truncated (close g (spool g calls)) position.1 position.2).flatten 0 := by
    rw [rolledBack, hclose]
    refine ⟨hfilled, rfl, rfl, List.length_pos_iff.mpr hne, List.nil_prefix, Nat.le_refl _, Nat.zero_le _, ?_, ?_⟩
    · simp [File.base, openFileSet, makeBufFileCommon]
    · intro _
      exact Nat.zero_le _
  obtain ⟨hread, -⟩ := hclean.readLoop size size (Nat.le_refl _)
  rw [List.drop_zero] at hread
  exact hread

theorem rolledBack_reads_iff (g : Geometry) (before after : List SpoolCall) :
    (∀ size, (read g (rolledBack g (before ++ after) (tell (spool g before))) size).1 = (written before).take size) ↔
      (truncated (close g (spool g (before ++ after))) (tell (spool g before)).1
        (tell (spool g before)).2).flatten = written before := by
  constructor
  · intro hall
    have hsize := hall (max (written before).length (truncated (close g (spool g (before ++ after)))
      (tell (spool g before)).1 (tell (spool g before)).2).flatten.length)
    rwa [rolledBack_read, List.take_of_length_le (by omega), List.take_of_length_le (by omega)] at hsize
  · intro heq size
    rw [rolledBack_read, heq]

theorem spool_split (g : Geometry) (before after : List SpoolCall) : Layout g (close g (spool g (before ++ after))) ∧
      (close g (spool g (before ++ after))).flatten = written before ++ written after ∧
      (tell (spool g before)).1 * g.maxPhysicalFilesize + (tell (spool g before)).2 = (written before).length := by
  obtain ⟨hlayout, hdata⟩ := (spool_inv g (before ++ after)).close
  refine ⟨hlayout, ?_, (spool_inv g before).tell⟩
  rw [hdata, written, List.flatMap_append]
  rfl

/-- Rolling back to a told position leaves what preceded it exactly when the position lies in the
segment it names, or when only zeros lie between the end of that segment and the position. -/
theorem rollback_restores_iff (g : Geometry) (before after : List SpoolCall) :
    (∀ size, (read g (rolledBack g (before ++ after) (tell (spool g before))) size).1 = (written before).take size) ↔
      (tell (spool g before)).2 ≤ g.maxPhysicalFilesize ∨
        ∀ b ∈ (written before).drop (((tell (spool g before)).1 + 1) * g.maxPhysicalFilesize), b = 0 := by
  obtain ⟨hlayout, hdata, htell⟩ := spool_split g before after
  have hin : (tell (spool g before)).1 * g.maxPhysicalFilesize + (tell (spool g before)).2 ≤
      (close g (spool g (before ++ after))).flatten.length := by
    rw [hdata, htell, List.length_append]
    omega
  have htake : (close g (spool g (before ++ after))).flatten.take
      ((tell (spool g before)).1 * g.maxPhysicalFilesize + (tell (spool g before)).2) = written before := by
    rw [hdata, htell, List.take_left]
  have hiff := truncated_flatten_iff hlayout hin
  rw [htake] at hiff
  exact (rolledBack_reads_iff g before after).trans hiff

theorem seekEnd_single (segment : Segment) (hpos : 0 < segment.length) (hle : segment.length ≤ g.maxPhysicalFilesize) :
    seek g (openFileSet [segment]) 0 0 .seekEnd =
      (true, { openFileSet [segment] with curOffset := segment.length }) := by
  have hback : seekBack g 0 (segment.length : Int) = some (0, segment.length) := by
    simp [seekBack]
  have hout : ¬ (0 = (openFileSet [segment]).curFile ∧ (openFileSet [segment]).curOffset ≤ segment.length ∧
      segment.length ≤ (openFileSet [segment]).curOffset + (openFileSet [segment]).nbytes) := by
    simp [openFileSet, makeBufFileCommon, File.nbytes]
    exact List.ne_nil_of_length_pos hpos
  have hlast : seekLast g 1 0 segment.length = (0, segment.length) := rfl
  have hon : seekOn g 1 1 0 segment.length = some (0, segment.length) := by
    simp [seekOn, hle]
  have htarget : ((seekTarget (openFileSet [segment]) 0 0 .seekEnd).bind fun p => seekBack g p.1 p.2) =
      some (0, segment.length) := hback
  have hlast' : seekLast g (flush g (openFileSet [segment])).numFiles 0 segment.length = (0, segment.length) := hlast
  have hon' : seekOn g (flush g (openFileSet [segment])).numFiles (flush g (openFileSet [segment])).numFiles 0
      segment.length = some (0, segment.length) := hon
  simp only [seek, htarget, seekAt, if_neg hout, hlast', hon']
  rfl

def straddling (g : Geometry) : List SpoolCall :=
  [.write (List.replicate (g.maxPhysicalFilesize - 1) 1), .reopen, .write [1, 1]]

theorem written_straddling (g : Geometry) : written (straddling g) = List.replicate (g.maxPhysicalFilesize + 1) 1 := by
  have hM := g.max_pos
  have hsum : g.maxPhysicalFilesize + 1 = (g.maxPhysicalFilesize - 1) + 2 := by omega
  rw [hsum, ← List.replicate_append_replicate]
  simp [written, straddling, SpoolCall.bytes]

theorem tell_straddling (hg : 2 ≤ g.blcksz) : tell (spool g (straddling g)) = (0, g.maxPhysicalFilesize + 1) := by
  have hM := g.blcksz_le
  have hinv := spool_inv g [.write (List.replicate (g.maxPhysicalFilesize - 1) 1)]
  obtain ⟨hlayout, hdata⟩ := hinv.close
  have hspool : spool g (straddling g) = write g (seek g (openFileSet (close g
      (spool g [.write (List.replicate (g.maxPhysicalFilesize - 1) 1)]))) 0 0 .seekEnd).2 [1, 1] := by
    simp only [spool, straddling, List.foldl_cons, List.foldl_nil, spoolExec]
  rw [hspool]
  generalize close g (spool g [.write (List.replicate (g.maxPhysicalFilesize - 1) 1)]) = files at hlayout hdata ⊢
  have hlen : files.flatten.length = g.maxPhysicalFilesize - 1 := by
    rw [hdata]
    simp [written, SpoolCall.bytes]
  -- so many bytes make one segment
  have hone : files.length = 1 := by
    have hcap := hlayout.length_eq
    have hdiv : (g.maxPhysicalFilesize - 1 + g.maxPhysicalFilesize - 1) / g.maxPhysicalFilesize = 1 :=
      Nat.div_eq_of_lt_le (by omega) (by omega)
    rw [hlen, capacity, hdiv] at hcap
    exact Nat.eq_of_mul_eq_mul_right g.max_pos hcap
  obtain ⟨segment, rfl⟩ := List.length_eq_one_iff.mp hone
  have hseg : segment.length = g.maxPhysicalFilesize - 1 := by simpa using hlen
  rw [seekEnd_single segment (by omega) (by omega)]
  have hroom : ¬ g.blcksz ≤ 0 := by omega
  have hmin : min g.blcksz 2 = 2 := by omega
  simp [write, writeLoop, writeRoom, openFileSet, makeBufFileCommon, tell, hroom, hmin, hseg]
  omega

theorem straddling_lost (hg : 2 ≤ g.blcksz) :
    (read g (rolledBack g (straddling g) (tell (spool g (straddling g)))) (g.maxPhysicalFilesize + 1)).1 ≠
      (written (straddling g)).take (g.maxPhysicalFilesize + 1) := by
  obtain ⟨hlayout, hdata, htell⟩ := spool_split g (straddling g) []
  rw [List.append_nil] at hlayout hdata
  rw [rolledBack_read, tell_straddling hg]
  rw [tell_straddling hg] at htell
  have hin : 0 * g.maxPhysicalFilesize + (g.maxPhysicalFilesize + 1) ≤
      (close g (spool g (straddling g))).flatten.length := by
    rw [hdata, htell, List.length_append]
    omega
  have hpast := truncated_flatten_past hlayout (Nat.lt_succ_self _) hin
  -- the byte of the second segment is 1 before and 0 after
  intro heq
  have hbyte := congrArg (fun l => l[g.maxPhysicalFilesize]?) heq
  simp only [List.getElem?_take_of_lt (Nat.lt_succ_self g.maxPhysicalFilesize)] at hbyte
  rw [hpast, written_straddling] at hbyte
  have hlen : ((close g (spool g (straddling g))).flatten.take
      ((0 + 1) * g.maxPhysicalFilesize)).length = g.maxPhysicalFilesize := by
    rw [List.length_take]
    omega
  rw [List.getElem?_append_right (by omega), hlen, List.getElem?_replicate, List.getElem?_replicate] at hbyte
  simp at hbyte

theorem straddling_not_restored :
    (read .default (rolledBack .default (straddling .default) (tell (spool .default (straddling .default))))
        (Geometry.default.maxPhysicalFilesize + 1)).1 ≠
      (written (straddling .default)).take (Geometry.default.maxPhysicalFilesize + 1) :=
  straddling_lost (by decide)

end CdcKafka.BufFile
