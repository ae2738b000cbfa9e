import CdcKafka.BufFile.File

/-! A segmented file stands for a flat array with one cursor. -/

namespace CdcKafka.BufFile
open CdcKafka.Lib

variable {g : Geometry} {file : File} {files : List Segment} {data : List UInt8} {cursor : Nat}

structure Layout (g : Geometry) (files : List Segment) : Prop where
  ne_nil : files ≠ []
  filled : Filled g.maxPhysicalFilesize files
  length_le : ∀ i, (files.getD i []).length ≤ g.maxPhysicalFilesize
  used : ∀ i, 0 < i → i < files.length → files.getD i [] ≠ []

theorem Layout.single (g : Geometry) : Layout g [[]] where
  ne_nil := by simp
  filled := by simp [Filled]
  length_le i := by cases i <;> simp
  used i h0 h1 := by simp at h1; omega

def capacity (g : Geometry) (n : Nat) : Nat :=
  max 1 ((n + g.maxPhysicalFilesize - 1) / g.maxPhysicalFilesize) * g.maxPhysicalFilesize

theorem Layout.length_eq (h : Layout g files) :
    files.length * g.maxPhysicalFilesize = capacity g files.flatten.length := by
  have hM := g.max_pos
  obtain ⟨n, hn⟩ : ∃ n, files.length = n + 1 :=
    ⟨files.length - 1, by have := List.length_pos_iff.mpr h.ne_nil; omega⟩
  have hlen := h.filled.length_flatten h.ne_nil
  have hle := h.length_le n
  have hused := h.used n
  rw [hn] at hlen hused ⊢
  rw [Nat.add_sub_cancel] at hlen
  rw [capacity, hlen]
  congr 1
  by_cases hzero : n = 0
  · subst hzero
    have hdiv : (0 * g.maxPhysicalFilesize + (files.getD 0 []).length + g.maxPhysicalFilesize - 1) /
        g.maxPhysicalFilesize ≤ 1 := by
      apply Nat.lt_succ_iff.mp
      rw [Nat.div_lt_iff_lt_mul hM]
      omega
    omega
  · have hpos := List.length_pos_iff.mpr (hused (by omega) (by omega))
    -- a last segment that holds something counts as one more
    have hdiv : (n * g.maxPhysicalFilesize + (files.getD n []).length + g.maxPhysicalFilesize - 1) /
        g.maxPhysicalFilesize = n + 1 := by
      apply Nat.div_eq_of_lt_le
      · rw [Nat.add_mul]
        omega
      · rw [Nat.add_mul, Nat.add_mul]
        omega
    omega

theorem Layout.flatten_length_le (h : Layout g files) :
    files.flatten.length ≤ files.length * g.maxPhysicalFilesize := by
  have hpos : 0 < files.length := List.length_pos_iff.mpr h.ne_nil
  have hle := h.length_le (files.length - 1)
  obtain ⟨n, hn⟩ : ∃ n, files.length = n + 1 := ⟨files.length - 1, by omega⟩
  rw [h.filled.length_flatten h.ne_nil]
  rw [hn] at hle ⊢
  simp only [Nat.add_sub_cancel] at hle ⊢
  rw [Nat.add_mul]
  omega

def File.base (g : Geometry) (file : File) : Nat := file.curFile * g.maxPhysicalFilesize + file.curOffset

structure Placed (g : Geometry) (file : File) : Prop where
  layout : Layout g file.files
  curFile_lt : file.curFile < file.numFiles
  curOffset_le : file.curOffset ≤ g.maxPhysicalFilesize
  attached : file.curOffset = g.maxPhysicalFilesize → (file.thisfile file.curFile).length = g.maxPhysicalFilesize

structure Advanced (g : Geometry) (file : File) : Prop where
  ne_nil : file.files ≠ []
  filled : Filled g.maxPhysicalFilesize file.files
  length_le : ∀ i, (file.thisfile i).length ≤ g.maxPhysicalFilesize
  used : ∀ i, 0 < i → i < file.numFiles → i ≠ file.curFile → file.thisfile i ≠ []
  curFile_lt : file.curFile < file.numFiles
  curOffset_lt : file.curOffset < g.maxPhysicalFilesize

structure SameBuffer (file file' : File) : Prop where
  buffer : file'.buffer = file.buffer
  pos : file'.pos = file.pos

theorem SameBuffer.trans {f₁ f₂ f₃ : File} (h : SameBuffer f₁ f₂) (h' : SameBuffer f₂ f₃) : SameBuffer f₁ f₃ :=
  ⟨h'.buffer.trans h.buffer, h'.pos.trans h.pos⟩

theorem Placed.advance (h : Placed g file) : Advanced g (dumpAdvance g file) ∧ SameBuffer file (dumpAdvance g file) ∧
      (dumpAdvance g file).files.flatten = file.files.flatten ∧ (dumpAdvance g file).base g = file.base g := by
  have hM := g.max_pos
  have hlt := h.curFile_lt
  have hle := h.curOffset_le
  have hne := h.layout.ne_nil
  unfold dumpAdvance
  by_cases hfull : g.maxPhysicalFilesize ≤ file.curOffset
  · have heq : file.curOffset = g.maxPhysicalFilesize := by omega
    have hatt := h.attached heq
    have hbase : (file.curFile + 1) * g.maxPhysicalFilesize + 0 = file.base g := by
      rw [File.base, heq]; ring
    rw [if_pos hfull]
    by_cases hnext : file.curFile + 1 < file.numFiles
    · have hz : file.curFile + 2 - file.numFiles = 0 := by omega
      rw [hz]
      exact ⟨⟨hne, h.layout.filled, h.layout.length_le, fun i h0 h1 _ => h.layout.used i h0 h1, hnext, hM⟩,
        ⟨rfl, rfl⟩, rfl, hbase⟩
    · -- the segment that follows the last one is created
      have hone : file.curFile + 2 - file.numFiles = 1 := by omega
      have hlast : file.curFile = file.files.length - 1 := by
        simp only [File.numFiles] at hlt hnext; omega
      have hget : ∀ i, (file.files ++ [[]]).getD i [] = file.files.getD i [] := by
        intro i
        by_cases hi : i < file.files.length
        · rw [List.getD_append _ _ _ _ hi]
        · rw [List.getD_append_right _ _ _ _ (by omega), List.getD_eq_default file.files _ (by omega)]
          cases i - file.files.length <;> simp
      rw [hone]
      refine ⟨⟨by simp [extendBufFile], ?_, ?_, ?_, ?_, hM⟩, ⟨rfl, rfl⟩, by simp [extendBufFile], hbase⟩
      · apply h.layout.filled.concat
        rw [← hlast]
        exact hatt
      · intro i
        show ((file.files ++ [[]]).getD i []).length ≤ _
        rw [hget]
        exact h.layout.length_le i
      · intro i h0 h1 hi
        show (file.files ++ [[]]).getD i [] ≠ []
        rw [hget]
        have h1 : i < (file.files ++ [[]]).length := h1
        have hi : i ≠ file.curFile + 1 := hi
        apply h.layout.used i h0
        simp only [List.length_append, List.length_singleton] at h1
        omega
      · show file.curFile + 1 < (file.files ++ [[]]).length
        simp only [File.numFiles, List.length_append, List.length_singleton] at hlt hnext ⊢
        omega
  · rw [if_neg hfull]
    exact ⟨⟨hne, h.layout.filled, h.layout.length_le, fun i h0 h1 _ => h.layout.used i h0 h1, hlt, by omega⟩,
      ⟨rfl, rfl⟩, rfl, rfl⟩

theorem thisfile_set (file : File) (s : Segment) (hlt : file.curFile < file.numFiles) (i : Nat) :
    (file.files.set file.curFile s).getD i [] = if i = file.curFile then s else file.thisfile i := by
  rw [List.getD_eq_getElem?_getD, List.getElem?_set]
  by_cases hi : i = file.curFile
  · subst hi
    have hlt : file.curFile < file.files.length := hlt
    simp [hlt]
  · rw [if_neg (Ne.symm hi), if_neg hi, File.thisfile, List.getD_eq_getElem?_getD]

theorem Advanced.segment (h : Advanced g file) {wpos : Nat} (hw : wpos < file.nbytes) :
    Placed g (dumpSegment g wpos file) ∧ SameBuffer file (dumpSegment g wpos file) ∧ 0 < bytesToWrite g wpos file ∧
      (dumpSegment g wpos file).files.flatten = pwrite 0 file.files.flatten (file.base g)
        ((file.buffer.drop wpos).take (bytesToWrite g wpos file)) ∧
      (dumpSegment g wpos file).base g = file.base g + bytesToWrite g wpos file := by
  have hlt := h.curOffset_lt
  have hn : bytesToWrite g wpos file = min (file.nbytes - wpos) (g.maxPhysicalFilesize - file.curOffset) := rfl
  have hpos : 0 < bytesToWrite g wpos file := by omega
  have hfit : file.curOffset + bytesToWrite g wpos file ≤ g.maxPhysicalFilesize := by omega
  have hlen : ((file.buffer.drop wpos).take (bytesToWrite g wpos file)).length = bytesToWrite g wpos file := by
    simp only [File.nbytes] at hn hw
    simp only [List.length_take, List.length_drop]
    omega
  have hne : (file.buffer.drop wpos).take (bytesToWrite g wpos file) ≠ [] := by
    apply List.ne_nil_of_length_pos
    omega
  have hset := thisfile_set file (fileWrite (file.thisfile file.curFile)
    ((file.buffer.drop wpos).take (bytesToWrite g wpos file)) file.curOffset) h.curFile_lt
  -- the segment grows up to the end of what is written, and no further
  have hnew := length_pwrite (0 : UInt8) (file.thisfile file.curFile) file.curOffset hne
  rw [hlen] at hnew
  have hold := h.length_le file.curFile
  refine ⟨⟨⟨?_, ?_, ?_, ?_⟩, ?_, hfit, ?_⟩, ⟨rfl, rfl⟩, hpos, ?_, ?_⟩
  · intro hnil
    exact h.ne_nil (by simpa [dumpSegment] using hnil)
  · apply h.filled.set
    intro hin
    have hfull : (file.thisfile file.curFile).length = g.maxPhysicalFilesize := h.filled.length_getD hin
    rw [fileWrite, hnew]
    omega
  · intro i
    show ((file.files.set _ _).getD i []).length ≤ _
    rw [hset i]
    split
    · rw [fileWrite, hnew]
      omega
    · exact h.length_le i
  · intro i h0 h1
    show (file.files.set _ _).getD i [] ≠ []
    rw [hset i]
    have h1 : i < (file.files.set _ _).length := h1
    rw [List.length_set] at h1
    split
    · apply List.ne_nil_of_length_pos
      rw [fileWrite, hnew]
      omega
    · rename_i hi
      exact h.used i h0 h1 hi
  · simpa [dumpSegment, File.numFiles] using h.curFile_lt
  · intro hend
    show ((file.files.set _ _).getD file.curFile []).length = _
    have hend : file.curOffset + bytesToWrite g wpos file = g.maxPhysicalFilesize := hend
    rw [hset, if_pos rfl, fileWrite, hnew]
    omega
  · apply h.filled.flatten_pwrite 0 h.curFile_lt
    intro _
    rw [hlen]
    exact hfit
  · simp only [File.base, dumpSegment]
    omega

theorem Placed.loop (h : Placed g file) (fuel wpos : Nat) (hfuel : file.nbytes - wpos ≤ fuel) :
    Placed g (dumpLoop g fuel wpos file) ∧ SameBuffer file (dumpLoop g fuel wpos file) ∧
      (dumpLoop g fuel wpos file).files.flatten = pwrite 0 file.files.flatten (file.base g) (file.buffer.drop wpos) ∧
      (dumpLoop g fuel wpos file).base g = file.base g + (file.nbytes - wpos) := by
  induction fuel generalizing wpos file with
  | zero =>
    have hend : file.buffer.drop wpos = [] := by
      apply List.drop_eq_nil_of_le
      simp only [File.nbytes] at hfuel
      omega
    rw [hend, pwrite_nil]
    exact ⟨h, ⟨rfl, rfl⟩, rfl, by rw [dumpLoop]; omega⟩
  | succ fuel ih =>
    by_cases hw : wpos < file.nbytes
    · obtain ⟨hadv, hsame, hflat, hbase⟩ := h.advance
      have hw' : wpos < (dumpAdvance g file).nbytes := by rw [File.nbytes, hsame.buffer]; exact hw
      obtain ⟨hpl, hsame', hpos, hflat', hbase'⟩ := hadv.segment hw'
      have hbytes : bytesToWrite g wpos (dumpAdvance g file) ≤ file.nbytes - wpos := by
        rw [bytesToWrite, File.nbytes, hsame.buffer]
        exact Nat.min_le_left _ _
      have hnb : (dumpSegment g wpos (dumpAdvance g file)).nbytes = file.nbytes := by
        rw [File.nbytes, (hsame.trans hsame').buffer]; rfl
      obtain ⟨hpl', hsame'', hflat'', hbase''⟩ :=
        ih hpl (wpos + bytesToWrite g wpos (dumpAdvance g file)) (by omega)
      simp only [dumpLoop, if_pos hw]
      refine ⟨hpl', (hsame.trans hsame').trans hsame'', ?_, ?_⟩
      · -- what this turn writes is followed by what the later turns write
        rw [hflat'', hbase', hflat', hflat, hbase, (hsame.trans hsame').buffer, hsame.buffer, ← List.drop_drop]
        apply pwrite_take_drop
        rw [List.length_drop]
        exact hbytes
      · rw [hbase'', hbase', hbase, hnb]
        omega
    · have hend : file.buffer.drop wpos = [] := by
        apply List.drop_eq_nil_of_le
        simp only [File.nbytes] at hw
        omega
      rw [dumpLoop, if_neg hw, hend, pwrite_nil]
      exact ⟨h, ⟨rfl, rfl⟩, rfl, by omega⟩

theorem dumpReposition_spec (hle : file.curOffset ≤ g.maxPhysicalFilesize) (hlt : file.curFile < file.numFiles)
    (hback : file.nbytes - file.pos ≤ g.maxPhysicalFilesize) (hbase : file.nbytes - file.pos ≤ file.base g) :
    (dumpReposition g file).files = file.files ∧ (dumpReposition g file).curFile < file.numFiles ∧
      (dumpReposition g file).curOffset ≤ g.maxPhysicalFilesize ∧
      (dumpReposition g file).base g = file.base g - (file.nbytes - file.pos) := by
  unfold dumpReposition
  by_cases hin : file.nbytes - file.pos ≤ file.curOffset
  · rw [if_pos hin]
    refine ⟨rfl, hlt, Nat.le_trans (Nat.sub_le _ _) hle, ?_⟩
    simp only [File.base]
    omega
  · rw [if_neg hin]
    simp only [File.base] at hbase
    obtain ⟨k, hk⟩ : ∃ k, file.curFile = k + 1 := by
      refine ⟨file.curFile - 1, ?_⟩
      by_contra hzero
      have hz : file.curFile = 0 := by omega
      rw [hz] at hbase
      omega
    have hoff : file.curOffset + g.maxPhysicalFilesize - (file.nbytes - file.pos) ≤ g.maxPhysicalFilesize := by
      omega
    refine ⟨rfl, Nat.lt_of_le_of_lt (Nat.sub_le _ _) hlt, hoff, ?_⟩
    simp only [File.base, hk, Nat.add_sub_cancel, Nat.add_mul]
    omega

/-- `file` stands for the array `data` with the cursor at `cursor`: the buffer is laid over the
segments, whether it has been written out or not. -/
structure Inv (g : Geometry) (file : File) (data : List UInt8) (cursor : Nat) : Prop where
  layout : Layout g file.files
  curFile_lt : file.curFile < file.numFiles
  curOffset_le : file.curOffset ≤ g.maxPhysicalFilesize
  pos_le : file.pos ≤ file.nbytes
  nbytes_le : file.nbytes ≤ g.blcksz
  data_eq : pwrite 0 file.files.flatten (file.base g) file.buffer = data
  cursor_eq : file.base g + file.pos = cursor
  clean : file.dirty = false → file.buffer <+: file.files.flatten.drop (file.base g) ∧
    file.curOffset + file.nbytes ≤ g.maxPhysicalFilesize
  attached : file.dirty = true → 0 < file.nbytes ∧ (file.curOffset = g.maxPhysicalFilesize →
    (file.thisfile file.curFile).length = g.maxPhysicalFilesize)

theorem Inv.placed (h : Inv g file data cursor) (hd : file.dirty = true) : Placed g file :=
  ⟨h.layout, h.curFile_lt, h.curOffset_le, (h.attached hd).2⟩

theorem Inv.flatten_eq (h : Inv g file data cursor) (hd : file.dirty = false) : file.files.flatten = data := by
  rw [← h.data_eq, pwrite_of_prefix 0 (h.clean hd).1]

theorem Inv.of_empty (hl : Layout g file.files) (hlt : file.curFile < file.numFiles)
    (hle : file.curOffset ≤ g.maxPhysicalFilesize) (hdirty : file.dirty = false) (hpos : file.pos = 0)
    (hbuf : file.buffer = []) (hdata : file.files.flatten = data) (hcur : file.base g = cursor) :
    Inv g file data cursor where
  layout := hl
  curFile_lt := hlt
  curOffset_le := hle
  pos_le := by simp [hpos]
  nbytes_le := by simp [File.nbytes, hbuf]
  data_eq := by rw [hbuf, pwrite_nil, hdata]
  cursor_eq := by rw [hpos, hcur, Nat.add_zero]
  clean _ := ⟨by simp [hbuf], by simpa [File.nbytes, hbuf] using hle⟩
  attached h := by simp [hdirty] at h

theorem Inv.dump (h : Inv g file data cursor) (hd : file.dirty = true) : Inv g (dumpBuffer g file) data cursor := by
  obtain ⟨hpl, hsame, hflat, hbase⟩ := (h.placed hd).loop file.nbytes 0 (by omega)
  rw [List.drop_zero, h.data_eq] at hflat
  have hnb : (dumpLoop g file.nbytes 0 file).nbytes = file.nbytes := by rw [File.nbytes, hsame.buffer]; rfl
  have hpos := hsame.pos
  have hblk := h.nbytes_le
  have hmax := g.blcksz_le
  have hposle := h.pos_le
  have hcur := h.cursor_eq
  obtain ⟨hfiles, hlt, hle, hrep⟩ :=
    dumpReposition_spec hpl.curOffset_le hpl.curFile_lt (by omega) (by omega)
  refine Inv.of_empty ?_ ?_ hle rfl rfl rfl ?_ ?_
  · show Layout g (dumpReposition g _).files
    rw [hfiles]
    exact hpl.layout
  · show (dumpReposition g _).curFile < (dumpReposition g _).files.length
    rw [hfiles]
    exact hlt
  · show (dumpReposition g _).files.flatten = data
    rw [hfiles, hflat]
  · show (dumpReposition g _).base g = cursor
    rw [hrep]
    omega

theorem Inv.flush (h : Inv g file data cursor) :
    Inv g (flush g file) data cursor ∧ (BufFile.flush g file).dirty = false := by
  unfold BufFile.flush
  by_cases hd : file.dirty = true
  · rw [if_pos hd]
    exact ⟨h.dump hd, rfl⟩
  · rw [if_neg hd]
    exact ⟨h, by simpa using hd⟩

structure Clean (g : Geometry) (file : File) (data : List UInt8) (cursor : Nat) : Prop where
  filled : Filled g.maxPhysicalFilesize file.files
  data_eq : file.files.flatten = data
  dirty : file.dirty = false
  curFile_lt : file.curFile < file.numFiles
  buffer : file.buffer <+: data.drop (file.base g)
  pos_le : file.pos ≤ file.nbytes
  nbytes_le : file.nbytes ≤ g.blcksz
  cursor_eq : file.base g + file.pos = cursor
  inner : file.curFile + 1 < file.numFiles → file.curOffset + file.nbytes ≤ g.maxPhysicalFilesize

theorem Inv.toClean (h : Inv g file data cursor) (hd : file.dirty = false) : Clean g file data cursor where
  filled := h.layout.filled
  data_eq := h.flatten_eq hd
  dirty := hd
  curFile_lt := h.curFile_lt
  buffer := by rw [← h.flatten_eq hd]; exact (h.clean hd).1
  pos_le := h.pos_le
  nbytes_le := h.nbytes_le
  cursor_eq := h.cursor_eq
  inner _ := (h.clean hd).2

def Within (g : Geometry) (file : File) : Prop := file.curOffset + file.nbytes ≤ g.maxPhysicalFilesize

theorem Clean.toInv (h : Clean g file data cursor) (hl : Layout g file.files) (hw : Within g file) :
    Inv g file data cursor where
  layout := hl
  curFile_lt := h.curFile_lt
  curOffset_le := Nat.le_trans (Nat.le_add_right _ _) hw
  pos_le := h.pos_le
  nbytes_le := h.nbytes_le
  data_eq := by
    rw [← h.data_eq]
    exact pwrite_of_prefix 0 (by rw [h.data_eq]; exact h.buffer)
  cursor_eq := h.cursor_eq
  clean _ := ⟨by rw [h.data_eq]; exact h.buffer, hw⟩
  attached hd := by simp [h.dirty] at hd

theorem Clean.load (h : Clean g file data cursor) (hpos : file.pos = 0) :
    Clean g (loadBuffer g file) data cursor ∧ (loadBuffer g file).files = file.files ∧
      ((∀ i, (file.files.getD i []).length ≤ g.maxPhysicalFilesize) → Within g file → Within g (loadBuffer g file)) ∧
      (loadBuffer g file).pos = 0 ∧ ((loadBuffer g file).nbytes = 0 → data.drop cursor = []) := by
  have hM := g.max_pos
  have hB := g.blcksz_pos
  have hcur := h.cursor_eq
  have hinner := h.inner
  rw [hpos, Nat.add_zero] at hcur
  -- the segment from which the bytes come, and where they start in it
  obtain ⟨k, o, hk, hbase, hin, hle, hload⟩ : ∃ k o, k < file.numFiles ∧
      k * g.maxPhysicalFilesize + o = cursor ∧ (k + 1 < file.numFiles → o < g.maxPhysicalFilesize) ∧
      (file.curOffset ≤ g.maxPhysicalFilesize → o ≤ g.maxPhysicalFilesize) ∧
      loadBuffer g file = { file with
        curFile := k, curOffset := o, buffer := fileRead (file.thisfile k) g.blcksz o } := by
    by_cases hnext : g.maxPhysicalFilesize ≤ file.curOffset ∧ file.curFile + 1 < file.numFiles
    · refine ⟨file.curFile + 1, 0, hnext.2, ?_, fun _ => hM, fun _ => Nat.zero_le _, ?_⟩
      · have hoff : file.curOffset = g.maxPhysicalFilesize := by
          have := hinner hnext.2
          omega
        rw [← hcur, File.base, hoff]
        ring
      · simp [loadBuffer, hnext, File.thisfile]
    · refine ⟨file.curFile, file.curOffset, h.curFile_lt, hcur, fun hlt => ?_, id, ?_⟩
      · by_contra hge
        exact hnext ⟨by omega, hlt⟩
      · simp [loadBuffer, hnext]
  have hdrop := h.filled.drop_flatten hk o
  rw [h.data_eq, hbase] at hdrop
  have hlen : (fileRead (file.thisfile k) g.blcksz o).length = min g.blcksz ((file.files.getD k []).length - o) := by
    simp [fileRead, File.thisfile]
  rw [hload]
  refine ⟨⟨h.filled, h.data_eq, h.dirty, hk, ?_, ?_, ?_, ?_, ?_⟩, rfl, ?_, hpos, ?_⟩
  · show fileRead _ _ _ <+: data.drop (k * g.maxPhysicalFilesize + o)
    rw [hbase, hdrop]
    exact (List.take_prefix _ _).trans (List.prefix_append _ _)
  · rw [hpos]
    exact Nat.zero_le _
  · show (fileRead _ _ _).length ≤ _
    omega
  · show k * g.maxPhysicalFilesize + o + file.pos = cursor
    omega
  · intro hlt
    have hlt : k + 1 < file.files.length := hlt
    have hfull := h.filled.length_getD hlt
    have hin := hin hlt
    show o + (fileRead _ _ _).length ≤ _
    omega
  · intro hall hw
    have hle := hle (Nat.le_trans (Nat.le_add_right _ _) hw)
    have := hall k
    show o + (fileRead _ _ _).length ≤ _
    omega
  · -- nothing was read: the segment ends here, and no other segment follows
    intro hzero
    have hzero : (fileRead (file.thisfile k) g.blcksz o).length = 0 := hzero
    have hend : (file.files.getD k []).length ≤ o := by omega
    have hlast : ¬ k + 1 < file.numFiles := by
      intro hlt
      have hfull := h.filled.length_getD hlt
      have := hin hlt
      omega
    have hrest : file.files.drop (k + 1) = [] := List.drop_eq_nil_of_le (Nat.le_of_not_lt hlast)
    rw [hdrop, List.drop_eq_nil_of_le hend, hrest]
    simp

theorem Clean.refill (h : Clean g file data cursor) :
    Clean g (readRefill g file) data cursor ∧ (readRefill g file).files = file.files ∧
      ((∀ i, (file.files.getD i []).length ≤ g.maxPhysicalFilesize) → Within g file → Within g (readRefill g file)) ∧
      ((readRefill g file).nbytes ≤ (readRefill g file).pos → data.drop cursor = []) := by
  unfold readRefill
  have hpos := h.pos_le
  by_cases hused : file.nbytes ≤ file.pos
  · rw [if_pos hused]
    -- the buffer is used up: it starts anew at the cursor
    have hempty : Clean g { file with curOffset := file.curOffset + file.pos, pos := 0, buffer := [] } data cursor := by
      refine ⟨h.filled, h.data_eq, h.dirty, h.curFile_lt, List.nil_prefix, Nat.le_refl _, Nat.zero_le _, ?_, ?_⟩
      · rw [← h.cursor_eq]
        simp only [File.base]
        omega
      · intro hlt
        have := h.inner hlt
        show file.curOffset + file.pos + 0 ≤ _
        omega
    obtain ⟨hclean, hfiles, hwithin, hzero, hend⟩ := hempty.load rfl
    refine ⟨hclean, hfiles, fun hall hw => hwithin hall ?_, fun hle => hend (by omega)⟩
    have hw : file.curOffset + file.nbytes ≤ g.maxPhysicalFilesize := hw
    show file.curOffset + file.pos + 0 ≤ _
    omega
  · rw [if_neg hused]
    exact ⟨h, rfl, fun _ hw => hw, fun hle => absurd hle hused⟩

theorem Clean.readLoop (h : Clean g file data cursor) (fuel size : Nat) (hfuel : size ≤ fuel) :
    (readLoop g fuel size file).1 = (data.drop cursor).take size ∧
      Clean g (BufFile.readLoop g fuel size file).2 data (cursor + ((data.drop cursor).take size).length) ∧
      (BufFile.readLoop g fuel size file).2.files = file.files ∧
      ((∀ i, (file.files.getD i []).length ≤ g.maxPhysicalFilesize) → Within g file →
        Within g (BufFile.readLoop g fuel size file).2) := by
  induction fuel generalizing size file cursor with
  | zero =>
    obtain rfl : size = 0 := by omega
    exact ⟨by simp [BufFile.readLoop], by simpa [BufFile.readLoop] using h, rfl, fun _ hw => hw⟩
  | succ fuel ih =>
    by_cases hsize : 0 < size
    · obtain ⟨hclean, hfiles, hwithin, hend⟩ := h.refill
      rw [BufFile.readLoop, if_pos hsize]
      by_cases hdone : (readRefill g file).nbytes ≤ (readRefill g file).pos
      · simp only [if_pos hdone, hend hdone]
        exact ⟨by simp, by simpa using hclean, hfiles, hwithin⟩
      · simp only [if_neg hdone]
        generalize hf : readRefill g file = f at *
        have hn : min (f.nbytes - f.pos) size ≤ f.buffer.length - f.pos := Nat.min_le_left _ _
        generalize hm : min (f.nbytes - f.pos) size = n at *
        -- what this turn takes from the buffer is what the array has at the cursor
        have hbytes : (f.buffer.drop f.pos).take n = (data.drop cursor).take n := by
          obtain ⟨rest, hrest⟩ := hclean.buffer
          rw [← hclean.cursor_eq, ← List.drop_drop, ← hrest, List.drop_append_of_le_length hclean.pos_le,
            List.take_append_of_le_length (by rw [List.length_drop]; exact hn)]
        have hlen : ((data.drop cursor).take n).length = n := by
          rw [← hbytes]
          simp only [List.length_take, List.length_drop]
          omega
        have hmoved : Clean g { f with pos := f.pos + n } data (cursor + n) := by
          refine ⟨hclean.filled, hclean.data_eq, hclean.dirty, hclean.curFile_lt, hclean.buffer, ?_,
            hclean.nbytes_le, ?_, hclean.inner⟩
          · show f.pos + n ≤ f.buffer.length
            have := hclean.pos_le
            simp only [File.nbytes] at this
            omega
          · rw [← hclean.cursor_eq]
            simp only [File.base]
            omega
        obtain ⟨hread, hafter, hsame, hwithin'⟩ := ih hmoved (size - n) (by omega)
        have hsplit : (data.drop cursor).take size =
            (data.drop cursor).take n ++ (data.drop (cursor + n)).take (size - n) := by
          rw [← List.drop_drop, ← List.take_add]
          congr 1
          omega
        refine ⟨?_, ?_, hsame.trans hfiles, ?_⟩
        · rw [hread, hbytes, hsplit]
        · rw [hsplit, List.length_append, hlen, ← Nat.add_assoc]
          exact hafter
        · intro hall hw
          have hall' : ∀ i, (f.files.getD i []).length ≤ g.maxPhysicalFilesize := by
            rw [hfiles]
            exact hall
          exact hwithin' hall' (hwithin hall hw)
    · obtain rfl : size = 0 := by omega
      exact ⟨by simp [BufFile.readLoop], by simpa [BufFile.readLoop] using h, rfl, fun _ hw => hw⟩

theorem Inv.read (h : Inv g file data cursor) (size : Nat) : (read g file size).1 = (data.drop cursor).take size ∧
      Inv g (BufFile.read g file size).2 data (cursor + ((data.drop cursor).take size).length) := by
  obtain ⟨hinv, hd⟩ := h.flush
  obtain ⟨hread, hclean, hfiles, hwithin⟩ := (hinv.toClean hd).readLoop size size (Nat.le_refl _)
  refine ⟨hread, hclean.toInv ?_ (hwithin hinv.layout.length_le (hinv.clean hd).2)⟩
  show Layout g (BufFile.readLoop g size size _).2.files
  rw [hfiles]
  exact hinv.layout

end CdcKafka.BufFile
