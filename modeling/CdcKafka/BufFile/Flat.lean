import CdcKafka.BufFile.Refine

/-! Writing and moving, and whole runs of calls on a segmented file against the same calls on
a flat array. -/

namespace CdcKafka.BufFile
open CdcKafka.Lib

variable {g : Geometry} {file : File} {data : List UInt8} {cursor : Nat}

def Detached (g : Geometry) (file : File) : Prop :=
  file.dirty = false ∧ file.curOffset + file.pos = g.maxPhysicalFilesize ∧
    (file.thisfile file.curFile).length < g.maxPhysicalFilesize

instance (g : Geometry) (file : File) : Decidable (Detached g file) :=
  inferInstanceAs (Decidable (_ ∧ _ ∧ _))

theorem Inv.not_detached (h : Inv g file data cursor) (hle : cursor ≤ data.length) : ¬ Detached g file := by
  rintro ⟨hd, hoff, hshort⟩
  have hlt : file.curFile < file.files.length := h.curFile_lt
  have hlast : ¬ file.curFile + 1 < file.files.length := by
    intro hin
    have hfull := h.layout.filled.length_getD hin
    simp only [File.thisfile] at hshort
    omega
  have hlen := h.layout.filled.length_flatten h.layout.ne_nil
  have hidx : file.files.length - 1 = file.curFile := by omega
  rw [h.flatten_eq hd, hidx] at hlen
  have hcur := h.cursor_eq
  simp only [File.base, File.thisfile] at hcur hshort
  omega

theorem Inv.room (h : Inv g file data cursor) (hatt : ¬ Detached g file) :
    Inv g (writeRoom g file) data cursor ∧ ¬ Detached g (writeRoom g file) ∧ (writeRoom g file).pos < g.blcksz := by
  have hB := g.blcksz_pos
  have hpos := h.pos_le
  have hnb := h.nbytes_le
  unfold writeRoom
  by_cases hfull : g.blcksz ≤ file.pos
  · rw [if_pos hfull]
    by_cases hd : file.dirty = true
    · rw [if_pos hd]
      have hdump := h.dump hd
      refine ⟨hdump, hdump.not_detached ?_, hB⟩
      -- the whole buffer lies before the cursor, and it is part of the array
      have hne : file.buffer ≠ [] := List.ne_nil_of_length_pos (h.attached hd).1
      rw [← h.data_eq, length_pwrite 0 _ _ hne, ← h.cursor_eq]
      simp only [File.nbytes] at hpos
      omega
    · rw [if_neg hd]
      have hd : file.dirty = false := by simpa using hd
      have hwithin := (h.clean hd).2
      refine ⟨Inv.of_empty h.layout h.curFile_lt ?_ hd rfl rfl (h.flatten_eq hd) ?_, ?_, hB⟩
      · show file.curOffset + file.pos ≤ _
        omega
      · rw [← h.cursor_eq]
        simp only [File.base]
        omega
      · rintro ⟨_, hoff, hshort⟩
        exact hatt ⟨hd, hoff, hshort⟩
  · rw [if_neg hfull]
    exact ⟨h, hatt, by omega⟩

theorem Inv.fill (h : Inv g file data cursor) (hatt : ¬ Detached g file) {bytes : List UInt8} (hne : bytes ≠ [])
    (hfit : file.pos + bytes.length ≤ g.blcksz) :
    Inv g { file with
      dirty := true, pos := file.pos + bytes.length, buffer := pwrite 0 file.buffer file.pos bytes }
      (pwrite 0 data cursor bytes) (cursor + bytes.length) := by
  have hlen := length_pwrite (0 : UInt8) file.buffer file.pos hne
  have hnb := h.nbytes_le
  have hpos := List.length_pos_iff.mpr hne
  simp only [File.nbytes] at hnb
  refine ⟨h.layout, h.curFile_lt, h.curOffset_le, ?_, ?_, ?_, ?_, (fun hd => by cases hd), fun _ => ⟨?_, ?_⟩⟩
  · show file.pos + bytes.length ≤ (pwrite 0 file.buffer file.pos bytes).length
    omega
  · show (pwrite 0 file.buffer file.pos bytes).length ≤ _
    omega
  · rw [← h.data_eq, ← h.cursor_eq]
    exact pwrite_pwrite 0 _ _ h.pos_le bytes
  · rw [← h.cursor_eq]
    exact (Nat.add_assoc _ _ _).symm
  · show 0 < (pwrite 0 file.buffer file.pos bytes).length
    omega
  · intro hoff
    have hoff : file.curOffset = g.maxPhysicalFilesize := hoff
    by_cases hd : file.dirty = true
    · exact (h.attached hd).2 hoff
    · -- a clean buffer at the end of the segment is empty
      have hd : file.dirty = false := by simpa using hd
      have hwithin := (h.clean hd).2
      have hp := h.pos_le
      have hle := h.layout.length_le file.curFile
      by_contra hshort
      exact hatt ⟨hd, by omega, Nat.lt_of_le_of_ne hle hshort⟩

theorem Inv.writeLoop (h : Inv g file data cursor) (fuel : Nat) (bytes : List UInt8)
    (hatt : bytes ≠ [] → ¬ Detached g file) (hfuel : bytes.length ≤ fuel) :
    Inv g (writeLoop g fuel bytes file) (pwrite 0 data cursor bytes) (cursor + bytes.length) := by
  induction fuel generalizing bytes file data cursor with
  | zero =>
    obtain rfl : bytes = [] := List.length_eq_zero_iff.mp (by omega)
    exact h
  | succ fuel ih =>
    by_cases hne : bytes = []
    · subst hne
      exact h
    · have hpos := List.length_pos_iff.mpr hne
      obtain ⟨hroom, hatt', hlt⟩ := h.room (hatt hne)
      rw [BufFile.writeLoop, if_pos hpos]
      dsimp only
      generalize hf : writeRoom g file = f at *
      generalize hn : min (g.blcksz - f.pos) bytes.length = n at *
      have hnle : n ≤ bytes.length := by omega
      have hlen : (bytes.take n).length = n := List.length_take_of_le hnle
      have hchunk : bytes.take n ≠ [] := List.ne_nil_of_length_pos (by omega)
      have hfill := hroom.fill hatt' hchunk (by omega)
      rw [hlen] at hfill
      have hrest := ih hfill (bytes.drop n) (fun _ hdet => (nomatch hdet.1)) (by rw [List.length_drop]; omega)
      rw [pwrite_take_drop 0 _ _ hnle, List.length_drop] at hrest
      have hsum : cursor + n + (bytes.length - n) = cursor + bytes.length := by omega
      rw [hsum] at hrest
      exact hrest

theorem Inv.write (h : Inv g file data cursor) {bytes : List UInt8} (hatt : bytes ≠ [] → ¬ Detached g file) :
    Inv g (write g file bytes) (pwrite 0 data cursor bytes) (cursor + bytes.length) :=
  h.writeLoop bytes.length bytes hatt (Nat.le_refl _)

theorem seekBack_spec (newFile : Nat) (newOffset : Int) : match seekBack g newFile newOffset with
    | none => (newFile : Int) * g.maxPhysicalFilesize + newOffset < 0
    | some (k, o) => ((k * g.maxPhysicalFilesize + o : Nat) : Int) = newFile * g.maxPhysicalFilesize + newOffset := by
  induction newFile generalizing newOffset with
  | zero =>
    by_cases hneg : newOffset < 0
    · simp [seekBack, hneg]
    · simp [seekBack, hneg]
      omega
  | succ newFile ih =>
    by_cases hneg : newOffset < 0
    · have hsum : (newFile : Int) * g.maxPhysicalFilesize + (newOffset + g.maxPhysicalFilesize) =
          ((newFile + 1 : Nat) : Int) * g.maxPhysicalFilesize + newOffset := by
        push_cast; ring
      have hrec := ih (newOffset + g.maxPhysicalFilesize)
      rw [hsum] at hrec
      rw [seekBack, if_pos hneg]
      exact hrec
    · rw [seekBack, if_neg hneg]
      simp only
      push_cast
      omega

theorem seekOn_spec {numFiles : Nat} (fuel newFile newOffset : Nat) (hfuel : numFiles ≤ newFile + fuel)
    (hpast : numFiles ≤ newFile → numFiles * g.maxPhysicalFilesize < newFile * g.maxPhysicalFilesize + newOffset) :
    match seekOn g numFiles fuel newFile newOffset with
    | none => numFiles * g.maxPhysicalFilesize < newFile * g.maxPhysicalFilesize + newOffset
    | some (k, o) => k * g.maxPhysicalFilesize + o = newFile * g.maxPhysicalFilesize + newOffset ∧
        k < numFiles ∧ o ≤ g.maxPhysicalFilesize := by
  induction fuel generalizing newFile newOffset with
  | zero => exact hpast hfuel
  | succ fuel ih =>
    by_cases hbig : g.maxPhysicalFilesize < newOffset
    · by_cases hend : numFiles ≤ newFile + 1
      · rw [seekOn, if_pos hbig, if_pos hend]
        have hmul := Nat.mul_le_mul_right g.maxPhysicalFilesize hend
        rw [Nat.add_mul] at hmul
        show numFiles * _ < _
        omega
      · rw [seekOn, if_pos hbig, if_neg hend]
        have hsum : (newFile + 1) * g.maxPhysicalFilesize + (newOffset - g.maxPhysicalFilesize) =
            newFile * g.maxPhysicalFilesize + newOffset := by
          rw [Nat.add_mul]; omega
        have hrec := ih (newFile + 1) (newOffset - g.maxPhysicalFilesize) (by omega) (fun hle => absurd hle hend)
        rw [hsum] at hrec
        exact hrec
    · rw [seekOn, if_neg hbig]
      by_cases hend : numFiles ≤ newFile
      · rw [if_pos hend]
        exact hpast hend
      · rw [if_neg hend]
        exact ⟨rfl, by omega, by omega⟩

structure Flat where
  data : List UInt8
  cursor : Nat
deriving DecidableEq

namespace Flat

def write (flat : Flat) (bytes : List UInt8) : Flat where
  data := pwrite 0 flat.data flat.cursor bytes
  cursor := flat.cursor + bytes.length

def read (flat : Flat) (size : Nat) : List UInt8 × Flat :=
  let bytes := (flat.data.drop flat.cursor).take size
  (bytes, { flat with cursor := flat.cursor + bytes.length })

def seekTo (g : Geometry) (flat : Flat) (target : Int) : Bool × Flat :=
  if target < 0 ∨ capacity g flat.data.length < target then (false, flat)
  else (true, { flat with cursor := target.toNat })

def seek (g : Geometry) (flat : Flat) (fileno offset : Int) : Whence → Bool × Flat
  | .seekSet => if fileno < 0 then (false, flat) else flat.seekTo g (fileno * g.maxPhysicalFilesize + offset)
  | .seekCur => flat.seekTo g (flat.cursor + offset)
  | .seekEnd => flat.seekTo g flat.data.length

end Flat

theorem Inv.cursor_le (h : Inv g file data cursor) : cursor ≤ capacity g data.length := by
  by_cases hd : file.dirty = true
  · obtain ⟨hinv, hclean⟩ := h.flush
    have hcap := hinv.layout.length_eq
    rw [hinv.flatten_eq hclean] at hcap
    have hle := hinv.layout.flatten_length_le
    rw [hinv.flatten_eq hclean] at hle
    have hne : file.buffer ≠ [] := List.ne_nil_of_length_pos (h.attached hd).1
    have hlen := length_pwrite (0 : UInt8) file.files.flatten (file.base g) hne
    rw [h.data_eq] at hlen
    have hpos := h.pos_le
    have hcur := h.cursor_eq
    simp only [File.nbytes] at hpos
    omega
  · have hd : file.dirty = false := by simpa using hd
    have hcap := h.layout.length_eq
    rw [h.flatten_eq hd] at hcap
    have hmul := Nat.mul_le_mul_right g.maxPhysicalFilesize (Nat.succ_le_of_lt h.curFile_lt)
    have hwithin := (h.clean hd).2
    have hpos := h.pos_le
    rw [Nat.succ_eq_add_one, Nat.add_mul] at hmul
    rw [← hcap, ← h.cursor_eq]
    simp only [File.base, File.numFiles] at hmul ⊢
    omega

/-- A call on the file and the same call on the array give the same answer, and the states they
leave still belong together. -/
def Agree (g : Geometry) {β : Type} (r : β × File) (s : β × Flat) : Prop :=
  r.1 = s.1 ∧ Inv g r.2 s.2.data s.2.cursor

theorem Inv.seekTo_fail (h : Inv g file data cursor) {target : Int}
    (hfail : target < 0 ∨ capacity g data.length < target) :
    Agree g (false, file) (Flat.seekTo g ⟨data, cursor⟩ target) := by
  rw [Flat.seekTo, if_pos hfail]
  exact ⟨rfl, h⟩

theorem Inv.seekTo_done {target : Nat} (h : Inv g file data target) :
    Agree g (true, file) (Flat.seekTo g ⟨data, cursor⟩ target) := by
  have hle := h.cursor_le
  have hok : ¬ ((target : Int) < 0 ∨ capacity g data.length < (target : Int)) := by omega
  rw [Flat.seekTo, if_neg hok]
  exact ⟨rfl, h⟩

theorem seekLast_spec {numFiles : Nat} (hpos : 0 < numFiles) (newFile newOffset : Nat) :
    (seekLast g numFiles newFile newOffset).1 * g.maxPhysicalFilesize +
        (seekLast g numFiles newFile newOffset).2 = newFile * g.maxPhysicalFilesize + newOffset ∧
      (numFiles ≤ (seekLast g numFiles newFile newOffset).1 → numFiles * g.maxPhysicalFilesize <
        (seekLast g numFiles newFile newOffset).1 * g.maxPhysicalFilesize +
          (seekLast g numFiles newFile newOffset).2) := by
  have hM := g.max_pos
  by_cases hstart : newFile = numFiles ∧ newOffset = 0
  · obtain ⟨rfl, rfl⟩ := hstart
    obtain ⟨k, rfl⟩ : ∃ k, newFile = k + 1 := ⟨newFile - 1, by omega⟩
    simp only [seekLast, and_self, if_true, Nat.add_sub_cancel]
    refine ⟨by ring, fun hle => ?_⟩
    omega
  · simp only [seekLast, if_neg hstart]
    refine ⟨trivial, fun hle => ?_⟩
    rcases Nat.lt_or_eq_of_le hle with hlt | heq
    · have := Nat.mul_lt_mul_of_pos_right hlt hM
      omega
    · have : 0 < newOffset := by
        by_contra hzero
        exact hstart ⟨heq.symm, by omega⟩
      rw [heq]
      omega

theorem Inv.seekAt (h : Inv g file data cursor) (newFile newOffset : Nat) : Agree g (seekAt g file newFile newOffset)
      (Flat.seekTo g ⟨data, cursor⟩ (newFile * g.maxPhysicalFilesize + newOffset : Nat)) := by
  unfold BufFile.seekAt
  by_cases hin : newFile = file.curFile ∧ file.curOffset ≤ newOffset ∧ newOffset ≤ file.curOffset + file.nbytes
  · rw [if_pos hin]
    obtain ⟨rfl, hlow, hhigh⟩ := hin
    apply Inv.seekTo_done
    refine ⟨h.layout, h.curFile_lt, h.curOffset_le, ?_, h.nbytes_le, h.data_eq, ?_, h.clean, h.attached⟩
    · show newOffset - file.curOffset ≤ file.nbytes
      omega
    · simp only [File.base]
      omega
  · rw [if_neg hin]
    obtain ⟨hinv, hd⟩ := h.flush
    have hcap := hinv.layout.length_eq
    rw [hinv.flatten_eq hd] at hcap
    have hpos : 0 < (BufFile.flush g file).numFiles := List.length_pos_iff.mpr hinv.layout.ne_nil
    obtain ⟨htarget, hpast⟩ := seekLast_spec (g := g) hpos newFile newOffset
    have hon := seekOn_spec (BufFile.flush g file).numFiles _ _ (Nat.le_add_left _ _) hpast
    dsimp only
    rw [htarget] at hon
    cases hres : seekOn g (BufFile.flush g file).numFiles (BufFile.flush g file).numFiles
        (seekLast g (BufFile.flush g file).numFiles newFile newOffset).1
        (seekLast g (BufFile.flush g file).numFiles newFile newOffset).2 with
    | none =>
      rw [hres] at hon
      apply hinv.seekTo_fail
      right
      have hon : (BufFile.flush g file).numFiles * g.maxPhysicalFilesize < _ := hon
      simp only [File.numFiles] at hon
      omega
    | some p =>
      obtain ⟨k, o⟩ := p
      rw [hres] at hon
      obtain ⟨hsum, hk, ho⟩ := hon
      apply Inv.seekTo_done
      exact Inv.of_empty hinv.layout hk ho hd rfl rfl (hinv.flatten_eq hd) hsum

theorem Inv.seek (h : Inv g file data cursor) (fileno offset : Int) (whence : Whence)
    (hend : whence = .seekEnd → file.dirty = false) :
    Agree g (seek g file fileno offset whence) (Flat.seek g ⟨data, cursor⟩ fileno offset whence) := by
  -- a target as a segment number and a signed offset
  have hgo : ∀ (newFile : Nat) (newOffset target : Int), (newFile : Int) * g.maxPhysicalFilesize + newOffset = target →
      Agree g (match seekBack g newFile newOffset with
        | none => (false, file)
        | some (newFile, newOffset) => BufFile.seekAt g file newFile newOffset)
        (Flat.seekTo g ⟨data, cursor⟩ target) := by
    intro newFile newOffset target ht
    have hback := seekBack_spec (g := g) newFile newOffset
    cases hres : seekBack g newFile newOffset with
    | none =>
      rw [hres] at hback
      exact h.seekTo_fail (Or.inl (ht ▸ hback))
    | some p =>
      obtain ⟨k, o⟩ := p
      rw [hres] at hback
      have hback : ((k * g.maxPhysicalFilesize + o : Nat) : Int) = _ := hback
      rw [← ht, ← hback]
      exact h.seekAt k o
  unfold BufFile.seek Flat.seek
  cases whence with
  | seekSet =>
    by_cases hneg : fileno < 0
    · simp only [seekTarget, if_pos hneg, Option.bind_none]
      exact ⟨rfl, h⟩
    · simp only [seekTarget, if_neg hneg, Option.bind_some]
      apply hgo
      rw [Int.toNat_of_nonneg (by omega)]
  | seekCur =>
    simp only [seekTarget, Option.bind_some]
    apply hgo
    rw [← h.cursor_eq, File.base]
    push_cast
    ring
  | seekEnd =>
    simp only [seekTarget, Option.bind_some]
    apply hgo
    have hlen := h.layout.filled.length_flatten h.layout.ne_nil
    rw [h.flatten_eq (hend rfl)] at hlen
    rw [hlen]
    push_cast
    rfl

theorem Inv.tell (h : Inv g file data cursor) :
    (tell file).1 * g.maxPhysicalFilesize + (BufFile.tell file).2 = cursor := by
  rw [← h.cursor_eq, BufFile.tell, File.base, Nat.add_assoc]

structure Segments (g : Geometry) where
  files : List Segment
  layout : Layout g files

def Segments.new (g : Geometry) : Segments g := ⟨[[]], Layout.single g⟩

theorem Inv.close (h : Inv g file data cursor) : Layout g (close g file) ∧ (BufFile.close g file).flatten = data :=
  have hflush := h.flush
  ⟨hflush.1.layout, hflush.1.flatten_eq hflush.2⟩

theorem Inv.opened {files : List Segment} (hl : Layout g files) : Inv g (openFileSet files) files.flatten 0 :=
  Inv.of_empty hl (List.length_pos_iff.mpr hl.ne_nil) (Nat.zero_le _) rfl rfl rfl rfl
    (by simp [File.base, openFileSet, makeBufFileCommon])

inductive Call
  | write (bytes : List UInt8)
  | read (size : Nat)
  | seek (fileno offset : Int) (whence : Whence)
  | tell
  /-- Closes the file and opens its segments again. -/
  | reopen
deriving DecidableEq

inductive Reply
  | done
  | bytes (bytes : List UInt8)
  | sought (ok : Bool)
  | position (position : Nat)
deriving DecidableEq

def exec (g : Geometry) (file : File) : Call → Reply × File
  | .write bytes => (.done, write g file bytes)
  | .read size => let r := read g file size; (.bytes r.1, r.2)
  | .seek fileno offset whence => let r := seek g file fileno offset whence; (.sought r.1, r.2)
  | .tell => (.position ((tell file).1 * g.maxPhysicalFilesize + (tell file).2), file)
  | .reopen => (.done, openFileSet (close g file))

def Flat.exec (g : Geometry) (flat : Flat) : Call → Reply × Flat
  | .write bytes => (.done, flat.write bytes)
  | .read size => let r := flat.read size; (.bytes r.1, r.2)
  | .seek fileno offset whence => let r := flat.seek g fileno offset whence; (.sought r.1, r.2)
  | .tell => (.position flat.cursor, flat)
  | .reopen => (.done, { flat with cursor := 0 })

def runCalls {σ : Type} (step : σ → Call → Reply × σ) (s : σ) : List Call → List Reply × σ
  | [] => ([], s)
  | call :: calls =>
    let r := step s call
    let rest := runCalls step r.2 calls
    (r.1 :: rest.1, rest.2)

def Throughout (g : Geometry) (P : File → Call → Prop) : File → List Call → Prop
  | _, [] => True
  | file, call :: calls => P file call ∧ Throughout g P (exec g file call).2 calls

def CleanSeekEnd (file : File) : Call → Prop
  | .seek _ _ .seekEnd => file.dirty = false
  | _ => True

def Attached (g : Geometry) (file : File) : Call → Prop
  | .write bytes => bytes ≠ [] → ¬ Detached g file
  | _ => True

theorem Inv.exec {flat : Flat} (h : Inv g file flat.data flat.cursor) {call : Call} (hend : CleanSeekEnd file call)
    (hatt : Attached g file call) : Agree g (exec g file call) (flat.exec g call) := by
  cases call with
  | write bytes => exact ⟨rfl, h.write hatt⟩
  | read size =>
    obtain ⟨hread, hinv⟩ := h.read size
    exact ⟨congrArg Reply.bytes hread, hinv⟩
  | seek fileno offset whence =>
    obtain ⟨hsought, hinv⟩ := h.seek fileno offset whence (by rintro rfl; exact hend)
    exact ⟨congrArg Reply.sought hsought, hinv⟩
  | tell => exact ⟨congrArg Reply.position h.tell, h⟩
  | reopen =>
    obtain ⟨hlayout, hdata⟩ := h.close
    refine ⟨rfl, ?_⟩
    show Inv g (openFileSet (BufFile.close g file)) flat.data 0
    rw [← hdata]
    exact Inv.opened hlayout

theorem Inv.run (flat : Flat) (h : Inv g file flat.data flat.cursor) (calls : List Call)
    (hend : Throughout g CleanSeekEnd file calls) (hatt : Throughout g (Attached g) file calls) :
    Agree g (runCalls (BufFile.exec g) file calls) (runCalls (Flat.exec g) flat calls) := by
  induction calls generalizing file flat with
  | nil => exact ⟨rfl, h⟩
  | cons call calls ih =>
    obtain ⟨hreply, hinv⟩ := h.exec hend.1 hatt.1
    obtain ⟨hreplies, hfinal⟩ := ih _ hinv hend.2 hatt.2
    exact ⟨congrArg₂ List.cons hreply hreplies, hfinal⟩

/-- A run of calls on a segmented file answers as the same run on a flat array does, and leaves
every segment but the last one full. -/
theorem refines_flat (g : Geometry) (start : Segments g) (calls : List Call)
    (hend : Throughout g CleanSeekEnd (openFileSet start.files) calls)
    (hatt : Throughout g (Attached g) (openFileSet start.files) calls) :
    (runCalls (exec g) (openFileSet start.files) calls).1 = (runCalls (Flat.exec g) ⟨start.files.flatten, 0⟩ calls).1 ∧
      ∀ s ∈ (runCalls (exec g) (openFileSet start.files) calls).2.files.dropLast, s.length = g.maxPhysicalFilesize := by
  have hstart : Inv g (openFileSet start.files) start.files.flatten 0 := Inv.opened start.layout
  obtain ⟨hreplies, hfinal⟩ := Inv.run ⟨start.files.flatten, 0⟩ hstart calls hend hatt
  exact ⟨hreplies, hfinal.layout.filled⟩

def smallCalls : List Call :=
  [.write [1, 2], .seek 0 0 .seekSet, .read 1, .tell, .reopen, .seek 0 0 .seekEnd, .write [3], .tell]

theorem refines_flat_smallCalls : (runCalls (exec .default) (openFileSet (Segments.new .default).files) smallCalls).1 =
        (runCalls (Flat.exec .default) ⟨[], 0⟩ smallCalls).1 ∧
      ∀ s ∈ (runCalls (exec .default) (openFileSet (Segments.new .default).files) smallCalls).2.files.dropLast,
        s.length = Geometry.default.maxPhysicalFilesize := by
  apply refines_flat .default (Segments.new .default) smallCalls
  · exact ⟨trivial, trivial, trivial, trivial, trivial, rfl, trivial, trivial, trivial⟩
  · exact ⟨fun _ => by decide +kernel, trivial, trivial, trivial, trivial, trivial, fun _ => by decide +kernel,
      trivial, trivial⟩

def gapCalls : List Call := [.seek 1 0 .seekSet, .write [7], .reopen, .read 1]

theorem gapCalls_not_flat : Throughout .default CleanSeekEnd (openFileSet (Segments.new .default).files) gapCalls ∧
    (runCalls (exec .default) (openFileSet (Segments.new .default).files) gapCalls).1 =
      [.sought true, .done, .done, .bytes []] ∧
    (runCalls (Flat.exec .default) ⟨[], 0⟩ gapCalls).1 = [.sought true, .done, .done, .bytes [0]] ∧
    ∃ s ∈ (runCalls (exec .default) (openFileSet (Segments.new .default).files) gapCalls).2.files.dropLast,
      s.length < Geometry.default.maxPhysicalFilesize := by
  refine ⟨⟨trivial, trivial, trivial, trivial, trivial⟩, ?_, ?_, ?_⟩
  · decide +kernel
  · decide +kernel
  · decide +kernel

end CdcKafka.BufFile
