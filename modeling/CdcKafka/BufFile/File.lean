import CdcKafka.Lib.FlatFile

/-! Buffered temporary files that are cut into segments: one buffer, its place in the
segments, and the operations that read, write, move and truncate. -/

namespace CdcKafka.BufFile
open CdcKafka.Lib

structure Geometry where
  blcksz : Nat
  maxPhysicalFilesize : Nat
  blcksz_pos : 0 < blcksz
  blcksz_le : blcksz ≤ maxPhysicalFilesize

def Geometry.default : Geometry where
  blcksz := 8192
  maxPhysicalFilesize := 0x40000000
  blcksz_pos := by decide
  blcksz_le := by decide

theorem Geometry.max_pos (g : Geometry) : 0 < g.maxPhysicalFilesize :=
  Nat.lt_of_lt_of_le g.blcksz_pos g.blcksz_le

abbrev Segment := List UInt8

structure File where
  files : List Segment
  dirty : Bool
  curFile : Nat
  curOffset : Nat
  pos : Nat
  /-- The valid bytes of the buffer; `nbytes` is their number. -/
  buffer : List UInt8
deriving DecidableEq

namespace File

def numFiles (file : File) : Nat := file.files.length

def nbytes (file : File) : Nat := file.buffer.length

def thisfile (file : File) (i : Nat) : Segment := file.files.getD i []

end File

def fileRead (segment : Segment) (amount offset : Nat) : List UInt8 := (segment.drop offset).take amount

def fileWrite (segment : Segment) (bytes : List UInt8) (offset : Nat) : Segment := pwrite 0 segment offset bytes

def fileTruncate (segment : Segment) (offset : Nat) : Segment :=
  segment.take offset ++ List.replicate (offset - segment.length) 0

def makeBufFileCommon (files : List Segment) : File where
  files := files
  dirty := false
  curFile := 0
  curOffset := 0
  pos := 0
  buffer := []

def createFileSet : File := makeBufFileCommon [[]]

def openFileSet (files : List Segment) : File := makeBufFileCommon files

def extendBufFile (file : File) : File := { file with files := file.files ++ [[]] }

variable (g : Geometry)

def loadBuffer (file : File) : File :=
  let file :=
    if g.maxPhysicalFilesize ≤ file.curOffset ∧ file.curFile + 1 < file.numFiles then
      { file with curFile := file.curFile + 1, curOffset := 0 }
    else file
  { file with buffer := fileRead (file.thisfile file.curFile) g.blcksz file.curOffset }

def dumpAdvance (file : File) : File :=
  if g.maxPhysicalFilesize ≤ file.curOffset then
    let file := extendBufFile^[file.curFile + 2 - file.numFiles] file
    { file with curFile := file.curFile + 1, curOffset := 0 }
  else file

def bytesToWrite (wpos : Nat) (file : File) : Nat :=
  min (file.nbytes - wpos) (g.maxPhysicalFilesize - file.curOffset)

def dumpSegment (wpos : Nat) (file : File) : File :=
  let bytes := (file.buffer.drop wpos).take (bytesToWrite g wpos file)
  { file with
    files := file.files.set file.curFile (fileWrite (file.thisfile file.curFile) bytes file.curOffset)
    curOffset := file.curOffset + bytesToWrite g wpos file }

def dumpLoop : Nat → Nat → File → File
  | 0, _, file => file
  | fuel + 1, wpos, file =>
    if wpos < file.nbytes then
      let file := dumpAdvance g file
      dumpLoop fuel (wpos + bytesToWrite g wpos file) (dumpSegment g wpos file)
    else file

def dumpReposition (file : File) : File :=
  let back := file.nbytes - file.pos
  if back ≤ file.curOffset then { file with curOffset := file.curOffset - back }
  else { file with curFile := file.curFile - 1, curOffset := file.curOffset + g.maxPhysicalFilesize - back }

def dumpBuffer (file : File) : File :=
  let file := dumpReposition g (dumpLoop g file.nbytes 0 file)
  { file with dirty := false, pos := 0, buffer := [] }

def flush (file : File) : File := if file.dirty then dumpBuffer g file else file

def close (file : File) : List Segment := (flush g file).files

def readRefill (file : File) : File :=
  if file.nbytes ≤ file.pos then
    loadBuffer g { file with curOffset := file.curOffset + file.pos, pos := 0, buffer := [] }
  else file

def readLoop : Nat → Nat → File → List UInt8 × File
  | 0, _, file => ([], file)
  | fuel + 1, size, file =>
    if 0 < size then
      let file := readRefill g file
      -- a load that got nothing ends the loop
      if file.nbytes ≤ file.pos then ([], file)
      else
        let nthistime := min (file.nbytes - file.pos) size
        let rest := readLoop fuel (size - nthistime) { file with pos := file.pos + nthistime }
        ((file.buffer.drop file.pos).take nthistime ++ rest.1, rest.2)
    else ([], file)

def read (file : File) (size : Nat) : List UInt8 × File := readLoop g size size (flush g file)

def writeRoom (file : File) : File :=
  if g.blcksz ≤ file.pos then
    if file.dirty then dumpBuffer g file
    else { file with curOffset := file.curOffset + file.pos, pos := 0, buffer := [] }
  else file

def writeLoop : Nat → List UInt8 → File → File
  | 0, _, file => file
  | fuel + 1, bytes, file =>
    if 0 < bytes.length then
      let file := writeRoom g file
      let nthistime := min (g.blcksz - file.pos) bytes.length
      writeLoop fuel (bytes.drop nthistime)
        { file with
          dirty := true
          pos := file.pos + nthistime
          buffer := pwrite 0 file.buffer file.pos (bytes.take nthistime) }
    else file

def write (file : File) (bytes : List UInt8) : File := writeLoop g bytes.length bytes file

inductive Whence
  | seekSet
  | seekCur
  | seekEnd
deriving DecidableEq

def seekTarget (file : File) (fileno offset : Int) : Whence → Option (Nat × Int)
  | .seekSet => if fileno < 0 then none else some (fileno.toNat, offset)
  | .seekCur => some (file.curFile, (file.curOffset + file.pos : Nat) + offset)
  | .seekEnd => some (file.numFiles - 1, ((file.thisfile (file.numFiles - 1)).length : Int))

def seekBack : Nat → Int → Option (Nat × Nat)
  | 0, newOffset => if newOffset < 0 then none else some (0, newOffset.toNat)
  | newFile + 1, newOffset =>
    if newOffset < 0 then seekBack newFile (newOffset + g.maxPhysicalFilesize)
    else some (newFile + 1, newOffset.toNat)

/-- Goes on one segment at a time while the offset is past the segment. There are no more
turns than segments. -/
def seekOn (numFiles : Nat) : Nat → Nat → Nat → Option (Nat × Nat)
  | 0, _, _ => none
  | fuel + 1, newFile, newOffset =>
    if g.maxPhysicalFilesize < newOffset then
      if numFiles ≤ newFile + 1 then none
      else seekOn numFiles fuel (newFile + 1) (newOffset - g.maxPhysicalFilesize)
    else if numFiles ≤ newFile then none
    else some (newFile, newOffset)

def seekLast (numFiles newFile newOffset : Nat) : Nat × Nat :=
  if newFile = numFiles ∧ newOffset = 0 then (newFile - 1, g.maxPhysicalFilesize) else (newFile, newOffset)

/-- A seek to a place inside the buffer only moves in it. `true` is the result 0, `false` the
result EOF. -/
def seekAt (file : File) (newFile newOffset : Nat) : Bool × File :=
  if newFile = file.curFile ∧ file.curOffset ≤ newOffset ∧ newOffset ≤ file.curOffset + file.nbytes then
    (true, { file with pos := newOffset - file.curOffset })
  else
    let file := flush g file
    let last := seekLast g file.numFiles newFile newOffset
    match seekOn g file.numFiles file.numFiles last.1 last.2 with
    | none => (false, file)
    | some (newFile, newOffset) =>
      (true, { file with curFile := newFile, curOffset := newOffset, pos := 0, buffer := [] })

def seek (file : File) (fileno offset : Int) (whence : Whence) : Bool × File :=
  match (seekTarget file fileno offset whence).bind fun p => seekBack g p.1 p.2 with
  | none => (false, file)
  | some (newFile, newOffset) => seekAt g file newFile newOffset

def tell (file : File) : Nat × Nat := (file.curFile, file.curOffset + file.pos)

end CdcKafka.BufFile
