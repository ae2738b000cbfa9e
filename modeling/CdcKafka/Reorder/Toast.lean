import CdcKafka.Lib.Wire
import Mathlib.Logic.Function.Basic

/-! Reassembly of toasted columns while the changes of a transaction are processed:
`ReorderBufferToastAppendChunk`, `ReorderBufferToastReplace` and `ReorderBufferToastReset`, and the
part of `ReorderBufferProcessTXN` that calls them. -/

namespace CdcKafka.Reorder.Toast
open CdcKafka.Lib

def varHdrSz : Nat := 4
def varHdrSzShort : Nat := 1

/-- `VARATT_IS_4B_U`, the header of a datum that is neither short nor compressed nor external. -/
def varattIs4BU (b : Bytes) : Bool := (b.headD 0).toNat % 4 = 0

def varattIsShort (b : Bytes) : Bool := (b.headD 0).toNat % 2 = 1

def varSize (b : Bytes) : Nat := decodeLE (b.take 4) / 4 % 2 ^ 30

def varSizeShort (b : Bytes) : Nat := (b.headD 0).toNat / 2 % 128

/-- The third column of a toast row. A full header and a short one count the bytes of the datum;
nothing is known of a datum with another header. -/
structure Chunk where
  bytes : Bytes
  full : varattIs4BU bytes = true → varSize bytes = bytes.length ∧ varHdrSz ≤ bytes.length
  short : varattIsShort bytes = true → varSizeShort bytes = bytes.length ∧ varHdrSzShort ≤ bytes.length

def Chunk.IsFull (chunk : Chunk) : Prop := varattIs4BU chunk.bytes = true

instance (chunk : Chunk) : Decidable chunk.IsFull := inferInstanceAs (Decidable (_ = _))

def Chunk.payload (chunk : Chunk) : Bytes :=
  chunk.bytes.drop (if varattIs4BU chunk.bytes then varHdrSz else varHdrSzShort)

structure ToastTuple where
  chunkId : UInt32
  chunkSeq : Int32
  chunk : Chunk

structure ToastEnt where
  lastChunkSeq : Int32
  numChunks : Nat
  size : Nat
  chunks : List ToastTuple

abbrev ToastHash := UInt32 → Option ToastEnt

inductive ToastError
  /-- "got sequence entry for toast chunk instead of seq" -/
  | unexpectedSeq (chunkSeq : Int32) (chunkId : UInt32) (expected : Int32)
  /-- "unexpected type of toast chunk" -/
  | unexpectedType
  /-- "invalid ordering of speculative insertion changes" -/
  | invalidOrdering
  /-- A copy would read past the end of a chunk. -/
  | outsideChunk
  /-- A copy would write past the end of the reconstructed datum. -/
  | outsideReconstructed
  | noNewTuple
deriving DecidableEq

def chunkSize (chunk : Chunk) : Except ToastError Nat :=
  if varattIs4BU chunk.bytes then .ok (varSize chunk.bytes - varHdrSz)
  else if varattIsShort chunk.bytes then .ok (varSizeShort chunk.bytes - varHdrSzShort)
  else .error .unexpectedType

def findEnt (toastHash : ToastHash) (newtup : ToastTuple) : Except ToastError ToastEnt :=
  match toastHash newtup.chunkId with
  | none =>
    if newtup.chunkSeq ≠ 0 then .error (.unexpectedSeq newtup.chunkSeq newtup.chunkId 0)
    else .ok ⟨0, 0, 0, []⟩
  | some ent =>
    if newtup.chunkSeq ≠ ent.lastChunkSeq + 1 then
      .error (.unexpectedSeq newtup.chunkSeq newtup.chunkId (ent.lastChunkSeq + 1))
    else .ok ent

def reorderBufferToastAppendChunk (toastHash : Option ToastHash) (newtup : ToastTuple) :
    Except ToastError ToastHash := do
  let toastHash := toastHash.getD fun _ => none
  let ent ← findEnt toastHash newtup
  let size ← chunkSize newtup.chunk
  .ok (Function.update toastHash newtup.chunkId (some
    { lastChunkSeq := newtup.chunkSeq
      numChunks := ent.numChunks + 1
      size := ent.size + size
      chunks := ent.chunks ++ [newtup] }))

structure ToastPointer where
  vaRawsize : Nat
  vaExtsize : Nat
  vaValueid : UInt32

def ToastPointer.isCompressed (ptr : ToastPointer) : Bool :=
  ptr.vaExtsize + varHdrSz < ptr.vaRawsize

inductive Datum
  | inline (bytes : Bytes)
  | external (ptr : ToastPointer)

structure Attr where
  attnum : Int
  attisdropped : Bool
  attlen : Int
deriving DecidableEq

structure Column where
  attr : Attr
  datum : Option Datum

abbrev Row := List Column

/-- A column of the tuple that is built: as it was, or with an indirect pointer to a datum that is
marked as compressed or not and holds `data` behind its header. -/
inductive Installed
  | kept (datum : Option Datum)
  | indirect (compressed : Bool) (data : Bytes)

def stitch (vaRawsize : Nat) : Bytes → List ToastTuple → Except ToastError Bytes
  | done, [] => .ok done
  | done, ctup :: chunks =>
    let chunk := ctup.chunk.bytes
    if varSize chunk < varHdrSz ∨ chunk.length < varHdrSz ∨ chunk.length < varSize chunk then
      .error .outsideChunk
    else if vaRawsize < varHdrSz + done.length + (varSize chunk - varHdrSz) then
      .error .outsideReconstructed
    else
      stitch vaRawsize (done ++ (chunk.drop varHdrSz).take (varSize chunk - varHdrSz)) chunks

def Column.toastPointer (c : Column) : Option ToastPointer :=
  if c.attr.attnum < 0 then none
  else if c.attr.attisdropped then none
  else if c.attr.attlen ≠ -1 then none
  else
    match c.datum with
    | none => none
    | some (.inline _) => none
    | some (.external ptr) => some ptr

def replaceColumn (toastHash : ToastHash) (c : Column) : Except ToastError Installed :=
  match c.toastPointer with
  | none => .ok (.kept c.datum)
  | some ptr =>
    match toastHash ptr.vaValueid with
    | none => .ok (.kept c.datum)
    | some ent => do
      let data ← stitch ptr.vaRawsize [] ent.chunks
      .ok (.indirect ptr.isCompressed data)

def replaceColumns (toastHash : ToastHash) : Row → Except ToastError (List Installed)
  | [] => .ok []
  | c :: row => do
    let installed ← replaceColumn toastHash c
    let rest ← replaceColumns toastHash row
    .ok (installed :: rest)

def keepRow (row : Row) : List Installed := row.map fun c => .kept c.datum

def reorderBufferToastReplace (toastHash : Option ToastHash) (newtuple : Option Row) :
    Except ToastError (Option (List Installed)) :=
  match toastHash with
  | none => .ok (newtuple.map keepRow)
  | some toastHash =>
    match newtuple with
    | none => .error .noNewTuple
    | some row => do
      let installed ← replaceColumns toastHash row
      .ok (some installed)

inductive TupleBody
  | notDecoded
  | toastInsert (newtuple : ToastTuple)
  /-- "we're not interested in toast deletions" -/
  | toastOther
  | user (newtuple : Option Row)

structure TupleChange where
  body : TupleBody
  clearToastAfterwards : Bool

inductive Change
  | tuple (change : TupleChange)
  | specInsert (change : TupleChange)
  | specConfirm
  | specAbort
  | other

structure ToastState where
  toastHash : Option ToastHash
  specinsert : Option TupleChange
  /-- The new tuples as the output plugin gets them. -/
  applied : List (Option (List Installed))

def ToastState.init : ToastState := ⟨none, none, []⟩

def processTuple (st : ToastState) (change : TupleChange) : Except ToastError ToastState :=
  match change.body with
  | .notDecoded => .ok { st with specinsert := none }
  | .toastOther => .ok { st with specinsert := none }
  | .toastInsert newtuple => do
    let toastHash ← reorderBufferToastAppendChunk st.toastHash newtuple
    .ok { st with toastHash := some toastHash, specinsert := none }
  | .user newtuple => do
    let installed ← reorderBufferToastReplace st.toastHash newtuple
    .ok { toastHash := if change.clearToastAfterwards then none else st.toastHash
          specinsert := none
          applied := st.applied ++ [installed] }

def processChange (st : ToastState) : Change → Except ToastError ToastState
  | .tuple change => processTuple st change
  | .specInsert change => .ok { st with specinsert := some change }
  | .specConfirm =>
    match st.specinsert with
    | none => .error .invalidOrdering
    | some change => processTuple st change
  | .specAbort =>
    if st.specinsert.isSome then .ok { st with toastHash := none, specinsert := none } else .ok st
  | .other => .ok st

def processChanges : ToastState → List Change → Except ToastError ToastState
  | st, [] => .ok st
  | st, change :: changes => do
    let st ← processChange st change
    processChanges st changes

end CdcKafka.Reorder.Toast
