import CdcKafka.Lib.CircularLayout
import CdcKafka.Xlog.Inside

/-! The decode queue of the WAL reader: `XLogReadRecordAlloc`, the queueing part of
`XLogDecodeNextRecord`, `XLogReadAhead`, `XLogReleasePreviousRecord` and `XLogNextRecord`. -/

namespace CdcKafka.Xlog

open CdcKafka.Lib

def defaultDecodeBufferSize : Nat := 64 * 1024

structure Decoded where
  place : Option Nat
  size : Nat
  lsn : UInt64
  nextLsn : UInt64
  record : DecodedXLogRecord

def Decoded.block (d : Decoded) : Option Block := d.place.map fun off => (off, d.size)

inductive ReaderError
  | page (text : String)
  | decode (e : DecodeError)
deriving DecidableEq

/-- The fields of `XLogReaderState` that the queue depends on; the pointers into the decode
buffer are offsets. -/
structure DecodeReader where
  hasBuffer : Bool
  decodeBufferSize : Nat
  decodeBufferHead : Nat
  decodeBufferTail : Nat
  decodeQueue : List Decoded
  record : Option Decoded
  readRecPtr : UInt64
  endRecPtr : UInt64
  decodeRecPtr : UInt64
  nextRecPtr : UInt64
  errormsg : Option ReaderError
  errormsgDeferred : Bool

def DecodeReader.start (hasBuffer : Bool) (size : Nat) (recPtr : UInt64) : DecodeReader where
  hasBuffer := hasBuffer
  decodeBufferSize := size
  decodeBufferHead := 0
  decodeBufferTail := 0
  decodeQueue := []
  record := none
  readRecPtr := 0
  endRecPtr := recPtr
  decodeRecPtr := 0
  nextRecPtr := recPtr
  errormsg := none
  errormsgDeferred := false

def allocateBuffer (s : DecodeReader) : DecodeReader :=
  if s.hasBuffer then s
  else
    { s with
      hasBuffer := true
      decodeBufferSize := if s.decodeBufferSize = 0 then defaultDecodeBufferSize else s.decodeBufferSize
      decodeBufferHead := 0
      decodeBufferTail := 0 }

def findSpace (s : DecodeReader) (requiredSpace : Nat) : Option Nat :=
  if s.decodeBufferHead ≤ s.decodeBufferTail then
    if requiredSpace ≤ s.decodeBufferSize - s.decodeBufferTail then some s.decodeBufferTail
    else if requiredSpace < s.decodeBufferHead then some 0
    else none
  else if requiredSpace < s.decodeBufferHead - s.decodeBufferTail then some s.decodeBufferTail
  else none

inductive Space
  | null
  | buffer (off : Nat)
  | oversized
deriving DecidableEq

def xLogReadRecordAlloc (layout : Layout) (s : DecodeReader) (xlTotLen : Nat) (allowOversized : Bool) :
    DecodeReader × Space :=
  let s := allocateBuffer s
  match findSpace s (decodeXLogRecordRequiredSpace layout xlTotLen) with
  | some off => (s, .buffer off)
  | none => (s, if allowOversized then .oversized else .null)

structure Failure where
  errormsg : Option String
  assembled : Bool

/-- What the pages hold at the next position: nothing that can be read yet or at all, the
beginning of a record whose continuation was overwritten by other records, the beginning of a
record whose rest cannot be read yet (`none`) or at all, or a record that passed its checks. -/
inductive Pages
  | wouldBlock
  | fails (failure : Failure)
  | overwritten (totLen : Nat) (rest : Pages)
  | cut (totLen : Nat) (failure : Option Failure)
  | whole (record : WholeRecord) (recPtr nextRecPtr : UInt64)

inductive PageReadResult
  | success
  | fail
  | wouldBlock
deriving DecidableEq

def failWith (s : DecodeReader) (failure : Failure) : DecodeReader :=
  { s with
    errormsg := failure.errormsg.map .page
    errormsgDeferred := failure.errormsg.isSome || failure.assembled }

def enqueue (s : DecodeReader) (decoded : Decoded) : DecodeReader :=
  { s with
    decodeBufferTail :=
      match decoded.place with
      | none => s.decodeBufferTail
      | some off => if off = 0 then decoded.size else s.decodeBufferTail + decoded.size
    decodeQueue := s.decodeQueue ++ [decoded] }

def Space.place : Space → Option Nat
  | .buffer off => some off
  | _ => none

/-- Behind the checks of a record: space for it if there is none yet, and the decoder. The size
of the decoded record is where its output pointer ends, even if the decoder left its areas. -/
def decodeInto (layout : Layout) (s : DecodeReader) (space : Space) (record : WholeRecord) (recPtr nextRecPtr : UInt64) :
    DecodeReader × PageReadResult :=
  let s := { s with decodeRecPtr := recPtr, nextRecPtr := nextRecPtr }
  let (s, space) := if space = .null then xLogReadRecordAlloc layout s record.bytes.length true else (s, space)
  match decodeXLogRecord record.bytes with
  | .ok d => (enqueue s ⟨space.place, d.decodedSize layout, recPtr, nextRecPtr, d⟩, .success)
  | .error e => ({ s with errormsg := some (.decode e), errormsgDeferred := true }, .fail)

def xLogDecodeNextRecord (layout : Layout) (s : DecodeReader) (nonblocking : Bool) : Pages → DecodeReader × PageReadResult
  | .wouldBlock => (s, .wouldBlock)
  | .fails failure => (failWith s failure, .fail)
  | .overwritten totLen rest =>
    let (s, space) := xLogReadRecordAlloc layout s totLen false
    if space = .null ∧ nonblocking then (s, .wouldBlock) else xLogDecodeNextRecord layout s nonblocking rest
  | .cut totLen failure =>
    let (s, space) := xLogReadRecordAlloc layout s totLen false
    if space = .null ∧ nonblocking then (s, .wouldBlock)
    else
      match failure with
      | none => (s, .wouldBlock)
      | some failure => (failWith s failure, .fail)
  | .whole record recPtr nextRecPtr =>
    let (s, space) := xLogReadRecordAlloc layout s record.bytes.length false
    if space = .null ∧ nonblocking then (s, .wouldBlock) else decodeInto layout s space record recPtr nextRecPtr

def xLogReadAhead (layout : Layout) (s : DecodeReader) (nonblocking : Bool) (pages : Pages) :
    DecodeReader × Option Decoded :=
  if s.errormsgDeferred then (s, none)
  else
    let (s, result) := xLogDecodeNextRecord layout { s with errormsg := none } nonblocking pages
    (s, if result = .success then s.decodeQueue.getLast? else none)

/-- The head moves to the next record that is in the buffer, past oversized ones; without one
the buffer is used from its start again. -/
def releaseSpace (s : DecodeReader) (rest : List Decoded) : DecodeReader :=
  match rest.findSome? (·.place) with
  | some off => { s with decodeBufferHead := off }
  | none => { s with decodeBufferHead := 0, decodeBufferTail := 0 }

def xLogReleasePreviousRecord (s : DecodeReader) : DecodeReader × UInt64 :=
  match s.record with
  | none => (s, 0)
  | some record =>
    let rest := s.decodeQueue.tail
    let s := { s with record := none, decodeQueue := rest }
    (if record.place.isNone then s else releaseSpace s rest, record.nextLsn)

def xLogNextRecord (s : DecodeReader) : DecodeReader × Option Decoded × Option ReaderError :=
  let s := (xLogReleasePreviousRecord s).1
  match s.decodeQueue with
  | [] => if s.errormsgDeferred then ({ s with errormsgDeferred := false }, none, s.errormsg) else (s, none, none)
  | d :: _ => ({ s with record := some d, readRecPtr := d.lsn, endRecPtr := d.nextLsn }, some d, none)

inductive Call
  | readAhead (nonblocking : Bool) (pages : Pages)
  | nextRecord
  | releasePreviousRecord

structure Session where
  reader : DecodeReader
  decoded : List Decoded
  returned : List Decoded

def Session.start (hasBuffer : Bool) (size : Nat) (recPtr : UInt64) : Session :=
  ⟨DecodeReader.start hasBuffer size recPtr, [], []⟩

def Session.step (layout : Layout) (t : Session) : Call → Session
  | .readAhead nonblocking pages =>
    let (s, decoded) := xLogReadAhead layout t.reader nonblocking pages
    { t with reader := s, decoded := t.decoded ++ decoded.toList }
  | .nextRecord =>
    let (s, returned, _) := xLogNextRecord t.reader
    { t with reader := s, returned := t.returned ++ returned.toList }
  | .releasePreviousRecord => { t with reader := (xLogReleasePreviousRecord t.reader).1 }

def Session.run (layout : Layout) (t : Session) (calls : List Call) : Session := calls.foldl (Session.step layout) t

end CdcKafka.Xlog
