import CdcKafka.Copy.LoadInput

/-! `CopyReadLine` and `CopyReadLineText` of `copyfromparse.c` over the input buffer, which is loaded when
the scanner runs out of it, in the middle of a token as well. -/

namespace CdcKafka.Copy.Buffered

open CdcKafka.Lib

structure LineScan where
  cstate : CopyFromBuffers
  inputBufPtr : Nat
  copyBufLen : Nat
  needData : Bool
  hitEof : Bool
  quote : QuoteState

inductive LineStep
  | again (l : LineScan)
  | done (result : Bool) (l : LineScan)

namespace LineScan

def peek (l : LineScan) : UInt8 := l.cstate.rawBuf.getD l.inputBufPtr 0

def advance (l : LineScan) : LineScan := { l with inputBufPtr := l.inputBufPtr + 1 }

def setEolType (l : LineScan) (eolType : EolType) : LineScan := { l with cstate := { l.cstate with eolType := eolType } }

def refillLinebuf (l : LineScan) : LineScan :=
  if l.cstate.inputBufIndex < l.inputBufPtr then
    { l with cstate := { l.cstate with
        lineBuf := l.cstate.lineBuf ++
          (l.cstate.rawBuf.drop l.cstate.inputBufIndex).take (l.inputBufPtr - l.cstate.inputBufIndex)
        inputBufIndex := l.inputBufPtr } }
  else l

def Ready (l : LineScan) : Prop := l.inputBufPtr < l.copyBufLen ∨ l.hitEof = true

instance (l : LineScan) : Decidable l.Ready := inferInstanceAs (Decidable (_ ∨ _))

end LineScan

open LineScan

def ifNeedRefill (prevRawPtr : Nat) (l : LineScan) (behind : Except ReadFailure LineStep) : Except ReadFailure LineStep :=
  -- undo fetch
  if ¬l.Ready then .ok (.again { l with inputBufPtr := prevRawPtr, needData := true })
  else behind

def processReturn (isCsv : Bool) (prevRawPtr : Nat) (l : LineScan) : Except ReadFailure LineStep :=
  if l.cstate.eolType = .unknown ∨ l.cstate.eolType = .crnl then
    ifNeedRefill prevRawPtr l <|
      if l.peek = newline then .ok (.done false (l.advance.setEolType .crnl))
      else if l.cstate.eolType = .crnl then .error (.copy (.carriageReturnFound isCsv))
      else .ok (.done false (l.setEolType .cr))
  else if l.cstate.eolType = .nl then .error (.copy (.carriageReturnFound isCsv))
  else .ok (.done false l)

def processNewline (isCsv : Bool) (l : LineScan) : Except ReadFailure LineStep :=
  if l.cstate.eolType = .cr ∨ l.cstate.eolType = .crnl then .error (.copy (.newlineFound isCsv))
  else .ok (.done false (l.setEolType .nl))

def markerEnd (prevRawPtr : Nat) (l : LineScan) : Except ReadFailure LineStep :=
  ifNeedRefill prevRawPtr l <|
    if l.peek ≠ carriageReturn ∧ l.peek ≠ newline then .error (.copy .markerNotAlone)
    else if l.cstate.eolType = .nl ∧ l.peek ≠ newline ∨ l.cstate.eolType = .crnl ∧ l.peek ≠ newline ∨
        l.cstate.eolType = .cr ∧ l.peek ≠ carriageReturn then
      .error (.copy .markerStyle)
    else if 0 < l.cstate.lineBuf.length ∨ l.cstate.inputBufIndex < prevRawPtr then .error (.copy .markerNotAlone)
    else .ok (.done true { l.advance with cstate := { l.cstate with inputBufIndex := l.inputBufPtr + 1 } })

def processMarker (prevRawPtr : Nat) (l : LineScan) : Except ReadFailure LineStep :=
  if l.cstate.eolType = .crnl then
    ifNeedRefill prevRawPtr l <|
      if l.peek = newline then .error (.copy .markerStyle)
      else if l.peek ≠ carriageReturn then .error (.copy .markerNotAlone)
      else markerEnd prevRawPtr l.advance
  else markerEnd prevRawPtr l

def processBackslash (prevRawPtr : Nat) (l : LineScan) : Except ReadFailure LineStep :=
  ifNeedRefill prevRawPtr l <|
    -- IF_NEED_REFILL_AND_EOF_BREAK(0)
    if l.copyBufLen ≤ l.inputBufPtr ∧ l.hitEof = true then .ok (.done true l)
    else if l.peek = dot then processMarker prevRawPtr l.advance
    else .ok (.again l.advance)

def processText (prevRawPtr : Nat) (c : UInt8) (l : LineScan) : Except ReadFailure LineStep :=
  if c = carriageReturn then processReturn false prevRawPtr l
  else if c = newline then processNewline false l
  else if c = backslash then processBackslash prevRawPtr l
  else .ok (.again l)

def processCsv (opts : CopyFormatOptions) (prevRawPtr : Nat) (c : UInt8) (l : LineScan) : Except ReadFailure LineStep :=
  let l := { l with quote := l.quote.step opts.quotec opts.lineEscapec c }
  if c = carriageReturn ∧ l.quote.inQuote = false then processReturn true prevRawPtr l
  else if c = newline ∧ l.quote.inQuote = false then processNewline true l
  else .ok (.again l)

def scanChar (opts : CopyFormatOptions) (l : LineScan) : Except ReadFailure LineStep :=
  if opts.csvMode then
    -- a carriage return may be looked behind, which is before the state of the quotes changes
    if l.peek = carriageReturn then ifNeedRefill l.inputBufPtr l.advance (processCsv opts l.inputBufPtr l.peek l.advance)
    else processCsv opts l.inputBufPtr l.peek l.advance
  else processText l.inputBufPtr l.peek l.advance

def LineScan.loaded (l : LineScan) (cstate : CopyFromBuffers) : LineScan :=
  { cstate := cstate
    inputBufPtr := cstate.inputBufIndex
    copyBufLen := cstate.inputBufLen
    needData := false
    hitEof := cstate.inputReachedEof
    quote := l.quote }

def lineStep (e : ServerEncoding) (opts : CopyFormatOptions) (l : LineScan) : Except ReadFailure LineStep :=
  if l.copyBufLen ≤ l.inputBufPtr ∨ l.needData = true then
    match copyLoadInputBuf e l.refillLinebuf.cstate with
    | .error failure => .error failure
    | .ok cstate =>
      if cstate.inputBufBytes = 0 then .ok (.done true (l.loaded cstate))
      else scanChar opts (l.loaded cstate)
  else scanChar opts l

def lineRounds (e : ServerEncoding) (opts : CopyFormatOptions) :
    Nat → LineScan → Except ReadFailure (Bool × CopyFromBuffers)
  | 0, _ => .error .unfinished
  | rounds + 1, l =>
    match lineStep e opts l with
    | .error failure => .error failure
    | .ok (.again l) => lineRounds e opts rounds l
    | .ok (.done result l) => .ok (result, l.refillLinebuf.cstate)

def startLine (s : CopyFromBuffers) : LineScan :=
  { cstate := s
    inputBufPtr := s.inputBufIndex
    copyBufLen := s.inputBufLen
    needData := false
    hitEof := false
    quote := ⟨false, false⟩ }

def copyReadLineText (e : ServerEncoding) (opts : CopyFormatOptions) (s : CopyFromBuffers) :
    Except ReadFailure (Bool × CopyFromBuffers) :=
  lineRounds e opts (4 * s.stream.length + 2) (startLine s)

def drainRounds : Nat → CopyFromBuffers → Except ReadFailure CopyFromBuffers
  | 0, _ => .error .unfinished
  | rounds + 1, s =>
    let r := copyGetData s rawBufSize
    if r.1 = [] then .ok { r.2 with rawBuf := [], rawBufIndex := 0, inputBufIndex := 0, inputBufLen := 0 }
    else drainRounds rounds r.2

def stripEol (s : CopyFromBuffers) : Except ReadFailure Bytes :=
  match s.eolType with
  | .nl => if s.lineBuf.getLast? = some newline then .ok s.lineBuf.dropLast else .error .assertion
  | .cr => if s.lineBuf.getLast? = some carriageReturn then .ok s.lineBuf.dropLast else .error .assertion
  | .crnl =>
    if s.lineBuf.getLast? = some newline ∧ s.lineBuf.dropLast.getLast? = some carriageReturn then
      .ok s.lineBuf.dropLast.dropLast
    else .error .assertion
  | .unknown => .error .assertion

def copyReadLine (e : ServerEncoding) (opts : CopyFormatOptions) (s : CopyFromBuffers) :
    Except ReadFailure (Bool × CopyFromBuffers) := do
  let (result, s) ← copyReadLineText e opts { s with lineBuf := [] }
  if result then
    if s.copySrc = .frontend then return (true, ← drainRounds (s.chunks.flatten.length + 1) s)
    else return (true, s)
  else return (false, { s with lineBuf := ← stripEol s })

def beginCopyFrom (copySrc : CopySource) (chunks : List Bytes) : CopyFromBuffers :=
  { copySrc := copySrc
    chunks := chunks
    rawBuf := []
    rawBufIndex := 0
    rawReachedEof := false
    inputBufIndex := 0
    inputBufLen := 0
    inputReachedEof := false
    inputReachedError := false
    lineBuf := []
    eolType := .unknown }

end CdcKafka.Copy.Buffered
