import CdcKafka.Copy.Options
import CdcKafka.Lib.Wire

/-! `CopyReadLine`, `CopyReadAttributesText` and `CopyReadAttributesCSV` of `copyfromparse.c`, and the
rows that `NextCopyFromRawFields` yields. The input is the whole of what is read, in the encoding of
the database: where the source fetches more of it first, it is there. -/

namespace CdcKafka.Copy

open CdcKafka.Lib

inductive CopyError
  /-- "literal carriage return found in data", or "unquoted" in CSV mode -/
  | carriageReturnFound (isCsv : Bool)
  /-- "literal newline found in data", or "unquoted" in CSV mode -/
  | newlineFound (isCsv : Bool)
  /-- "end-of-copy marker does not match previous newline style" -/
  | markerStyle
  /-- "end-of-copy marker is not alone on its line" -/
  | markerNotAlone
  /-- "extra data after last expected column" -/
  | extraData
  /-- "unterminated CSV quoted field" -/
  | unterminatedQuote
  /-- "unexpected default marker in COPY data", of a column that "has no default value" -/
  | unexpectedDefaultMarker (attnum : Nat)
  /-- "invalid byte sequence for encoding" -/
  | invalidByteSequence
deriving DecidableEq

inductive EolType
  | unknown
  | nl
  | cr
  | crnl
deriving DecidableEq

structure CopyFromState where
  opts : CopyFormatOptions
  attnumlist : List Nat
  defexprs : Nat → Bool
  /-- Whether `pg_verifymbstr` accepts a string. -/
  verify : Bytes → Bool

/-- What is in `line_buf`, whether the end of the data is reached, the rest of the input and the
style of the line endings. -/
structure ReadLine where
  line : Bytes
  done : Bool
  rest : Bytes
  eolType : EolType
deriving DecidableEq

def nextByte : Bytes → UInt8 × Bytes
  | [] => (0, [])
  | c :: rest => (c, rest)

def markerReturn (eolType : EolType) (rest : Bytes) : Except CopyError Bytes :=
  if eolType = .crnl then
    if (nextByte rest).1 = newline then .error .markerStyle
    else if (nextByte rest).1 ≠ carriageReturn then .error .markerNotAlone
    else .ok (nextByte rest).2
  else .ok rest

def endOfCopy (eolType : EolType) (line rest : Bytes) : Except CopyError ReadLine := do
  let rest ← markerReturn eolType rest
  let (c2, rest) := nextByte rest
  if c2 ≠ carriageReturn ∧ c2 ≠ newline then .error .markerNotAlone
  else if eolType = .nl ∧ c2 ≠ newline ∨ eolType = .crnl ∧ c2 ≠ newline ∨ eolType = .cr ∧ c2 ≠ carriageReturn then
    .error .markerStyle
  else if line ≠ [] then .error .markerNotAlone
  else .ok ⟨[], true, rest, eolType⟩

def endAtReturn (isCsv : Bool) (eolType : EolType) (line rest : Bytes) : Except CopyError ReadLine :=
  match eolType, rest with
  | .nl, _ => .error (.carriageReturnFound isCsv)
  | .cr, _ => .ok ⟨line ++ [carriageReturn], false, rest, .cr⟩
  | .unknown, c :: rest' =>
    if c = newline then .ok ⟨line ++ [carriageReturn, newline], false, rest', .crnl⟩
    else .ok ⟨line ++ [carriageReturn], false, rest, .cr⟩
  | .unknown, [] => .ok ⟨line ++ [carriageReturn], false, rest, .cr⟩
  | .crnl, c :: rest' =>
    if c = newline then .ok ⟨line ++ [carriageReturn, newline], false, rest', .crnl⟩
    else .error (.carriageReturnFound isCsv)
  | .crnl, [] => .error (.carriageReturnFound isCsv)

def endAtNewline (isCsv : Bool) (eolType : EolType) (line rest : Bytes) : Except CopyError ReadLine :=
  if eolType = .cr ∨ eolType = .crnl then .error (.newlineFound isCsv)
  else .ok ⟨line ++ [newline], false, rest, .nl⟩

structure QuoteState where
  inQuote : Bool
  lastWasEsc : Bool
deriving DecidableEq

def QuoteState.step (quotec escapec : UInt8) (q : QuoteState) (c : UInt8) : QuoteState :=
  let lastWasEsc := if q.inQuote ∧ c = escapec then !q.lastWasEsc else q.lastWasEsc
  let inQuote := if c = quotec ∧ lastWasEsc = false then !q.inQuote else q.inQuote
  ⟨inQuote, if c ≠ escapec then false else lastWasEsc⟩

def copyReadLineText (eolType : EolType) (line : Bytes) : Bytes → Except CopyError ReadLine
  | [] => .ok ⟨line, true, [], eolType⟩
  | [c] =>
    if c = carriageReturn then endAtReturn false eolType line []
    else if c = newline then endAtNewline false eolType line []
    else .ok ⟨line ++ [c], true, [], eolType⟩
  | c :: c2 :: rest =>
    if c = carriageReturn then endAtReturn false eolType line (c2 :: rest)
    else if c = newline then endAtNewline false eolType line (c2 :: rest)
    else if c = backslash then
      if c2 = dot then endOfCopy eolType line rest
      -- the second character is skipped over
      else copyReadLineText eolType (line ++ [c, c2]) rest
    else copyReadLineText eolType (line ++ [c]) (c2 :: rest)

def copyReadLineCsv (quotec escapec : UInt8) (eolType : EolType) (q : QuoteState) (line : Bytes) :
    Bytes → Except CopyError ReadLine
  | [] => .ok ⟨line, true, [], eolType⟩
  | c :: rest =>
    let q := q.step quotec escapec c
    if c = carriageReturn ∧ q.inQuote = false then endAtReturn true eolType line rest
    else if c = newline ∧ q.inQuote = false then endAtNewline true eolType line rest
    else copyReadLineCsv quotec escapec eolType q (line ++ [c]) rest

def ReadLine.strip (r : ReadLine) : ReadLine :=
  if r.done then r
  else
    match r.eolType with
    | .crnl => { r with line := r.line.dropLast.dropLast }
    | _ => { r with line := r.line.dropLast }

def CopyFormatOptions.lineEscapec (opts : CopyFormatOptions) : UInt8 :=
  if opts.quotec = opts.escapec then 0 else opts.escapec

def copyReadLine (cstate : CopyFromState) (eolType : EolType) (input : Bytes) : Except CopyError ReadLine :=
  let r :=
    if cstate.opts.csvMode then
      copyReadLineCsv cstate.opts.quotec cstate.opts.lineEscapec eolType ⟨false, false⟩ [] input
    else copyReadLineText eolType [] input
  r.map ReadLine.strip

inductive RawField
  | null
  | defaultMarker
  | value (string : Bytes)
deriving DecidableEq

/-- A field: its input, its output, whether a character outside of ASCII was made from an escape or,
in CSV mode, whether there was a quote, and what is behind the delimiter if one was found. -/
structure FieldScan where
  raw : Bytes
  out : Bytes
  saw : Bool
  rest : Option Bytes
deriving DecidableEq

def FieldScan.push (raw out : Bytes) (saw : Bool) (s : FieldScan) : FieldScan :=
  ⟨raw ++ s.raw, out ++ s.out, saw || s.saw, s.rest⟩

def classifyField (cstate : CopyFromState) (fieldno : Nat) (notNull : Bool) (s : FieldScan) : Except CopyError RawField :=
  if !notNull ∧ s.raw = cstate.opts.nullPrint.bytes then .ok .null
  else
    match cstate.attnumlist[fieldno]?, cstate.opts.defaultPrint with
    | some attnum, some defaultPrint =>
      if s.raw = defaultPrint.bytes then
        if cstate.defexprs attnum then .ok .defaultMarker else .error (.unexpectedDefaultMarker attnum)
      else .ok (.value s.out)
    | _, _ => .ok (.value s.out)

def isOctal (c : UInt8) : Bool := 0x30 ≤ c && c ≤ 0x37

def octValue (c : UInt8) : Nat := c.toNat - 0x30

def isHexDigit (c : UInt8) : Bool := (0x30 ≤ c && c ≤ 0x39) || (0x41 ≤ c && c ≤ 0x46) || (0x61 ≤ c && c ≤ 0x66)

def hexValue (c : UInt8) : Nat :=
  if c ≤ 0x39 then c.toNat - 0x30 else if c ≤ 0x46 then c.toNat - 0x41 + 10 else c.toNat - 0x61 + 10

def notAscii (c : UInt8) : Bool := c == 0 || 0x80 ≤ c

def moreDigits (digit : UInt8 → Bool) (value : UInt8 → Nat) (base : Nat) : Nat → Nat → Bytes → Nat × Bytes
  | 0, val, rest => (val, rest)
  | _ + 1, val, [] => (val, [])
  | n + 1, val, c :: rest =>
    if digit c then moreDigits digit value base n (val * base + value c) rest else (val, c :: rest)

def hexEscape : Bytes → UInt8 × Bool × Bytes
  | [] => (0x78, false, [])
  | hexchar :: rest =>
    if isHexDigit hexchar then
      let r := moreDigits isHexDigit hexValue 16 1 (hexValue hexchar) rest
      (UInt8.ofNat r.1, notAscii (UInt8.ofNat r.1), r.2)
    else (0x78, false, hexchar :: rest)

def octalEscape (c : UInt8) (rest : Bytes) : UInt8 × Bool × Bytes :=
  let r := moreDigits isOctal octValue 8 2 (octValue c) rest
  (UInt8.ofNat r.1, notAscii (UInt8.ofNat r.1), r.2)

/-- The character that a letter stands for behind a backslash; any other one is taken literally. -/
def letterEscape (c : UInt8) : UInt8 :=
  if c = 0x62 then 0x08
  else if c = 0x66 then 0x0c
  else if c = 0x6e then newline
  else if c = 0x72 then carriageReturn
  else if c = 0x74 then 0x09
  else if c = 0x76 then 0x0b
  else c

/-- What a backslash with the character `c` behind it stands for, whether it is outside of ASCII by a
numeric escape, and the input that is left. -/
def deescape (c : UInt8) (rest : Bytes) : UInt8 × Bool × Bytes :=
  if isOctal c then octalEscape c rest
  else if c = 0x78 then hexEscape rest
  else (letterEscape c, false, rest)

theorem length_moreDigits_le (digit : UInt8 → Bool) (value : UInt8 → Nat) (base n val : Nat) (rest : Bytes) :
    (moreDigits digit value base n val rest).2.length ≤ rest.length := by
  induction n generalizing val rest with
  | zero => exact Nat.le_refl _
  | succ n ih =>
    cases rest with
    | nil => exact Nat.le_refl _
    | cons c rest =>
      rw [moreDigits]
      split
      · exact Nat.le_succ_of_le (ih _ rest)
      · exact Nat.le_refl _

theorem length_deescape_le (c : UInt8) (rest : Bytes) : (deescape c rest).2.2.length ≤ rest.length := by
  have hhex : (hexEscape rest).2.2.length ≤ rest.length := by
    cases rest with
    | nil => exact Nat.le_refl _
    | cons hexchar rest =>
      rw [hexEscape]
      split
      · exact Nat.le_succ_of_le (length_moreDigits_le _ _ _ _ _ rest)
      · exact Nat.le_refl _
  rw [deescape]
  split
  · exact length_moreDigits_le _ _ _ _ _ rest
  · split
    · exact hhex
    · exact Nat.le_refl _

def scanText (delimc : UInt8) : Bytes → FieldScan
  | [] => ⟨[], [], false, none⟩
  | c :: rest =>
    if c = delimc then ⟨[], [], false, some rest⟩
    else if c = backslash then
      match rest with
      -- a backslash at the end is not part of the field
      | [] => ⟨[], [], false, none⟩
      | e :: behind =>
        let r := deescape e behind
        (scanText delimc r.2.2).push (c :: e :: behind.take (behind.length - r.2.2.length)) [r.1] r.2.1
    else (scanText delimc rest).push [c] [c] false
termination_by b => b.length
decreasing_by
  · have hle := length_deescape_le e behind
    simp only [List.length_cons]
    omega
  · simp

def scanCsv (delimc quotec escapec : UInt8) : Bool → Bytes → Except CopyError FieldScan
  | false, [] => .ok ⟨[], [], false, none⟩
  | false, c :: rest =>
    if c = delimc then .ok ⟨[], [], false, some rest⟩
    else if c = quotec then (scanCsv delimc quotec escapec true rest).map (·.push [c] [] true)
    else (scanCsv delimc quotec escapec false rest).map (·.push [c] [c] false)
  | true, [] => .error .unterminatedQuote
  | true, [c] =>
    if c = quotec then .ok ⟨[c], [], false, none⟩ else .error .unterminatedQuote
  | true, c :: nextc :: rest =>
    if c = escapec ∧ (nextc = escapec ∨ nextc = quotec) then
      (scanCsv delimc quotec escapec true rest).map (·.push [c, nextc] [nextc] false)
    else if c = quotec then (scanCsv delimc quotec escapec false (nextc :: rest)).map (·.push [c] [] false)
    else (scanCsv delimc quotec escapec true (nextc :: rest)).map (·.push [c] [c] false)

def scanField (cstate : CopyFromState) (b : Bytes) : Except CopyError FieldScan :=
  if cstate.opts.csvMode then scanCsv cstate.opts.delimc cstate.opts.quotec cstate.opts.escapec false b
  else .ok (scanText cstate.opts.delimc b)

def finishField (cstate : CopyFromState) (fieldno : Nat) (s : FieldScan) : Except CopyError RawField := do
  let field ← classifyField cstate fieldno (cstate.opts.csvMode && s.saw) s
  match field with
  | .value string =>
    if !cstate.opts.csvMode ∧ s.saw ∧ !cstate.verify string then throw .invalidByteSequence else pure (.value string)
  | field => pure field

theorem length_rest_scanText {delimc : UInt8} {b rest : Bytes} (h : (scanText delimc b).rest = some rest) :
    rest.length < b.length := by
  fun_induction scanText delimc b with
  | case1 => cases h
  | case2 rest' =>
    obtain rfl := Option.some.inj h
    exact Nat.lt_succ_self _
  | case3 => cases h
  | case4 e behind r hdelim ih =>
    have hle : r.2.2.length ≤ behind.length := length_deescape_le e behind
    have hlt := ih h
    simp only [List.length_cons]
    omega
  | case5 c rest' hdelim hback ih => exact Nat.lt_succ_of_lt (ih h)

theorem push_of_map {x : Except CopyError FieldScan} {raw out : Bytes} {saw : Bool} {s : FieldScan}
    (h : x.map (·.push raw out saw) = .ok s) : ∃ t, x = .ok t ∧ s = t.push raw out saw := by
  cases x with
  | error e => cases h
  | ok t => exact ⟨t, rfl, (Except.ok.inj h).symm⟩

theorem length_rest_scanCsv {delimc quotec escapec : UInt8} {inQuote : Bool} {b rest : Bytes} {s : FieldScan}
    (h : scanCsv delimc quotec escapec inQuote b = .ok s) (hrest : s.rest = some rest) : rest.length < b.length := by
  fun_induction scanCsv delimc quotec escapec inQuote b generalizing s with
  | case1 =>
    obtain rfl := Except.ok.inj h
    cases hrest
  | case2 rest' =>
    obtain rfl := Except.ok.inj h
    obtain rfl := Option.some.inj hrest
    exact Nat.lt_succ_self _
  | case3 rest' hdelim ih =>
    obtain ⟨t, ht, rfl⟩ := push_of_map h
    exact Nat.lt_succ_of_lt (ih ht hrest)
  | case4 c rest' hdelim hquote ih =>
    obtain ⟨t, ht, rfl⟩ := push_of_map h
    exact Nat.lt_succ_of_lt (ih ht hrest)
  | case5 => cases h
  | case6 =>
    obtain rfl := Except.ok.inj h
    cases hrest
  | case7 => cases h
  | case8 c nextc rest' hesc ih =>
    obtain ⟨t, ht, rfl⟩ := push_of_map h
    exact Nat.lt_succ_of_lt (Nat.lt_succ_of_lt (ih ht hrest))
  | case9 c rest' hesc ih =>
    obtain ⟨t, ht, rfl⟩ := push_of_map h
    exact Nat.lt_succ_of_lt (ih ht hrest)
  | case10 c nextc rest' hesc hquote ih =>
    obtain ⟨t, ht, rfl⟩ := push_of_map h
    exact Nat.lt_succ_of_lt (ih ht hrest)

theorem length_rest_scanField {cstate : CopyFromState} {b rest : Bytes} {s : FieldScan}
    (h : scanField cstate b = .ok s) (hrest : s.rest = some rest) : rest.length < b.length := by
  rw [scanField] at h
  split at h
  · exact length_rest_scanCsv h hrest
  · obtain rfl := Except.ok.inj h
    exact length_rest_scanText hrest

def readFields (cstate : CopyFromState) (fieldno : Nat) (b : Bytes) : Except CopyError (List RawField) :=
  match _hscan : scanField cstate b with
  | .error err => .error err
  | .ok s =>
    match finishField cstate fieldno s with
    | .error err => .error err
    | .ok field =>
      match hrest : s.rest with
      | none => .ok [field]
      | some rest => (readFields cstate (fieldno + 1) rest).map (field :: ·)
termination_by b.length
decreasing_by exact length_rest_scanField _hscan hrest

def copyReadAttributes (cstate : CopyFromState) (line : Bytes) : Except CopyError (List RawField) :=
  if cstate.attnumlist = [] then
    if line ≠ [] then .error .extraData else .ok []
  else readFields cstate 0 line

def nextCopyFromRawFields (cstate : CopyFromState) (eolType : EolType) (input : Bytes) :
    Except CopyError (Option (List RawField × EolType × Bytes)) := do
  let r ← copyReadLine cstate eolType input
  if r.done ∧ r.line = [] then pure none
  else do
    let fields ← copyReadAttributes cstate r.line
    pure (some (fields, r.eolType, r.rest))

theorem endAtReturn_rest {isCsv : Bool} {eolType : EolType} {line rest : Bytes} {r : ReadLine}
    (h : endAtReturn isCsv eolType line rest = .ok r) : r.done = false ∧ r.rest.length ≤ rest.length := by
  rw [endAtReturn.eq_def] at h
  split at h
  · cases h
  · obtain rfl := Except.ok.inj h
    exact ⟨rfl, Nat.le_refl _⟩
  · split at h
    · obtain rfl := Except.ok.inj h
      exact ⟨rfl, Nat.le_succ _⟩
    · obtain rfl := Except.ok.inj h
      exact ⟨rfl, Nat.le_refl _⟩
  · obtain rfl := Except.ok.inj h
    exact ⟨rfl, Nat.le_refl _⟩
  · split at h
    · obtain rfl := Except.ok.inj h
      exact ⟨rfl, Nat.le_succ _⟩
    · cases h
  · cases h

theorem endAtNewline_rest {isCsv : Bool} {eolType : EolType} {line rest : Bytes} {r : ReadLine}
    (h : endAtNewline isCsv eolType line rest = .ok r) : r = ⟨line ++ [newline], false, rest, .nl⟩ := by
  rw [endAtNewline] at h
  split at h
  · cases h
  · exact (Except.ok.inj h).symm

theorem length_nextByte_le (b : Bytes) : (nextByte b).2.length ≤ b.length := by
  cases b with
  | nil => exact Nat.le_refl _
  | cons c b => exact Nat.le_succ _

theorem endOfCopy_rest {eolType : EolType} {line rest : Bytes} {r : ReadLine}
    (h : endOfCopy eolType line rest = .ok r) : r.rest.length ≤ rest.length := by
  rw [endOfCopy] at h
  obtain ⟨behind, hbehind, hlast⟩ := bind_eq_ok.1 h
  have hle : behind.length ≤ rest.length := by
    rw [markerReturn] at hbehind
    split at hbehind
    · split at hbehind
      · cases hbehind
      · split at hbehind
        · cases hbehind
        · obtain rfl := Except.ok.inj hbehind
          exact length_nextByte_le rest
    · obtain rfl := Except.ok.inj hbehind
      exact Nat.le_refl _
  dsimp only at hlast
  split at hlast
  · cases hlast
  · split at hlast
    · cases hlast
    · split at hlast
      · cases hlast
      · obtain rfl := Except.ok.inj hlast
        exact Nat.le_trans (length_nextByte_le behind) hle

theorem copyReadLineText_rest {eolType : EolType} {line input : Bytes} {r : ReadLine}
    (h : copyReadLineText eolType line input = .ok r) : r.rest.length ≤ input.length - 1 := by
  fun_induction copyReadLineText eolType line input with
  | case1 =>
    obtain rfl := Except.ok.inj h
    exact Nat.le_refl _
  | case2 => exact (endAtReturn_rest h).2
  | case3 =>
    obtain rfl := endAtNewline_rest h
    exact Nat.le_refl _
  | case4 =>
    obtain rfl := Except.ok.inj h
    exact Nat.le_refl _
  | case5 => exact (endAtReturn_rest h).2
  | case6 =>
    obtain rfl := endAtNewline_rest h
    exact Nat.le_refl _
  | case7 line rest hret hnew =>
    have hle := endOfCopy_rest h
    simp only [List.length_cons]
    omega
  | case8 line c2 rest hret hnew hdot ih =>
    have hle := ih h
    simp only [List.length_cons]
    omega
  | case9 line c c2 rest hret hnew hback ih =>
    have hle := ih h
    simp only [List.length_cons] at hle ⊢
    omega

theorem copyReadLineCsv_rest {quotec escapec : UInt8} {eolType : EolType} {q : QuoteState} {line input : Bytes}
    {r : ReadLine} (h : copyReadLineCsv quotec escapec eolType q line input = .ok r) :
    r.rest.length ≤ input.length - 1 := by
  fun_induction copyReadLineCsv quotec escapec eolType q line input with
  | case1 =>
    obtain rfl := Except.ok.inj h
    exact Nat.le_refl _
  | case2 => exact (endAtReturn_rest h).2
  | case3 =>
    obtain rfl := endAtNewline_rest h
    exact Nat.le_refl _
  | case4 q line c rest q' hret hnew ih =>
    have hle := ih h
    simp only [List.length_cons]
    omega

theorem strip_rest (r : ReadLine) : r.strip.rest = r.rest := by
  rw [ReadLine.strip]
  split
  · rfl
  · split <;> rfl

theorem copyReadLine_nil (cstate : CopyFromState) (eolType : EolType) :
    copyReadLine cstate eolType [] = .ok ⟨[], true, [], eolType⟩ := by
  rw [copyReadLine]
  cases cstate.opts.csvMode <;> rfl

theorem copyReadLine_rest {cstate : CopyFromState} {eolType : EolType} {input : Bytes} {r : ReadLine}
    (h : copyReadLine cstate eolType input = .ok r) : r.rest.length ≤ input.length - 1 := by
  rw [copyReadLine] at h
  split at h
  · cases hline : copyReadLineCsv cstate.opts.quotec cstate.opts.lineEscapec eolType ⟨false, false⟩ [] input with
    | error err =>
      rw [hline] at h
      cases h
    | ok r' =>
      rw [hline] at h
      obtain rfl := Except.ok.inj h
      rw [strip_rest]
      exact copyReadLineCsv_rest hline
  · cases hline : copyReadLineText eolType [] input with
    | error err =>
      rw [hline] at h
      cases h
    | ok r' =>
      rw [hline] at h
      obtain rfl := Except.ok.inj h
      rw [strip_rest]
      exact copyReadLineText_rest hline

theorem nextCopyFromRawFields_rest {cstate : CopyFromState} {eolType eolType' : EolType} {input rest : Bytes}
    {fields : List RawField} (h : nextCopyFromRawFields cstate eolType input = .ok (some (fields, eolType', rest))) :
    rest.length < input.length := by
  rw [nextCopyFromRawFields] at h
  obtain ⟨r, hr, hnext⟩ := bind_eq_ok.1 h
  have hle := copyReadLine_rest hr
  split at hnext
  · cases hnext
  · next hmore =>
    obtain ⟨fields', -, hfields⟩ := bind_eq_ok.1 hnext
    obtain ⟨rfl, rfl, rfl⟩ : fields' = fields ∧ r.eolType = eolType' ∧ r.rest = rest := by
      simpa using Except.ok.inj hfields
    cases input with
    | nil =>
      rw [copyReadLine_nil] at hr
      obtain rfl := Except.ok.inj hr
      exact absurd ⟨rfl, rfl⟩ hmore
    | cons c input =>
      simp only [List.length_cons] at hle ⊢
      omega

def copyFrom (cstate : CopyFromState) (eolType : EolType) (input : Bytes) : Except CopyError (List (List RawField)) :=
  match _hnext : nextCopyFromRawFields cstate eolType input with
  | .error err => .error err
  | .ok none => .ok []
  | .ok (some (fields, eolType', rest)) => (copyFrom cstate eolType' rest).map (fields :: ·)
termination_by input.length
decreasing_by exact nextCopyFromRawFields_rest _hnext

end CdcKafka.Copy
