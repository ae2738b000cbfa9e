import CdcKafka.Lib.CString

/-! The options of COPY that concern the text and CSV formats, and `ProcessCopyOptions` of
`copy.c` as far as it checks them. -/

namespace CdcKafka.Copy

open CdcKafka.Lib

def newline : UInt8 := 0x0a

def carriageReturn : UInt8 := 0x0d

def backslash : UInt8 := 0x5c

def dot : UInt8 := 0x2e

structure GivenOptions where
  csv : Bool
  delimiter : Option CStr
  null : Option CStr
  default : Option CStr
  quote : Option CStr
  escape : Option CStr
  /-- `FORCE_QUOTE` with columns or with an asterisk. -/
  forceQuote : Bool

structure CopyFormatOptions where
  csvMode : Bool
  delim : CStr
  nullPrint : CStr
  defaultPrint : Option CStr
  quote : Option CStr
  escape : Option CStr

inductive OptionError
  /-- "COPY delimiter must be a single one-byte character" -/
  | delimiterLength
  /-- "COPY delimiter cannot be newline or carriage return" -/
  | delimiterEndOfLine
  /-- "COPY null representation cannot use newline or carriage return" -/
  | nullEndOfLine
  /-- "COPY default representation cannot use newline or carriage return" -/
  | defaultEndOfLine
  /-- "COPY delimiter cannot be" -/
  | delimiterUnsafe (delim : CStr)
  /-- "COPY QUOTE requires CSV mode" -/
  | quoteRequiresCsv
  /-- "COPY quote must be a single one-byte character" -/
  | quoteLength
  /-- "COPY delimiter and quote must be different" -/
  | delimiterIsQuote
  /-- "COPY ESCAPE requires CSV mode" -/
  | escapeRequiresCsv
  /-- "COPY escape must be a single one-byte character" -/
  | escapeLength
  /-- "COPY FORCE_QUOTE requires CSV mode" -/
  | forceQuoteRequiresCsv
  /-- "COPY FORCE_QUOTE cannot be used with COPY FROM" -/
  | forceQuoteInCopyFrom
  /-- "COPY delimiter character must not appear in the NULL specification" -/
  | delimiterInNull
  /-- "CSV quote character must not appear in the NULL specification" -/
  | quoteInNull
  /-- "COPY DEFAULT cannot be used with COPY TO" -/
  | defaultInCopyTo
  /-- "COPY delimiter character must not appear in the DEFAULT specification" -/
  | delimiterInDefault
  /-- "CSV quote character must not appear in the DEFAULT specification" -/
  | quoteInDefault
  /-- "NULL specification and DEFAULT specification cannot be the same" -/
  | nullIsDefault

namespace CopyFormatOptions

def delimc (opts : CopyFormatOptions) : UInt8 := opts.delim.bytes.headD 0

def quotec (opts : CopyFormatOptions) : UInt8 := (opts.quote.map (·.bytes.headD 0)).getD 0

def escapec (opts : CopyFormatOptions) : UInt8 := (opts.escape.map (·.bytes.headD 0)).getD 0

end CopyFormatOptions

def unsafeDelimiters : Bytes :=
  ascii ['\\', '.', 'a', 'b', 'c', 'd', 'e', 'f', 'g', 'h', 'i', 'j', 'k', 'l', 'm', 'n', 'o', 'p', 'q', 'r', 's',
    't', 'u', 'v', 'w', 'x', 'y', 'z', '0', '1', '2', '3', '4', '5', '6', '7', '8', '9']

def endsLine (s : CStr) : Bool := s.bytes.contains carriageReturn || s.bytes.contains newline

def GivenOptions.complete (given : GivenOptions) : CopyFormatOptions :=
  let quote := if given.csv then some (given.quote.getD (.lit ['"'])) else given.quote
  { csvMode := given.csv
    delim := given.delimiter.getD (.lit [if given.csv then ',' else '\t'])
    nullPrint := given.null.getD (.lit (if given.csv then [] else ['\\', 'N']))
    defaultPrint := given.default
    quote := quote
    escape := if given.csv then some (given.escape.getD (quote.getD (.lit []))) else given.escape }

def CopyFormatOptions.checks (opts : CopyFormatOptions) (isFrom forceQuote : Bool) : List (Bool × OptionError) :=
  [(opts.delim.bytes.length != 1, .delimiterLength), (endsLine opts.delim, .delimiterEndOfLine),
    (endsLine opts.nullPrint, .nullEndOfLine),
    (opts.defaultPrint.any endsLine, .defaultEndOfLine),
    (!opts.csvMode && unsafeDelimiters.contains opts.delimc, .delimiterUnsafe opts.delim),
    (!opts.csvMode && opts.quote.isSome, .quoteRequiresCsv),
    (opts.csvMode && opts.quote.any (·.bytes.length != 1), .quoteLength),
    (opts.csvMode && opts.delimc == opts.quotec, .delimiterIsQuote),
    (!opts.csvMode && opts.escape.isSome, .escapeRequiresCsv),
    (opts.csvMode && opts.escape.any (·.bytes.length != 1), .escapeLength),
    (!opts.csvMode && forceQuote, .forceQuoteRequiresCsv),
    (forceQuote && isFrom, .forceQuoteInCopyFrom),
    (opts.nullPrint.bytes.contains opts.delimc, .delimiterInNull),
    (opts.csvMode && opts.nullPrint.bytes.contains opts.quotec, .quoteInNull),
    (opts.defaultPrint.isSome && !isFrom, .defaultInCopyTo),
    (opts.defaultPrint.any (·.bytes.contains opts.delimc), .delimiterInDefault),
    (opts.csvMode && opts.defaultPrint.any (·.bytes.contains opts.quotec), .quoteInDefault),
    (opts.defaultPrint == some opts.nullPrint, .nullIsDefault)]

def processCopyOptions (isFrom : Bool) (given : GivenOptions) : Except OptionError CopyFormatOptions :=
  match (given.complete.checks isFrom given.forceQuote).find? (·.1) with
  | some (_, err) => .error err
  | none => .ok given.complete

theorem processCopyOptions_ok {isFrom : Bool} {given : GivenOptions} {opts : CopyFormatOptions}
    (h : processCopyOptions isFrom given = .ok opts) :
    opts = given.complete ∧ ∀ check ∈ opts.checks isFrom given.forceQuote, check.1 = false := by
  rw [processCopyOptions] at h
  split at h
  · cases h
  · next hnone =>
    obtain rfl := Except.ok.inj h
    refine ⟨rfl, fun check hmem => ?_⟩
    have hpass := List.find?_eq_none.1 hnone check hmem
    simpa using hpass

structure CopyFormatOptions.Admitted (opts : CopyFormatOptions) : Prop where
  delimLength : opts.delim.bytes.length = 1
  delimNewline : opts.delimc ≠ newline
  delimReturn : opts.delimc ≠ carriageReturn
  nullNewline : newline ∉ opts.nullPrint.bytes
  nullReturn : carriageReturn ∉ opts.nullPrint.bytes
  nullDelim : opts.delimc ∉ opts.nullPrint.bytes
  noDefault : opts.defaultPrint = none
  safe : opts.csvMode = false → opts.delimc ∉ unsafeDelimiters
  quoteDelim : opts.csvMode = true → opts.delimc ≠ opts.quotec
  nullQuote : opts.csvMode = true → opts.quotec ∉ opts.nullPrint.bytes
  quoteLength : opts.csvMode = true → ∃ q, opts.quote = some q ∧ q.bytes = [opts.quotec]
  escapeLength : opts.csvMode = true → ∃ e, opts.escape = some e ∧ e.bytes = [opts.escapec]

theorem bytes_of_length_one {s : CStr} (h : s.bytes.length = 1) : s.bytes = [s.bytes.headD 0] := by
  obtain ⟨c, hc⟩ := List.length_eq_one_iff.1 h
  rw [hc]
  rfl

theorem endsLine_eq_false {s : CStr} : endsLine s = false ↔ carriageReturn ∉ s.bytes ∧ newline ∉ s.bytes := by
  simp [endsLine]

theorem admitted_of_ok {given : GivenOptions} {opts : CopyFormatOptions}
    (h : processCopyOptions false given = .ok opts) : opts.Admitted := by
  obtain ⟨hcomplete, hchecks⟩ := processCopyOptions_ok h
  simp only [CopyFormatOptions.checks, List.forall_mem_cons, List.not_mem_nil, false_implies, implies_true, and_true]
    at hchecks
  obtain ⟨hlength, hend, hnullEnd, -, hsafe, -, hquoteLength, hdiffer, -, hescapeLength, -, -, hnullDelim, hnullQuote,
    hdefault, -, -, -⟩ := hchecks
  have hlength' : opts.delim.bytes.length = 1 := by simpa using hlength
  have hdelim : opts.delim.bytes = [opts.delimc] := bytes_of_length_one hlength'
  obtain ⟨hreturn, hnewline⟩ := endsLine_eq_false.1 hend
  rw [hdelim, List.mem_singleton] at hreturn hnewline
  obtain ⟨hnullReturn, hnullNewline⟩ := endsLine_eq_false.1 hnullEnd
  refine ⟨hlength', Ne.symm hnewline, Ne.symm hreturn, hnullNewline, hnullReturn, ?_, ?_, ?_, ?_, ?_, ?_, ?_⟩
  · simpa using hnullDelim
  · simpa using hdefault
  · intro hcsv
    simpa [hcsv] using hsafe
  · intro hcsv
    simpa [hcsv] using hdiffer
  · intro hcsv
    simpa [hcsv] using hnullQuote
  · intro hcsv
    obtain ⟨q, hq⟩ : ∃ q, opts.quote = some q := by
      have hgiven : given.csv = true := by
        rw [hcomplete] at hcsv
        exact hcsv
      exact ⟨given.quote.getD (.lit ['"']), by simp [hcomplete, GivenOptions.complete, hgiven]⟩
    have hone : q.bytes.length = 1 := by simpa [hcsv, hq] using hquoteLength
    have hquotec : opts.quotec = q.bytes.headD 0 := by simp [CopyFormatOptions.quotec, hq]
    exact ⟨q, hq, by rw [hquotec]; exact bytes_of_length_one hone⟩
  · intro hcsv
    obtain ⟨e, he⟩ : ∃ e, opts.escape = some e := by
      have hgiven : given.csv = true := by
        rw [hcomplete] at hcsv
        exact hcsv
      exact ⟨_, by simp only [hcomplete, GivenOptions.complete, hgiven]; rfl⟩
    have hone : e.bytes.length = 1 := by simpa [hcsv, he] using hescapeLength
    have hescapec : opts.escapec = e.bytes.headD 0 := by simp [CopyFormatOptions.escapec, he]
    exact ⟨e, he, by rw [hescapec]; exact bytes_of_length_one hone⟩

theorem quotec_ne_zero {opts : CopyFormatOptions} (h : opts.Admitted) (hcsv : opts.csvMode = true) :
    opts.quotec ≠ 0 := by
  obtain ⟨q, -, hq⟩ := h.quoteLength hcsv
  exact q.nonzero _ (by rw [hq]; exact List.mem_singleton_self _)

theorem escapec_ne_zero {opts : CopyFormatOptions} (h : opts.Admitted) (hcsv : opts.csvMode = true) :
    opts.escapec ≠ 0 := by
  obtain ⟨e, -, he⟩ := h.escapeLength hcsv
  exact e.nonzero _ (by rw [he]; exact List.mem_singleton_self _)

theorem delimc_ne_zero {opts : CopyFormatOptions} (h : opts.Admitted) : opts.delimc ≠ 0 := by
  have hdelim : opts.delim.bytes = [opts.delimc] := bytes_of_length_one h.delimLength
  exact opts.delim.nonzero _ (by rw [hdelim]; exact List.mem_singleton_self _)

end CdcKafka.Copy
