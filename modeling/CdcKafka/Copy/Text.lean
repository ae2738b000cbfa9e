import CdcKafka.Copy.Read

/-! `CopyToTextLikeOneRow` of `copyto.c`, without transcoding and in an encoding that does not embed
ASCII. -/

namespace CdcKafka.Copy

open CdcKafka.Lib

structure CopyToState where
  opts : CopyFormatOptions
  attnumlist : List Nat
  forceQuoteFlags : Nat → Bool

def controlLetter (c : UInt8) : Option UInt8 :=
  if c = 0x08 then some 0x62
  else if c = 0x0c then some 0x66
  else if c = newline then some 0x6e
  else if c = carriageReturn then some 0x72
  else if c = 0x09 then some 0x74
  else if c = 0x0b then some 0x76
  else none

def outTextChar (delimc c : UInt8) : Bytes :=
  if c < 0x20 then
    match controlLetter c with
    | some letter => [backslash, letter]
    | none => if c = delimc then [backslash, c] else [c]
  else if c = backslash ∨ c = delimc then [backslash, c]
  else [c]

def copyAttributeOutText (opts : CopyFormatOptions) (string : Bytes) : Bytes :=
  string.flatMap (outTextChar opts.delimc)

def usesQuote (opts : CopyFormatOptions) (singleAttr useQuote : Bool) (string : Bytes) : Bool :=
  useQuote || string == opts.nullPrint.bytes || (singleAttr && string == [backslash, dot]) ||
    string.any fun c => c == opts.delimc || c == opts.quotec || c == newline || c == carriageReturn

def outQuotedChar (opts : CopyFormatOptions) (c : UInt8) : Bytes :=
  if c = opts.quotec ∨ c = opts.escapec then [opts.escapec, c] else [c]

def copyAttributeOutCSV (opts : CopyFormatOptions) (singleAttr useQuote : Bool) (string : Bytes) : Bytes :=
  if usesQuote opts singleAttr useQuote string then
    opts.quotec :: string.flatMap (outQuotedChar opts) ++ [opts.quotec]
  else string

def CopyToState.singleAttr (cstate : CopyToState) : Bool := cstate.attnumlist.length == 1

def CopyToState.column (cstate : CopyToState) (attnum : Nat) : Option CStr → Bytes
  | none => cstate.opts.nullPrint.bytes
  | some string =>
    if cstate.opts.csvMode then
      copyAttributeOutCSV cstate.opts cstate.singleAttr (cstate.forceQuoteFlags attnum) string.bytes
    else copyAttributeOutText cstate.opts string.bytes

def CopyToState.columns (cstate : CopyToState) (slot : Nat → Option CStr) : Bool → List Nat → Bytes
  | _, [] => []
  | needDelim, attnum :: attnums =>
    (if needDelim then [cstate.opts.delimc] else []) ++ cstate.column attnum (slot attnum) ++
      cstate.columns slot true attnums

def copyToTextLikeOneRow (cstate : CopyToState) (slot : Nat → Option CStr) : Bytes :=
  cstate.columns slot false cstate.attnumlist ++ [newline]

end CdcKafka.Copy

/-! Rows that are read back, given that their columns are. -/

namespace CdcKafka.Copy

open CdcKafka.Lib

variable {cstate : CopyFromState} {dest : CopyToState} {w : Bytes} {field : RawField}

def lineLoop (cstate : CopyFromState) (eolType : EolType) (line b : Bytes) : Except CopyError ReadLine :=
  if cstate.opts.csvMode then
    copyReadLineCsv cstate.opts.quotec cstate.opts.lineEscapec eolType ⟨false, false⟩ line b
  else copyReadLineText eolType line b

def Ends (cstate : CopyFromState) (tail : Bytes) (rest : Option Bytes) : Prop :=
  tail = [] ∧ rest = none ∨ ∃ t, tail = cstate.opts.delimc :: t ∧ rest = some t

structure Passes (cstate : CopyFromState) (w : Bytes) (field : RawField) : Prop where
  line : ∀ eolType line tail, lineLoop cstate eolType line (w ++ tail) = lineLoop cstate eolType (line ++ w) tail
  field : ∀ fieldno tail rest, Ends cstate tail rest →
    ∃ s, scanField cstate (w ++ tail) = .ok s ∧ finishField cstate fieldno s = .ok field ∧ s.rest = rest

structure Separates (cstate : CopyFromState) : Prop where
  delim : ∀ eolType line tail, lineLoop cstate eolType line (cstate.opts.delimc :: tail) =
      lineLoop cstate eolType (line ++ [cstate.opts.delimc]) tail
  newline : ∀ eolType line tail, eolType = .unknown ∨ eolType = .nl →
    lineLoop cstate eolType line (newline :: tail) = .ok ⟨line ++ [newline], false, tail, .nl⟩

def fieldOf : Option CStr → RawField
  | none => .null
  | some string => .value string.bytes

theorem readFields_last {fieldno : Nat} {b : Bytes} {s : FieldScan} (hscan : scanField cstate b = .ok s)
    (hfield : finishField cstate fieldno s = .ok field) (hrest : s.rest = none) :
    readFields cstate fieldno b = .ok [field] := by
  rw [readFields]
  split
  · next err herr => rw [hscan] at herr; cases herr
  · next s' hs' =>
    obtain rfl : s = s' := Except.ok.inj (hscan.symm.trans hs')
    rw [hfield]
    dsimp only
    split
    · rfl
    · next rest hrest' => rw [hrest] at hrest'; cases hrest'

theorem readFields_more {fieldno : Nat} {b rest : Bytes} {s : FieldScan} (hscan : scanField cstate b = .ok s)
    (hfield : finishField cstate fieldno s = .ok field) (hrest : s.rest = some rest) :
    readFields cstate fieldno b = (readFields cstate (fieldno + 1) rest).map (field :: ·) := by
  rw [readFields]
  split
  · next err herr => rw [hscan] at herr; cases herr
  · next s' hs' =>
    obtain rfl : s = s' := Except.ok.inj (hscan.symm.trans hs')
    rw [hfield]
    dsimp only
    split
    · next hnone => rw [hrest] at hnone; cases hnone
    · next rest' hrest' =>
      obtain rfl : rest = rest' := Option.some.inj (hrest.symm.trans hrest')
      rfl

variable {slot : Nat → Option CStr}

theorem lineLoop_columns (hsep : Separates cstate) (hopts : dest.opts = cstate.opts) (eolType : EolType) (line : Bytes)
    (needDelim : Bool) (attnums : List Nat) (tail : Bytes)
    (hpass : ∀ attnum ∈ attnums, Passes cstate (dest.column attnum (slot attnum)) (fieldOf (slot attnum))) :
    lineLoop cstate eolType line (dest.columns slot needDelim attnums ++ tail) =
      lineLoop cstate eolType (line ++ dest.columns slot needDelim attnums) tail := by
  induction attnums generalizing line needDelim with
  | nil => rw [CopyToState.columns, List.nil_append, List.append_nil]
  | cons attnum attnums ih =>
    have hcolumn := (hpass attnum List.mem_cons_self).line
    have hrest : ∀ a ∈ attnums, Passes cstate (dest.column a (slot a)) (fieldOf (slot a)) := fun a ha =>
      hpass a (List.mem_cons_of_mem attnum ha)
    have hdelim : ∀ line b, lineLoop cstate eolType line ((if needDelim then [dest.opts.delimc] else []) ++ b) =
        lineLoop cstate eolType (line ++ if needDelim then [dest.opts.delimc] else []) b := by
      intro line b
      rw [hopts]
      cases needDelim with
      | false => simp only [Bool.false_eq_true, if_false, List.nil_append, List.append_nil]
      | true => exact hsep.delim eolType line b
    rw [CopyToState.columns, List.append_assoc, List.append_assoc, hdelim, hcolumn, ih _ _ hrest]
    simp only [List.append_assoc]

theorem readFields_columns (hopts : dest.opts = cstate.opts) (fieldno attnum : Nat) (attnums : List Nat)
    (hpass : ∀ a ∈ attnum :: attnums, Passes cstate (dest.column a (slot a)) (fieldOf (slot a))) :
    readFields cstate fieldno (dest.column attnum (slot attnum) ++ dest.columns slot true attnums) =
      .ok ((attnum :: attnums).map fun a => fieldOf (slot a)) := by
  induction attnums generalizing fieldno attnum with
  | nil =>
    obtain ⟨s, hscan, hfield, hrest⟩ := (hpass attnum List.mem_cons_self).field fieldno [] none (.inl ⟨rfl, rfl⟩)
    exact readFields_last hscan hfield hrest
  | cons next attnums ih =>
    have hbehind : ∀ a ∈ next :: attnums, Passes cstate (dest.column a (slot a)) (fieldOf (slot a)) := fun a ha =>
      hpass a (List.mem_cons_of_mem attnum ha)
    have hends : Ends cstate (dest.columns slot true (next :: attnums))
        (some (dest.column next (slot next) ++ dest.columns slot true attnums)) := by
      refine .inr ⟨_, ?_, rfl⟩
      rw [CopyToState.columns, hopts, List.append_assoc]
      rfl
    obtain ⟨s, hscan, hfield, hrest⟩ := (hpass attnum List.mem_cons_self).field fieldno _ _ hends
    rw [readFields_more hscan hfield hrest, ih (fieldno + 1) next hbehind]
    rfl

theorem copyReadLine_row (hsep : Separates cstate) (hopts : dest.opts = cstate.opts) {eolType : EolType}
    (heol : eolType = .unknown ∨ eolType = .nl) (rest : Bytes)
    (hpass : ∀ a ∈ dest.attnumlist, Passes cstate (dest.column a (slot a)) (fieldOf (slot a))) :
    copyReadLine cstate eolType (copyToTextLikeOneRow dest slot ++ rest) =
      .ok ⟨dest.columns slot false dest.attnumlist, false, rest, .nl⟩ := by
  have hloop : lineLoop cstate eolType [] (copyToTextLikeOneRow dest slot ++ rest) =
      .ok ⟨dest.columns slot false dest.attnumlist ++ [newline], false, rest, .nl⟩ := by
    rw [copyToTextLikeOneRow, List.append_assoc, lineLoop_columns hsep hopts _ _ _ _ _ hpass, List.nil_append]
    exact hsep.newline eolType _ rest heol
  have hline : copyReadLine cstate eolType (copyToTextLikeOneRow dest slot ++ rest) =
      (lineLoop cstate eolType [] (copyToTextLikeOneRow dest slot ++ rest)).map ReadLine.strip := rfl
  have hstrip : ReadLine.strip ⟨dest.columns slot false dest.attnumlist ++ [newline], false, rest, .nl⟩ =
      ⟨dest.columns slot false dest.attnumlist, false, rest, .nl⟩ := by
    simp [ReadLine.strip]
  rw [hline, hloop]
  exact congrArg Except.ok hstrip

theorem copyReadAttributes_row (hopts : dest.opts = cstate.opts) (hattnums : dest.attnumlist = cstate.attnumlist)
    (hpass : ∀ a ∈ dest.attnumlist, Passes cstate (dest.column a (slot a)) (fieldOf (slot a))) :
    copyReadAttributes cstate (dest.columns slot false dest.attnumlist) =
      .ok (dest.attnumlist.map fun a => fieldOf (slot a)) := by
  rw [copyReadAttributes, ← hattnums]
  cases hlist : dest.attnumlist with
  | nil => rfl
  | cons attnum attnums =>
    rw [hlist] at hpass
    rw [if_neg (by simp), CopyToState.columns, if_neg (by simp), List.nil_append]
    exact readFields_columns hopts 0 attnum attnums hpass

theorem nextCopyFromRawFields_row (hsep : Separates cstate) (hopts : dest.opts = cstate.opts)
    (hattnums : dest.attnumlist = cstate.attnumlist) {eolType : EolType} (heol : eolType = .unknown ∨ eolType = .nl)
    (rest : Bytes) (hpass : ∀ a ∈ dest.attnumlist, Passes cstate (dest.column a (slot a)) (fieldOf (slot a))) :
    nextCopyFromRawFields cstate eolType (copyToTextLikeOneRow dest slot ++ rest) =
      .ok (some (dest.attnumlist.map fun a => fieldOf (slot a), .nl, rest)) := by
  rw [nextCopyFromRawFields, copyReadLine_row hsep hopts heol rest hpass, ok_bind, if_neg (by simp)]
  dsimp only
  rw [copyReadAttributes_row hopts hattnums hpass]
  rfl

theorem copyFrom_of_next {eolType eolType' : EolType} {input rest : Bytes} {fields : List RawField}
    (hnext : nextCopyFromRawFields cstate eolType input = .ok (some (fields, eolType', rest))) :
    copyFrom cstate eolType input = (copyFrom cstate eolType' rest).map (fields :: ·) := by
  rw [copyFrom]
  split
  · next err herr => rw [hnext] at herr; cases herr
  · next hnone =>
    rw [hnext] at hnone
    cases Except.ok.inj hnone
  · next fields' eolType'' rest' hsome =>
    rw [hnext] at hsome
    obtain ⟨rfl, rfl, rfl⟩ : fields = fields' ∧ eolType' = eolType'' ∧ rest = rest' := by
      simpa using Except.ok.inj hsome
    rfl

theorem copyFrom_nil (eolType : EolType) : copyFrom cstate eolType [] = .ok [] := by
  have hnone : nextCopyFromRawFields cstate eolType [] = .ok none := by
    rw [nextCopyFromRawFields, copyReadLine_nil]
    rfl
  rw [copyFrom]
  split
  · next err herr => rw [hnone] at herr; cases herr
  · rfl
  · next hsome =>
    rw [hnone] at hsome
    cases Except.ok.inj hsome

theorem copyFrom_rows (hsep : Separates cstate) (hopts : dest.opts = cstate.opts)
    (hattnums : dest.attnumlist = cstate.attnumlist) {eolType : EolType} (heol : eolType = .unknown ∨ eolType = .nl)
    (rows : List (Nat → Option CStr))
    (hpass : ∀ slot ∈ rows, ∀ a ∈ dest.attnumlist, Passes cstate (dest.column a (slot a)) (fieldOf (slot a))) :
    copyFrom cstate eolType (rows.flatMap (copyToTextLikeOneRow dest)) =
      .ok (rows.map fun slot => dest.attnumlist.map fun a => fieldOf (slot a)) := by
  induction rows generalizing eolType with
  | nil => exact copyFrom_nil eolType
  | cons slot rows ih =>
    have hrow := nextCopyFromRawFields_row hsep hopts hattnums heol (rows.flatMap (copyToTextLikeOneRow dest))
      (hpass slot List.mem_cons_self)
    have hrest := ih (.inr rfl) fun s hs => hpass s (List.mem_cons_of_mem slot hs)
    rw [List.flatMap_cons, copyFrom_of_next hrow, hrest]
    rfl

end CdcKafka.Copy

/-! What `CopyAttributeOutText` writes is passed over by the line reader of text mode, and resolved by
its field reader. -/

namespace CdcKafka.Copy

open CdcKafka.Lib

variable {cstate : CopyFromState} {delimc c : UInt8}

theorem unsafe_of_escape : ∀ n : Fin 256, (isOctal (UInt8.ofNat n) = true ∨ UInt8.ofNat n = 0x78 ∨
    letterEscape (UInt8.ofNat n) ≠ UInt8.ofNat n) → UInt8.ofNat n ∈ unsafeDelimiters := by
  decide +kernel

theorem deescape_safe (hsafe : c ∉ unsafeDelimiters) (rest : Bytes) : deescape c rest = (c, false, rest) := by
  have hall := mt (unsafe_of_escape ⟨c.toNat, c.toNat_lt⟩)
  rw [UInt8.ofNat_toNat] at hall
  obtain ⟨hoctal, hx, hletter⟩ := (not_or.trans (and_congr_right' not_or)).mp (hall hsafe)
  rw [deescape, Bool.eq_false_of_not_eq_true hoctal, if_neg (by simp), if_neg hx, not_not.mp hletter]

theorem deescape_backslash (rest : Bytes) : deescape backslash rest = (backslash, false, rest) := rfl

theorem controlLetter_cases {letter : UInt8} (h : controlLetter c = some letter) :
    (∀ rest, deescape letter rest = (c, false, rest)) ∧ letter ≠ dot := by
  rw [controlLetter] at h
  split at h
  · next hc =>
    obtain rfl := Option.some.inj h
    exact ⟨fun rest => by rw [hc]; rfl, by decide⟩
  split at h
  · next hc =>
    obtain rfl := Option.some.inj h
    exact ⟨fun rest => by rw [hc]; rfl, by decide⟩
  split at h
  · next hc =>
    obtain rfl := Option.some.inj h
    exact ⟨fun rest => by rw [hc]; rfl, by decide⟩
  split at h
  · next hc =>
    obtain rfl := Option.some.inj h
    exact ⟨fun rest => by rw [hc]; rfl, by decide⟩
  split at h
  · next hc =>
    obtain rfl := Option.some.inj h
    exact ⟨fun rest => by rw [hc]; rfl, by decide⟩
  split at h
  · next hc =>
    obtain rfl := Option.some.inj h
    exact ⟨fun rest => by rw [hc]; rfl, by decide⟩
  · cases h

theorem outTextChar_cases (hsafe : delimc ∉ unsafeDelimiters) (c : UInt8) :
    (∃ e, outTextChar delimc c = [backslash, e] ∧ (∀ rest, deescape e rest = (c, false, rest)) ∧ e ≠ dot) ∨
      outTextChar delimc c = [c] ∧ c ≠ delimc ∧ c ≠ backslash ∧ c ≠ newline ∧ c ≠ carriageReturn := by
  have hdot : delimc ≠ dot := fun h => hsafe (h ▸ by decide)
  rw [outTextChar]
  split
  · next hcontrol =>
    split
    · next letter hletter => exact .inl ⟨letter, rfl, controlLetter_cases hletter⟩
    · next hnone =>
      split
      · next hdelim => exact .inl ⟨c, rfl, deescape_safe (hdelim ▸ hsafe), hdelim ▸ hdot⟩
      · next hdelim =>
        refine .inr ⟨rfl, hdelim, ?_, ?_, ?_⟩
        · rintro rfl
          exact absurd hcontrol (by decide)
        · rintro rfl
          cases hnone
        · rintro rfl
          cases hnone
  · next hprint =>
    split
    · next hspecial =>
      refine .inl ⟨c, rfl, ?_⟩
      rcases hspecial with rfl | rfl
      · exact ⟨deescape_backslash, by decide⟩
      · exact ⟨deescape_safe hsafe, hdot⟩
    · next hplain =>
      obtain ⟨hback, hdelim⟩ := not_or.1 hplain
      refine .inr ⟨rfl, hdelim, hback, ?_, ?_⟩
      · rintro rfl
        exact hprint (by decide)
      · rintro rfl
        exact hprint (by decide)

theorem copyReadLineText_plain (hback : c ≠ backslash) (hnew : c ≠ newline) (hret : c ≠ carriageReturn)
    (eolType : EolType) (line tail : Bytes) :
    copyReadLineText eolType line (c :: tail) = copyReadLineText eolType (line ++ [c]) tail := by
  cases tail with
  | nil => simp only [copyReadLineText, if_neg hret, if_neg hnew]
  | cons c2 tail => rw [copyReadLineText, if_neg hret, if_neg hnew, if_neg hback]

theorem copyReadLineText_escape {e : UInt8} (hdot : e ≠ dot) (eolType : EolType) (line tail : Bytes) :
    copyReadLineText eolType line (backslash :: e :: tail) =
      copyReadLineText eolType (line ++ [backslash, e]) tail := by
  rw [copyReadLineText, if_neg (by decide), if_neg (by decide), if_pos rfl, if_neg hdot]

theorem scanText_plain (hdelim : c ≠ delimc) (hback : c ≠ backslash) (tail : Bytes) :
    scanText delimc (c :: tail) = (scanText delimc tail).push [c] [c] false := by
  rw [scanText.eq_def]
  dsimp only
  rw [if_neg hdelim, if_neg hback]

theorem scanText_escape (hsafe : delimc ∉ unsafeDelimiters) {e : UInt8} {tail : Bytes}
    (he : deescape e tail = (c, false, tail)) :
    scanText delimc (backslash :: e :: tail) = (scanText delimc tail).push [backslash, e] [c] false := by
  have hback : backslash ≠ delimc := fun h => hsafe (h ▸ by decide)
  rw [scanText.eq_def]
  dsimp only
  rw [if_neg hback, if_pos rfl, he]
  dsimp only
  rw [Nat.sub_self, List.take_zero]

theorem push_push (raw raw' out out' : Bytes) (s : FieldScan) :
    (s.push raw' out' false).push raw out false = s.push (raw ++ raw') (out ++ out') false := by
  simp only [FieldScan.push, List.append_assoc, Bool.false_or]

theorem copyReadLineText_value (hsafe : delimc ∉ unsafeDelimiters) (string : Bytes) (eolType : EolType)
    (line tail : Bytes) :
    copyReadLineText eolType line (string.flatMap (outTextChar delimc) ++ tail) =
      copyReadLineText eolType (line ++ string.flatMap (outTextChar delimc)) tail := by
  induction string generalizing line with
  | nil => rw [List.flatMap_nil, List.nil_append, List.append_nil]
  | cons c string ih =>
    rw [List.flatMap_cons, List.append_assoc, ← List.append_assoc line, ← ih]
    obtain ⟨e, hout, -, hdot⟩ | ⟨hout, -, hback, hnew, hret⟩ := outTextChar_cases hsafe c
    · rw [hout]
      exact copyReadLineText_escape hdot eolType line _
    · rw [hout]
      exact copyReadLineText_plain hback hnew hret eolType line _

theorem scanText_value (hsafe : delimc ∉ unsafeDelimiters) (string tail : Bytes) :
    scanText delimc (string.flatMap (outTextChar delimc) ++ tail) =
      (scanText delimc tail).push (string.flatMap (outTextChar delimc)) string false := by
  induction string with
  | nil => rfl
  | cons c string ih =>
    have hone : ∀ b, scanText delimc (outTextChar delimc c ++ b) =
        (scanText delimc b).push (outTextChar delimc c) [c] false := by
      intro b
      obtain ⟨e, hout, he, -⟩ | ⟨hout, hdelim, hback, -, -⟩ := outTextChar_cases hsafe c
      · rw [hout]
        exact scanText_escape hsafe (he b)
      · rw [hout]
        exact scanText_plain hdelim hback b
    rw [List.flatMap_cons, List.append_assoc, hone, ih, push_push]
    rfl

theorem outText_ne_null (hsafe : delimc ∉ unsafeDelimiters) (hN : delimc ≠ 0x4e) (string : Bytes) :
    string.flatMap (outTextChar delimc) ≠ [backslash, 0x4e] := by
  intro h
  have hscan := scanText_value hsafe string []
  cases string with
  | nil => cases h
  | cons c string =>
    rw [List.flatMap_cons] at h
    obtain ⟨e, hout, he, -⟩ | ⟨hout, -, hback, -, -⟩ := outTextChar_cases hsafe c
    · -- the character behind the backslash would be an N
      rw [hout] at h
      obtain ⟨-, heN, -⟩ : True ∧ e = 0x4e ∧ True := by
        simp only [List.cons_append, List.cons.injEq] at h
        exact ⟨trivial, h.2.1, trivial⟩
      have hc : c = 0x4e := by
        have hread := he []
        rw [heN] at hread
        exact (congrArg Prod.fst hread).symm
      have hplain : outTextChar delimc 0x4e = [0x4e] := by
        rw [outTextChar, if_neg (by decide), if_neg]
        rintro (h | h)
        · exact absurd h (by decide)
        · exact hN h.symm
      rw [hc, hplain] at hout
      cases hout
    · rw [hout] at h
      have hc : c = backslash := by
        simp only [List.cons_append, List.cons.injEq] at h
        exact h.1
      exact hback hc

structure TextMode (opts : CopyFormatOptions) : Prop where
  admitted : opts.Admitted
  text : opts.csvMode = false
  null : opts.nullPrint.bytes = [backslash, 0x4e]

theorem TextMode.delim_ne_N {opts : CopyFormatOptions} (h : TextMode opts) : opts.delimc ≠ 0x4e := by
  intro hN
  have hmem := h.admitted.nullDelim
  rw [h.null, hN] at hmem
  exact hmem (by decide)

theorem separates_text (h : TextMode cstate.opts) : Separates cstate where
  delim := by
    intro eolType line tail
    have hback : cstate.opts.delimc ≠ backslash := fun hd => h.admitted.safe h.text (hd ▸ by decide)
    simp only [lineLoop, h.text]
    exact copyReadLineText_plain hback h.admitted.delimNewline h.admitted.delimReturn eolType line tail
  newline := by
    intro eolType line tail heol
    have hend : endAtNewline false eolType line tail = .ok ⟨line ++ [newline], false, tail, .nl⟩ := by
      rcases heol with rfl | rfl <;> rfl
    simp only [lineLoop, h.text, Bool.false_eq_true, if_false]
    cases tail with
    | nil => rw [copyReadLineText, if_neg (by decide), if_pos rfl, hend]
    | cons c tail => rw [copyReadLineText, if_neg (by decide), if_pos rfl, hend]

theorem scanText_ends {tail : Bytes} {rest : Option Bytes} (h : Ends cstate tail rest) :
    scanText cstate.opts.delimc tail = ⟨[], [], false, rest⟩ := by
  rcases h with ⟨rfl, rfl⟩ | ⟨t, rfl, rfl⟩
  · rw [scanText]
  · rw [scanText.eq_def]
    exact if_pos rfl

theorem finishField_value (h : cstate.opts.Admitted) {s : FieldScan} (fieldno : Nat)
    (hsaw : cstate.opts.csvMode = true ∨ s.saw = false)
    (hraw : (cstate.opts.csvMode && s.saw) = true ∨ s.raw ≠ cstate.opts.nullPrint.bytes) :
    finishField cstate fieldno s = .ok (.value s.out) := by
  have hclass : classifyField cstate fieldno (cstate.opts.csvMode && s.saw) s = .ok (.value s.out) := by
    have hnotNull : ¬((!(cstate.opts.csvMode && s.saw)) = true ∧ s.raw = cstate.opts.nullPrint.bytes) := by
      rintro ⟨hnot, hnull⟩
      rcases hraw with hquoted | hne
      · rw [hquoted] at hnot
        cases hnot
      · exact hne hnull
    rw [classifyField, h.noDefault, if_neg hnotNull]
    cases cstate.attnumlist[fieldno]? <;> rfl
  have hvalid : ¬((!cstate.opts.csvMode) = true ∧ s.saw = true ∧ (!cstate.verify s.out) = true) := by
    rintro ⟨htext, hs, -⟩
    rcases hsaw with hcsv | hclear
    · rw [hcsv] at htext
      cases htext
    · rw [hclear] at hs
      cases hs
  rw [finishField, hclass, ok_bind]
  exact if_neg hvalid

theorem finishField_null {s : FieldScan} (fieldno : Nat) (hsaw : s.saw = false)
    (hraw : s.raw = cstate.opts.nullPrint.bytes) : finishField cstate fieldno s = .ok .null := by
  rw [finishField, hsaw, Bool.and_false, classifyField, if_pos ⟨rfl, hraw⟩]
  rfl

theorem passes_text (h : TextMode cstate.opts) (dest : CopyToState) (hopts : dest.opts = cstate.opts) (attnum : Nat)
    (column : Option CStr) : Passes cstate (dest.column attnum column) (fieldOf column) := by
  have hsafe := h.admitted.safe h.text
  cases column with
  | none =>
    have hout : dest.column attnum none = [backslash, 0x4e] := by
      rw [← h.null, ← hopts]
      rfl
    rw [hout]
    refine ⟨fun eolType line tail => ?_, fun fieldno tail rest hends => ?_⟩
    · have hdot : (0x4e : UInt8) ≠ dot := by decide
      simp only [lineLoop, h.text]
      exact copyReadLineText_escape hdot eolType line tail
    · have hscan :
          scanText cstate.opts.delimc ([backslash, 0x4e] ++ tail) = ⟨[backslash, 0x4e], [0x4e], false, rest⟩ := by
        rw [List.cons_append, List.cons_append, List.nil_append, scanText_escape hsafe (deescape_safe (by decide) tail),
          scanText_ends hends]
        rfl
      exact ⟨_, by rw [scanField, h.text, if_neg (by simp), hscan], finishField_null fieldno rfl h.null.symm, rfl⟩
  | some string =>
    have hout : dest.column attnum (some string) = string.bytes.flatMap (outTextChar cstate.opts.delimc) := by
      rw [CopyToState.column, hopts, h.text, if_neg (by simp), copyAttributeOutText]
    rw [hout]
    refine ⟨fun eolType line tail => ?_, fun fieldno tail rest hends => ?_⟩
    · simp only [lineLoop, h.text]
      exact copyReadLineText_value hsafe string.bytes eolType line tail
    · have hscan : scanText cstate.opts.delimc (string.bytes.flatMap (outTextChar cstate.opts.delimc) ++ tail) =
          ⟨string.bytes.flatMap (outTextChar cstate.opts.delimc), string.bytes, false, rest⟩ := by
        rw [scanText_value hsafe, scanText_ends hends, FieldScan.push]
        simp only [List.append_nil, Bool.false_or]
      refine ⟨_, by rw [scanField, h.text, if_neg (by simp), hscan], ?_, rfl⟩
      refine finishField_value h.admitted fieldno (.inr rfl) (.inr ?_)
      rw [h.null]
      exact outText_ne_null hsafe h.delim_ne_N string.bytes

end CdcKafka.Copy
