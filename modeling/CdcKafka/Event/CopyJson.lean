import CdcKafka.Event.RowJson

/-! Initial copy: the COPY text line the publisher makes of a row, the fields the
table synchronization worker reads back from it, and the `after` array that
`COPY_TO_JSON` prints, compared with the one of a logical INSERT of the row. -/

namespace CdcKafka.Event
open CdcKafka.Lib CdcKafka.Json

abbrev Row := List (Option CStr)

def delimc : UInt8 := 9

def nullPrint : Bytes := [backslash, 78]

def copyOutByte (c : UInt8) : Bytes :=
  if c < 32 then
    if c = 8 then [backslash, 98]
    else if c = 12 then [backslash, 102]
    else if c = 10 then [backslash, 110]
    else if c = 13 then [backslash, 114]
    else if c = 9 then [backslash, 116]
    else if c = 11 then [backslash, 118]
    else if c = delimc then [backslash, c]
    else [c]
  else if c = backslash ∨ c = delimc then [backslash, c]
  else [c]

def copyAttributeOutText (string : CStr) : Bytes := string.bytes.flatMap copyOutByte

def copyAttributeOut : Option CStr → Bytes
  | none => nullPrint
  | some string => copyAttributeOutText string

def copyToTextOneRow : Row → Bytes
  | [] => []
  | [a] => copyAttributeOut a
  | a :: b :: row => copyAttributeOut a ++ delimc :: copyToTextOneRow (b :: row)

def isOctal (c : UInt8) : Bool := 48 ≤ c && c ≤ 55
def octValue (c : UInt8) : Nat := c.toNat - 48

def isXDigit (c : UInt8) : Bool :=
  (48 ≤ c && c ≤ 57) || (65 ≤ c && c ≤ 70) || (97 ≤ c && c ≤ 102)

def getDecimalFromHex (c : UInt8) : Nat :=
  if 48 ≤ c ∧ c ≤ 57 then c.toNat - 48
  else if 65 ≤ c ∧ c ≤ 70 then c.toNat - 55
  else c.toNat - 87

/-- The escape after a backslash: the byte it stands for, the further bytes it
takes, whether the byte has to be verified, and the rest of the line. -/
structure Escape where
  c : UInt8
  taken : Bytes
  sawNonAscii : Bool
  rest : Bytes

def needsVerify (c : UInt8) : Bool := c == 0 || 128 ≤ c

def numericEscape (val : Nat) (taken rest : Bytes) : Escape :=
  { c := UInt8.ofNat val, taken := taken, sawNonAscii := needsVerify (UInt8.ofNat val), rest := rest }

def octalEscape (c : UInt8) (line : Bytes) : Escape :=
  match line with
  | d :: e :: line =>
    if isOctal d then
      if isOctal e then numericEscape (octValue c * 64 + octValue d * 8 + octValue e) [d, e] line
      else numericEscape (octValue c * 8 + octValue d) [d] (e :: line)
    else numericEscape (octValue c) [] (d :: e :: line)
  | [d] =>
    if isOctal d then numericEscape (octValue c * 8 + octValue d) [d] []
    else numericEscape (octValue c) [] [d]
  | [] => numericEscape (octValue c) [] []

def hexEscape (line : Bytes) : Escape :=
  match line with
  | d :: e :: line =>
    if isXDigit d then
      if isXDigit e then
        numericEscape (getDecimalFromHex d * 16 + getDecimalFromHex e) [d, e] line
      else numericEscape (getDecimalFromHex d) [d] (e :: line)
    else { c := 120, taken := [], sawNonAscii := false, rest := d :: e :: line }
  | [d] =>
    if isXDigit d then numericEscape (getDecimalFromHex d) [d] []
    else { c := 120, taken := [], sawNonAscii := false, rest := [d] }
  | [] => { c := 120, taken := [], sawNonAscii := false, rest := [] }

def readEscape (c : UInt8) (line : Bytes) : Escape :=
  let plain := fun c' : UInt8 => ({ c := c', taken := [], sawNonAscii := false, rest := line } : Escape)
  if isOctal c then octalEscape c line
  else if c = 120 then hexEscape line
  else if c = 98 then plain 8
  else if c = 102 then plain 12
  else if c = 110 then plain 10
  else if c = 114 then plain 13
  else if c = 116 then plain 9
  else if c = 118 then plain 11
  else plain c

/-- A field as the inner loop of `CopyReadAttributesText` leaves it: its raw input,
its de-escaped output, and the line after the delimiter if one was found. -/
structure RawField where
  raw : Bytes
  out : Bytes
  sawNonAscii : Bool
  rest : Option Bytes

def RawField.push (raw : Bytes) (c : UInt8) (saw : Bool) (f : RawField) : RawField :=
  { raw := raw ++ f.raw, out := c :: f.out, sawNonAscii := saw || f.sawNonAscii, rest := f.rest }

/-- The inner loop; it takes at least one byte a round, so the length of the
line is fuel enough. A backslash that ends the line is left out of the field. -/
def readField : Nat → Bytes → RawField
  | 0, _ => { raw := [], out := [], sawNonAscii := false, rest := none }
  | _ + 1, [] => { raw := [], out := [], sawNonAscii := false, rest := none }
  | fuel + 1, c :: line =>
    if c = delimc then { raw := [], out := [], sawNonAscii := false, rest := some line }
    else if c = backslash then
      match line with
      | [] => { raw := [], out := [], sawNonAscii := false, rest := none }
      | c' :: line =>
        let e := readEscape c' line
        (readField fuel e.rest).push (c :: c' :: e.taken) e.c e.sawNonAscii
    else (readField fuel line).push [c] c false

inductive CopyFailure
  | extraData
  | missingData
  | invalidEncoding
  /-- `pstrdup` of a null pointer: the worker crashes in `strlen`. -/
  | nullDereference
deriving DecidableEq

section Read

-- `pg_verifymbstr` for the database encoding.
variable (verifymbstr : Bytes → Bool)

def finishField (f : RawField) : Except CopyFailure (Option CStr) :=
  if f.raw = nullPrint then .ok none
  else if f.sawNonAscii && !verifymbstr f.out then .error .invalidEncoding
  else .ok (some (CStr.ofBytes f.out))

def readFields : Nat → Bytes → Except CopyFailure (List (Option CStr))
  | 0, _ => .ok []
  | fuel + 1, line => do
    let f := readField (line.length + 1) line
    let field ← finishField verifymbstr f
    match f.rest with
    | none => .ok [field]
    | some line => do
      let fields ← readFields fuel line
      .ok (field :: fields)

def copyReadAttributesText (attrCount : Nat) (line : Bytes) :
    Except CopyFailure (List (Option CStr)) :=
  if attrCount = 0 then
    if line ≠ [] then .error .extraData else .ok []
  else readFields verifymbstr (line.length + 1) line

/-- The loop over the columns of `CopyFromTextLikeOneRow`: `after[cur_val]` is a
copy of the field, made before the null pointer is looked at. -/
def collectAfter : Nat → List (Option CStr) → Except CopyFailure (List (Option CStr))
  | 0, _ => .ok []
  | _ + 1, [] => .error .missingData
  | _ + 1, none :: _ => .error .nullDereference
  | n + 1, some s :: fields => do
    let after ← collectAfter n fields
    .ok (some s :: after)

def copyFieldToJson : Option CStr → CJson
  | none => .null
  | some s => if s.bytes.length = 0 then .null else .string s

def copyAfter (attrCount : Nat) (line : Bytes) : Except CopyFailure CJson := do
  let fields ← copyReadAttributesText verifymbstr attrCount line
  if 0 < attrCount ∧ attrCount < fields.length then .error .extraData
  else
    let after ← collectAfter attrCount fields
    .ok (.array (after.map copyFieldToJson))

end Read

def fieldEnd : Option Bytes → Bytes
  | none => []
  | some line => delimc :: line

theorem readField_end {fuel : Nat} (h : 0 < fuel) (rest : Option Bytes) :
    readField fuel (fieldEnd rest) = { raw := [], out := [], sawNonAscii := false, rest := rest } := by
  obtain ⟨fuel, rfl⟩ := Nat.exists_eq_succ_of_ne_zero h.ne'
  cases rest <;> simp [fieldEnd, readField]

theorem readField_plain {c : UInt8} (hd : c ≠ delimc) (hb : c ≠ backslash) (fuel : Nat) (line : Bytes) :
    readField (fuel + 1) (c :: line) = (readField fuel line).push [c] c false := by
  simp [readField, hd, hb]

theorem readField_escape {c c' : UInt8} {line : Bytes} (fuel : Nat)
    (h : readEscape c' line = { c := c, taken := [], sawNonAscii := false, rest := line }) :
    readField (fuel + 1) (backslash :: c' :: line) = (readField fuel line).push [backslash, c'] c false := by
  simp only [readField, if_neg (show backslash ≠ delimc by decide), if_true, h]

theorem copyOutByte_cases (c : UInt8) : (copyOutByte c = [c] ∧ c ≠ delimc ∧ c ≠ backslash) ∨
    ∃ c', copyOutByte c = [backslash, c'] ∧ c' ≠ 78 ∧ ∀ line, readEscape c' line =
      { c := c, taken := [], sawNonAscii := false, rest := line } := by
  unfold copyOutByte
  split_ifs with h1 h2 h3 h4 h5 h6 h7 h8 h9
  · exact .inr ⟨98, rfl, by decide, fun line => by subst h2; rfl⟩
  · exact .inr ⟨102, rfl, by decide, fun line => by subst h3; rfl⟩
  · exact .inr ⟨110, rfl, by decide, fun line => by subst h4; rfl⟩
  · exact .inr ⟨114, rfl, by decide, fun line => by subst h5; rfl⟩
  · exact .inr ⟨116, rfl, by decide, fun line => by subst h6; rfl⟩
  · exact .inr ⟨118, rfl, by decide, fun line => by subst h7; rfl⟩
  · exact absurd h8 h6
  · refine .inl ⟨rfl, h6, ?_⟩
    rintro rfl
    exact absurd h1 (by decide)
  · rcases h9 with rfl | rfl
    · exact .inr ⟨backslash, rfl, by decide, fun line => rfl⟩
    · exact absurd (by decide) h1
  · exact .inl ⟨rfl, fun h => h9 (.inr h), fun h => h9 (.inl h)⟩

theorem copyOutByte_length_pos (c : UInt8) : 0 < (copyOutByte c).length := by
  rcases copyOutByte_cases c with ⟨h, -⟩ | ⟨c', h, -⟩ <;> simp [h]

theorem readField_copyOut (bytes : Bytes) (rest : Option Bytes) (fuel : Nat) (h : bytes.length < fuel) :
    readField fuel (bytes.flatMap copyOutByte ++ fieldEnd rest) =
      { raw := bytes.flatMap copyOutByte, out := bytes, sawNonAscii := false, rest := rest } := by
  induction bytes generalizing fuel with
  | nil => exact readField_end h rest
  | cons c bytes ih =>
    obtain ⟨fuel, rfl⟩ := Nat.exists_eq_succ_of_ne_zero (Nat.ne_zero_of_lt h)
    have hih := ih fuel (by simpa using h)
    rcases copyOutByte_cases c with ⟨hc, hd, hb⟩ | ⟨c', hc, -, hread⟩
    · simp only [List.flatMap_cons, hc, List.cons_append, List.nil_append]
      rw [readField_plain hd hb, hih]
      rfl
    · simp only [List.flatMap_cons, hc, List.cons_append, List.nil_append]
      rw [readField_escape fuel (hread _), hih]
      rfl

theorem copyAttributeOutText_ne_nullPrint (s : CStr) : copyAttributeOutText s ≠ nullPrint := by
  unfold copyAttributeOutText nullPrint
  cases s.bytes with
  | nil => simp
  | cons c bytes =>
    rcases copyOutByte_cases c with ⟨hc, -, hb⟩ | ⟨c', hc, hne, -⟩
    · simp [hc, hb]
    · simp [hc, hne]

theorem length_le_copyOut (bytes : Bytes) : bytes.length ≤ (bytes.flatMap copyOutByte).length := by
  induction bytes with
  | nil => simp
  | cons c bytes ih =>
    have := copyOutByte_length_pos c
    simp only [List.flatMap_cons, List.length_append, List.length_cons]
    omega

theorem readField_nullPrint (rest : Option Bytes) (fuel : Nat) : readField (fuel + 2) (nullPrint ++ fieldEnd rest) =
      { raw := nullPrint, out := [78], sawNonAscii := false, rest := rest } := by
  simp only [nullPrint, List.cons_append, List.nil_append]
  rw [readField_escape (fuel + 1) (c := 78) rfl, readField_end (Nat.succ_pos fuel)]
  rfl

theorem readField_copyAttributeOut (verifymbstr : Bytes → Bool) (a : Option CStr) (rest : Option Bytes) :
    ∃ f, readField ((copyAttributeOut a ++ fieldEnd rest).length + 1) (copyAttributeOut a ++ fieldEnd rest) = f ∧
      finishField verifymbstr f = .ok a ∧ f.rest = rest := by
  cases a with
  | none =>
    have hfuel : (nullPrint ++ fieldEnd rest).length + 1 = (fieldEnd rest).length + 1 + 2 := by
      simp [nullPrint]
    have hread := readField_nullPrint rest ((fieldEnd rest).length + 1)
    rw [← hfuel] at hread
    exact ⟨_, hread, rfl, rfl⟩
  | some s =>
    have hfuel : s.bytes.length < (copyAttributeOut (some s) ++ fieldEnd rest).length + 1 := by
      have := length_le_copyOut s.bytes
      simp only [copyAttributeOut, copyAttributeOutText, List.length_append]
      omega
    refine ⟨_, readField_copyOut s.bytes rest _ hfuel, ?_, rfl⟩
    simp only [finishField, Bool.false_and, Bool.false_eq_true, if_false]
    rw [CStr.ofBytes_bytes]
    exact if_neg (copyAttributeOutText_ne_nullPrint s)

theorem readFields_copyToTextOneRow (verifymbstr : Bytes → Bool) (a : Option CStr) (row : Row)
    (fuel : Nat) (h : row.length < fuel) :
    readFields verifymbstr fuel (copyToTextOneRow (a :: row)) = .ok (a :: row) := by
  induction row generalizing a fuel with
  | nil =>
    obtain ⟨fuel, rfl⟩ := Nat.exists_eq_succ_of_ne_zero (Nat.ne_zero_of_lt h)
    obtain ⟨f, hf, hfield, hrest⟩ := readField_copyAttributeOut verifymbstr a none
    simp only [fieldEnd, List.append_nil] at hf
    simp only [readFields, copyToTextOneRow, hf, hfield, hrest, bind, Except.bind]
  | cons b row ih =>
    obtain ⟨fuel, rfl⟩ := Nat.exists_eq_succ_of_ne_zero (Nat.ne_zero_of_lt h)
    obtain ⟨f, hf, hfield, hrest⟩ :=
      readField_copyAttributeOut verifymbstr a (some (copyToTextOneRow (b :: row)))
    simp only [fieldEnd] at hf
    have hih := ih b fuel (by simpa using h)
    simp only [readFields, copyToTextOneRow, hf, hfield, hrest, hih, bind, Except.bind]

theorem length_le_copyToTextOneRow (a : Option CStr) (row : Row) :
    row.length ≤ (copyToTextOneRow (a :: row)).length := by
  induction row generalizing a with
  | nil => simp
  | cons b row ih =>
    have := ih b
    simp only [copyToTextOneRow, List.length_append, List.length_cons] at this ⊢
    omega

theorem copyReadAttributesText_copyToTextOneRow (verifymbstr : Bytes → Bool) (row : Row) :
    copyReadAttributesText verifymbstr row.length (copyToTextOneRow row) = .ok row := by
  cases row with
  | nil => rfl
  | cons a row =>
    rw [copyReadAttributesText, if_neg (by simp)]
    apply readFields_copyToTextOneRow
    have := length_le_copyToTextOneRow a row
    omega

def tupleOfRow (row : Row) : TupleData :=
  row.map fun
    | none => .null
    | some s => .text s.bytes

def insertAfter (row : Row) : CJson := arrayOfTuple (tupleOfRow row)

theorem collectAfter_of_mem_none {row : Row} (h : none ∈ row) :
    collectAfter row.length row = .error .nullDereference := by
  induction row with
  | nil => simp at h
  | cons a row ih =>
    cases a with
    | none => rfl
    | some s =>
      have hrow : none ∈ row := by simpa using h
      simp only [List.length_cons, collectAfter, ih hrow, bind, Except.bind]

theorem collectAfter_of_not_mem_none {row : Row} (h : none ∉ row) : collectAfter row.length row = .ok row := by
  induction row with
  | nil => rfl
  | cons a row ih =>
    cases a with
    | none => simp at h
    | some s =>
      have hrow : none ∉ row := by simpa using h
      simp only [List.length_cons, collectAfter, ih hrow, bind, Except.bind]

theorem copyAfter_copyToTextOneRow (verifymbstr : Bytes → Bool) (row : Row) :
    copyAfter verifymbstr row.length (copyToTextOneRow row) =
      if none ∈ row then .error .nullDereference else .ok (.array (row.map copyFieldToJson)) := by
  simp only [copyAfter, copyReadAttributesText_copyToTextOneRow, bind, Except.bind, lt_irrefl, and_false, if_false]
  split_ifs with h
  · rw [collectAfter_of_mem_none h]
  · rw [collectAfter_of_not_mem_none h]

theorem copyFieldToJson_some (s : CStr) : copyFieldToJson (some s) = columnToJson (.text s.bytes) ↔ s.bytes ≠ [] := by
  have hcol : columnToJson (.text s.bytes) = .string s := by
    simp [columnToJson, Column.data, CStr.ofBytes_bytes]
  rw [hcol, copyFieldToJson]
  split_ifs with h
  · simpa using h
  · simpa using h

theorem insertAfter_eq_iff {row : Row} (h : none ∉ row) : CJson.array (row.map copyFieldToJson) = insertAfter row ↔
      ∀ s, some s ∈ row → s.bytes ≠ [] := by
  rw [insertAfter, arrayOfTuple, tupleOfRow, List.map_map, CJson.array.injEq, List.map_inj_left]
  constructor
  · intro heq s hs
    exact (copyFieldToJson_some s).mp (heq _ hs)
  · rintro hne (_ | s) ha
    · exact absurd ha h
    · exact (copyFieldToJson_some s).mpr (hne s ha)

/-- Copy and insert agree on a row exactly when every column has a nonempty value. -/
theorem copyAfter_eq_insertAfter_iff (verifymbstr : Bytes → Bool) (row : Row) :
    copyAfter verifymbstr row.length (copyToTextOneRow row) = .ok (insertAfter row) ↔
      ∀ a ∈ row, ∃ s : CStr, a = some s ∧ s.bytes ≠ [] := by
  rw [copyAfter_copyToTextOneRow]
  split_ifs with h
  · refine ⟨fun heq => by simp at heq, fun hall => ?_⟩
    obtain ⟨s, hs, -⟩ := hall none h
    simp at hs
  · rw [Except.ok.injEq, insertAfter_eq_iff h]
    constructor
    · rintro hne (_ | s) ha
      · exact absurd ha h
      · exact ⟨s, rfl, hne s ha⟩
    · intro hall s hs
      obtain ⟨t, ht, hne⟩ := hall (some s) hs
      rwa [Option.some.inj ht]

/-- The row of one empty string is copied as JSON null and inserted as an empty string. -/
theorem emptyString_copied_as_null : ¬ ∀ (verifymbstr : Bytes → Bool) (row : Row),
      copyAfter verifymbstr row.length (copyToTextOneRow row) = .ok (insertAfter row) := by
  intro h
  have hcopy := h (fun _ => true) [some (CStr.lit [])]
  rw [copyAfter_copyToTextOneRow] at hcopy
  simp [CStr.lit, CStr.ofBytes, ascii, copyFieldToJson, insertAfter, arrayOfTuple, tupleOfRow,
    columnToJson, Column.data] at hcopy

end CdcKafka.Event
