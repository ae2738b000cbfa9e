import CdcKafka.Copy.Text
import CdcKafka.Event.CopyJson
import Mathlib.Data.List.Forall2

/-! `CopyFromTextLikeOneRow` of `copyfromparse.c`: the columns of one row, and the event that
`COPY_TO_JSON` makes of them. The producer is taken to be initialised. -/

namespace CdcKafka.Copy

open CdcKafka.Lib CdcKafka.Json

inductive InputOutcome
  | accepted
  | softError
  | raised
deriving DecidableEq

inductive RowError
  | line (err : CopyError)
  /-- "missing data for column" -/
  | missingData (attnum : Nat)
  | inputFailed (attnum : Nat)
  /-- `pstrdup` of a null pointer: the process does not survive the `strlen`. -/
  | nullDereference
deriving DecidableEq

structure CopyFromRow extends CopyFromState where
  convertSelectFlags : Option (Nat → Bool)
  forceNotnullFlags : Nat → Bool
  forceNullFlags : Nat → Bool
  onErrorIgnore : Bool
  inputFunction : Nat → CStr → InputOutcome

structure CopyJsonInfo where
  dbname : CStr
  tableName : CStr
  attnames : List CStr
  isNotInitdb : Bool

variable (cstate : CopyFromRow)

def CopyFromState.markerString (cstate : CopyFromState) : CStr :=
  match cstate.opts.defaultPrint.map (fun marker => scanField cstate marker.bytes) with
  | some (.ok s) => .ofBytes s.out
  | _ => .lit []

def CopyFromState.fieldString (cstate : CopyFromState) : RawField → Option CStr
  | .null => none
  | .defaultMarker => some cstate.markerString
  | .value string => some (.ofBytes string)

def CopyFromRow.forced (attnum : Nat) (string : Option CStr) : Option CStr :=
  if cstate.opts.csvMode then
    match string with
    | none => if cstate.forceNotnullFlags attnum then some cstate.opts.nullPrint else none
    | some string =>
      if cstate.forceNullFlags attnum ∧ string = cstate.opts.nullPrint then none else some string
  else string

def attributeLoop (after : List CStr) : List Nat → List RawField → Except RowError (Option (List CStr))
  | [], _ => .ok (some after)
  | attnum :: _, [] => .error (.missingData attnum)
  | attnum :: attnums, field :: fields =>
    if cstate.convertSelectFlags.any (fun flags => !flags attnum) then
      -- the input is ignored, and `cur_val` stays where it is
      attributeLoop after attnums fields
    else
      match cstate.forced attnum (cstate.fieldString field) with
      -- the copy is made before the null pointer is looked at
      | none => .error .nullDereference
      | some string =>
        if field = .defaultMarker then attributeLoop (after ++ [string]) attnums fields
        else
          match cstate.inputFunction attnum string with
          | .accepted => attributeLoop (after ++ [string]) attnums fields
          | .softError => if cstate.onErrorIgnore then .ok none else .error (.inputFailed attnum)
          | .raised => .error (.inputFailed attnum)

def copyDocument (info : CopyJsonInfo) (after : List CJson) : CJson :=
  .object [(.lit ['o', 'p'], .string (.lit ['C'])), (.lit ['d', 'b'], .string info.dbname),
      (.lit ['t', 'a', 'b', 'l', 'e'], .string info.tableName),
      (.lit ['a', 't', 't', 'n', 'a', 'm', 'e', 's'], .array (info.attnames.map .string)),
      (.lit ['a', 'f', 't', 'e', 'r'], .array after)]

def afterArray (fieldCount : Nat) (after : List CStr) : List CJson :=
  (List.range fieldCount).map fun i => Event.copyFieldToJson after[i]?

def copyToJson (info : CopyJsonInfo) (after : List CStr) : CJson :=
  copyDocument info (afterArray info.attnames.length after)

def copyFromTextLikeOneRow (info : CopyJsonInfo) (fields : List RawField) : Except RowError (Option CJson) :=
  if 0 < cstate.attnumlist.length ∧ cstate.attnumlist.length < fields.length then .error (.line .extraData)
  else do
    match ← attributeLoop cstate [] cstate.attnumlist fields with
    | none => pure none
    | some after => pure (if info.isNotInitdb then some (copyToJson info after) else none)

def copyOneLine (info : CopyJsonInfo) (line : Bytes) : Except RowError (Option CJson) := do
  let fields ← (copyReadAttributes cstate.toCopyFromState line).mapError .line
  copyFromTextLikeOneRow cstate info fields

def Takes (attnum : Nat) (field : RawField) : Prop :=
  ∃ string, cstate.fieldString field = some string ∧
    (field = .defaultMarker ∨ cstate.inputFunction attnum string = .accepted)

def CopyFromState.valueString (cstate : CopyFromState) (field : RawField) : CStr :=
  (cstate.fieldString field).getD (.lit [])

section Text

variable {cstate} (hselect : cstate.convertSelectFlags = none) (htext : cstate.opts.csvMode = false)
include hselect htext

theorem attributeLoop_cons (after : List CStr) (attnum : Nat) (attnums : List Nat) (field : RawField)
    (fields : List RawField) :
    attributeLoop cstate after (attnum :: attnums) (field :: fields) = match cstate.fieldString field with
      | none => .error .nullDereference
      | some string =>
        if field = .defaultMarker then attributeLoop cstate (after ++ [string]) attnums fields
        else
          match cstate.inputFunction attnum string with
          | .accepted => attributeLoop cstate (after ++ [string]) attnums fields
          | .softError => if cstate.onErrorIgnore then .ok none else .error (.inputFailed attnum)
          | .raised => .error (.inputFailed attnum) := by
  have hforced : cstate.forced attnum (cstate.fieldString field) = cstate.fieldString field := by
    rw [CopyFromRow.forced.eq_def, htext]
    exact if_neg Bool.false_ne_true
  rw [attributeLoop, hselect, hforced]
  exact if_neg Bool.false_ne_true

theorem attributeLoop_takes {attnums : List Nat} {fields : List RawField}
    (h : List.Forall₂ (Takes cstate) attnums fields) (after : List CStr) (attnums' : List Nat)
    (fields' : List RawField) :
    attributeLoop cstate after (attnums ++ attnums') (fields ++ fields') =
      attributeLoop cstate (after ++ fields.map cstate.valueString) attnums' fields' := by
  induction h generalizing after with
  | nil => rw [List.map_nil, List.append_nil, List.nil_append, List.nil_append]
  | @cons attnum field attnums fields htakes _ ih =>
    obtain ⟨string, hstring, hinput⟩ := htakes
    have hvalue : cstate.valueString field = string := by rw [CopyFromState.valueString, hstring, Option.getD_some]
    have hstep : attributeLoop cstate after (attnum :: (attnums ++ attnums')) (field :: (fields ++ fields')) =
        attributeLoop cstate (after ++ [string]) (attnums ++ attnums') (fields ++ fields') := by
      rw [attributeLoop_cons hselect htext, hstring]
      by_cases hmarker : field = .defaultMarker
      · exact if_pos hmarker
      · dsimp only
        rw [if_neg hmarker, hinput.resolve_left hmarker]
    rw [List.cons_append, List.cons_append, hstep, ih, List.map_cons, hvalue, List.append_assoc, List.singleton_append]

theorem attributeLoop_stops {attnums : List Nat} {fields : List RawField} {attnum : Nat} {field : RawField}
    (h : List.Forall₂ (Takes cstate) attnums fields) (hstop : ¬ Takes cstate attnum field)
    (hignore : cstate.onErrorIgnore = false) (attnums' : List Nat) (fields' : List RawField) :
    attributeLoop cstate [] (attnums ++ attnum :: attnums') (fields ++ field :: fields') =
      .error (if cstate.fieldString field = none then .nullDereference else .inputFailed attnum) := by
  rw [attributeLoop_takes hselect htext h, attributeLoop_cons hselect htext]
  cases hstring : cstate.fieldString field with
  | none => rw [if_pos rfl]
  | some string =>
    have hmarker : field ≠ .defaultMarker := fun heq => hstop ⟨string, hstring, .inl heq⟩
    have hinput : cstate.inputFunction attnum string ≠ .accepted := fun hin => hstop ⟨string, hstring, .inr hin⟩
    rw [if_neg (Option.some_ne_none string)]
    dsimp only
    rw [if_neg hmarker]
    cases houtcome : cstate.inputFunction attnum string with
    | accepted => exact absurd houtcome hinput
    | softError => simp only [hignore, Bool.false_eq_true, if_false]
    | raised => rfl

end Text

theorem exists_taken (attnums : List Nat) (fields : List RawField) :
    ∃ attnums₁ attnums₂ fields₁ fields₂, attnums = attnums₁ ++ attnums₂ ∧ fields = fields₁ ++ fields₂ ∧
      List.Forall₂ (Takes cstate) attnums₁ fields₁ ∧
      (attnums₂ = [] ∨ fields₂ = [] ∨
        ∃ attnum attnums' field fields', attnums₂ = attnum :: attnums' ∧ fields₂ = field :: fields' ∧
          ¬ Takes cstate attnum field) := by
  induction attnums generalizing fields with
  | nil => exact ⟨[], [], [], fields, rfl, rfl, .nil, .inl rfl⟩
  | cons attnum attnums ih =>
    cases fields with
    | nil => exact ⟨[], attnum :: attnums, [], [], rfl, rfl, .nil, .inr (.inl rfl)⟩
    | cons field fields =>
      by_cases htakes : Takes cstate attnum field
      · obtain ⟨attnums₁, attnums₂, fields₁, fields₂, rfl, rfl, hall, hrest⟩ := ih fields
        exact ⟨attnum :: attnums₁, attnums₂, field :: fields₁, fields₂, rfl, rfl, .cons htakes hall, hrest⟩
      · exact ⟨[], attnum :: attnums, [], field :: fields, rfl, rfl, .nil,
          .inr (.inr ⟨attnum, attnums, field, fields, rfl, rfl, htakes⟩)⟩

def CopyFromState.fieldJson (cstate : CopyFromState) (field : RawField) : CJson :=
  match cstate.fieldString field with
  | none => .null
  | some string => .string string

theorem afterArray_length (fieldCount : Nat) (after : List CStr) :
    (afterArray fieldCount after).length = fieldCount := by
  rw [afterArray, List.length_map, List.length_range]

theorem afterArray_full (after : List CStr) :
    afterArray after.length after = after.map fun s => Event.copyFieldToJson (some s) := by
  apply List.ext_getElem
  · rw [afterArray_length, List.length_map]
  · intro i h₁ h₂
    rw [afterArray_length] at h₁
    simp only [afterArray, List.getElem_map, List.getElem_range, List.getElem?_eq_getElem h₁]

theorem copyDocument_inj {info : CopyJsonInfo} {after after' : List CJson} :
    copyDocument info after = copyDocument info after' ↔ after = after' := by
  simp only [copyDocument, CJson.object.injEq, List.cons.injEq, Prod.mk.injEq, CJson.array.injEq, true_and, and_true]

theorem copyFieldToJson_eq_string {s : CStr} : Event.copyFieldToJson (some s) = .string s ↔ s.bytes ≠ [] := by
  rw [Event.copyFieldToJson]
  split_ifs with h
  · simpa using h
  · simpa using h

theorem afterArray_eq_iff {attnums : List Nat} {fields : List RawField} (h : List.Forall₂ (Takes cstate) attnums fields)
    (fieldCount : Nat) :
    afterArray fieldCount (fields.map cstate.valueString) = fields.map cstate.fieldJson ↔
      fieldCount = attnums.length ∧ ∀ field ∈ fields, (cstate.valueString field).bytes ≠ [] := by
  have hjson : ∀ field ∈ fields, cstate.fieldJson field = .string (cstate.valueString field) := by
    intro field hfield
    obtain ⟨i, hi, rfl⟩ := List.getElem_of_mem hfield
    obtain ⟨string, hstring, -⟩ := h.get (h.length_eq.symm ▸ hi) hi
    rw [List.get_eq_getElem] at hstring
    rw [CopyFromState.fieldJson, CopyFromState.valueString, hstring]
    rfl
  have hlength : fields.length = attnums.length := h.length_eq.symm
  constructor
  · intro heq
    have hcount : fieldCount = fields.length := by
      simpa only [afterArray_length, List.length_map] using congrArg List.length heq
    refine ⟨hcount.trans hlength, fun field hfield => ?_⟩
    rw [hcount, ← List.length_map cstate.valueString, afterArray_full, List.map_map, List.map_inj_left] at heq
    exact copyFieldToJson_eq_string.mp ((heq field hfield).trans (hjson field hfield))
  · rintro ⟨rfl, hne⟩
    rw [← hlength, ← List.length_map cstate.valueString, afterArray_full, List.map_map, List.map_inj_left]
    exact fun field hfield => (copyFieldToJson_eq_string.mpr (hne field hfield)).trans (hjson field hfield).symm

def textOptions : GivenOptions := ⟨false, none, none, none, none, none, false⟩

theorem textMode_textOptions : TextMode textOptions.complete where
  admitted :=
    have haccepted : processCopyOptions false textOptions = .ok textOptions.complete := rfl
    admitted_of_ok haccepted
  text := rfl
  null := rfl

def publisherCopy (attnumlist : List Nat) : CopyToState := ⟨textOptions.complete, attnumlist, fun _ => false⟩

def initialCopy (attnumlist : List Nat) (defexprs : Nat → Bool) (verify : Bytes → Bool)
    (inputFunction : Nat → CStr → InputOutcome) : CopyFromRow where
  opts := textOptions.complete
  attnumlist := attnumlist
  defexprs := defexprs
  verify := verify
  convertSelectFlags := none
  forceNotnullFlags := fun _ => false
  forceNullFlags := fun _ => false
  onErrorIgnore := false
  inputFunction := inputFunction

def initialInfo (dbname tableName : CStr) (attnames : List CStr) : CopyJsonInfo := ⟨dbname, tableName, attnames, true⟩

/-- No null pointer is read, and unless an error is reported the event has one entry for each column,
in order, which is JSON null exactly where the field is null. -/
def NullsKept (info : CopyJsonInfo) (line : Bytes) : Prop :=
  copyOneLine cstate info line ≠ .error .nullDereference ∧ ∀ event, copyOneLine cstate info line = .ok event →
      ∃ fields, copyReadAttributes cstate.toCopyFromState line = .ok fields ∧ fields.length = cstate.attnumlist.length ∧
        event = some (copyDocument info (fields.map cstate.fieldJson))

def Refuses (fields : List RawField) : Prop :=
  0 < cstate.attnumlist.length ∧ cstate.attnumlist.length < fields.length ∨ ∃ attnums₁ attnum attnums₂ fields₁ fields₂,
      cstate.attnumlist = attnums₁ ++ attnum :: attnums₂ ∧ fields = fields₁ ++ fields₂ ∧
      List.Forall₂ (Takes cstate) attnums₁ fields₁ ∧
      ∀ field ∈ fields₂.head?, cstate.fieldString field ≠ none ∧ ¬ Takes cstate attnum field

def Filled (info : CopyJsonInfo) (fields : List RawField) : Prop :=
  info.attnames.length = cstate.attnumlist.length ∧ List.Forall₂ (Takes cstate) cstate.attnumlist fields ∧
    ∀ field ∈ fields, (cstate.valueString field).bytes ≠ []

theorem copyOneLine_eq {info : CopyJsonInfo} {line : Bytes} {fields : List RawField}
    (h : copyReadAttributes cstate.toCopyFromState line = .ok fields) :
    copyOneLine cstate info line = copyFromTextLikeOneRow cstate info fields := by
  rw [copyOneLine, h]
  rfl

section Text

variable {cstate} (hselect : cstate.convertSelectFlags = none) (htext : cstate.opts.csvMode = false)
  (hignore : cstate.onErrorIgnore = false)
include hselect htext

theorem copyFromTextLikeOneRow_takes {info : CopyJsonInfo} (hsend : info.isNotInitdb = true) {fields : List RawField}
    (h : List.Forall₂ (Takes cstate) cstate.attnumlist fields) :
    copyFromTextLikeOneRow cstate info fields =
      .ok (some (copyDocument info (afterArray info.attnames.length (fields.map cstate.valueString)))) := by
  have hloop : attributeLoop cstate [] cstate.attnumlist fields = .ok (some (fields.map cstate.valueString)) := by
    have := attributeLoop_takes hselect htext h [] [] []
    rwa [List.append_nil, List.append_nil, List.nil_append, attributeLoop] at this
  rw [copyFromTextLikeOneRow, if_neg (fun hlen => hlen.2.ne h.length_eq), hloop]
  simp only [bind, Except.bind, pure, Except.pure, hsend, if_true, copyToJson]

include hignore

theorem copyFromTextLikeOneRow_stops {info : CopyJsonInfo} {fields₁ fields₂ : List RawField}
    {attnums₁ attnums₂ : List Nat} {attnum : Nat} {field : RawField}
    (hattnums : cstate.attnumlist = attnums₁ ++ attnum :: attnums₂) (h : List.Forall₂ (Takes cstate) attnums₁ fields₁)
    (hlength : fields₂.length ≤ attnums₂.length) (hstop : ¬ Takes cstate attnum field) :
    copyFromTextLikeOneRow cstate info (fields₁ ++ field :: fields₂) =
      .error (if cstate.fieldString field = none then .nullDereference else .inputFailed attnum) := by
  have hextra : ¬ (0 < cstate.attnumlist.length ∧ cstate.attnumlist.length < (fields₁ ++ field :: fields₂).length) := by
    simp only [hattnums, List.length_append, List.length_cons, h.length_eq]
    omega
  rw [copyFromTextLikeOneRow, if_neg hextra, hattnums, attributeLoop_stops hselect htext h hstop hignore]
  rfl

omit hignore in
theorem copyFromTextLikeOneRow_missing {info : CopyJsonInfo} {fields : List RawField} {attnums₁ attnums₂ : List Nat}
    {attnum : Nat} (hattnums : cstate.attnumlist = attnums₁ ++ attnum :: attnums₂)
    (h : List.Forall₂ (Takes cstate) attnums₁ fields) :
    copyFromTextLikeOneRow cstate info fields = .error (.missingData attnum) := by
  have hextra : ¬ (0 < cstate.attnumlist.length ∧ cstate.attnumlist.length < fields.length) := by
    simp only [hattnums, List.length_append, List.length_cons, h.length_eq]
    omega
  have hloop := attributeLoop_takes hselect htext h [] (attnum :: attnums₂) []
  rw [List.append_nil] at hloop
  rw [copyFromTextLikeOneRow, if_neg hextra, hattnums, hloop]
  rfl

end Text

theorem length_le_of_not_extra {fields : List RawField} {line : Bytes}
    (hread : copyReadAttributes cstate.toCopyFromState line = .ok fields)
    (hextra : ¬ (0 < cstate.attnumlist.length ∧ cstate.attnumlist.length < fields.length)) :
    fields.length ≤ cstate.attnumlist.length := by
  by_cases hempty : cstate.attnumlist = []
  · rw [copyReadAttributes, if_pos hempty] at hread
    split_ifs at hread
    obtain rfl := Except.ok.inj hread
    exact Nat.zero_le _
  · have hpos := List.length_pos_of_ne_nil hempty
    omega

section Kept

variable {cstate} (hselect : cstate.convertSelectFlags = none) (htext : cstate.opts.csvMode = false)
  (hignore : cstate.onErrorIgnore = false)
include hselect htext

theorem nullsKept_of_refuses (hignore : cstate.onErrorIgnore = false) {info : CopyJsonInfo} {line : Bytes}
    {fields : List RawField} (hread : copyReadAttributes cstate.toCopyFromState line = .ok fields)
    (h : Refuses cstate fields) : NullsKept cstate info line := by
  have herror : ∃ err, copyFromTextLikeOneRow cstate info fields = .error err ∧ err ≠ .nullDereference := by
    rcases h with hextra | ⟨attnums₁, attnum, attnums₂, fields₁, fields₂, hattnums, rfl, htaken, hhead⟩
    · exact ⟨_, by rw [copyFromTextLikeOneRow, if_pos hextra], by simp⟩
    · by_cases hextra : 0 < cstate.attnumlist.length ∧ cstate.attnumlist.length < (fields₁ ++ fields₂).length
      · exact ⟨_, by rw [copyFromTextLikeOneRow, if_pos hextra], by simp⟩
      · cases fields₂ with
        | nil =>
          rw [List.append_nil]
          exact ⟨_, copyFromTextLikeOneRow_missing hselect htext hattnums htaken, by simp⟩
        | cons field fields₂ =>
          obtain ⟨hnonnull, hstop⟩ := hhead field rfl
          have hlength := length_le_of_not_extra cstate hread hextra
          simp only [hattnums, List.length_append, List.length_cons, htaken.length_eq] at hlength
          refine ⟨_, copyFromTextLikeOneRow_stops hselect htext hignore hattnums htaken (by omega) hstop, ?_⟩
          simp [hnonnull]
  obtain ⟨err, herr, hne⟩ := herror
  rw [NullsKept, copyOneLine_eq cstate hread, herr]
  exact ⟨fun heq => hne (Except.error.inj heq), fun event hevent => by cases hevent⟩

theorem nullsKept_of_filled {info : CopyJsonInfo} (hsend : info.isNotInitdb = true) {line : Bytes}
    {fields : List RawField} (hread : copyReadAttributes cstate.toCopyFromState line = .ok fields)
    (h : Filled cstate info fields) : NullsKept cstate info line := by
  obtain ⟨hcount, htaken, hne⟩ := h
  have hrow := copyFromTextLikeOneRow_takes hselect htext hsend htaken
  rw [(afterArray_eq_iff cstate htaken _).mpr ⟨hcount, hne⟩] at hrow
  rw [NullsKept, copyOneLine_eq cstate hread, hrow]
  refine ⟨by simp, fun event hevent => ⟨fields, hread, htaken.length_eq.symm, (Except.ok.inj hevent).symm⟩⟩

theorem refuses_or_filled (hignore : cstate.onErrorIgnore = false) {info : CopyJsonInfo}
    (hsend : info.isNotInitdb = true) {line : Bytes} {fields : List RawField}
    (hread : copyReadAttributes cstate.toCopyFromState line = .ok fields) (h : NullsKept cstate info line) :
    Refuses cstate fields ∨ Filled cstate info fields := by
  by_cases hextra : 0 < cstate.attnumlist.length ∧ cstate.attnumlist.length < fields.length
  · exact .inl (.inl hextra)
  rw [NullsKept, copyOneLine_eq cstate hread] at h
  obtain ⟨hnull, hevent⟩ := h
  have hle := length_le_of_not_extra cstate hread hextra
  obtain ⟨attnums₁, attnums₂, fields₁, fields₂, hattnums, rfl, htaken,
    hrest⟩ := exists_taken cstate cstate.attnumlist fields
  cases attnums₂ with
  | nil =>
    -- every column is taken, and no field is left
    obtain rfl : fields₂ = [] := by
      rw [hattnums, List.append_nil, List.length_append, htaken.length_eq] at hle
      exact List.eq_nil_of_length_eq_zero (by omega)
    rw [List.append_nil] at hattnums hevent ⊢
    rw [← hattnums] at htaken
    obtain ⟨fields, hfields, -, hdocument⟩ := hevent _ (copyFromTextLikeOneRow_takes hselect htext hsend htaken)
    rw [hread, List.append_nil] at hfields
    obtain rfl := Except.ok.inj hfields
    obtain ⟨hcount, hne⟩ := (afterArray_eq_iff cstate htaken _).mp (copyDocument_inj.mp (Option.some.inj hdocument))
    exact .inr ⟨hcount, htaken, hne⟩
  | cons attnum attnums₂ =>
    refine .inl (.inr ⟨attnums₁, attnum, attnums₂, fields₁, fields₂, hattnums, rfl, htaken, fun field hfield => ?_⟩)
    cases fields₂ with
    | nil => cases hfield
    | cons field' fields₂ =>
      obtain rfl : field' = field := Option.some.inj hfield
      have hstop : ¬ Takes cstate attnum field' := by
        rcases hrest with hnil | hnil | ⟨_, _, _, _, hleft, hright, hstop⟩
        · cases hnil
        · cases hnil
        · rw [List.cons.injEq] at hleft hright
          rwa [hleft.1, hright.1]
      refine ⟨fun hnone => hnull ?_, hstop⟩
      simp only [hattnums, List.length_append, List.length_cons, htaken.length_eq] at hle
      rw [copyFromTextLikeOneRow_stops hselect htext hignore hattnums htaken (by omega) hstop, if_pos hnone]

end Kept

theorem takes_of_ok {cstate : CopyFromRow} (hselect : cstate.convertSelectFlags = none)
    (htext : cstate.opts.csvMode = false) (hignore : cstate.onErrorIgnore = false) {info : CopyJsonInfo}
    {fields : List RawField} {event : Option CJson} (hlength : fields.length = cstate.attnumlist.length)
    (h : copyFromTextLikeOneRow cstate info fields = .ok event) : List.Forall₂ (Takes cstate) cstate.attnumlist fields := by
  obtain ⟨attnums₁, attnums₂, fields₁, fields₂, hattnums, rfl, htaken,
    hrest⟩ := exists_taken cstate cstate.attnumlist fields
  have hbehind : fields₂.length = attnums₂.length := by
    rw [hattnums, List.length_append, List.length_append, htaken.length_eq] at hlength
    exact Nat.add_left_cancel hlength
  rcases hrest with rfl | rfl | ⟨attnum, attnums', field, fields', rfl, rfl, hstop⟩
  · obtain rfl := List.eq_nil_of_length_eq_zero hbehind
    rwa [hattnums, List.append_nil, List.append_nil]
  · obtain rfl := List.eq_nil_of_length_eq_zero hbehind.symm
    rwa [hattnums, List.append_nil, List.append_nil]
  · have hle : fields'.length ≤ attnums'.length := (Nat.succ.inj hbehind).le
    rw [copyFromTextLikeOneRow_stops hselect htext hignore hattnums htaken hle hstop] at h
    cases h

/-- The initial copy keeps the nulls of a line exactly when it refuses the line before it comes to a null
field, or every column has a value that is not empty. -/
theorem nullsKept_iff (attnumlist : List Nat) (defexprs : Nat → Bool) (verify : Bytes → Bool)
    (inputFunction : Nat → CStr → InputOutcome) (dbname tableName : CStr) (attnames : List CStr) (line : Bytes) :
    NullsKept (initialCopy attnumlist defexprs verify inputFunction) (initialInfo dbname tableName attnames) line ↔
      ∀ fields, copyReadAttributes (initialCopy attnumlist defexprs verify inputFunction).toCopyFromState line = .ok fields →
        Refuses (initialCopy attnumlist defexprs verify inputFunction) fields ∨
          Filled (initialCopy attnumlist defexprs verify inputFunction) (initialInfo dbname tableName attnames) fields := by
  constructor
  · intro h fields hread
    exact refuses_or_filled rfl rfl rfl rfl hread h
  · intro h
    cases hread : copyReadAttributes (initialCopy attnumlist defexprs verify inputFunction).toCopyFromState line with
    | error err =>
      have herror : copyOneLine (initialCopy attnumlist defexprs verify inputFunction)
          (initialInfo dbname tableName attnames) line = .error (.line err) := by
        rw [copyOneLine, hread]
        rfl
      rw [NullsKept, herror]
      exact ⟨by simp, fun event hevent => by cases hevent⟩
    | ok fields =>
      rcases h fields hread with hrefuses | hfilled
      · exact nullsKept_of_refuses rfl rfl rfl hread hrefuses
      · exact nullsKept_of_filled rfl rfl rfl hread hfilled

/-- The line of a null in the only column. -/
theorem null_line_not_kept : ¬ ∀ (attnumlist : List Nat) (defexprs : Nat → Bool) (verify : Bytes → Bool)
      (inputFunction : Nat → CStr → InputOutcome) (dbname tableName : CStr) (attnames : List CStr) (line : Bytes),
      NullsKept (initialCopy attnumlist defexprs verify inputFunction) (initialInfo dbname tableName attnames) line := by
  intro hall
  have hkept := (hall [1] (fun _ => false) (fun _ => true) (fun _ _ => .accepted) (.lit []) (.lit []) [.lit ['a']]
    ((publisherCopy [1]).columns (fun _ => none) false (publisherCopy [1]).attnumlist)).1
  have hread :
      copyReadAttributes (initialCopy [1] (fun _ => false) (fun _ => true) fun _ _ => .accepted).toCopyFromState
      ((publisherCopy [1]).columns (fun _ => none) false (publisherCopy [1]).attnumlist) = .ok [.null] :=
    copyReadAttributes_row rfl rfl fun attnum _ => passes_text textMode_textOptions _ rfl attnum none
  rw [copyOneLine_eq _ hread] at hkept
  exact hkept rfl

end CdcKafka.Copy
