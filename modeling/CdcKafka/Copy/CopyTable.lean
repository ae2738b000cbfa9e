import CdcKafka.Copy.OneRow
import Mathlib.Algebra.BigOperators.Group.List.Basic
import Mathlib.Tactic.NormNum

/-! `copy_table` of `tablesync.c`: the data that the publisher sends in the format that is chosen, and
the loop of `CopyFrom` over it. Columns that are not copied are taken to have no default. -/

namespace CdcKafka.Copy

open CdcKafka.Lib CdcKafka.Json

inductive CopyFailure
  | row (err : RowError)
  /-- A header that `ReceiveCopyBinaryHeader` rejects. -/
  | header
  /-- "row field count is %d, expected %d" -/
  | fieldCount (count : Int)
  /-- "received copy data after EOF marker" -/
  | dataAfterMarker
  /-- "unexpected EOF in COPY data" -/
  | unexpectedEof
  /-- "invalid field size" -/
  | fieldSize
  /-- The converter of the type fails, or leaves a part of the data ("incorrect binary data format"). -/
  | receiveFailed (attnum : Nat)
deriving DecidableEq

inductive CopyEnd
  | done
  | failed (err : CopyFailure)
  | unfinished
deriving DecidableEq

structure CopyResult where
  events : List CJson
  ended : CopyEnd

/-- The loop of `CopyFrom`: a row that was read is not looked at again. -/
def copyFromLoop {σ : Type} (nextCopyFrom : σ → Except CopyFailure (Option (Option CJson × σ))) :
    Nat → σ → CopyResult
  | 0, _ => ⟨[], .unfinished⟩
  | fuel + 1, s =>
    match nextCopyFrom s with
    | .error err => ⟨[], .failed err⟩
    | .ok none => ⟨[], .done⟩
    | .ok (some (event, s')) =>
      let r := copyFromLoop nextCopyFrom fuel s'
      ⟨event.toList ++ r.events, r.ended⟩

section Loop

variable {σ : Type} {nextCopyFrom : σ → Except CopyFailure (Option (Option CJson × σ))}

theorem copyFromLoop_silent (hsilent : ∀ s event s', nextCopyFrom s = .ok (some (event, s')) → event = none)
    (fuel : Nat) (s : σ) : (copyFromLoop nextCopyFrom fuel s).events = [] := by
  induction fuel generalizing s with
  | zero => rfl
  | succ fuel ih =>
    rw [copyFromLoop]
    split
    · rfl
    · rfl
    · next event s' hnext =>
      rw [hsilent s event s' hnext]
      exact ih s'

theorem copyFromLoop_next {fuel : Nat} {s s' : σ} {event : Option CJson} (h : nextCopyFrom s = .ok (some (event, s'))) :
    copyFromLoop nextCopyFrom (fuel + 1) s =
      ⟨event.toList ++ (copyFromLoop nextCopyFrom fuel s').events, (copyFromLoop nextCopyFrom fuel s').ended⟩ := by
  rw [copyFromLoop, h]

end Loop

/-- `NextCopyFrom` in text format: the state is the style of the line endings and the rest of the data. -/
def nextTextRow (cstate : CopyFromRow) (info : CopyJsonInfo) (s : EolType × Bytes) :
    Except CopyFailure (Option (Option CJson × EolType × Bytes)) := do
  match ← (nextCopyFromRawFields cstate.toCopyFromState s.1 s.2).mapError fun err => .row (.line err) with
  | none => pure none
  | some (fields, eolType, rest) =>
    let event ← (copyFromTextLikeOneRow cstate info fields).mapError .row
    pure (some (event, eolType, rest))

def binarySignature : Bytes :=
  ascii ['P', 'G', 'C', 'O', 'P', 'Y', '\n'] ++ [0xff] ++ ascii ['\r', '\n'] ++ [0]

def copyGetInt16 (input : Bytes) : Option (Int × Bytes) :=
  if input.length < 2 then none else some ((decodeBE (input.take 2) : Int).bmod (2 ^ 16), input.drop 2)

def copyGetInt32 (input : Bytes) : Option (Int × Bytes) :=
  if input.length < 4 then none else some ((decodeBE (input.take 4) : Int).bmod (2 ^ 32), input.drop 4)

def receiveCopyBinaryHeader (input : Bytes) : Except CopyFailure Bytes :=
  if input.take 11 ≠ binarySignature then .error .header
  else
    match copyGetInt32 (input.drop 11) with
    | none => .error .header
    | some (flags, rest) =>
      -- the flag for OIDs, and the other critical ones
      if flags < 0 ∨ 2 ^ 16 ≤ flags then .error .header
      else
        match copyGetInt32 rest with
        | none => .error .header
        | some (extension, rest) =>
          if extension < 0 ∨ rest.length < extension.toNat then .error .header
          else .ok (rest.drop extension.toNat)

structure BinaryRow where
  attnumlist : List Nat
  /-- By column, whether `ReceiveFunctionCall` succeeds and takes all of the data. -/
  receiveFunction : Nat → Option Bytes → Bool

def copyReadBinaryAttribute (cstate : BinaryRow) (attnum : Nat) (input : Bytes) : Except CopyFailure Bytes :=
  match copyGetInt32 input with
  | none => .error .unexpectedEof
  | some (size, rest) =>
    if size = -1 then
      if cstate.receiveFunction attnum none then .ok rest else .error (.receiveFailed attnum)
    else if size < 0 then .error .fieldSize
    else if rest.length < size.toNat then .error .unexpectedEof
    else if cstate.receiveFunction attnum (some (rest.take size.toNat)) then .ok (rest.drop size.toNat)
    else .error (.receiveFailed attnum)

def readBinaryAttributes (cstate : BinaryRow) : List Nat → Bytes → Except CopyFailure Bytes
  | [], input => .ok input
  | attnum :: attnums, input => do
    let rest ← copyReadBinaryAttribute cstate attnum input
    readBinaryAttributes cstate attnums rest

def nextBinaryRow (cstate : BinaryRow) (input : Bytes) : Except CopyFailure (Option (Option CJson × Bytes)) :=
  match copyGetInt16 input with
  | none => .ok none
  | some (fldCount, rest) =>
    if fldCount = -1 then if rest = [] then .ok none else .error .dataAfterMarker
    else if fldCount ≠ cstate.attnumlist.length then .error (.fieldCount fldCount)
    else do
      let rest ← readBinaryAttributes cstate cstate.attnumlist rest
      pure (some (none, rest))

theorem copyReadBinaryAttribute_le {cstate : BinaryRow} {attnum : Nat} {input rest : Bytes}
    (h : copyReadBinaryAttribute cstate attnum input = .ok rest) : rest.length ≤ input.length := by
  have hint : ∀ {size : Int} {rest : Bytes}, copyGetInt32 input = some (size, rest) → rest.length ≤ input.length := by
    intro size rest hsize
    rw [copyGetInt32] at hsize
    split_ifs at hsize
    obtain ⟨-, rfl⟩ := Prod.mk.inj (Option.some.inj hsize)
    rw [List.length_drop]
    exact Nat.sub_le _ _
  rw [copyReadBinaryAttribute] at h
  cases hsize : copyGetInt32 input with
  | none =>
    rw [hsize] at h
    cases h
  | some r =>
    obtain ⟨size, behind⟩ := r
    have hle := hint hsize
    rw [hsize] at h
    dsimp only at h
    split_ifs at h
    · obtain rfl := Except.ok.inj h
      exact hle
    · obtain rfl := Except.ok.inj h
      rw [List.length_drop]
      omega

theorem readBinaryAttributes_le {cstate : BinaryRow} {attnums : List Nat} {input rest : Bytes}
    (h : readBinaryAttributes cstate attnums input = .ok rest) : rest.length ≤ input.length := by
  induction attnums generalizing input with
  | nil =>
    obtain rfl := Except.ok.inj h
    exact Nat.le_refl _
  | cons attnum attnums ih =>
    obtain ⟨behind, hbehind, h⟩ := bind_eq_ok.mp h
    exact (ih h).trans (copyReadBinaryAttribute_le hbehind)

theorem nextBinaryRow_some {cstate : BinaryRow} {input rest : Bytes} {event : Option CJson}
    (h : nextBinaryRow cstate input = .ok (some (event, rest))) : event = none ∧ rest.length < input.length := by
  rw [nextBinaryRow, copyGetInt16] at h
  by_cases hshort : input.length < 2
  · rw [if_pos hshort] at h
    cases Except.ok.inj h
  · rw [if_neg hshort] at h
    dsimp only at h
    split_ifs at h
    · cases Except.ok.inj h
    · obtain ⟨behind, hbehind, h⟩ := bind_eq_ok.mp h
      obtain ⟨rfl, rfl⟩ : none = event ∧ behind = rest := by simpa using Except.ok.inj h
      have hle := readBinaryAttributes_le hbehind
      rw [List.length_drop] at hle
      exact ⟨rfl, by omega⟩

/-- The table that is copied, with the output functions of the publisher and the input functions of the
subscriber; `α` is the type of its values. -/
structure CopiedTable (α : Type) where
  dbname : CStr
  tableName : CStr
  attnumlist : List Nat
  attname : Nat → CStr
  defexprs : Nat → Bool
  verify : Bytes → Bool
  outFunction : Nat → α → CStr
  sendFunction : Nat → α → Bytes
  inputFunction : Nat → CStr → InputOutcome
  receiveFunction : Nat → Option Bytes → Bool

variable {α : Type} (t : CopiedTable α)

def CopiedTable.info : CopyJsonInfo := initialInfo t.dbname t.tableName (t.attnumlist.map t.attname)

def CopiedTable.textState : CopyFromRow := initialCopy t.attnumlist t.defexprs t.verify t.inputFunction

def CopiedTable.binaryState : BinaryRow := ⟨t.attnumlist, t.receiveFunction⟩

def CopiedTable.slot (row : Nat → Option α) (attnum : Nat) : Option CStr := (row attnum).map (t.outFunction attnum)

def CopiedTable.sendColumn (row : Nat → Option α) (attnum : Nat) : Bytes :=
  match row attnum with
  | none => encodeBE 4 (2 ^ 32 - 1)
  | some value => encodeBE 4 (t.sendFunction attnum value).length ++ t.sendFunction attnum value

def CopiedTable.sendRow (row : Nat → Option α) : Bytes :=
  encodeBE 2 t.attnumlist.length ++ t.attnumlist.flatMap (t.sendColumn row)

def CopiedTable.sendBinary (rows : List (Nat → Option α)) : Bytes :=
  binarySignature ++ encodeBE 4 0 ++ encodeBE 4 0 ++ rows.flatMap t.sendRow ++ encodeBE 2 (2 ^ 16 - 1)

def CopiedTable.sendText (rows : List (Nat → Option α)) : Bytes :=
  rows.flatMap fun row => copyToTextLikeOneRow (publisherCopy t.attnumlist) (t.slot row)

def usesBinary (serverVersion : Nat) (binary : Bool) : Bool := decide (160000 ≤ serverVersion) && binary

def copyFromText (input : Bytes) : CopyResult :=
  copyFromLoop (nextTextRow t.textState t.info) (input.length + 1) (.unknown, input)

def copyFromBinary (input : Bytes) : CopyResult :=
  match receiveCopyBinaryHeader input with
  | .error err => ⟨[], .failed err⟩
  | .ok rest => copyFromLoop (nextBinaryRow t.binaryState) (rest.length + 1) rest

def copyTable (serverVersion : Nat) (binary : Bool) (rows : List (Nat → Option α)) : CopyResult :=
  if usesBinary serverVersion binary then copyFromBinary t (t.sendBinary rows) else copyFromText t (t.sendText rows)

def CopiedTable.accepted (row : Nat → Option α) : Bool :=
  t.attnumlist.all fun attnum =>
    (t.slot row attnum).any fun string => decide (t.inputFunction attnum string = .accepted)

def CopiedTable.document (row : Nat → Option α) : CJson :=
  copyDocument t.info (t.attnumlist.map fun attnum => Event.copyFieldToJson (t.slot row attnum))

def CopiedTable.fields (row : Nat → Option α) : List RawField := t.attnumlist.map fun attnum => fieldOf (t.slot row attnum)

theorem fieldString_fieldOf (cstate : CopyFromState) (column : Option CStr) :
    cstate.fieldString (fieldOf column) = column := by
  cases column with
  | none => rfl
  | some string => exact congrArg some (CStr.ofBytes_bytes string)

theorem takes_fieldOf (cstate : CopyFromRow) (attnum : Nat) (column : Option CStr) :
    Takes cstate attnum (fieldOf column) ↔ column.any fun string => decide (cstate.inputFunction attnum string = .accepted) := by
  rw [Takes, fieldString_fieldOf]
  cases column with
  | none => simp
  | some string => simp [fieldOf]

theorem takes_fields (row : Nat → Option α) :
    List.Forall₂ (Takes t.textState) t.attnumlist (t.fields row) ↔ t.accepted row = true := by
  rw [CopiedTable.fields, List.forall₂_map_right_iff, List.forall₂_same, CopiedTable.accepted, List.all_eq_true]
  exact forall₂_congr fun attnum _ => takes_fieldOf t.textState attnum _

theorem afterArray_fields {row : Nat → Option α} (h : t.accepted row = true) :
    afterArray t.info.attnames.length ((t.fields row).map t.textState.valueString) =
      t.attnumlist.map fun attnum => Event.copyFieldToJson (t.slot row attnum) := by
  have hlength : t.info.attnames.length = ((t.fields row).map t.textState.valueString).length := by
    simp only [CopiedTable.info, initialInfo, CopiedTable.fields, List.length_map]
  rw [hlength, afterArray_full, CopiedTable.fields, List.map_map, List.map_map]
  apply List.map_congr_left
  intro attnum hattnum
  have hsome := List.all_eq_true.mp h attnum hattnum
  cases hslot : t.slot row attnum with
  | none =>
    rw [hslot] at hsome
    cases hsome
  | some string =>
    simp only [Function.comp_apply, CopyFromState.valueString, fieldString_fieldOf, hslot, Option.getD_some]

theorem copyFromTextLikeOneRow_accepted {row : Nat → Option α} (h : t.accepted row = true) :
    copyFromTextLikeOneRow t.textState t.info (t.fields row) = .ok (some (t.document row)) := by
  have hsend : t.info.isNotInitdb = true := rfl
  have hselect : t.textState.convertSelectFlags = none := rfl
  rw [copyFromTextLikeOneRow_takes hselect rfl hsend ((takes_fields t row).mpr h), afterArray_fields t h,
    CopiedTable.document]

theorem copyFromTextLikeOneRow_rejected {row : Nat → Option α} (h : t.accepted row = false) :
    ∃ err, copyFromTextLikeOneRow t.textState t.info (t.fields row) = .error err := by
  cases hrow : copyFromTextLikeOneRow t.textState t.info (t.fields row) with
  | error err => exact ⟨err, rfl⟩
  | ok event =>
    have hlength : (t.fields row).length = t.attnumlist.length := List.length_map _
    rw [(takes_fields t row).mp (takes_of_ok rfl rfl rfl hlength hrow)] at h
    cases h

theorem nextTextRow_eq {eolType : EolType} (heol : eolType = .unknown ∨ eolType = .nl) (row : Nat → Option α)
    (rest : Bytes) :
    nextTextRow t.textState t.info (eolType, copyToTextLikeOneRow (publisherCopy t.attnumlist) (t.slot row) ++ rest) =
      (copyFromTextLikeOneRow t.textState t.info (t.fields row)).mapError CopyFailure.row >>= fun event =>
        pure (some (event, .nl, rest)) := by
  have hread : nextCopyFromRawFields t.textState.toCopyFromState eolType
      (copyToTextLikeOneRow (publisherCopy t.attnumlist) (t.slot row) ++ rest) = .ok (some (t.fields row, .nl, rest)) :=
    nextCopyFromRawFields_row (separates_text textMode_textOptions) rfl rfl heol rest fun attnum _ =>
      passes_text textMode_textOptions _ rfl attnum _
  rw [nextTextRow, hread]
  rfl

theorem sendText_cons (row : Nat → Option α) (rows : List (Nat → Option α)) :
    t.sendText (row :: rows) = copyToTextLikeOneRow (publisherCopy t.attnumlist) (t.slot row) ++ t.sendText rows :=
  List.flatMap_cons

theorem textLoop_events {eolType : EolType} (heol : eolType = .unknown ∨ eolType = .nl) (rows : List (Nat → Option α))
    {fuel : Nat} (hfuel : rows.length < fuel) :
    (copyFromLoop (nextTextRow t.textState t.info) fuel (eolType, t.sendText rows)).events =
      (rows.takeWhile t.accepted).map t.document := by
  induction rows generalizing eolType fuel with
  | nil =>
    obtain ⟨fuel, rfl⟩ := Nat.exists_eq_succ_of_ne_zero (Nat.pos_iff_ne_zero.mp hfuel)
    have hdone : nextTextRow t.textState t.info (eolType, []) = .ok none := by
      rw [nextTextRow, nextCopyFromRawFields, copyReadLine_nil]
      rfl
    rw [CopiedTable.sendText, List.flatMap_nil, copyFromLoop, hdone]
    rfl
  | cons row rows ih =>
    obtain ⟨fuel, rfl⟩ := Nat.exists_eq_succ_of_ne_zero (Nat.ne_of_gt (Nat.zero_lt_of_lt hfuel))
    have hnext := nextTextRow_eq t heol row (t.sendText rows)
    rw [sendText_cons]
    cases haccepted : t.accepted row with
    | true =>
      have hsent : nextTextRow t.textState t.info
          (eolType, copyToTextLikeOneRow (publisherCopy t.attnumlist) (t.slot row) ++ t.sendText rows) =
            .ok (some (some (t.document row), .nl, t.sendText rows)) := by
        rw [hnext, copyFromTextLikeOneRow_accepted t haccepted]
        rfl
      rw [List.takeWhile_cons_of_pos haccepted, List.map_cons, copyFromLoop_next hsent]
      exact congrArg (t.document row :: ·) (ih (.inr rfl) (Nat.lt_of_succ_lt_succ hfuel))
    | false =>
      obtain ⟨err, herr⟩ := copyFromTextLikeOneRow_rejected t haccepted
      have hfailed : nextTextRow t.textState t.info
          (eolType, copyToTextLikeOneRow (publisherCopy t.attnumlist) (t.slot row) ++ t.sendText rows) =
            .error (.row err) := by
        rw [hnext, herr]
        rfl
      rw [List.takeWhile_cons_of_neg (by rw [haccepted]; exact Bool.false_ne_true), copyFromLoop, hfailed]
      rfl

theorem length_le_sendText (rows : List (Nat → Option α)) : rows.length ≤ (t.sendText rows).length := by
  rw [CopiedTable.sendText, List.length_flatMap]
  induction rows with
  | nil => exact Nat.le_refl _
  | cons row rows ih =>
    rw [List.map_cons, List.sum_cons, copyToTextLikeOneRow, List.length_append, List.length_cons]
    simp only [List.length_singleton]
    omega

theorem copyFromText_events (rows : List (Nat → Option α)) :
    (copyFromText t (t.sendText rows)).events = (rows.takeWhile t.accepted).map t.document :=
  textLoop_events t (.inl rfl) rows (Nat.lt_succ_of_le (length_le_sendText t rows))

theorem copyFromBinary_events (input : Bytes) : (copyFromBinary t input).events = [] := by
  rw [copyFromBinary]
  split
  · rfl
  · exact copyFromLoop_silent (fun _ _ _ h => (nextBinaryRow_some h).1) _ _

theorem copyGetInt16_encode {n : Nat} (hn : n < 2 ^ 16) (rest : Bytes) :
    copyGetInt16 (encodeBE 2 n ++ rest) = some ((n : Int).bmod (2 ^ 16), rest) := by
  have hlength : (encodeBE 2 n).length = 2 := length_encodeBE 2 n
  rw [copyGetInt16, if_neg (by rw [List.length_append, hlength]; omega), List.take_left' hlength,
    List.drop_left' hlength,
    decodeBE_encodeBE hn]

theorem copyGetInt32_encode {n : Nat} (hn : n < 2 ^ 32) (rest : Bytes) :
    copyGetInt32 (encodeBE 4 n ++ rest) = some ((n : Int).bmod (2 ^ 32), rest) := by
  have hlength : (encodeBE 4 n).length = 4 := length_encodeBE 4 n
  rw [copyGetInt32, if_neg (by rw [List.length_append, hlength]; omega), List.take_left' hlength,
    List.drop_left' hlength,
    decodeBE_encodeBE hn]

theorem bmod_of_lt_half {n m : Nat} (hn : 2 * n < m) : (n : Int).bmod m = n := by
  apply Int.bmod_eq_of_le <;> omega

structure CopiedTable.Sendable : Prop where
  columns : t.attnumlist.length < 2 ^ 15
  data : ∀ attnum value, (t.sendFunction attnum value).length < 2 ^ 31

def CopiedTable.received (row : Nat → Option α) : Prop :=
  ∀ attnum ∈ t.attnumlist, t.receiveFunction attnum ((row attnum).map (t.sendFunction attnum)) = true

variable {t} (hsend : t.Sendable)
include hsend

theorem copyReadBinaryAttribute_column {row : Nat → Option α} {attnum : Nat}
    (h : t.receiveFunction attnum ((row attnum).map (t.sendFunction attnum)) = true) (rest : Bytes) :
    copyReadBinaryAttribute t.binaryState attnum (t.sendColumn row attnum ++ rest) = .ok rest := by
  rw [copyReadBinaryAttribute, CopiedTable.sendColumn]
  cases hrow : row attnum with
  | none =>
    rw [hrow] at h
    have hmarker : ((2 ^ 32 - 1 : Nat) : Int).bmod (2 ^ 32) = -1 := by norm_num [Int.bmod]
    dsimp only
    rw [copyGetInt32_encode (Nat.sub_lt (by norm_num) Nat.one_pos), hmarker]
    exact if_pos h
  | some value =>
    rw [hrow] at h
    have hsize : ((t.sendFunction attnum value).length : Int).bmod (2 ^ 32) = (t.sendFunction attnum value).length := by
      have hdata := hsend.data attnum value
      exact bmod_of_lt_half (by omega)
    dsimp only
    rw [List.append_assoc, copyGetInt32_encode ((hsend.data attnum value).trans (by norm_num))]
    dsimp only
    rw [hsize, if_neg (by omega), if_neg (by omega), Int.toNat_natCast, if_neg (by simp), List.take_left,
      List.drop_left]
    exact if_pos h

theorem readBinaryAttributes_row {row : Nat → Option α} (attnums : List Nat)
    (h : ∀ attnum ∈ attnums, t.receiveFunction attnum ((row attnum).map (t.sendFunction attnum)) = true) (rest : Bytes) :
    readBinaryAttributes t.binaryState attnums (attnums.flatMap (t.sendColumn row) ++ rest) = .ok rest := by
  induction attnums with
  | nil => rfl
  | cons attnum attnums ih =>
    rw [List.flatMap_cons, List.append_assoc, readBinaryAttributes,
      copyReadBinaryAttribute_column hsend (h attnum List.mem_cons_self), ok_bind]
    exact ih fun a ha => h a (List.mem_cons_of_mem attnum ha)

theorem nextBinaryRow_row {row : Nat → Option α} (h : t.received row) (rest : Bytes) :
    nextBinaryRow t.binaryState (t.sendRow row ++ rest) = .ok (some (none, rest)) := by
  have hcount : (t.attnumlist.length : Int).bmod (2 ^ 16) = t.attnumlist.length := by
    have hcolumns := hsend.columns
    exact bmod_of_lt_half (by omega)
  have hstate : t.binaryState.attnumlist = t.attnumlist := rfl
  rw [nextBinaryRow, CopiedTable.sendRow, List.append_assoc, copyGetInt16_encode (hsend.columns.trans (by norm_num))]
  dsimp only
  rw [hcount, if_neg (by omega), hstate, if_neg (by simp), readBinaryAttributes_row hsend _ h]
  rfl

theorem binaryLoop_done (rows : List (Nat → Option α)) (h : ∀ row ∈ rows, t.received row) {fuel : Nat}
    (hfuel : rows.length < fuel) :
    (copyFromLoop (nextBinaryRow t.binaryState) fuel (rows.flatMap t.sendRow ++ encodeBE 2 (2 ^ 16 - 1))).ended = .done := by
  induction rows generalizing fuel with
  | nil =>
    obtain ⟨fuel, rfl⟩ := Nat.exists_eq_succ_of_ne_zero (Nat.pos_iff_ne_zero.mp hfuel)
    have hcount : copyGetInt16 (encodeBE 2 (2 ^ 16 - 1)) = some (-1, []) := by
      have hencode := copyGetInt16_encode (Nat.sub_lt (by norm_num : 0 < 2 ^ 16) Nat.one_pos) []
      rw [List.append_nil] at hencode
      rw [hencode]
      norm_num [Int.bmod]
    have hmarker : nextBinaryRow t.binaryState (encodeBE 2 (2 ^ 16 - 1)) = .ok none := by
      rw [nextBinaryRow, hcount]
      rfl
    rw [List.flatMap_nil, List.nil_append, copyFromLoop, hmarker]
  | cons row rows ih =>
    obtain ⟨fuel, rfl⟩ := Nat.exists_eq_succ_of_ne_zero (Nat.ne_of_gt (Nat.zero_lt_of_lt hfuel))
    rw [List.flatMap_cons, List.append_assoc, copyFromLoop_next (nextBinaryRow_row hsend (h row List.mem_cons_self) _)]
    exact ih (fun r hr => h r (List.mem_cons_of_mem row hr)) (Nat.lt_of_succ_lt_succ hfuel)

theorem copyFromBinary_done {rows : List (Nat → Option α)} (h : ∀ row ∈ rows, t.received row) :
    (copyFromBinary t (t.sendBinary rows)).ended = .done := by
  have hheader :
      receiveCopyBinaryHeader (t.sendBinary rows) = .ok (rows.flatMap t.sendRow ++ encodeBE 2 (2 ^ 16 - 1)) := by
    have hzero : ∀ rest : Bytes, copyGetInt32 (encodeBE 4 0 ++ rest) = some (0, rest) := by
      intro rest
      rw [copyGetInt32_encode (by norm_num), Nat.cast_zero, Int.zero_bmod]
    simp only [CopiedTable.sendBinary, List.append_assoc]
    have hlength : binarySignature.length = 11 := rfl
    rw [receiveCopyBinaryHeader, List.take_left' hlength, if_neg (by simp), List.drop_left' hlength, hzero]
    dsimp only
    rw [if_neg (by norm_num), hzero]
    simp
  have hrows : rows.length ≤ (rows.flatMap t.sendRow).length := by
    rw [List.length_flatMap]
    have hsum := List.length_le_sum_of_one_le (rows.map fun row => (t.sendRow row).length)
    rw [List.length_map] at hsum
    apply hsum
    intro n hn
    obtain ⟨row, -, rfl⟩ := List.mem_map.mp hn
    rw [CopiedTable.sendRow, List.length_append, length_encodeBE]
    omega
  rw [copyFromBinary, hheader]
  refine binaryLoop_done hsend rows h ?_
  rw [List.length_append]
  omega

omit hsend

theorem map_takeWhile_eq_iff {β γ : Type} (p : β → Bool) (rows : List β) (f : β → γ) :
    (rows.takeWhile p).map f = rows.map f ↔ ∀ row ∈ rows, p row = true := by
  rw [← List.takeWhile_eq_self_iff]
  constructor
  · intro h
    have hlength : (rows.takeWhile p).length = rows.length := by
      simpa only [List.length_map] using congrArg List.length h
    exact (List.takeWhile_prefix p).eq_of_length hlength
  · intro h
    rw [h]

/-- Every row becomes an event, in order, exactly when there is none or the format is text and every
column of every row has a value that is accepted. -/
theorem copyTable_events_iff (t : CopiedTable α) (serverVersion : Nat) (binary : Bool) (rows : List (Nat → Option α)) :
    (copyTable t serverVersion binary rows).events = rows.map t.document ↔
      rows = [] ∨ usesBinary serverVersion binary = false ∧ ∀ row ∈ rows, t.accepted row = true := by
  rw [copyTable]
  cases hformat : usesBinary serverVersion binary with
  | false =>
    rw [if_neg Bool.false_ne_true, copyFromText_events, map_takeWhile_eq_iff]
    refine ⟨fun h => .inr ⟨rfl, h⟩, ?_⟩
    rintro (rfl | ⟨-, h⟩)
    · exact fun row hrow => absurd hrow List.not_mem_nil
    · exact h
  | true =>
    rw [if_pos rfl, copyFromBinary_events]
    constructor
    · intro h
      exact .inl (List.map_eq_nil_iff.mp h.symm)
    · rintro (rfl | ⟨h, -⟩)
      · rfl
      · cases h

def oneColumn : CopiedTable Bytes where
  dbname := .lit ['d']
  tableName := .lit ['s', '.', 't']
  attnumlist := [1]
  attname := fun _ => .lit ['a']
  defexprs := fun _ => false
  verify := fun _ => true
  outFunction := fun _ => .ofBytes
  sendFunction := fun _ value => value.take 8
  inputFunction := fun _ _ => .accepted
  receiveFunction := fun _ _ => true

/-- A row is copied in binary format to the end, and there is no event. -/
theorem binary_row_without_event : (copyTable oneColumn 160000 true [fun _ => some [0x61]]).ended = .done ∧
      (copyTable oneColumn 160000 true [fun _ => some [0x61]]).events.length ≠ 1 := by
  have hsend : oneColumn.Sendable := by
    refine ⟨by decide, fun attnum value => ?_⟩
    have hle : (value.take 8).length ≤ 8 := List.length_take_le 8 value
    exact hle.trans_lt (by norm_num)
  have hbinary : copyTable oneColumn 160000 true [fun _ => some [0x61]] =
      copyFromBinary oneColumn (oneColumn.sendBinary [fun _ => some [0x61]]) := if_pos rfl
  rw [hbinary, copyFromBinary_events]
  exact ⟨copyFromBinary_done hsend fun row _ attnum _ => rfl, by decide⟩

end CdcKafka.Copy
