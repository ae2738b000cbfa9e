import CdcKafka.Copy.AttributeBuf
import Mathlib.Data.List.Forall2

/-! The fields of a line fit into the buffer, and there is one more of them than there are delimiters
that end a field. -/

namespace CdcKafka.Copy

open CdcKafka.Lib

variable {size : Nat} {delimc quotec escapec : UInt8} {inQuote : Bool} {line rest out : Bytes} {b : AttributeBuf}
  {cstate : CopyFromState} {s : FieldScan}

def AttributeBuf.append (b : AttributeBuf) (out : Bytes) : AttributeBuf :=
  ⟨put b.data b.outputPtr out, b.outputPtr + out.length⟩

theorem append_nil (b : AttributeBuf) : b.append [] = b := by
  rw [AttributeBuf.append, put_nil]
  rfl

theorem append_append (b : AttributeBuf) (x y : Bytes) : (b.append x).append y = b.append (x ++ y) := by
  rw [AttributeBuf.append, AttributeBuf.append, AttributeBuf.append, put_put, List.length_append, Nat.add_assoc]

theorem since_append (b : AttributeBuf) (out : Bytes) : (b.append out).since b.outputPtr = out := by
  have hput := get_put b.data b.outputPtr 0 out
  rw [Nat.add_zero, Nat.zero_add, get_zero, List.nil_append] at hput
  rw [AttributeBuf.since]
  change get (put b.data b.outputPtr out) b.outputPtr (b.outputPtr + out.length - b.outputPtr) = out
  rw [Nat.add_sub_cancel_left, hput]

theorem add_eq {c : UInt8} (h : b.outputPtr < size) : b.add size c = .ok (b.append [c]) := by
  rw [AttributeBuf.add, store_ok h]
  rfl

def FieldScan.left (s : FieldScan) : Nat := s.rest.elim 0 (·.length + 1)

theorem left_push (s : FieldScan) (raw out : Bytes) (saw : Bool) : (s.push raw out saw).left = s.left := rfl

theorem length_scanText_le (delimc : UInt8) (line : Bytes) :
    (scanText delimc line).out.length + (scanText delimc line).left ≤ line.length := by
  fun_induction scanText delimc line with
  | case1 => exact Nat.le_refl _
  | case2 rest => exact Nat.le_of_eq (Nat.zero_add _)
  | case3 => exact Nat.zero_le _
  | case4 e behind r hdelim ih =>
    have hle : r.2.2.length ≤ behind.length := length_deescape_le e behind
    rw [left_push, FieldScan.push, List.length_append, List.length_singleton, List.length_cons, List.length_cons]
    omega
  | case5 c rest hdelim hback ih =>
    rw [left_push, FieldScan.push, List.length_append, List.length_singleton, List.length_cons]
    omega

theorem length_scanCsv_le (h : scanCsv delimc quotec escapec inQuote line = .ok s) :
    s.out.length + s.left ≤ line.length := by
  fun_induction scanCsv delimc quotec escapec inQuote line generalizing s with
  | case1 =>
    cases h
    exact Nat.le_refl _
  | case2 rest =>
    cases h
    exact Nat.le_of_eq (Nat.zero_add _)
  | case3 rest hdelim ih =>
    obtain ⟨t, ht, rfl⟩ := push_of_map h
    have hle := ih ht
    rw [left_push, FieldScan.push, List.length_append, List.length_nil, List.length_cons]
    omega
  | case4 c rest hdelim hquote ih =>
    obtain ⟨t, ht, rfl⟩ := push_of_map h
    have hle := ih ht
    rw [left_push, FieldScan.push, List.length_append, List.length_singleton, List.length_cons]
    omega
  | case5 => cases h
  | case6 =>
    cases h
    exact Nat.zero_le _
  | case7 => cases h
  | case8 c nextc rest hesc ih =>
    obtain ⟨t, ht, rfl⟩ := push_of_map h
    have hle := ih ht
    rw [left_push, FieldScan.push, List.length_append, List.length_singleton, List.length_cons, List.length_cons]
    omega
  | case9 nextc rest hesc ih =>
    obtain ⟨t, ht, rfl⟩ := push_of_map h
    have hle := ih ht
    rw [List.length_cons] at hle
    rw [left_push, FieldScan.push, List.length_append, List.length_nil, List.length_cons, List.length_cons]
    omega
  | case10 c nextc rest hesc hquote ih =>
    obtain ⟨t, ht, rfl⟩ := push_of_map h
    have hle := ih ht
    rw [List.length_cons] at hle
    rw [left_push, FieldScan.push, List.length_append, List.length_singleton, List.length_cons, List.length_cons]
    omega

theorem scanTextInto_eq (hroom : b.outputPtr + line.length ≤ size) :
    scanTextInto size delimc line b = .ok ((scanText delimc line).fieldEnd, b.append (scanText delimc line).out) := by
  fun_induction scanText delimc line generalizing b with
  | case1 =>
    rw [scanTextInto, append_nil]
    rfl
  | case2 rest =>
    rw [scanTextInto_delim, append_nil]
    rfl
  | case3 hdelim =>
    rw [scanTextInto, if_neg hdelim, if_pos rfl, append_nil]
    rfl
  | case4 e behind r hdelim =>
    rename_i ih
    have hle : r.2.2.length ≤ behind.length := length_deescape_le e behind
    rw [List.length_cons, List.length_cons] at hroom
    have hnext : (b.append [r.1]).outputPtr + r.2.2.length ≤ size := by
      change b.outputPtr + 1 + r.2.2.length ≤ size
      omega
    rw [scanTextInto, if_neg hdelim, if_pos rfl]
    dsimp only
    rw [add_eq (by omega), ok_bind, ih hnext, ok_bind, append_append]
    rfl
  | case5 c rest hdelim hback ih =>
    rw [List.length_cons] at hroom
    have hnext : (b.append [c]).outputPtr + rest.length ≤ size := by
      change b.outputPtr + 1 + rest.length ≤ size
      omega
    rw [scanTextInto_plain hdelim hback, add_eq (by omega), ok_bind, ih hnext, ok_bind, append_append]
    rfl

def inBuf (b : AttributeBuf) : Except CopyError FieldScan → Except (Stop CopyError) (FieldEnd × AttributeBuf)
  | .error err => .error (.failed err)
  | .ok s => .ok (s.fieldEnd, b.append s.out)

theorem inBuf_push (b : AttributeBuf) (x : Except CopyError FieldScan) (raw out : Bytes) (saw : Bool) :
    (inBuf (b.append out) x >>= fun r => pure (r.1.push raw saw, r.2)) = inBuf b (x.map (·.push raw out saw)) := by
  cases x with
  | error err => rfl
  | ok s => exact congrArg (fun b => Except.ok (s.fieldEnd.push raw saw, b)) (append_append b out s.out)

theorem scanCsvInto_eq (hroom : b.outputPtr + line.length ≤ size) :
    scanCsvInto size delimc quotec escapec inQuote line b = inBuf b (scanCsv delimc quotec escapec inQuote line) := by
  fun_induction scanCsv delimc quotec escapec inQuote line generalizing b with
  | case1 =>
    rw [scanCsvInto, inBuf, append_nil]
    rfl
  | case2 rest =>
    rw [scanCsvInto, if_pos rfl, inBuf, append_nil]
    rfl
  | case3 rest hdelim ih =>
    rw [List.length_cons] at hroom
    rw [scanCsvInto, if_neg hdelim, if_pos rfl, ih (by omega), ← inBuf_push, append_nil]
  | case4 c rest hdelim hquote ih =>
    rw [List.length_cons] at hroom
    have hnext : (b.append [c]).outputPtr + rest.length ≤ size := by
      change b.outputPtr + 1 + rest.length ≤ size
      omega
    rw [scanCsvInto, if_neg hdelim, if_neg hquote, add_eq (by omega), ok_bind, ih hnext, ← inBuf_push]
  | case5 =>
    rw [scanCsvInto]
    rfl
  | case6 =>
    rw [scanCsvInto, if_pos rfl, inBuf, append_nil]
    rfl
  | case7 c hquote =>
    rw [List.length_singleton] at hroom
    rw [scanCsvInto, if_neg hquote, add_eq (by omega)]
    rfl
  | case8 c nextc rest hesc ih =>
    rw [List.length_cons, List.length_cons] at hroom
    have hnext : (b.append [nextc]).outputPtr + rest.length ≤ size := by
      change b.outputPtr + 1 + rest.length ≤ size
      omega
    rw [scanCsvInto, if_pos hesc, add_eq (by omega), ok_bind, ih hnext, ← inBuf_push]
  | case9 nextc rest hesc ih =>
    rw [List.length_cons] at hroom
    rw [scanCsvInto, if_neg hesc, if_pos rfl, ih (by omega), ← inBuf_push, append_nil]
  | case10 c nextc rest hesc hquote ih =>
    rw [List.length_cons] at hroom
    have hnext : (b.append [c]).outputPtr + (nextc :: rest).length ≤ size := by
      change b.outputPtr + 1 + (nextc :: rest).length ≤ size
      omega
    rw [scanCsvInto, if_neg hesc, if_neg hquote, add_eq (by omega), ok_bind, ih hnext, ← inBuf_push]

theorem scanFieldInto_eq (hroom : b.outputPtr + line.length ≤ size) :
    scanFieldInto size cstate line b = inBuf b (scanField cstate line) := by
  rw [scanFieldInto, scanField]
  split
  · exact scanCsvInto_eq hroom
  · exact scanTextInto_eq hroom

theorem length_scanField_le (h : scanField cstate line = .ok s) : s.out.length + s.left ≤ line.length := by
  rw [scanField] at h
  split at h
  · exact length_scanCsv_le h
  · cases h
    exact length_scanText_le _ _

def Terminated (data : Nat → UInt8) (size off : Nat) (string : Bytes) : Prop :=
  get data off string.length = string ∧ data (off + string.length) = 0 ∧ off + string.length < size

def Placed (data : Nat → UInt8) (size : Nat) : RawField → Option Nat → Prop
  | .null, entry => entry = none
  | .defaultMarker, entry => ∃ off string, entry = some off ∧ Terminated data size off string
  | .value string, entry => ∃ off, entry = some off ∧ Terminated data size off string

theorem terminated_append {string : Bytes} (h : b.outputPtr + string.length < size) :
    Terminated (b.append (string ++ 0 :: out)).data size b.outputPtr string := by
  refine ⟨?_, ?_, h⟩
  · change get (put b.data b.outputPtr (string ++ 0 :: out)) b.outputPtr string.length = string
    rw [← put_put, get_put_outside (Or.inl (Nat.le_refl _))]
    have hput := get_put b.data b.outputPtr 0 string
    rw [Nat.add_zero, Nat.zero_add, get_zero, List.nil_append] at hput
    exact hput
  · apply put_inside
    rw [List.getElem?_append_right (Nat.le_refl _), Nat.sub_self]
    rfl

theorem finishField_string {fieldno : Nat} {string : Bytes} (h : finishField cstate fieldno s = .ok (.value string)) :
    string = s.out := by
  rw [finishField] at h
  obtain ⟨field, hfield, h⟩ := bind_eq_ok.mp h
  have hout : ∀ string, field = .value string → string = s.out := by
    rintro string rfl
    rw [classifyField] at hfield
    split at hfield
    · cases hfield
    · split at hfield
      · split at hfield
        · split at hfield <;> cases hfield
        · cases hfield
          rfl
      · cases hfield
        rfl
  cases field with
  | null => cases h
  | defaultMarker => cases h
  | value string' =>
    dsimp only at h
    split at h
    · cases h
    · cases h
      exact hout _ rfl

theorem finishInto_eq {fieldno : Nat} (hroom : b.outputPtr + s.out.length < size) :
    finishInto size cstate fieldno b.outputPtr s.fieldEnd (b.append s.out) = match finishField cstate fieldno s with
      | .error err => .error (.failed err)
      | .ok field => .ok (rawField b.outputPtr field, b.append (s.out ++ [0])) := by
  have hsame :
      (⟨s.fieldEnd.raw, (b.append s.out).since b.outputPtr, s.fieldEnd.saw, s.fieldEnd.rest⟩ : FieldScan) = s := by
    rw [since_append]
    rfl
  have hadd : (b.append s.out).add size 0 = .ok (b.append (s.out ++ [0])) := by
    rw [add_eq hroom, append_append]
  rw [finishInto, hsame, hadd]
  cases finishField cstate fieldno s with
  | error err => cases cstate.opts.csvMode <;> rfl
  | ok field => cases cstate.opts.csvMode <;> rfl

theorem placed_rawField {fieldno : Nat} {field : RawField} (hroom : b.outputPtr + s.out.length < size)
    (h : finishField cstate fieldno s = .ok field) :
    Placed (b.append (s.out ++ 0 :: out)).data size field (rawField b.outputPtr field) := by
  cases field with
  | null => rfl
  | defaultMarker => exact ⟨_, _, rfl, terminated_append hroom⟩
  | value string =>
    obtain rfl := finishField_string h
    exact ⟨_, rfl, terminated_append hroom⟩

theorem length_append_outputPtr (b : AttributeBuf) (out : Bytes) :
    (b.append out).outputPtr = b.outputPtr + out.length := rfl

theorem store_maxFields {fieldno maxFields : Nat} (hpos : 0 < maxFields) (hfieldno : fieldno ≤ maxFields) :
    (store (moreFields maxFields fieldno) fieldno 1 : Except (Stop CopyError) Unit) = .ok () := by
  apply store_ok
  rw [moreFields]
  split <;> omega

theorem readFieldsInto_eq (size : Nat) (cstate : CopyFromState) (fieldno maxFields : Nat) (line : Bytes) (b : AttributeBuf) :
    readFieldsInto size cstate fieldno maxFields line b = (do
      store (moreFields maxFields fieldno) fieldno 1
      let (f, b₁) ← scanFieldInto size cstate line b
      let (entry, b₂) ← finishInto size cstate fieldno b.outputPtr f b₁
      match f.rest with
      | none => pure ([entry], b₂)
      | some rest => do
        let (entries, b₃) ← readFieldsInto size cstate (fieldno + 1) (moreFields maxFields fieldno) rest b₂
        pure (entry :: entries, b₃)) := by
  rw [readFieldsInto]
  dsimp only
  refine congrArg (_ >>= ·) (funext fun _ => ?_)
  split
  · next stop hscan =>
    rw [hscan]
    rfl
  · next f b₁ hscan =>
    rw [hscan, ok_bind]
    dsimp only
    split
    · next stop hfinish =>
      rw [hfinish]
      rfl
    · next entry b₂ hfinish =>
      rw [hfinish, ok_bind]
      dsimp only
      split
      · next hrest => rw [hrest]; rfl
      · next rest hrest => rw [hrest]

theorem readFieldsInto_scanned {fieldno maxFields : Nat} (hroom : b.outputPtr + line.length < size)
    (hpos : 0 < maxFields) (hfieldno : fieldno ≤ maxFields) (hscan : scanField cstate line = .ok s) :
    readFieldsInto size cstate fieldno maxFields line b = match finishField cstate fieldno s with
      | .error err => .error (.failed err)
      | .ok field =>
        match s.rest with
        | none => .ok ([rawField b.outputPtr field], b.append (s.out ++ [0]))
        | some rest =>
          readFieldsInto size cstate (fieldno + 1) (moreFields maxFields fieldno) rest (b.append (s.out ++ [0])) >>= fun r =>
            pure (rawField b.outputPtr field :: r.1, r.2) := by
  have hfits : b.outputPtr + s.out.length < size := by
    have hle := length_scanField_le hscan
    omega
  rw [readFieldsInto_eq, store_maxFields hpos hfieldno, ok_bind, scanFieldInto_eq (Nat.le_of_lt hroom), hscan, inBuf,
    ok_bind]
  dsimp only
  rw [finishInto_eq hfits]
  cases finishField cstate fieldno s with
  | error err => rfl
  | ok field =>
    dsimp only [FieldScan.fieldEnd]
    rw [ok_bind]
    cases s.rest <;> rfl

theorem readFieldsInto_spec {fieldno maxFields : Nat} (hroom : b.outputPtr + line.length < size) (hpos : 0 < maxFields)
    (hfieldno : fieldno ≤ maxFields) :
    (∃ err, readFields cstate fieldno line = .error err ∧
        readFieldsInto size cstate fieldno maxFields line b = .error (.failed err)) ∨
      ∃ fields entries out, readFields cstate fieldno line = .ok fields ∧
        readFieldsInto size cstate fieldno maxFields line b = .ok (entries, b.append out) ∧
        List.Forall₂ (Placed (b.append out).data size) fields entries := by
  fun_induction readFields cstate fieldno line generalizing b maxFields with
  | case1 fieldno line err hscan =>
    refine Or.inl ⟨err, rfl, ?_⟩
    rw [readFieldsInto_eq, store_maxFields hpos hfieldno, ok_bind, scanFieldInto_eq (Nat.le_of_lt hroom), hscan]
    rfl
  | case2 fieldno line s hscan err hfinish =>
    refine Or.inl ⟨err, rfl, ?_⟩
    rw [readFieldsInto_scanned hroom hpos hfieldno hscan, hfinish]
  | case3 fieldno line s hscan field hfinish hrest =>
    have hfits : b.outputPtr + s.out.length < size := by
      have hle := length_scanField_le hscan
      omega
    refine Or.inr ⟨_, [rawField b.outputPtr field], s.out ++ [0], rfl, ?_, .cons (placed_rawField hfits hfinish) .nil⟩
    rw [readFieldsInto_scanned hroom hpos hfieldno hscan, hfinish, hrest]
  | case4 fieldno line s hscan field hfinish rest hrest ih =>
    have hle := length_scanField_le hscan
    rw [FieldScan.left, hrest] at hle
    change s.out.length + (rest.length + 1) ≤ line.length at hle
    have hfits : b.outputPtr + s.out.length < size := by omega
    have hnext : (b.append (s.out ++ [0])).outputPtr + rest.length < size := by
      rw [length_append_outputPtr, List.length_append, List.length_singleton]
      omega
    have hmax : 0 < moreFields maxFields fieldno ∧ fieldno + 1 ≤ moreFields maxFields fieldno := by
      rw [moreFields]
      split <;> omega
    rw [readFieldsInto_scanned hroom hpos hfieldno hscan, hfinish, hrest]
    dsimp only
    rcases ih hnext hmax.1 hmax.2 with ⟨err, herr, hinto⟩ | ⟨fields, entries, out, hfields, hinto, hplaced⟩
    · exact Or.inl ⟨err, by rw [herr]; rfl, by rw [hinto]; rfl⟩
    · have hall : b.append (s.out ++ 0 :: out) = (b.append (s.out ++ [0])).append out := by
        rw [append_append, List.append_assoc]
        rfl
      refine Or.inr ⟨field :: fields, rawField b.outputPtr field :: entries, s.out ++ 0 :: out, ?_, ?_, ?_⟩
      · rw [hfields]
        rfl
      · rw [hinto, hall]
        rfl
      · rw [← hall] at hplaced
        exact .cons (placed_rawField hfits hfinish) hplaced

def escapeDigits (e : UInt8) (behind : Bytes) : Nat :=
  if isOctal e then ((behind.take 2).takeWhile isOctal).length
  else if e = 0x78 then ((behind.take 2).takeWhile isHexDigit).length
  else 0

def unescapedDelims (delimc : UInt8) : Bytes → Nat
  | [] => 0
  | c :: rest =>
    if c = backslash then
      match rest with
      | [] => 0
      | e :: behind => unescapedDelims delimc (behind.drop (escapeDigits e behind))
    else (if c = delimc then 1 else 0) + unescapedDelims delimc rest
termination_by line => line.length
decreasing_by
  · simp only [List.length_cons, List.length_drop]
    omega
  · simp

def unquotedDelims (delimc quotec escapec : UInt8) : Bool → Bytes → Nat
  | _, [] => 0
  | false, c :: rest =>
    if c = quotec then unquotedDelims delimc quotec escapec true rest
    else (if c = delimc then 1 else 0) + unquotedDelims delimc quotec escapec false rest
  | true, [_] => 0
  | true, c :: nextc :: rest =>
    if c = escapec ∧ (nextc = escapec ∨ nextc = quotec) then unquotedDelims delimc quotec escapec true rest
    else unquotedDelims delimc quotec escapec (c ≠ quotec) (nextc :: rest)

def delims (opts : CopyFormatOptions) (line : Bytes) : Nat :=
  if opts.csvMode then unquotedDelims opts.delimc opts.quotec opts.escapec false line
  else unescapedDelims opts.delimc line

theorem moreDigits_rest (digit : UInt8 → Bool) (value : UInt8 → Nat) (base n val : Nat) (rest : Bytes) :
    (moreDigits digit value base n val rest).2 = rest.drop ((rest.take n).takeWhile digit).length := by
  induction n generalizing val rest with
  | zero => rfl
  | succ n ih =>
    cases rest with
    | nil => rfl
    | cons c rest =>
      rw [moreDigits, List.take_succ_cons, List.takeWhile_cons]
      split
      · exact ih _ rest
      · rfl

theorem deescape_rest (e : UInt8) (behind : Bytes) : (deescape e behind).2.2 = behind.drop (escapeDigits e behind) := by
  rw [deescape, escapeDigits]
  split
  · exact moreDigits_rest _ _ _ _ _ _
  · split
    · cases behind with
      | nil => rfl
      | cons c behind =>
        rw [hexEscape, List.take_succ_cons, List.takeWhile_cons]
        split
        · exact moreDigits_rest _ _ _ _ _ _
        · rfl
    · rfl

def Rests (count : Bytes → Nat) (n : Nat) : Option Bytes → Prop
  | none => n = 0
  | some rest => n = 1 + count rest

theorem rests_scanText (hdelim : delimc ≠ backslash) (line : Bytes) :
    Rests (unescapedDelims delimc) (unescapedDelims delimc line) (scanText delimc line).rest := by
  fun_induction scanText delimc line with
  | case1 =>
    rw [unescapedDelims]
    rfl
  | case2 rest =>
    change unescapedDelims delimc (delimc :: rest) = 1 + unescapedDelims delimc rest
    rw [unescapedDelims.eq_def]
    dsimp only
    rw [if_neg hdelim, if_pos rfl]
  | case3 =>
    rw [unescapedDelims, if_pos rfl]
    rfl
  | case4 e behind r hne ih =>
    rw [unescapedDelims, if_pos rfl, ← deescape_rest]
    exact ih
  | case5 c rest hne hback ih =>
    have hsame : unescapedDelims delimc (c :: rest) = unescapedDelims delimc rest := by
      rw [unescapedDelims.eq_def]
      dsimp only
      rw [if_neg hback, if_neg hne, Nat.zero_add]
    rw [hsame]
    exact ih

theorem rests_scanCsv (hdelim : delimc ≠ quotec) (h : scanCsv delimc quotec escapec inQuote line = .ok s) :
    Rests (unquotedDelims delimc quotec escapec false) (unquotedDelims delimc quotec escapec inQuote line) s.rest := by
  fun_induction scanCsv delimc quotec escapec inQuote line generalizing s with
  | case1 =>
    cases h
    rfl
  | case2 rest =>
    cases h
    change unquotedDelims delimc quotec escapec false (delimc :: rest) = 1 + unquotedDelims delimc quotec escapec false rest
    rw [unquotedDelims, if_neg hdelim, if_pos rfl]
  | case3 rest hne ih =>
    obtain ⟨t, ht, rfl⟩ := push_of_map h
    rw [unquotedDelims, if_pos rfl]
    have hrest := ih ht
    exact hrest
  | case4 c rest hne hquote ih =>
    obtain ⟨t, ht, rfl⟩ := push_of_map h
    rw [unquotedDelims, if_neg hquote, if_neg hne, Nat.zero_add]
    have hrest := ih ht
    exact hrest
  | case5 => cases h
  | case6 =>
    cases h
    rfl
  | case7 => cases h
  | case8 c nextc rest hesc ih =>
    obtain ⟨t, ht, rfl⟩ := push_of_map h
    rw [unquotedDelims, if_pos hesc]
    have hrest := ih ht
    exact hrest
  | case9 nextc rest hesc ih =>
    obtain ⟨t, ht, rfl⟩ := push_of_map h
    rw [unquotedDelims, if_neg hesc, decide_eq_false (not_not.mpr rfl)]
    have hrest := ih ht
    exact hrest
  | case10 c nextc rest hesc hquote ih =>
    obtain ⟨t, ht, rfl⟩ := push_of_map h
    rw [unquotedDelims, if_neg hesc, decide_eq_true hquote]
    have hrest := ih ht
    exact hrest

theorem delimc_of_ok {given : GivenOptions} {opts : CopyFormatOptions} (h : processCopyOptions true given = .ok opts) :
    (opts.csvMode = true → opts.delimc ≠ opts.quotec) ∧ (opts.csvMode = false → opts.delimc ≠ backslash) := by
  obtain ⟨-, hchecks⟩ := processCopyOptions_ok h
  have hdiffer : (opts.csvMode && opts.delimc == opts.quotec) = false :=
    hchecks (opts.csvMode && opts.delimc == opts.quotec, .delimiterIsQuote) (by simp [CopyFormatOptions.checks])
  have hsafe : (!opts.csvMode && unsafeDelimiters.contains opts.delimc) = false :=
    hchecks (!opts.csvMode && unsafeDelimiters.contains opts.delimc, .delimiterUnsafe opts.delim)
      (by simp [CopyFormatOptions.checks])
  constructor
  · intro hcsv heq
    rw [hcsv, heq, beq_self_eq_true] at hdiffer
    cases hdiffer
  · intro htext heq
    have hmem : unsafeDelimiters.contains backslash = true := by decide
    rw [htext, heq, hmem] at hsafe
    cases hsafe

theorem rests_scanField {given : GivenOptions} (hopts : processCopyOptions true given = .ok cstate.opts)
    (h : scanField cstate line = .ok s) : Rests (delims cstate.opts) (delims cstate.opts line) s.rest := by
  obtain ⟨hcsv, htext⟩ := delimc_of_ok hopts
  rw [scanField] at h
  unfold delims
  split at h
  · next hmode =>
    simp only [if_pos hmode]
    exact rests_scanCsv (hcsv hmode) h
  · next hmode =>
    cases h
    simp only [if_neg hmode]
    exact rests_scanText (htext (Bool.eq_false_iff.mpr hmode)) line

theorem length_readFields {given : GivenOptions} {fieldno : Nat} {fields : List RawField}
    (hopts : processCopyOptions true given = .ok cstate.opts) (h : readFields cstate fieldno line = .ok fields) :
    fields.length = 1 + delims cstate.opts line := by
  fun_induction readFields cstate fieldno line generalizing fields with
  | case1 => cases h
  | case2 => cases h
  | case3 fieldno line s hscan field hfinish hrest =>
    have hcount := rests_scanField hopts hscan
    rw [hrest] at hcount
    cases h
    rw [hcount]
    rfl
  | case4 fieldno line s hscan field hfinish rest hrest ih =>
    have hcount := rests_scanField hopts hscan
    rw [hrest] at hcount
    cases hmore : readFields cstate (fieldno + 1) rest with
    | error err =>
      rw [hmore] at h
      cases h
    | ok more =>
      rw [hmore] at h
      cases h
      rw [hcount, List.length_cons, ih hmore, Nat.add_comm]

theorem copyReadAttributesInto_spec (cstate : CopyFromState) (line : Bytes) (data : Nat → UInt8) :
    (∃ err, copyReadAttributes cstate line = .error err ∧ copyReadAttributesInto cstate line data = .error (.failed err)) ∨
      ∃ fields entries b, copyReadAttributes cstate line = .ok fields ∧
        copyReadAttributesInto cstate line data = .ok (entries, b) ∧
        List.Forall₂ (Placed b.data (line.length + 1)) fields entries := by
  rw [copyReadAttributes, copyReadAttributesInto]
  by_cases hcolumns : cstate.attnumlist = []
  · rw [if_pos hcolumns, if_pos hcolumns]
    by_cases hline : line ≠ []
    · rw [if_pos hline, if_pos hline]
      exact Or.inl ⟨_, rfl, rfl⟩
    · rw [if_neg hline, if_neg hline]
      exact Or.inr ⟨_, _, _, rfl, rfl, .nil⟩
  · have hpos : 0 < cstate.attnumlist.length := List.length_pos_iff.mpr hcolumns
    have hroom : (AttributeBuf.mk data 0).outputPtr + line.length < line.length + 1 := by
      change 0 + line.length < line.length + 1
      omega
    rw [if_neg hcolumns, if_neg hcolumns]
    have hread := @readFieldsInto_spec _ _ _ cstate _ _ hroom hpos (Nat.zero_le _)
    rcases hread with herror | ⟨fields, entries, out, hfields, hinto, hplaced⟩
    · exact Or.inl herror
    · exact Or.inr ⟨fields, entries, _, hfields, hinto, hplaced⟩

theorem exists_placed {data : Nat → UInt8} {fields : List RawField} {entries : List (Option Nat)} {entry : Option Nat}
    (h : List.Forall₂ (Placed data size) fields entries) (hmem : entry ∈ entries) : ∃ field, Placed data size field entry := by
  induction h with
  | nil => cases hmem
  | cons hhead _ ih =>
    rcases List.mem_cons.mp hmem with rfl | htail
    · exact ⟨_, hhead⟩
    · exact ih htail

theorem Placed.terminated {data : Nat → UInt8} {field : RawField} {off : Nat} (h : Placed data size field (some off)) :
    ∃ string, Terminated data size off string := by
  cases field with
  | null => cases h
  | defaultMarker =>
    obtain ⟨off', string, heq, hstring⟩ := h
    cases heq
    exact ⟨string, hstring⟩
  | value string =>
    obtain ⟨off', heq, hstring⟩ := h
    cases heq
    exact ⟨string, hstring⟩

/-- No byte is written outside of the buffer, every entry is NULL or points to a string in it, and there
is one more field than there are delimiters, unless the table has no columns. -/
theorem copyReadAttributesInto_fits {given : GivenOptions} (hopts : processCopyOptions true given = .ok cstate.opts)
    (line : Bytes) (data : Nat → UInt8) :
    Inside (copyReadAttributesInto cstate line data) ∧
      ∀ rawFields b, copyReadAttributesInto cstate line data = .ok (rawFields, b) →
        (∀ off, some off ∈ rawFields → ∃ string, Terminated b.data (line.length + 1) off string) ∧
          if cstate.attnumlist = [] then line = [] ∧ rawFields = []
          else rawFields.length = 1 + delims cstate.opts line := by
  rcases copyReadAttributesInto_spec cstate line data with
    ⟨err, -, hinto⟩ | ⟨fields, entries, b, hfields, hinto, hplaced⟩
  · rw [hinto]
    exact ⟨inside_failed err, nofun⟩
  · rw [hinto]
    refine ⟨inside_ok _, fun rawFields b' heq => ?_⟩
    cases heq
    refine ⟨fun off hoff => ?_, ?_⟩
    · obtain ⟨field, hfield⟩ := exists_placed hplaced hoff
      exact hfield.terminated
    · rw [copyReadAttributes] at hfields
      split at hfields
      · next hcolumns =>
        split at hfields
        · cases hfields
        · next hline =>
          cases hfields
          rw [if_pos hcolumns]
          exact ⟨not_not.mp hline, List.forall₂_nil_left_iff.mp hplaced⟩
      · next hcolumns =>
        rw [if_neg hcolumns, ← hplaced.length_eq, length_readFields hopts hfields]

def noColumns : CopyFromState where
  opts := ⟨false, .lit ['\t'], .lit ['\\', 'N'], none, none, none⟩
  attnumlist := []
  defexprs := fun _ => false
  verify := fun _ => true

theorem noColumns_opts :
    processCopyOptions true ⟨false, none, none, none, none, none, false⟩ = .ok noColumns.opts := rfl

def firstTwoColumns : CopyFromState := { noColumns with attnumlist := [1, 2] }

/-- An octal escape in front of a delimiter, and a backslash at the end of the line. -/
theorem copyReadAttributesInto_two :
    Inside (copyReadAttributesInto firstTwoColumns [0x61, backslash, 0x31, 0x30, 0x31, 0x09, backslash] fun _ => 0) ∧
      (copyReadAttributesInto firstTwoColumns [0x61, backslash, 0x31, 0x30, 0x31, 0x09, backslash] fun _ => 0).map Prod.fst =
        .ok [some 0, some 3] :=
  ⟨(@copyReadAttributesInto_fits firstTwoColumns _ noColumns_opts _ _).1, by decide +kernel⟩

/-- An empty line of a table without columns has no field, and no delimiter. -/
theorem no_columns_no_field :
    processCopyOptions true ⟨false, none, none, none, none, none, false⟩ = .ok noColumns.opts ∧
      (copyReadAttributesInto noColumns [] fun _ => 0).map (·.1.length) = .ok 0 ∧ 0 ≠ 1 + delims noColumns.opts [] := by
  refine ⟨noColumns_opts, rfl, ?_⟩
  omega

end CdcKafka.Copy
