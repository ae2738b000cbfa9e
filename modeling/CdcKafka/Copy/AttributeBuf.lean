import CdcKafka.Copy.Read
import CdcKafka.Lib.Checked
import CdcKafka.Lib.Ring

/-! `CopyReadAttributesText` and `CopyReadAttributesCSV` of `copyfromparse.c` with the buffer they write
into: `output_ptr` advances without a check that there is room. -/

namespace CdcKafka.Copy

open CdcKafka.Lib

structure AttributeBuf where
  data : Nat → UInt8
  outputPtr : Nat

namespace AttributeBuf

def add (size : Nat) (b : AttributeBuf) (c : UInt8) : Except (Stop CopyError) AttributeBuf := do
  store size b.outputPtr 1
  pure ⟨put b.data b.outputPtr [c], b.outputPtr + 1⟩

def since (b : AttributeBuf) (start : Nat) : Bytes := get b.data start (b.outputPtr - start)

end AttributeBuf

/-- A field where its end is found: its input, whether a character outside of ASCII was made from an
escape or there was a quote, and what is behind the delimiter. -/
structure FieldEnd where
  raw : Bytes
  saw : Bool
  rest : Option Bytes

def FieldEnd.push (raw : Bytes) (saw : Bool) (f : FieldEnd) : FieldEnd := ⟨raw ++ f.raw, saw || f.saw, f.rest⟩

def scanTextInto (size : Nat) (delimc : UInt8) : Bytes → AttributeBuf → Except (Stop CopyError) (FieldEnd × AttributeBuf)
  | [], b => .ok (⟨[], false, none⟩, b)
  | c :: rest, b =>
    if c = delimc then .ok (⟨[], false, some rest⟩, b)
    else if c = backslash then
      match rest with
      | [] => .ok (⟨[], false, none⟩, b)
      | e :: behind => do
        let r := deescape e behind
        let b ← b.add size r.1
        let (f, b) ← scanTextInto size delimc r.2.2 b
        pure (f.push (c :: e :: behind.take (behind.length - r.2.2.length)) r.2.1, b)
    else do
      let b ← b.add size c
      let (f, b) ← scanTextInto size delimc rest b
      pure (f.push [c] false, b)
termination_by b => b.length
decreasing_by
  · have hle := length_deescape_le e behind
    simp only [List.length_cons]
    omega
  · simp

def scanCsvInto (size : Nat) (delimc quotec escapec : UInt8) :
    Bool → Bytes → AttributeBuf → Except (Stop CopyError) (FieldEnd × AttributeBuf)
  | false, [], b => .ok (⟨[], false, none⟩, b)
  | false, c :: rest, b =>
    if c = delimc then .ok (⟨[], false, some rest⟩, b)
    else if c = quotec then do
      let (f, b) ← scanCsvInto size delimc quotec escapec true rest b
      pure (f.push [c] true, b)
    else do
      let b ← b.add size c
      let (f, b) ← scanCsvInto size delimc quotec escapec false rest b
      pure (f.push [c] false, b)
  | true, [], _ => .error (.failed .unterminatedQuote)
  | true, [c], b =>
    if c = quotec then .ok (⟨[c], false, none⟩, b)
    else do
      let _ ← b.add size c
      .error (.failed .unterminatedQuote)
  | true, c :: nextc :: rest, b =>
    if c = escapec ∧ (nextc = escapec ∨ nextc = quotec) then do
      let b ← b.add size nextc
      let (f, b) ← scanCsvInto size delimc quotec escapec true rest b
      pure (f.push [c, nextc] false, b)
    else if c = quotec then do
      let (f, b) ← scanCsvInto size delimc quotec escapec false (nextc :: rest) b
      pure (f.push [c] false, b)
    else do
      let b ← b.add size c
      let (f, b) ← scanCsvInto size delimc quotec escapec true (nextc :: rest) b
      pure (f.push [c] false, b)

def scanFieldInto (size : Nat) (cstate : CopyFromState) (line : Bytes) (b : AttributeBuf) :
    Except (Stop CopyError) (FieldEnd × AttributeBuf) :=
  if cstate.opts.csvMode then
    scanCsvInto size cstate.opts.delimc cstate.opts.quotec cstate.opts.escapec false line b
  else scanTextInto size cstate.opts.delimc line b

def rawField (start : Nat) : RawField → Option Nat
  | .null => none
  | .defaultMarker => some start
  | .value _ => some start

/-- The end of a field that starts at `start`. The terminator comes after the checks in text mode, and
before them in CSV mode. -/
def finishInto (size : Nat) (cstate : CopyFromState) (fieldno start : Nat) (f : FieldEnd) (b : AttributeBuf) :
    Except (Stop CopyError) (Option Nat × AttributeBuf) :=
  let field := (finishField cstate fieldno ⟨f.raw, b.since start, f.saw, f.rest⟩).mapError .failed
  if cstate.opts.csvMode then do
    let b ← b.add size 0
    pure (rawField start (← field), b)
  else do
    let field ← field
    pure (rawField start field, ← b.add size 0)

def FieldScan.fieldEnd (s : FieldScan) : FieldEnd := ⟨s.raw, s.saw, s.rest⟩

theorem fieldEnd_push (s : FieldScan) (raw out : Bytes) (saw : Bool) :
    (s.push raw out saw).fieldEnd = s.fieldEnd.push raw saw := rfl

variable {size : Nat} {delimc quotec escapec : UInt8} {inQuote : Bool} {line rest : Bytes} {b b' : AttributeBuf} {f : FieldEnd}

theorem scanTextInto_delim : scanTextInto size delimc (delimc :: rest) b = .ok (⟨[], false, some rest⟩, b) := by
  rw [scanTextInto.eq_def]
  exact if_pos rfl

theorem scanTextInto_plain {c : UInt8} (hdelim : c ≠ delimc) (hback : c ≠ backslash) :
    scanTextInto size delimc (c :: rest) b = (do
      let b ← b.add size c
      let (f, b) ← scanTextInto size delimc rest b
      pure (f.push [c] false, b)) := by
  rw [scanTextInto.eq_def]
  dsimp only
  rw [if_neg hdelim, if_neg hback]

theorem scanTextInto_fieldEnd (h : scanTextInto size delimc line b = .ok (f, b')) :
    f = (scanText delimc line).fieldEnd := by
  fun_induction scanText delimc line generalizing b f b' with
  | case1 =>
    rw [scanTextInto] at h
    cases h
    rfl
  | case2 rest =>
    rw [scanTextInto_delim] at h
    cases h
    rfl
  | case3 hdelim =>
    rw [scanTextInto, if_neg hdelim, if_pos rfl] at h
    cases h
    rfl
  | case4 e behind r hdelim =>
    rename_i ih
    rw [scanTextInto, if_neg hdelim, if_pos rfl] at h
    obtain ⟨b₁, -, h⟩ := bind_eq_ok.mp h
    obtain ⟨⟨f₁, b₂⟩, hscan, h⟩ := bind_eq_ok.mp h
    cases h
    rw [ih hscan, fieldEnd_push]
  | case5 c rest hdelim hback ih =>
    rw [scanTextInto_plain hdelim hback] at h
    obtain ⟨b₁, -, h⟩ := bind_eq_ok.mp h
    obtain ⟨⟨f₁, b₂⟩, hscan, h⟩ := bind_eq_ok.mp h
    cases h
    rw [ih hscan, fieldEnd_push]

theorem scanCsvInto_fieldEnd (h : scanCsvInto size delimc quotec escapec inQuote line b = .ok (f, b')) :
    ∃ s, scanCsv delimc quotec escapec inQuote line = .ok s ∧ f = s.fieldEnd := by
  fun_induction scanCsv delimc quotec escapec inQuote line generalizing b f b' with
  | case1 =>
    rw [scanCsvInto] at h
    cases h
    exact ⟨_, rfl, rfl⟩
  | case2 rest =>
    rw [scanCsvInto, if_pos rfl] at h
    cases h
    exact ⟨_, rfl, rfl⟩
  | case3 rest hdelim ih =>
    rw [scanCsvInto, if_neg hdelim, if_pos rfl] at h
    obtain ⟨⟨f₁, b₂⟩, hscan, h⟩ := bind_eq_ok.mp h
    obtain ⟨s, hs, rfl⟩ := ih hscan
    cases h
    exact ⟨_, congrArg (Except.map _) hs, rfl⟩
  | case4 c rest hdelim hquote ih =>
    rw [scanCsvInto, if_neg hdelim, if_neg hquote] at h
    obtain ⟨b₁, -, h⟩ := bind_eq_ok.mp h
    obtain ⟨⟨f₁, b₂⟩, hscan, h⟩ := bind_eq_ok.mp h
    obtain ⟨s, hs, rfl⟩ := ih hscan
    cases h
    exact ⟨_, congrArg (Except.map _) hs, rfl⟩
  | case5 =>
    rw [scanCsvInto] at h
    cases h
  | case6 =>
    rw [scanCsvInto, if_pos rfl] at h
    cases h
    exact ⟨_, rfl, rfl⟩
  | case7 c hquote =>
    rw [scanCsvInto, if_neg hquote] at h
    obtain ⟨b₁, -, h⟩ := bind_eq_ok.mp h
    cases h
  | case8 c nextc rest hesc ih =>
    rw [scanCsvInto, if_pos hesc] at h
    obtain ⟨b₁, -, h⟩ := bind_eq_ok.mp h
    obtain ⟨⟨f₁, b₂⟩, hscan, h⟩ := bind_eq_ok.mp h
    obtain ⟨s, hs, rfl⟩ := ih hscan
    cases h
    exact ⟨_, congrArg (Except.map _) hs, rfl⟩
  | case9 nextc rest hesc ih =>
    rw [scanCsvInto, if_neg hesc, if_pos rfl] at h
    obtain ⟨⟨f₁, b₂⟩, hscan, h⟩ := bind_eq_ok.mp h
    obtain ⟨s, hs, rfl⟩ := ih hscan
    cases h
    exact ⟨_, congrArg (Except.map _) hs, rfl⟩
  | case10 c nextc rest hesc hquote ih =>
    rw [scanCsvInto, if_neg hesc, if_neg hquote] at h
    obtain ⟨b₁, -, h⟩ := bind_eq_ok.mp h
    obtain ⟨⟨f₁, b₂⟩, hscan, h⟩ := bind_eq_ok.mp h
    obtain ⟨s, hs, rfl⟩ := ih hscan
    cases h
    exact ⟨_, congrArg (Except.map _) hs, rfl⟩

theorem length_rest_scanFieldInto {cstate : CopyFromState} (h : scanFieldInto size cstate line b = .ok (f, b'))
    (hrest : f.rest = some rest) : rest.length < line.length := by
  rw [scanFieldInto] at h
  split at h
  · obtain ⟨s, hs, rfl⟩ := scanCsvInto_fieldEnd h
    exact length_rest_scanCsv hs hrest
  · obtain rfl := scanTextInto_fieldEnd h
    exact length_rest_scanText hrest

def moreFields (maxFields fieldno : Nat) : Nat := if maxFields ≤ fieldno then maxFields * 2 else maxFields

def readFieldsInto (size : Nat) (cstate : CopyFromState) (fieldno maxFields : Nat) (line : Bytes) (b : AttributeBuf) :
    Except (Stop CopyError) (List (Option Nat) × AttributeBuf) := do
  store (moreFields maxFields fieldno) fieldno 1
  match _hscan : scanFieldInto size cstate line b with
  | .error stop => .error stop
  | .ok (f, b₁) =>
    match finishInto size cstate fieldno b.outputPtr f b₁ with
    | .error stop => .error stop
    | .ok (entry, b₂) =>
      match _hrest : f.rest with
      | none => .ok ([entry], b₂)
      | some rest => do
        let (entries, b₃) ← readFieldsInto size cstate (fieldno + 1) (moreFields maxFields fieldno) rest b₂
        pure (entry :: entries, b₃)
termination_by line.length
decreasing_by exact length_rest_scanFieldInto _hscan _hrest

/-- The entries of `raw_fields` and the buffer, which is enlarged to more than the length of the line. -/
def copyReadAttributesInto (cstate : CopyFromState) (line : Bytes) (data : Nat → UInt8) :
    Except (Stop CopyError) (List (Option Nat) × AttributeBuf) :=
  if cstate.attnumlist = [] then if line ≠ [] then .error (.failed .extraData) else .ok ([], ⟨data, 0⟩)
  else readFieldsInto (line.length + 1) cstate 0 cstate.attnumlist.length line ⟨data, 0⟩

end CdcKafka.Copy
