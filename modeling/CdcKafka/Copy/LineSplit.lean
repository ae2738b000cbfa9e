import CdcKafka.Copy.ReadLine

/-! The lines of the data do not depend on how it is delivered: the scanner over the buffer finds what the
scanner over the whole data finds. -/

namespace CdcKafka.Copy.Buffered

open CdcKafka.Lib CopyFromBuffers LineScan

variable {e : ServerEncoding} {opts : CopyFormatOptions} {l l₀ : LineScan} {s : CopyFromBuffers}

namespace LineScan

def line (l : LineScan) : Bytes :=
  l.cstate.lineBuf ++ (l.cstate.rawBuf.drop l.cstate.inputBufIndex).take (l.inputBufPtr - l.cstate.inputBufIndex)

def ahead (l : LineScan) : Bytes := l.cstate.rawBuf.drop l.inputBufPtr ++ l.cstate.chunks.flatten

structure Valid (e : ServerEncoding) (l : LineScan) : Prop where
  fed : l.cstate.Fed e
  len : l.copyBufLen = l.cstate.inputBufLen
  index_le : l.cstate.inputBufIndex ≤ l.inputBufPtr
  ptr_le : l.inputBufPtr ≤ l.copyBufLen
  eof : l.hitEof = true → l.cstate.inputReachedEof = true
  need : l.needData = true → l.copyBufLen ≤ l.inputBufPtr + 3

theorem Valid.ptr_le_length (h : l.Valid e) : l.inputBufPtr ≤ l.cstate.rawBuf.length := by
  have hptr := h.ptr_le
  have hlen := h.len
  have hle := h.fed.len_le
  omega

theorem Valid.ahead_eq (h : l.Valid e) (hlt : l.inputBufPtr < l.copyBufLen) : l.ahead = l.peek :: l.advance.ahead := by
  have hlen := h.len
  have hle := h.fed.len_le
  have hin : l.inputBufPtr < l.cstate.rawBuf.length := by omega
  have hpeek : l.peek = l.cstate.rawBuf[l.inputBufPtr] := by
    rw [peek, List.getD_eq_getElem?_getD, List.getElem?_eq_getElem hin, Option.getD_some]
  rw [ahead, List.drop_eq_getElem_cons hin, ← hpeek]
  rfl

theorem Valid.ahead_eq_nil (h : l.Valid e) (heof : l.hitEof = true) (hle : l.copyBufLen ≤ l.inputBufPtr) :
    l.ahead = [] ∧ l.peek = 0 := by
  obtain ⟨hchunks, hall⟩ := h.fed.input_eof (h.eof heof)
  have hlen := h.len
  have hout : l.cstate.rawBuf.length ≤ l.inputBufPtr := by omega
  have hpeek : l.peek = 0 := by
    rw [peek, List.getD_eq_getElem?_getD, List.getElem?_eq_none hout, Option.getD_none]
  rw [ahead, hchunks, List.append_nil]
  exact ⟨List.drop_eq_nil_of_le hout, hpeek⟩

theorem Valid.loaded_le (h : l.Valid e) : l.copyBufLen - l.inputBufPtr ≤ l.ahead.length := by
  have hlen := h.len
  have hle := h.fed.len_le
  rw [ahead, List.length_append, List.length_drop]
  omega

theorem Valid.peek_eq (h : l.Valid e) (hready : l.Ready) : l.peek = (nextByte l.ahead).1 := by
  by_cases hlt : l.inputBufPtr < l.copyBufLen
  · rw [h.ahead_eq hlt]
    rfl
  · obtain ⟨hnil, hzero⟩ := h.ahead_eq_nil (hready.resolve_left hlt) (Nat.le_of_not_lt hlt)
    rw [hnil, hzero]
    rfl

theorem Valid.lt_of_peek_ne (h : l.Valid e) (hready : l.Ready) (hne : l.peek ≠ 0) : l.inputBufPtr < l.copyBufLen := by
  by_contra hnot
  exact hne (h.ahead_eq_nil (hready.resolve_left hnot) (Nat.le_of_not_lt hnot)).2

theorem Valid.advance (h : l.Valid e) (hlt : l.inputBufPtr < l.copyBufLen) (hneed : l.needData = false) :
    l.advance.Valid e :=
  ⟨h.fed, h.len, Nat.le_succ_of_le h.index_le, hlt, h.eof, fun htrue => absurd (hneed.symm.trans htrue) nofun⟩

theorem Valid.setEolType (h : l.Valid e) (eolType : EolType) : (l.setEolType eolType).Valid e :=
  ⟨⟨h.fed.index_le, h.fed.len_le, h.fed.complete, h.fed.raw_eof, h.fed.input_eof, h.fed.no_error⟩, h.len, h.index_le,
    h.ptr_le, h.eof, h.need⟩

theorem Valid.line_advance (h : l.Valid e) (hlt : l.inputBufPtr < l.copyBufLen) :
    l.advance.line = l.line ++ [l.peek] := by
  have hlen := h.len
  have hle := h.fed.len_le
  have hindex := h.index_le
  have hin : l.inputBufPtr < l.cstate.rawBuf.length := by omega
  have hsucc : l.inputBufPtr + 1 - l.cstate.inputBufIndex = (l.inputBufPtr - l.cstate.inputBufIndex) + 1 := by omega
  have hsum : l.cstate.inputBufIndex + (l.inputBufPtr - l.cstate.inputBufIndex) = l.inputBufPtr := by omega
  have hpeek :
      (l.cstate.rawBuf.drop l.cstate.inputBufIndex)[l.inputBufPtr - l.cstate.inputBufIndex]?.toList = [l.peek] := by
    rw [List.getElem?_drop, hsum, peek, List.getD_eq_getElem?_getD, List.getElem?_eq_getElem hin]
    rfl
  rw [line, line, List.append_assoc]
  refine congrArg (l.cstate.lineBuf ++ ·) ?_
  change List.take (l.inputBufPtr + 1 - l.cstate.inputBufIndex) (l.cstate.rawBuf.drop l.cstate.inputBufIndex) = _
  rw [hsucc, List.take_add_one, hpeek]

theorem Valid.line_ne_nil (h : l.Valid e) :
    l.line ≠ [] ↔ 0 < l.cstate.lineBuf.length ∨ l.cstate.inputBufIndex < l.inputBufPtr := by
  have hle := h.ptr_le_length
  rw [← List.length_pos_iff, line, List.length_append, List.length_take, List.length_drop]
  omega

theorem Valid.refill (h : l.Valid e) :
    l.refillLinebuf.cstate.Fed e ∧ l.refillLinebuf.cstate.lineBuf = l.line ∧ l.refillLinebuf.cstate.stream = l.ahead ∧
      l.refillLinebuf.cstate.inputBufBytes = l.copyBufLen - l.inputBufPtr ∧
      l.refillLinebuf.cstate.eolType = l.cstate.eolType ∧ l.refillLinebuf.cstate.copySrc = l.cstate.copySrc := by
  have hptr : l.inputBufPtr ≤ l.cstate.inputBufLen := h.len ▸ h.ptr_le
  rw [refillLinebuf]
  split
  · exact ⟨⟨hptr, h.fed.len_le, h.fed.complete, h.fed.raw_eof, h.fed.input_eof, h.fed.no_error⟩, rfl, rfl,
      congrArg (· - l.inputBufPtr) h.len.symm, rfl, rfl⟩
  · next hnot =>
    have hindex : l.cstate.inputBufIndex = l.inputBufPtr := Nat.le_antisymm h.index_le (Nat.le_of_not_lt hnot)
    have hline : l.cstate.lineBuf = l.line := by
      rw [line, hindex, Nat.sub_self, List.take_zero, List.append_nil]
    have hahead : l.cstate.stream = l.ahead := by
      rw [stream, hindex]
      rfl
    refine ⟨h.fed, hline, hahead, ?_, rfl, rfl⟩
    rw [inputBufBytes, h.len, hindex]

end LineScan

def target (opts : CopyFormatOptions) (l : LineScan) : Except CopyError ReadLine :=
  if opts.csvMode then copyReadLineCsv opts.quotec opts.lineEscapec l.cstate.eolType l.quote l.line l.ahead
  else Copy.copyReadLineText l.cstate.eolType l.line l.ahead

def work (l : LineScan) : Nat := 2 * (l.ahead.length + (l.ahead.length - (l.copyBufLen - l.inputBufPtr)))

def roundsLeft (l : LineScan) : Nat := work l + if l.needData then 0 else 1

def Meets (e : ServerEncoding) (opts : CopyFormatOptions) (l₀ : LineScan) (rounds : Nat) :
    Except ReadFailure LineStep → Prop
  | .error failure => ∃ err, failure = .copy err ∧ target opts l₀ = .error err
  | .ok (.again l) => l.Valid e ∧ l.cstate.copySrc = l₀.cstate.copySrc ∧ target opts l = target opts l₀ ∧ roundsLeft l < rounds
  | .ok (.done result l) =>
    l.Valid e ∧ l.cstate.copySrc = l₀.cstate.copySrc ∧ target opts l₀ = .ok ⟨l.line, result, l.ahead, l.cstate.eolType⟩

/-- A round at a loaded character takes it, or asks for more unless the end of the data is reached. -/
def scanRounds (l : LineScan) : Nat := work l + if l.hitEof then 0 else 1

variable {rounds n prev : Nat} {behind : Except ReadFailure LineStep}

def forward (l : LineScan) (n : Nat) : LineScan := { l with inputBufPtr := l.inputBufPtr + n }

theorem ifNeedRefill_of_ready (h : l.Ready) : ifNeedRefill prev l behind = behind := if_neg (not_not.mpr h)

theorem meets_ifNeedRefill (h : l₀.Valid e) (hn : n ≤ 3)
    (hbehind : (forward l₀ n).Ready → Meets e opts l₀ (scanRounds l₀) behind) :
    Meets e opts l₀ (scanRounds l₀) (ifNeedRefill l₀.inputBufPtr (forward l₀ n) behind) := by
  by_cases hready : (forward l₀ n).Ready
  · rw [ifNeedRefill_of_ready hready]
    exact hbehind hready
  · obtain ⟨hptr, heof⟩ := not_or.mp hready
    have hshort : l₀.copyBufLen ≤ l₀.inputBufPtr + n := Nat.le_of_not_lt hptr
    have heof' : l₀.hitEof = false := Bool.eq_false_iff.mpr heof
    rw [ifNeedRefill, if_pos hready]
    refine ⟨⟨h.fed, h.len, h.index_le, h.ptr_le, h.eof, fun _ => ?_⟩, rfl, rfl, ?_⟩
    · exact Nat.le_trans hshort (Nat.add_le_add_left hn _)
    · rw [scanRounds, heof']
      exact Nat.lt_succ_self _

theorem roundsLeft_lt (hahead : l.ahead.length + l.inputBufPtr = l₀.ahead.length + l₀.inputBufPtr)
    (hlen : l.copyBufLen = l₀.copyBufLen) (hlt : l₀.inputBufPtr < l.inputBufPtr) (hle : l.inputBufPtr ≤ l.copyBufLen) :
    roundsLeft l < scanRounds l₀ := by
  rw [roundsLeft, scanRounds, work, work, ← hlen]
  split <;> split <;> omega

theorem endAtReturn_eq (isCsv : Bool) (eolType : EolType) (line rest : Bytes) : endAtReturn isCsv eolType line rest =
      if eolType = .unknown ∨ eolType = .crnl then
        if (nextByte rest).1 = newline then .ok ⟨line ++ [carriageReturn, newline], false, (nextByte rest).2, .crnl⟩
        else if eolType = .crnl then .error (.carriageReturnFound isCsv)
        else .ok ⟨line ++ [carriageReturn], false, rest, .cr⟩
      else if eolType = .nl then .error (.carriageReturnFound isCsv)
      else .ok ⟨line ++ [carriageReturn], false, rest, .cr⟩ := by
  have hzero : (0 : UInt8) ≠ newline := by decide
  cases eolType <;> cases rest <;> simp [endAtReturn, nextByte, hzero]

theorem nextByte_ahead (h : l.Valid e) (hlt : l.inputBufPtr < l.copyBufLen) :
    (nextByte l.ahead).2 = l.advance.ahead := by
  rw [h.ahead_eq hlt]
  rfl

theorem newline_ne_zero : newline ≠ 0 := by decide

theorem carriageReturn_ne_zero : carriageReturn ≠ 0 := by decide

theorem meets_processReturn {isCsv : Bool} {line : Bytes} (h : l.Valid e) (hneed : l.needData = false)
    (hsrc : l.cstate.copySrc = l₀.cstate.copySrc) (hline : l.line = line ++ [carriageReturn])
    (htarget : target opts l₀ = endAtReturn isCsv l.cstate.eolType line l.ahead)
    (hrefill : ∀ behind, (l.Ready → Meets e opts l₀ rounds behind) → Meets e opts l₀ rounds (ifNeedRefill prev l behind)) :
    Meets e opts l₀ rounds (processReturn isCsv prev l) := by
  rw [endAtReturn_eq] at htarget
  rw [processReturn]
  by_cases hlook : l.cstate.eolType = .unknown ∨ l.cstate.eolType = .crnl
  · rw [if_pos hlook] at htarget ⊢
    refine hrefill _ fun hready => ?_
    rw [← h.peek_eq hready] at htarget
    by_cases hnew : l.peek = newline
    · have hlt := h.lt_of_peek_ne hready (hnew ▸ newline_ne_zero)
      have hlast : (l.advance.setEolType .crnl).line = line ++ [carriageReturn, newline] := by
        change l.advance.line = _
        rw [h.line_advance hlt, hline, hnew, List.append_assoc]
        rfl
      rw [if_pos hnew, nextByte_ahead h hlt] at htarget
      rw [if_pos hnew]
      refine ⟨(h.advance hlt hneed).setEolType _, hsrc, ?_⟩
      rw [hlast]
      exact htarget
    · rw [if_neg hnew] at htarget ⊢
      by_cases hcrnl : l.cstate.eolType = .crnl
      · rw [if_pos hcrnl] at htarget ⊢
        exact ⟨_, rfl, htarget⟩
      · rw [if_neg hcrnl, ← hline] at htarget
        rw [if_neg hcrnl]
        exact ⟨h.setEolType _, hsrc, htarget⟩
  · rw [if_neg hlook] at htarget ⊢
    by_cases hnl : l.cstate.eolType = .nl
    · rw [if_pos hnl] at htarget ⊢
      exact ⟨_, rfl, htarget⟩
    · have hcr : l.cstate.eolType = .cr := by
        cases heol : l.cstate.eolType with
        | unknown => exact absurd (Or.inl heol) hlook
        | nl => exact absurd heol hnl
        | cr => rfl
        | crnl => exact absurd (Or.inr heol) hlook
      rw [if_neg hnl, ← hline, ← hcr] at htarget
      rw [if_neg hnl]
      exact ⟨h, hsrc, htarget⟩

theorem meets_processNewline {isCsv : Bool} {line : Bytes} (h : l.Valid e) (hsrc : l.cstate.copySrc = l₀.cstate.copySrc)
    (hline : l.line = line ++ [newline]) (htarget : target opts l₀ = endAtNewline isCsv l.cstate.eolType line l.ahead) :
    Meets e opts l₀ rounds (processNewline isCsv l) := by
  rw [endAtNewline] at htarget
  rw [processNewline]
  by_cases hother : l.cstate.eolType = .cr ∨ l.cstate.eolType = .crnl
  · rw [if_pos hother] at htarget ⊢
    exact ⟨_, rfl, htarget⟩
  · rw [if_neg hother, ← hline] at htarget
    rw [if_neg hother]
    exact ⟨h.setEolType _, hsrc, htarget⟩

def markerTail (eolType : EolType) (line rest : Bytes) : Except CopyError ReadLine :=
  if (nextByte rest).1 ≠ carriageReturn ∧ (nextByte rest).1 ≠ newline then .error .markerNotAlone
  else if eolType = .nl ∧ (nextByte rest).1 ≠ newline ∨ eolType = .crnl ∧ (nextByte rest).1 ≠ newline ∨
      eolType = .cr ∧ (nextByte rest).1 ≠ carriageReturn then
    .error .markerStyle
  else if line ≠ [] then .error .markerNotAlone
  else .ok ⟨[], true, (nextByte rest).2, eolType⟩

theorem endOfCopy_eq (eolType : EolType) (line rest : Bytes) :
    endOfCopy eolType line rest = markerReturn eolType rest >>= markerTail eolType line := rfl

theorem meets_markerEnd (h₀ : l₀.Valid e) (h : (forward l₀ n).Valid e) (hneed : l₀.needData = false) (hn : n ≤ 3)
    (htarget : target opts l₀ = markerTail (forward l₀ n).cstate.eolType l₀.line (forward l₀ n).ahead) :
    Meets e opts l₀ (scanRounds l₀) (markerEnd l₀.inputBufPtr (forward l₀ n)) := by
  rw [markerEnd]
  refine meets_ifNeedRefill h₀ hn fun hready => ?_
  rw [markerTail, ← h.peek_eq hready] at htarget
  by_cases halone : (forward l₀ n).peek ≠ carriageReturn ∧ (forward l₀ n).peek ≠ newline
  · rw [if_pos halone] at htarget ⊢
    exact ⟨_, rfl, htarget⟩
  · rw [if_neg halone] at htarget ⊢
    split at htarget
    · next hstyle =>
      rw [if_pos hstyle]
      exact ⟨_, rfl, htarget⟩
    · next hstyle =>
      rw [if_neg hstyle]
      by_cases hline : l₀.line ≠ []
      · rw [if_pos hline] at htarget
        have hdata : 0 < (forward l₀ n).cstate.lineBuf.length ∨ (forward l₀ n).cstate.inputBufIndex < l₀.inputBufPtr :=
          h₀.line_ne_nil.mp hline
        rw [if_pos hdata]
        exact ⟨_, rfl, htarget⟩
      · rw [if_neg hline] at htarget
        have hdata :
            ¬(0 < (forward l₀ n).cstate.lineBuf.length ∨ (forward l₀ n).cstate.inputBufIndex < l₀.inputBufPtr) :=
          fun hdata => hline (h₀.line_ne_nil.mpr hdata)
        have hne : (forward l₀ n).peek ≠ 0 := by
          rcases not_and_or.mp halone with hret | hnew
          · rw [not_not.mp hret]
            exact carriageReturn_ne_zero
          · rw [not_not.mp hnew]
            exact newline_ne_zero
        have hlt := h.lt_of_peek_ne hready hne
        have hempty : l₀.cstate.lineBuf = [] :=
          List.eq_nil_of_length_eq_zero (Nat.eq_zero_of_not_pos (not_or.mp hdata).1)
        have hloaded : (forward l₀ n).inputBufPtr + 1 ≤ (forward l₀ n).cstate.inputBufLen := h.len ▸ hlt
        rw [nextByte_ahead h hlt] at htarget
        rw [if_neg hdata]
        refine ⟨⟨⟨hloaded, h.fed.len_le, h.fed.complete, h.fed.raw_eof, h.fed.input_eof, h.fed.no_error⟩, h.len,
          Nat.le_refl _, hlt, h.eof, fun htrue => absurd (hneed.symm.trans htrue) nofun⟩, rfl, ?_⟩
        rw [htarget, line]
        change _ = Except.ok (ReadLine.mk (l₀.cstate.lineBuf ++ List.take ((forward l₀ n).inputBufPtr + 1 -
          ((forward l₀ n).inputBufPtr + 1)) _) true _ _)
        rw [hempty, Nat.sub_self, List.take_zero]
        rfl

theorem meets_processMarker (h₀ : l₀.Valid e) (h : (forward l₀ 2).Valid e) (hneed : l₀.needData = false)
    (htarget : target opts l₀ = endOfCopy l₀.cstate.eolType l₀.line (forward l₀ 2).ahead) :
    Meets e opts l₀ (scanRounds l₀) (processMarker l₀.inputBufPtr (forward l₀ 2)) := by
  rw [endOfCopy_eq, markerReturn] at htarget
  rw [processMarker]
  by_cases hcrnl : l₀.cstate.eolType = .crnl
  · have hcrnl' : (forward l₀ 2).cstate.eolType = .crnl := hcrnl
    rw [if_pos hcrnl] at htarget
    rw [if_pos hcrnl']
    refine meets_ifNeedRefill h₀ (by omega) fun hready => ?_
    rw [← h.peek_eq hready] at htarget
    by_cases hnew : (forward l₀ 2).peek = newline
    · rw [if_pos hnew] at htarget ⊢
      exact ⟨_, rfl, htarget⟩
    · rw [if_neg hnew] at htarget ⊢
      by_cases hret : (forward l₀ 2).peek ≠ carriageReturn
      · rw [if_pos hret] at htarget ⊢
        exact ⟨_, rfl, htarget⟩
      · have hlt := h.lt_of_peek_ne hready (not_not.mp hret ▸ carriageReturn_ne_zero)
        rw [if_neg hret, nextByte_ahead h hlt] at htarget
        rw [if_neg hret]
        have hnext : (forward l₀ 3).Valid e := h.advance hlt hneed
        exact meets_markerEnd h₀ hnext hneed (Nat.le_refl 3) htarget
  · have hcrnl' : ¬(forward l₀ 2).cstate.eolType = .crnl := hcrnl
    rw [if_neg hcrnl] at htarget
    rw [if_neg hcrnl']
    exact meets_markerEnd h₀ h hneed (by omega) htarget

theorem copyReadLineText_return (eolType : EolType) (line rest : Bytes) :
    Copy.copyReadLineText eolType line (carriageReturn :: rest) = endAtReturn false eolType line rest := by
  cases rest <;> rw [Copy.copyReadLineText, if_pos rfl]

theorem copyReadLineText_newline (eolType : EolType) (line rest : Bytes) :
    Copy.copyReadLineText eolType line (newline :: rest) = endAtNewline false eolType line rest := by
  have hne : newline ≠ carriageReturn := by decide
  cases rest <;> rw [Copy.copyReadLineText, if_neg hne, if_pos rfl]

theorem copyReadLineText_plain {c : UInt8} (hret : c ≠ carriageReturn) (hnew : c ≠ newline) (hback : c ≠ backslash)
    (eolType : EolType) (line rest : Bytes) :
    Copy.copyReadLineText eolType line (c :: rest) = Copy.copyReadLineText eolType (line ++ [c]) rest := by
  cases rest with
  | nil =>
    have hnil : Copy.copyReadLineText eolType (line ++ [c]) [] = .ok ⟨line ++ [c], true, [], eolType⟩ := by
      rw [Copy.copyReadLineText]
    rw [hnil, Copy.copyReadLineText, if_neg hret, if_neg hnew]
  | cons c2 rest => rw [Copy.copyReadLineText, if_neg hret, if_neg hnew, if_neg hback]

theorem copyReadLineText_backslash (eolType : EolType) (line : Bytes) (c2 : UInt8) (rest : Bytes) :
    Copy.copyReadLineText eolType line (backslash :: c2 :: rest) =
      if c2 = dot then endOfCopy eolType line rest else Copy.copyReadLineText eolType (line ++ [backslash, c2]) rest := by
  rw [Copy.copyReadLineText, if_neg (by decide), if_neg (by decide), if_pos rfl]

theorem length_advance (h : l.Valid e) (hlt : l.inputBufPtr < l.copyBufLen) :
    l.advance.ahead.length + l.advance.inputBufPtr = l.ahead.length + l.inputBufPtr := by
  change l.advance.ahead.length + (l.inputBufPtr + 1) = _
  rw [h.ahead_eq hlt, List.length_cons]
  omega

theorem meets_processBackslash (h : l₀.Valid e) (hneed : l₀.needData = false) (hlt : l₀.inputBufPtr < l₀.copyBufLen)
    (hback : l₀.peek = backslash) (htext : opts.csvMode = false) :
    Meets e opts l₀ (scanRounds l₀) (processBackslash l₀.inputBufPtr l₀.advance) := by
  have hnext := h.advance hlt hneed
  have hline := h.line_advance hlt
  have htarget (l : LineScan) : target opts l = Copy.copyReadLineText l.cstate.eolType l.line l.ahead := by
    rw [target, htext, if_neg Bool.false_ne_true]
  have hstart := htarget l₀
  rw [h.ahead_eq hlt, hback] at hstart
  rw [hback] at hline
  rw [processBackslash]
  refine meets_ifNeedRefill h (n := 1) (by omega) fun hready => ?_
  by_cases hend : l₀.advance.copyBufLen ≤ l₀.advance.inputBufPtr ∧ l₀.advance.hitEof = true
  · have hnil := (hnext.ahead_eq_nil hend.2 hend.1).1
    rw [if_pos hend]
    refine ⟨hnext, rfl, ?_⟩
    rw [hline, hnil, hstart, hnil]
    rfl
  · have hlt' : l₀.advance.inputBufPtr < l₀.advance.copyBufLen := by
      by_contra hnot
      exact hend ⟨Nat.le_of_not_lt hnot, hready.resolve_left hnot⟩
    rw [hnext.ahead_eq hlt', copyReadLineText_backslash] at hstart
    rw [if_neg hend]
    by_cases hdot : l₀.advance.peek = dot
    · rw [if_pos hdot] at hstart ⊢
      exact meets_processMarker h (hnext.advance hlt' hneed) hneed hstart
    · rw [if_neg hdot] at hstart ⊢
      have hboth : l₀.advance.advance.line = l₀.line ++ [backslash, l₀.advance.peek] := by
        rw [hnext.line_advance hlt', hline, List.append_assoc]
        rfl
      rw [← hboth] at hstart
      have hfurther : l₀.inputBufPtr < l₀.advance.advance.inputBufPtr :=
        Nat.lt_trans (Nat.lt_succ_self _) (Nat.lt_succ_self (l₀.inputBufPtr + 1))
      refine ⟨hnext.advance hlt' hneed, rfl, (htarget _).trans hstart.symm, ?_⟩
      exact roundsLeft_lt ((length_advance hnext hlt').trans (length_advance h hlt)) rfl hfurther hlt'

theorem meets_processText (h : l₀.Valid e) (hneed : l₀.needData = false) (hlt : l₀.inputBufPtr < l₀.copyBufLen)
    (htext : opts.csvMode = false) : Meets e opts l₀ (scanRounds l₀) (processText l₀.inputBufPtr l₀.peek l₀.advance) := by
  have hnext := h.advance hlt hneed
  have hline := h.line_advance hlt
  have htarget (l : LineScan) : target opts l = Copy.copyReadLineText l.cstate.eolType l.line l.ahead := by
    rw [target, htext, if_neg Bool.false_ne_true]
  have hstart := htarget l₀
  rw [h.ahead_eq hlt] at hstart
  rw [processText]
  by_cases hret : l₀.peek = carriageReturn
  · rw [hret, copyReadLineText_return] at hstart
    rw [if_pos hret]
    exact meets_processReturn hnext hneed rfl (hret ▸ hline) hstart fun _ => meets_ifNeedRefill h (n := 1) (by omega)
  · rw [if_neg hret]
    by_cases hnew : l₀.peek = newline
    · rw [hnew, copyReadLineText_newline] at hstart
      rw [if_pos hnew]
      exact meets_processNewline hnext rfl (hnew ▸ hline) hstart
    · rw [if_neg hnew]
      by_cases hback : l₀.peek = backslash
      · rw [if_pos hback]
        exact meets_processBackslash h hneed hlt hback htext
      · rw [copyReadLineText_plain hret hnew hback, ← hline] at hstart
        rw [if_neg hback]
        refine ⟨hnext, rfl, (htarget _).trans hstart.symm, ?_⟩
        exact roundsLeft_lt (length_advance h hlt) rfl (Nat.lt_succ_self _) hlt

theorem meets_processCsv (h : l₀.Valid e) (hneed : l₀.needData = false) (hlt : l₀.inputBufPtr < l₀.copyBufLen)
    (hcsv : opts.csvMode = true) (hready : l₀.peek = carriageReturn → l₀.advance.Ready) :
    Meets e opts l₀ (scanRounds l₀) (processCsv opts l₀.inputBufPtr l₀.peek l₀.advance) := by
  have hline := h.line_advance hlt
  have htarget (l : LineScan) : target opts l =
      copyReadLineCsv opts.quotec opts.lineEscapec l.cstate.eolType l.quote l.line l.ahead := if_pos hcsv
  have hstart := htarget l₀
  rw [h.ahead_eq hlt, copyReadLineCsv] at hstart
  have hvalid : Valid e { l₀.advance with quote := l₀.quote.step opts.quotec opts.lineEscapec l₀.peek } :=
    ⟨h.fed, h.len, Nat.le_succ_of_le h.index_le, hlt, h.eof, fun htrue => absurd (hneed.symm.trans htrue) nofun⟩
  rw [processCsv]
  change Meets e opts l₀ (scanRounds l₀)
    (if l₀.peek = carriageReturn ∧ (l₀.quote.step opts.quotec opts.lineEscapec l₀.peek).inQuote = false then _
      else if l₀.peek = newline ∧ (l₀.quote.step opts.quotec opts.lineEscapec l₀.peek).inQuote = false then _ else _)
  by_cases hret : l₀.peek = carriageReturn ∧ (l₀.quote.step opts.quotec opts.lineEscapec l₀.peek).inQuote = false
  · rw [if_pos hret] at hstart ⊢
    refine meets_processReturn hvalid hneed rfl (hret.1 ▸ hline) hstart fun behind hbehind => ?_
    have hready' :
        Ready { l₀.advance with quote := l₀.quote.step opts.quotec opts.lineEscapec l₀.peek } := hready hret.1
    exact (congrArg (Meets e opts l₀ (scanRounds l₀)) (ifNeedRefill_of_ready hready')).mpr (hbehind hready')
  · rw [if_neg hret] at hstart ⊢
    by_cases hnew : l₀.peek = newline ∧ (l₀.quote.step opts.quotec opts.lineEscapec l₀.peek).inQuote = false
    · rw [if_pos hnew] at hstart ⊢
      exact meets_processNewline hvalid rfl (hnew.1 ▸ hline) hstart
    · rw [if_neg hnew, ← hline] at hstart
      rw [if_neg hnew]
      refine ⟨hvalid, rfl, (htarget _).trans hstart.symm, ?_⟩
      exact roundsLeft_lt (length_advance h hlt) rfl (Nat.lt_succ_self _) hlt

theorem meets_scanChar (h : l₀.Valid e) (hneed : l₀.needData = false) (hlt : l₀.inputBufPtr < l₀.copyBufLen) :
    Meets e opts l₀ (scanRounds l₀) (scanChar opts l₀) := by
  rw [scanChar]
  by_cases hcsv : opts.csvMode = true
  · rw [if_pos hcsv]
    by_cases hret : l₀.peek = carriageReturn
    · rw [if_pos hret]
      exact meets_ifNeedRefill h (n := 1) (by omega) fun hready => meets_processCsv h hneed hlt hcsv fun _ => hready
    · rw [if_neg hret]
      exact meets_processCsv h hneed hlt hcsv fun hret' => absurd hret' hret
  · rw [if_neg hcsv]
    exact meets_processText h hneed hlt (Bool.eq_false_iff.mpr hcsv)

theorem Meets.mono {rounds' : Nat} {o : Except ReadFailure LineStep} (h : Meets e opts l₀ rounds o) (hle : rounds ≤ rounds') :
    Meets e opts l₀ rounds' o := by
  cases o with
  | error failure => exact h
  | ok step =>
    cases step with
    | again l => exact ⟨h.1, h.2.1, h.2.2.1, Nat.lt_of_lt_of_le h.2.2.2 hle⟩
    | done result l => exact h

theorem Meets.of_loaded {o : Except ReadFailure LineStep} (h : Meets e opts l rounds o)
    (hsrc : l.cstate.copySrc = l₀.cstate.copySrc) (htarget : target opts l = target opts l₀) : Meets e opts l₀ rounds o := by
  cases o with
  | error failure =>
    obtain ⟨err, hfailure, herr⟩ := h
    exact ⟨err, hfailure, htarget.symm.trans herr⟩
  | ok step =>
    cases step with
    | again l' => exact ⟨h.1, h.2.1.trans hsrc, h.2.2.1.trans htarget, h.2.2.2⟩
    | done result l' => exact ⟨h.1, h.2.1.trans hsrc, htarget.symm.trans h.2.2⟩

theorem target_nil (h : l.ahead = []) : target opts l = .ok ⟨l.line, true, [], l.cstate.eolType⟩ := by
  rw [target, h]
  split
  · rw [copyReadLineCsv]
  · rw [Copy.copyReadLineText]

theorem meets_lineStep (h : l.Valid e) : Meets e opts l (roundsLeft l) (lineStep e opts l) := by
  rw [lineStep]
  by_cases hload : l.copyBufLen ≤ l.inputBufPtr ∨ l.needData = true
  · obtain ⟨hfed, hlineBuf, hstream, hbytes, heol, hsrc⟩ := h.refill
    have hsmall : l.refillLinebuf.cstate.inputBufBytes ≤ 3 := by
      rw [hbytes]
      rcases hload with hempty | hneed
      · omega
      · have hshort := h.need hneed
        omega
    obtain ⟨cstate, hok, hfed', hloads, hmore⟩ := copyLoadInputBuf_spec hfed hsmall
    have hvalid : (l.loaded cstate).Valid e :=
      ⟨hfed', rfl, Nat.le_refl _, hfed'.index_le, fun heof => heof, nofun⟩
    have hahead : (l.loaded cstate).ahead = l.ahead := hloads.stream.trans hstream
    have hline : (l.loaded cstate).line = l.line := by
      rw [line]
      change cstate.lineBuf ++ List.take (cstate.inputBufIndex - cstate.inputBufIndex) _ = l.line
      rw [Nat.sub_self, List.take_zero, List.append_nil, hloads.lineBuf, hlineBuf]
    have heol' : (l.loaded cstate).cstate.eolType = l.cstate.eolType := hloads.eolType.trans heol
    have hsrc' : (l.loaded cstate).cstate.copySrc = l.cstate.copySrc := hloads.copySrc.trans hsrc
    have htarget : target opts (l.loaded cstate) = target opts l := by
      rw [target, target, hahead, hline, heol']
      rfl
    rw [if_pos hload, hok]
    change Meets e opts l (roundsLeft l) (if cstate.inputBufBytes = 0 then _ else _)
    rw [hbytes] at hmore
    by_cases hnone : cstate.inputBufBytes = 0
    · have heof : cstate.inputReachedEof = true := by
        rcases hmore with hgrows | ⟨-, heof⟩
        · omega
        · exact heof
      have hnil := (hvalid.ahead_eq_nil heof (Nat.le_of_sub_eq_zero hnone)).1
      rw [if_pos hnone]
      refine ⟨hvalid, hsrc', ?_⟩
      rw [← htarget, target_nil hnil, hnil]
    · rw [if_neg hnone]
      have hlt : (l.loaded cstate).inputBufPtr < (l.loaded cstate).copyBufLen := by
        change cstate.inputBufIndex < cstate.inputBufLen
        rw [inputBufBytes] at hnone
        omega
      refine ((meets_scanChar hvalid rfl hlt).mono ?_).of_loaded hsrc' htarget
      have hle := hvalid.loaded_le
      rw [hahead] at hle
      change cstate.inputBufBytes ≤ l.ahead.length at hle
      rw [scanRounds, roundsLeft, work, work, hahead]
      change 2 * (l.ahead.length + (l.ahead.length - cstate.inputBufBytes)) + (if cstate.inputReachedEof then 0 else 1) ≤ _
      rcases hmore with hgrows | ⟨hsame, heof⟩
      · split <;> omega
      · rw [hsame, heof]
        exact Nat.le_add_right _ _
  · obtain ⟨hlt, hneed⟩ := not_or.mp hload
    have hneed' : l.needData = false := Bool.eq_false_iff.mpr hneed
    rw [if_neg hload]
    refine (meets_scanChar h hneed' (Nat.lt_of_not_le hlt)).mono ?_
    rw [scanRounds, roundsLeft, hneed']
    split <;> simp

theorem lineRounds_spec (h : l.Valid e) (hrounds : roundsLeft l < rounds) :
    (∃ err, target opts l = .error err ∧ lineRounds e opts rounds l = .error (.copy err)) ∨
      ∃ r s, target opts l = .ok r ∧ lineRounds e opts rounds l = .ok (r.done, s) ∧ s.Fed e ∧ s.lineBuf = r.line ∧
        s.stream = r.rest ∧ s.eolType = r.eolType ∧ s.copySrc = l.cstate.copySrc := by
  induction rounds generalizing l with
  | zero => exact absurd hrounds (Nat.not_lt_zero _)
  | succ rounds ih =>
    have hmeets : Meets e opts l (roundsLeft l) (lineStep e opts l) := meets_lineStep h
    rw [lineRounds]
    cases hstep : lineStep e opts l with
    | error failure =>
      rw [hstep] at hmeets
      obtain ⟨err, rfl, herr⟩ := hmeets
      exact Or.inl ⟨err, herr, rfl⟩
    | ok step =>
      rw [hstep] at hmeets
      cases step with
      | again l' =>
        obtain ⟨hvalid, hsrc, htarget, hfewer⟩ := hmeets
        have hresult := ih hvalid (by omega)
        rw [htarget, hsrc] at hresult
        exact hresult
      | done result l' =>
        obtain ⟨hvalid, hsrc, htarget⟩ := hmeets
        obtain ⟨hfed, hlineBuf, hstream, -, heol, hsrc'⟩ := hvalid.refill
        exact Or.inr ⟨_, _, htarget, rfl, hfed, hlineBuf, hstream, heol, hsrc'.trans hsrc⟩

def EndsLine (r : ReadLine) : Prop :=
  r.done = true ∨ ∃ line, r.eolType = .nl ∧ r.line = line ++ [newline] ∨ r.eolType = .cr ∧ r.line = line ++ [carriageReturn] ∨
    r.eolType = .crnl ∧ r.line = line ++ [carriageReturn, newline]

theorem endsLine_endAtReturn {isCsv : Bool} {eolType : EolType} {line rest : Bytes} {r : ReadLine}
    (h : endAtReturn isCsv eolType line rest = .ok r) : EndsLine r := by
  rw [endAtReturn_eq] at h
  split at h
  · split at h
    · obtain rfl := Except.ok.inj h
      exact Or.inr ⟨line, Or.inr (Or.inr ⟨rfl, rfl⟩)⟩
    · split at h
      · cases h
      · obtain rfl := Except.ok.inj h
        exact Or.inr ⟨line, Or.inr (Or.inl ⟨rfl, rfl⟩)⟩
  · split at h
    · cases h
    · obtain rfl := Except.ok.inj h
      exact Or.inr ⟨line, Or.inr (Or.inl ⟨rfl, rfl⟩)⟩

theorem endsLine_endAtNewline {isCsv : Bool} {eolType : EolType} {line rest : Bytes} {r : ReadLine}
    (h : endAtNewline isCsv eolType line rest = .ok r) : EndsLine r := by
  obtain rfl := endAtNewline_rest h
  exact Or.inr ⟨line, Or.inl ⟨rfl, rfl⟩⟩

theorem endsLine_endOfCopy {eolType : EolType} {line rest : Bytes} {r : ReadLine}
    (h : endOfCopy eolType line rest = .ok r) : EndsLine r := by
  rw [endOfCopy_eq] at h
  obtain ⟨behind, -, htail⟩ := bind_eq_ok.mp h
  rw [markerTail] at htail
  split at htail
  · cases htail
  · split at htail
    · cases htail
    · split at htail
      · cases htail
      · obtain rfl := Except.ok.inj htail
        exact Or.inl rfl

theorem endsLine_text {eolType : EolType} {line input : Bytes} {r : ReadLine}
    (h : Copy.copyReadLineText eolType line input = .ok r) : EndsLine r := by
  fun_induction Copy.copyReadLineText eolType line input with
  | case1 =>
    obtain rfl := Except.ok.inj h
    exact Or.inl rfl
  | case2 => exact endsLine_endAtReturn h
  | case3 => exact endsLine_endAtNewline h
  | case4 =>
    obtain rfl := Except.ok.inj h
    exact Or.inl rfl
  | case5 => exact endsLine_endAtReturn h
  | case6 => exact endsLine_endAtNewline h
  | case7 => exact endsLine_endOfCopy h
  | case8 line c2 rest hret hnew hdot ih => exact ih h
  | case9 line c c2 rest hret hnew hback ih => exact ih h

theorem endsLine_csv {quotec escapec : UInt8} {eolType : EolType} {q : QuoteState} {line input : Bytes} {r : ReadLine}
    (h : copyReadLineCsv quotec escapec eolType q line input = .ok r) : EndsLine r := by
  fun_induction copyReadLineCsv quotec escapec eolType q line input with
  | case1 =>
    obtain rfl := Except.ok.inj h
    exact Or.inl rfl
  | case2 => exact endsLine_endAtReturn h
  | case3 => exact endsLine_endAtNewline h
  | case4 q line c rest q' hret hnew ih => exact ih h

theorem strip_line {r : ReadLine} (hdone : r.done = false) :
    r.strip.line = if r.eolType = .crnl then r.line.dropLast.dropLast else r.line.dropLast := by
  obtain ⟨line, done, rest, eolType⟩ := r
  obtain rfl : done = false := hdone
  cases eolType <;> rfl

theorem stripEol_eq {r : ReadLine} (h : EndsLine r) (hline : s.lineBuf = r.line) (heol : s.eolType = r.eolType)
    (hdone : r.done = false) : stripEol s = .ok r.strip.line := by
  rcases h with htrue | ⟨line, ⟨hnl, hr⟩ | ⟨hcr, hr⟩ | ⟨hcrnl, hr⟩⟩
  · exact absurd (hdone.symm.trans htrue) nofun
  · rw [stripEol, heol, strip_line hdone, hnl, hline, hr]
    exact if_pos List.getLast?_concat
  · rw [stripEol, heol, strip_line hdone, hcr, hline, hr]
    exact if_pos List.getLast?_concat
  · have hdrop : (line ++ [carriageReturn, newline]).dropLast = line ++ [carriageReturn] := by
      rw [List.append_cons, List.dropLast_concat]
    have hlast : (line ++ [carriageReturn, newline]).getLast? = some newline := by
      rw [List.append_cons, List.getLast?_concat]
    rw [stripEol, heol, strip_line hdone, hcrnl, hline, hr]
    dsimp only
    rw [hdrop, hlast, List.getLast?_concat]
    rfl

theorem drainRounds_spec (hraw : s.rawReachedEof = true → s.chunks.flatten = []) (herror : s.inputReachedError = false)
    (hrounds : s.chunks.flatten.length < rounds) :
    ∃ s', drainRounds rounds s = .ok s' ∧ s'.Fed e ∧ s'.stream = [] ∧ s'.lineBuf = s.lineBuf ∧ s'.eolType = s.eolType ∧
      s'.copySrc = s.copySrc := by
  induction rounds generalizing s with
  | zero => exact absurd hrounds (Nat.not_lt_zero _)
  | succ rounds ih =>
    have hpos : 0 < rawBufSize := by decide
    obtain ⟨databuf, chunks, eof, heq, happend, hnil, heof⟩ := copyGetData_spec hpos hraw
    rw [drainRounds, heq]
    dsimp only
    by_cases hend : databuf = []
    · have hchunks := hnil hend
      rw [if_pos hend]
      refine ⟨_, rfl, ⟨Nat.le_refl _, Nat.le_refl _, ?_, heof, fun _ => ⟨hchunks, rfl⟩, herror⟩, hchunks, rfl, rfl, rfl⟩
      rw [hchunks]
      exact e.reader.complete_nil
    · have hsome : 0 < databuf.length := List.length_pos_iff.mpr hend
      have hlength := congrArg List.length happend
      rw [List.length_append] at hlength
      rw [if_neg hend]
      exact ih (s := { s with chunks := chunks, rawReachedEof := eof }) heof herror (by simp only; omega)

def restOf (copySrc : CopySource) (r : ReadLine) : Bytes := if copySrc = .frontend ∧ r.done = true then [] else r.rest

variable {cstate : CopyFromState}

theorem target_startLine (s : CopyFromBuffers) :
    (target cstate.opts (startLine { s with lineBuf := [] })).map ReadLine.strip = Copy.copyReadLine cstate s.eolType s.stream := by
  have hline : (startLine { s with lineBuf := [] }).line = [] := by
    rw [line]
    change [] ++ List.take (s.inputBufIndex - s.inputBufIndex) _ = []
    rw [Nat.sub_self, List.take_zero, List.append_nil]
  rw [target, hline, Copy.copyReadLine]
  rfl

theorem strip_done (r : ReadLine) :
    r.strip.done = r.done ∧ r.strip.eolType = r.eolType ∧ (r.done = true → r.strip = r) := by
  obtain ⟨line, done, rest, eolType⟩ := r
  cases done with
  | true => exact ⟨rfl, rfl, fun _ => rfl⟩
  | false => cases eolType <;> exact ⟨rfl, rfl, nofun⟩

theorem endsLine_target {r : ReadLine} (h : target opts l = .ok r) : EndsLine r := by
  rw [target] at h
  split at h
  · exact endsLine_csv h
  · exact endsLine_text h

theorem startLine_valid (h : s.Fed e) : (startLine { s with lineBuf := [] }).Valid e :=
  ⟨⟨h.index_le, h.len_le, h.complete, h.raw_eof, h.input_eof, h.no_error⟩, rfl, Nat.le_refl _, h.index_le, nofun, nofun⟩

theorem copyReadLine_spec (h : s.Fed e) :
    (∃ err, Copy.copyReadLine cstate s.eolType s.stream = .error err ∧ copyReadLine e cstate.opts s = .error (.copy err)) ∨
      ∃ r s', Copy.copyReadLine cstate s.eolType s.stream = .ok r ∧ copyReadLine e cstate.opts s = .ok (r.done, s') ∧
        s'.Fed e ∧ s'.lineBuf = r.line ∧ s'.stream = restOf s.copySrc r ∧ s'.eolType = r.eolType ∧ s'.copySrc = s.copySrc := by
  have hrounds : roundsLeft (startLine { s with lineBuf := [] }) < 4 * s.stream.length + 2 := by
    rw [roundsLeft, work]
    change 2 * (s.stream.length + (s.stream.length - (s.inputBufLen - s.inputBufIndex))) + 1 < _
    omega
  rw [← target_startLine s]
  rcases @lineRounds_spec e cstate.opts _ _ (startLine_valid h) hrounds with
    ⟨err, herr, hrun⟩ | ⟨r, s', hr, hrun, hfed, hlineBuf, hstream, heol, hsrc⟩
  · have hcall : copyReadLineText e cstate.opts { s with lineBuf := [] } = .error (.copy err) := hrun
    rw [herr, copyReadLine, hcall]
    exact Or.inl ⟨err, rfl, rfl⟩
  · have hcall : copyReadLineText e cstate.opts { s with lineBuf := [] } = .ok (r.done, s') := hrun
    obtain ⟨hdone, heol', hsame⟩ := strip_done r
    rw [hr, copyReadLine, hcall, ok_bind]
    refine Or.inr ⟨r.strip, ?_⟩
    rw [hdone, heol', restOf, hdone, strip_rest]
    cases hres : r.done with
    | true =>
      rw [hsame hres]
      by_cases hclient : s'.copySrc = .frontend
      · obtain ⟨s'', hdrain, hfed', hnone, hlineBuf', heol'', hsrc'⟩ :=
          drainRounds_spec (e := e) hfed.raw_eof hfed.no_error (Nat.lt_succ_self _)
        refine ⟨s'', congrArg Except.ok (hsame hres), ?_, hfed', hlineBuf'.trans hlineBuf, ?_, heol''.trans heol,
          hsrc'.trans hsrc⟩
        · dsimp only
          rw [if_pos rfl, if_pos hclient, hdrain]
          rfl
        · rw [hnone, if_pos ⟨hsrc ▸ hclient, rfl⟩]
      · refine ⟨s', congrArg Except.ok (hsame hres), ?_, hfed, hlineBuf, ?_, heol, hsrc⟩
        · dsimp only
          rw [if_pos rfl, if_neg hclient]
          rfl
        · rw [if_neg fun hboth => hclient (hsrc.trans hboth.1)]
          exact hstream
    | false =>
      have hstrip := stripEol_eq (endsLine_target hr) hlineBuf heol hres
      refine ⟨{ s' with lineBuf := r.strip.line }, rfl, ?_,
        ⟨hfed.index_le, hfed.len_le, hfed.complete, hfed.raw_eof, hfed.input_eof, hfed.no_error⟩, rfl, ?_, heol, hsrc⟩
      · dsimp only
        rw [if_neg Bool.false_ne_true, hstrip]
        rfl
      · rw [if_neg fun hboth => Bool.false_ne_true hboth.2]
        exact hstream

def readLines (e : ServerEncoding) (opts : CopyFormatOptions) : Nat → CopyFromBuffers → List (Except ReadFailure (Bytes × Bool))
  | 0, _ => []
  | n + 1, s =>
    match copyReadLine e opts s with
    | .error failure => [.error failure]
    | .ok (result, s) => .ok (s.lineBuf, result) :: readLines e opts n s

def linesAtOnce (cstate : CopyFromState) (copySrc : CopySource) :
    Nat → EolType → Bytes → List (Except ReadFailure (Bytes × Bool))
  | 0, _, _ => []
  | n + 1, eolType, input =>
    match Copy.copyReadLine cstate eolType input with
    | .error err => [.error (.copy err)]
    | .ok r => .ok (r.line, r.done) :: linesAtOnce cstate copySrc n r.eolType (restOf copySrc r)

theorem readLines_of_fed (n : Nat) (h : s.Fed e) :
    readLines e cstate.opts n s = linesAtOnce cstate s.copySrc n s.eolType s.stream := by
  induction n generalizing s with
  | zero => rfl
  | succ n ih =>
    rcases @copyReadLine_spec e s cstate h with
      ⟨err, herr, hcall⟩ | ⟨r, s', hr, hcall, hfed, hlineBuf, hstream, heol, hsrc⟩
    · rw [readLines, linesAtOnce, hcall, herr]
    · rw [readLines, linesAtOnce, hcall, hr]
      dsimp only
      rw [ih hfed, hlineBuf, hstream, heol, hsrc]

theorem fed_beginCopyFrom {copySrc : CopySource} {chunks : List Bytes} (h : e.reader.Complete chunks.flatten) :
    (beginCopyFrom copySrc chunks).Fed e :=
  ⟨Nat.le_refl _, Nat.le_refl _, h, nofun, nofun, rfl⟩

/-- However valid data is cut into chunks, successive calls return the lines of the whole data, the same
end of it and the same error, if there is one. -/
theorem readLines_eq_linesAtOnce (e : ServerEncoding) (cstate : CopyFromState) (copySrc : CopySource) (chunks : List Bytes)
    (hvalid : pgEncodingVerifymbstr e chunks.flatten = chunks.flatten.length) (n : Nat) :
    readLines e cstate.opts n (beginCopyFrom copySrc chunks) = linesAtOnce cstate copySrc n .unknown chunks.flatten :=
  readLines_of_fed n (fed_beginCopyFrom hvalid)

def oneTextColumn : CopyFromState where
  opts := ⟨false, .lit ['\t'], .lit ['\\', 'N'], none, none, none⟩
  attnumlist := [1]
  defexprs := fun _ => false
  verify := fun _ => true

/-- A character, a line end and the end-of-copy marker are cut. -/
theorem readLines_cut : readLines .utf8 oneTextColumn.opts 2
        (beginCopyFrom .frontend [[0xc3], [0xa9, carriageReturn], [newline, backslash], [dot, carriageReturn], [newline]]) =
      [.ok ([0xc3, 0xa9], false), .ok ([], true)] := by
  have hvalid : pgEncodingVerifymbstr .utf8
      [[0xc3], [0xa9, carriageReturn], [newline, backslash], [dot, carriageReturn], [newline]].flatten = 8 := by
    decide +kernel
  have hlines : linesAtOnce oneTextColumn .frontend 2 .unknown
      [0xc3, 0xa9, carriageReturn, newline, backslash, dot, carriageReturn, newline] =
        [.ok ([0xc3, 0xa9], false), .ok ([], true)] := by
    decide +kernel
  exact (readLines_eq_linesAtOnce .utf8 oneTextColumn .frontend _ hvalid 2).trans hlines

end CdcKafka.Copy.Buffered
