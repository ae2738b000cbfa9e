import CdcKafka.Copy.Text

/-! What `CopyAttributeOutCSV` writes is passed over by the line reader of CSV mode, and resolved by its
field reader, unless the quote is a line ending. -/

namespace CdcKafka.Copy

open CdcKafka.Lib

variable {cstate : CopyFromState} {opts : CopyFormatOptions} {quotec escapec c : UInt8}

theorem step_outside (hc : c ≠ quotec) : QuoteState.step quotec escapec ⟨false, false⟩ c = ⟨false, false⟩ := by
  simp [QuoteState.step, hc]

theorem step_opens (hne : escapec ≠ quotec) : QuoteState.step quotec escapec ⟨false, false⟩ quotec = ⟨true, false⟩ := by
  simp [QuoteState.step, hne.symm]

theorem step_inside (hc : c ≠ quotec) (hesc : c ≠ escapec) (w : Bool) :
    QuoteState.step quotec escapec ⟨true, w⟩ c = ⟨true, false⟩ := by
  simp [QuoteState.step, hc, hesc]

theorem step_escape (hne : escapec ≠ quotec) : QuoteState.step quotec escapec ⟨true, false⟩ escapec = ⟨true, true⟩ := by
  simp [QuoteState.step, hne]

theorem step_escaped (hne : escapec ≠ quotec) (hc : c = quotec ∨ c = escapec) :
    QuoteState.step quotec escapec ⟨true, true⟩ c = ⟨true, false⟩ := by
  rcases hc with rfl | rfl
  · simp [QuoteState.step, hne.symm]
  · simp [QuoteState.step, hne]

theorem step_closes (hne : escapec ≠ quotec) :
    QuoteState.step quotec escapec ⟨true, false⟩ quotec = ⟨false, false⟩ := by
  simp [QuoteState.step, hne.symm]

theorem copyReadLineCsv_step {q q' : QuoteState} (hstep : q.step quotec escapec c = q')
    (hstay : q'.inQuote = true ∨ c ≠ carriageReturn ∧ c ≠ newline) (eolType : EolType) (line tail : Bytes) :
    copyReadLineCsv quotec escapec eolType q line (c :: tail) =
      copyReadLineCsv quotec escapec eolType q' (line ++ [c]) tail := by
  have hret : ¬(c = carriageReturn ∧ q'.inQuote = false) := by
    rintro ⟨hc, hout⟩
    rcases hstay with hin | ⟨hne, -⟩
    · rw [hin] at hout
      cases hout
    · exact hne hc
  have hnew : ¬(c = newline ∧ q'.inQuote = false) := by
    rintro ⟨hc, hout⟩
    rcases hstay with hin | ⟨-, hne⟩
    · rw [hin] at hout
      cases hout
    · exact hne hc
  rw [copyReadLineCsv, hstep, if_neg hret, if_neg hnew]

def Plain (quotec : UInt8) (b : Bytes) : Prop := ∀ c ∈ b, c ≠ quotec ∧ c ≠ carriageReturn ∧ c ≠ newline

theorem copyReadLineCsv_plain {b : Bytes} (hb : Plain quotec b) (eolType : EolType) (line tail : Bytes) :
    copyReadLineCsv quotec escapec eolType ⟨false, false⟩ line (b ++ tail) =
      copyReadLineCsv quotec escapec eolType ⟨false, false⟩ (line ++ b) tail := by
  induction b generalizing line with
  | nil => rw [List.nil_append, List.append_nil]
  | cons c b ih =>
    obtain ⟨hquote, hline⟩ := hb c List.mem_cons_self
    rw [List.cons_append, copyReadLineCsv_step (step_outside hquote) (.inr hline),
      ih fun d hd => hb d (List.mem_cons_of_mem c hd), List.append_assoc, List.singleton_append]

theorem lineEscapec_ne (h : opts.Admitted) (hcsv : opts.csvMode = true) : opts.lineEscapec ≠ opts.quotec := by
  rw [CopyFormatOptions.lineEscapec]
  split
  · exact (quotec_ne_zero h hcsv).symm
  · next hne => exact fun heq => hne heq.symm

theorem lineEscapec_of_ne (hne : opts.quotec ≠ opts.escapec) : opts.lineEscapec = opts.escapec := if_neg hne

theorem ne_lineEscapec (hc : c ≠ 0) (hesc : c ≠ opts.escapec) : c ≠ opts.lineEscapec := by
  rw [CopyFormatOptions.lineEscapec]
  split
  · exact hc
  · exact hesc

theorem copyReadLineCsv_quoted (h : opts.Admitted) (hcsv : opts.csvMode = true)
    (hline : opts.quotec ≠ carriageReturn ∧ opts.quotec ≠ newline) {string : Bytes} (hnul : ∀ c ∈ string, c ≠ 0)
    (eolType : EolType) (line tail : Bytes) :
    copyReadLineCsv opts.quotec opts.lineEscapec eolType ⟨true, false⟩ line
        (string.flatMap (outQuotedChar opts) ++ tail) =
      copyReadLineCsv opts.quotec opts.lineEscapec eolType ⟨true, false⟩
        (line ++ string.flatMap (outQuotedChar opts)) tail := by
  have hne := lineEscapec_ne h hcsv
  induction string generalizing line with
  | nil => rw [List.flatMap_nil, List.nil_append, List.append_nil]
  | cons c string ih =>
    have hrest := ih fun d hd => hnul d (List.mem_cons_of_mem c hd)
    rw [List.flatMap_cons, List.append_assoc, ← List.append_assoc line, ← hrest, outQuotedChar]
    by_cases hspecial : c = opts.quotec ∨ c = opts.escapec
    · rw [if_pos hspecial, List.cons_append, List.cons_append, List.nil_append]
      have happend : ∀ l : Bytes, l ++ [opts.escapec] ++ [c] = l ++ [opts.escapec, c] := fun l => by
        rw [List.append_assoc, List.singleton_append]
      by_cases hsame : opts.quotec = opts.escapec
      · -- a quote that is doubled closes and opens
        have hc : c = opts.quotec := hspecial.elim id fun hesc => hesc.trans hsame.symm
        rw [← happend, ← hsame, hc, copyReadLineCsv_step (step_closes hne) (.inr hline),
          copyReadLineCsv_step (step_opens hne) (.inl rfl)]
      · have hesc := lineEscapec_of_ne hsame
        rw [← happend]
        rw [hesc] at hne ⊢
        rw [copyReadLineCsv_step (step_escape hne) (.inl rfl),
          copyReadLineCsv_step (step_escaped hne hspecial) (.inl rfl)]
    · obtain ⟨hquote, hesc⟩ := not_or.1 hspecial
      have hc := ne_lineEscapec (hnul c List.mem_cons_self) hesc
      rw [if_neg hspecial, List.cons_append, List.nil_append,
        copyReadLineCsv_step (step_inside hquote hc false) (.inl rfl)]

theorem map_push {s : FieldScan} {raw raw' out out' : Bytes} {saw saw' : Bool} {x : Except CopyError FieldScan}
    (hx : x = .ok (s.push raw' out' saw')) :
    x.map (·.push raw out saw) = .ok (s.push (raw ++ raw') (out ++ out') (saw || saw')) := by
  rw [hx]
  simp only [Except.map, FieldScan.push, List.append_assoc, Bool.or_assoc]

theorem scanCsv_ends {tail : Bytes} {rest : Option Bytes} (h : Ends cstate tail rest) :
    scanCsv cstate.opts.delimc cstate.opts.quotec cstate.opts.escapec false tail = .ok ⟨[], [], false, rest⟩ := by
  rcases h with ⟨rfl, rfl⟩ | ⟨t, rfl, rfl⟩
  · rw [scanCsv]
  · rw [scanCsv, if_pos rfl]

theorem scanCsv_plain {delimc : UInt8} {b tail : Bytes} {s : FieldScan} (hb : ∀ c ∈ b, c ≠ delimc ∧ c ≠ quotec)
    (htail : scanCsv delimc quotec escapec false tail = .ok s) :
    scanCsv delimc quotec escapec false (b ++ tail) = .ok (s.push b b false) := by
  induction b with
  | nil => exact htail
  | cons c b ih =>
    obtain ⟨hdelim, hquote⟩ := hb c List.mem_cons_self
    have hrest := ih fun d hd => hb d (List.mem_cons_of_mem c hd)
    rw [List.cons_append, scanCsv, if_neg hdelim, if_neg hquote]
    exact map_push hrest

theorem scanCsv_quoted (opts : CopyFormatOptions) {string tail : Bytes} {s : FieldScan}
    (htail : scanCsv opts.delimc opts.quotec opts.escapec false tail = .ok s) (hhead : ∀ t, tail ≠ opts.quotec :: t)
    (hend : tail = [] → s = ⟨[], [], false, none⟩) :
    scanCsv opts.delimc opts.quotec opts.escapec true (string.flatMap (outQuotedChar opts) ++ opts.quotec :: tail) =
      .ok (s.push (string.flatMap (outQuotedChar opts) ++ [opts.quotec]) string false) := by
  induction string with
  | nil =>
    rw [List.flatMap_nil, List.nil_append, List.nil_append]
    cases tail with
    | nil =>
      rw [hend rfl, scanCsv, if_pos rfl]
      rfl
    | cons d tail =>
      have hopen : ¬(opts.quotec = opts.escapec ∧ (d = opts.escapec ∨ d = opts.quotec)) := by
        rintro ⟨hsame, hd⟩
        have hd' : d = opts.quotec := hd.elim (fun he => he.trans hsame.symm) id
        exact hhead tail (by rw [hd'])
      rw [scanCsv, if_neg hopen, if_pos rfl, htail]
      rfl
  | cons c string ih =>
    rw [List.flatMap_cons, List.append_assoc]
    obtain ⟨d, b, hb⟩ : ∃ d b, string.flatMap (outQuotedChar opts) ++ opts.quotec :: tail = d :: b := by
      cases hlist : string.flatMap (outQuotedChar opts) with
      | nil => exact ⟨_, _, rfl⟩
      | cons d b => exact ⟨d, _, rfl⟩
    rw [outQuotedChar]
    by_cases hspecial : c = opts.quotec ∨ c = opts.escapec
    · rw [if_pos hspecial, List.cons_append, List.cons_append, List.nil_append, scanCsv, if_pos ⟨rfl, hspecial.symm⟩]
      exact map_push ih
    · obtain ⟨hquote, hesc⟩ := not_or.1 hspecial
      rw [if_neg hspecial, List.cons_append, List.nil_append]
      rw [hb] at ih ⊢
      rw [scanCsv, if_neg (fun hand => hesc hand.1), if_neg hquote]
      exact map_push ih

theorem usesQuote_eq_false {singleAttr useQuote : Bool} {string : Bytes}
    (h : usesQuote opts singleAttr useQuote string = false) :
    string ≠ opts.nullPrint.bytes ∧ Plain opts.quotec string ∧ ∀ c ∈ string, c ≠ opts.delimc ∧ c ≠ opts.quotec := by
  simp only [usesQuote, Bool.or_eq_false_iff, List.any_eq_false, beq_eq_false_iff_ne, ne_eq] at h
  obtain ⟨⟨⟨-, hnull⟩, -⟩, hany⟩ := h
  have hchars : ∀ c ∈ string, c ≠ opts.delimc ∧ c ≠ opts.quotec ∧ c ≠ newline ∧ c ≠ carriageReturn := by
    intro c hc
    have hall := hany c hc
    simpa [and_assoc] using hall
  exact ⟨hnull, fun c hc => ⟨(hchars c hc).2.1, (hchars c hc).2.2.2, (hchars c hc).2.2.1⟩,
    fun c hc => ⟨(hchars c hc).1, (hchars c hc).2.1⟩⟩

theorem plain_nullPrint (h : opts.Admitted) (hcsv : opts.csvMode = true) : Plain opts.quotec opts.nullPrint.bytes := by
  intro c hc
  refine ⟨?_, ?_, ?_⟩
  · rintro rfl
    exact h.nullQuote hcsv hc
  · rintro rfl
    exact h.nullReturn hc
  · rintro rfl
    exact h.nullNewline hc

def CopyToState.quotes (dest : CopyToState) (attnum : Nat) : Option CStr → Bool
  | none => false
  | some string => usesQuote dest.opts dest.singleAttr (dest.forceQuoteFlags attnum) string.bytes

theorem passes_csv (h : cstate.opts.Admitted) (hcsv : cstate.opts.csvMode = true) (dest : CopyToState)
    (hopts : dest.opts = cstate.opts) (attnum : Nat) (column : Option CStr)
    (hquotes : dest.quotes attnum column = true → cstate.opts.quotec ≠ carriageReturn ∧ cstate.opts.quotec ≠ newline) :
    Passes cstate (dest.column attnum column) (fieldOf column) := by
  have hne := lineEscapec_ne h hcsv
  -- what is written as it is
  have hplain {b : Bytes} {field : RawField} (hb : Plain cstate.opts.quotec b)
      (hdelim : ∀ c ∈ b, c ≠ cstate.opts.delimc ∧ c ≠ cstate.opts.quotec)
      (hfield : ∀ fieldno rest, finishField cstate fieldno ⟨b, b, false, rest⟩ = .ok field) :
      Passes cstate b field := by
    refine ⟨fun eolType line tail => ?_, fun fieldno tail rest hends => ?_⟩
    · simp only [lineLoop, hcsv, if_true]
      exact copyReadLineCsv_plain hb eolType line tail
    · have hscan := scanCsv_plain hdelim (scanCsv_ends hends)
      simp only [FieldScan.push, List.append_nil, Bool.or_false] at hscan
      exact ⟨_, by rw [scanField, if_pos hcsv, hscan], hfield fieldno rest, rfl⟩
  cases column with
  | none =>
    have hout : dest.column attnum none = cstate.opts.nullPrint.bytes := by
      rw [← hopts]
      rfl
    rw [hout]
    refine hplain (plain_nullPrint h hcsv) (fun c hc => ⟨?_, ?_⟩) fun fieldno rest => finishField_null fieldno rfl rfl
    · rintro rfl
      exact h.nullDelim hc
    · rintro rfl
      exact h.nullQuote hcsv hc
  | some string =>
    have hout : dest.column attnum (some string) =
        copyAttributeOutCSV cstate.opts dest.singleAttr (dest.forceQuoteFlags attnum) string.bytes := by
      rw [CopyToState.column, hopts, if_pos hcsv]
    rw [hout, copyAttributeOutCSV]
    cases huse : usesQuote cstate.opts dest.singleAttr (dest.forceQuoteFlags attnum) string.bytes with
    | false =>
      obtain ⟨hnull, hb, hdelim⟩ := usesQuote_eq_false huse
      exact hplain hb hdelim fun fieldno rest => finishField_value h fieldno (.inl hcsv) (.inr hnull)
    | true =>
      have hline : cstate.opts.quotec ≠ carriageReturn ∧ cstate.opts.quotec ≠ newline := by
        refine hquotes ?_
        rw [CopyToState.quotes, hopts]
        exact huse
      rw [if_pos rfl]
      refine ⟨fun eolType line tail => ?_, fun fieldno tail rest hends => ?_⟩
      · simp only [lineLoop, hcsv, if_true]
        rw [List.append_assoc, List.cons_append, copyReadLineCsv_step (step_opens hne) (.inl rfl),
          copyReadLineCsv_quoted h hcsv hline string.nonzero, List.singleton_append,
          copyReadLineCsv_step (step_closes hne) (.inr hline)]
        simp only [List.append_assoc, List.cons_append, List.nil_append]
      · have hhead : ∀ t, tail ≠ cstate.opts.quotec :: t := by
          rintro t rfl
          rcases hends with ⟨hnil, -⟩ | ⟨t', heq, -⟩
          · cases hnil
          · injection heq with hdelim
            exact h.quoteDelim hcsv hdelim.symm
        have hend : tail = [] → (⟨[], [], false, rest⟩ : FieldScan) = ⟨[], [], false, none⟩ := by
          rintro rfl
          rcases hends with ⟨-, rfl⟩ | ⟨t', heq, -⟩
          · rfl
          · cases heq
        have hinside : scanCsv cstate.opts.delimc cstate.opts.quotec cstate.opts.escapec true
            (string.bytes.flatMap (outQuotedChar cstate.opts) ++ cstate.opts.quotec :: tail) = _ :=
          scanCsv_quoted cstate.opts (scanCsv_ends hends) hhead hend
        have hscan : scanCsv cstate.opts.delimc cstate.opts.quotec cstate.opts.escapec false
            (cstate.opts.quotec :: string.bytes.flatMap (outQuotedChar cstate.opts) ++ [cstate.opts.quotec] ++ tail) =
              .ok ⟨cstate.opts.quotec :: string.bytes.flatMap (outQuotedChar cstate.opts) ++ [cstate.opts.quotec],
                string.bytes, true, rest⟩ := by
          rw [List.append_assoc, List.cons_append, List.singleton_append, scanCsv,
            if_neg (Ne.symm (h.quoteDelim hcsv)), if_pos rfl, map_push hinside]
          simp only [FieldScan.push, List.append_nil, Bool.or_false, List.nil_append, List.cons_append]
        refine ⟨_, by rw [scanField, if_pos hcsv, hscan], ?_, rfl⟩
        exact finishField_value h fieldno (.inl hcsv) (.inl (by rw [hcsv]; rfl))

theorem separates_csv (h : cstate.opts.Admitted) (hcsv : cstate.opts.csvMode = true)
    (hquote : cstate.opts.quotec ≠ newline) : Separates cstate where
  delim := by
    intro eolType line tail
    have hdelim : QuoteState.step cstate.opts.quotec cstate.opts.lineEscapec ⟨false, false⟩ cstate.opts.delimc =
        ⟨false, false⟩ := step_outside (h.quoteDelim hcsv)
    simp only [lineLoop, hcsv, if_true]
    exact copyReadLineCsv_step hdelim (.inr ⟨h.delimReturn, h.delimNewline⟩) eolType line tail
  newline := by
    intro eolType line tail heol
    have hend : endAtNewline true eolType line tail = .ok ⟨line ++ [newline], false, tail, .nl⟩ := by
      rcases heol with rfl | rfl <;> rfl
    simp only [lineLoop, hcsv, if_true]
    rw [copyReadLineCsv, step_outside hquote.symm, if_neg (fun hand => absurd hand.1 (by decide)), if_pos ⟨rfl, rfl⟩]
    exact hend

end CdcKafka.Copy
