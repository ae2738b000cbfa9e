import CdcKafka.Copy.Csv

/-! COPY TO followed by COPY FROM, with the line endings that option checking admits as quotes. -/

namespace CdcKafka.Copy

open CdcKafka.Lib

variable {cstate : CopyFromState} {dest : CopyToState} {opts : CopyFormatOptions} {quotec escapec delimc : UInt8}
  {eolType : EolType} {slot : Nat → Option CStr}

def staysInQuote (quotec escapec : UInt8) : Bool → Bytes → Bool
  | _, [] => true
  | w, c :: b =>
    let q := QuoteState.step quotec escapec ⟨true, w⟩ c
    q.inQuote && staysInQuote quotec escapec q.lastWasEsc b

theorem staysInQuote_cons {w : Bool} {c : UInt8} {b : Bytes} (h : staysInQuote quotec escapec w (c :: b) = true) :
    (QuoteState.step quotec escapec ⟨true, w⟩ c).inQuote = true ∧
      staysInQuote quotec escapec (QuoteState.step quotec escapec ⟨true, w⟩ c).lastWasEsc b = true := by
  rw [staysInQuote, Bool.and_eq_true] at h
  exact h

theorem scanCsv_staysInQuote (h : opts.Admitted) (hcsv : opts.csvMode = true) {b : Bytes} (hnul : ∀ c ∈ b, c ≠ 0)
    (hstay : staysInQuote opts.quotec opts.lineEscapec false b = true) :
    scanCsv opts.delimc opts.quotec opts.escapec true b = .error .unterminatedQuote := by
  have hne := lineEscapec_ne h hcsv
  have hopen {c : UInt8} {b : Bytes} (hb : staysInQuote opts.quotec opts.lineEscapec false (c :: b) = true) :
      c ≠ opts.quotec := by
    rintro rfl
    have hin := (staysInQuote_cons hb).1
    rw [step_closes hne] at hin
    cases hin
  induction hlen : b.length using Nat.strongRecOn generalizing b with
  | ind n ih =>
    match b with
    | [] => rw [scanCsv]
    | [c] => rw [scanCsv, if_neg (hopen hstay)]
    | c :: d :: b =>
      have hquote := hopen hstay
      have hcnul : c ≠ 0 := hnul c List.mem_cons_self
      have hdnul : ∀ e ∈ d :: b, e ≠ 0 := fun e he => hnul e (List.mem_cons_of_mem c he)
      have hmore := (staysInQuote_cons hstay).2
      rw [scanCsv]
      by_cases hesc : c = opts.escapec
      · -- an escape that is no quote is one for the line reader as well
        have hline : opts.lineEscapec = opts.escapec := lineEscapec_of_ne fun hsame => hquote (hesc.trans hsame.symm)
        rw [hline] at hstay hmore hne
        rw [hesc, step_escape hne] at hmore
        by_cases hd : d = opts.escapec ∨ d = opts.quotec
        · have hrest := (staysInQuote_cons hmore).2
          rw [step_escaped hne hd.symm, ← hline] at hrest
          rw [if_pos ⟨hesc, hd⟩, ih b.length (by rw [← hlen, List.length_cons, List.length_cons]; omega) (fun e he =>
            hdnul e (List.mem_cons_of_mem d he)) hrest rfl]
          rfl
        · obtain ⟨hdesc, hdquote⟩ := not_or.1 hd
          have hrest : staysInQuote opts.quotec opts.lineEscapec false (d :: b) = true := by
            rw [hline]
            rw [staysInQuote, step_inside hdquote hdesc] at hmore ⊢
            exact hmore
          rw [if_neg (fun hand => hd hand.2), if_neg hquote, ih (d :: b).length (by rw [← hlen]; simp) hdnul hrest rfl]
          rfl
      · rw [step_inside hquote (ne_lineEscapec hcnul hesc)] at hmore
        rw [if_neg (fun hand => hesc hand.1), if_neg hquote, ih (d :: b).length (by rw [← hlen]; simp) hdnul hmore rfl]
        rfl

theorem readFields_open (h : cstate.opts.Admitted) (hcsv : cstate.opts.csvMode = true) {pre body : Bytes}
    (hpre : Plain cstate.opts.quotec pre) (hnul : ∀ c ∈ body, c ≠ 0)
    (hstay : staysInQuote cstate.opts.quotec cstate.opts.lineEscapec false body = true) (fieldno : Nat)
    (fields : List RawField) : readFields cstate fieldno (pre ++ cstate.opts.quotec :: body) ≠ .ok fields := by
  have hbody := scanCsv_staysInQuote h hcsv hnul hstay
  -- a field ends at a delimiter in front of the quote or not at all
  have hscan : ∀ pre, Plain cstate.opts.quotec pre →
      scanField cstate (pre ++ cstate.opts.quotec :: body) = .error .unterminatedQuote ∨
        ∃ s pre', scanField cstate (pre ++ cstate.opts.quotec :: body) = .ok s ∧
          s.rest = some (pre' ++ cstate.opts.quotec :: body) ∧ pre'.length < pre.length ∧
          Plain cstate.opts.quotec pre' := by
    intro pre hpre
    rw [scanField, if_pos hcsv]
    induction pre with
    | nil =>
      left
      rw [List.nil_append, scanCsv, if_neg (Ne.symm (h.quoteDelim hcsv)), if_pos rfl, hbody]
      rfl
    | cons c pre ih =>
      have hbehind : Plain cstate.opts.quotec pre := fun d hd => hpre d (List.mem_cons_of_mem c hd)
      rw [List.cons_append, scanCsv]
      by_cases hdelim : c = cstate.opts.delimc
      · rw [if_pos hdelim]
        exact .inr ⟨_, pre, rfl, rfl, Nat.lt_succ_self _, hbehind⟩
      · rw [if_neg hdelim, if_neg (hpre c List.mem_cons_self).1]
        rcases ih hbehind with herr | ⟨s, pre', hs, hrest, hlt, hplain⟩
        · rw [herr]
          exact .inl rfl
        · rw [hs]
          exact .inr ⟨_, pre', rfl, hrest, Nat.lt_succ_of_lt hlt, hplain⟩
  induction hlen : pre.length using Nat.strongRecOn generalizing pre fieldno fields with
  | ind n ih =>
    intro hok
    rcases hscan pre hpre with herr | ⟨s, pre', hs, hrest, hlt, hplain⟩
    · rw [readFields] at hok
      split at hok
      · cases hok
      · next s hs =>
        rw [herr] at hs
        cases hs
    · cases hfield : finishField cstate fieldno s with
      | error err =>
        rw [readFields] at hok
        split at hok
        · cases hok
        · next s' hs' =>
          obtain rfl : s = s' := Except.ok.inj (hs.symm.trans hs')
          rw [hfield] at hok
          cases hok
      | ok field =>
        rw [readFields_more hs hfield hrest] at hok
        cases hmore : readFields cstate (fieldno + 1) (pre' ++ cstate.opts.quotec :: body) with
        | error err =>
          rw [hmore] at hok
          cases hok
        | ok fields' => exact ih pre'.length (by omega) hplain (fieldno + 1) fields' rfl hmore

theorem endAtReturn_strip {isCsv : Bool} {line rest : Bytes} {r : ReadLine}
    (h : endAtReturn isCsv eolType line rest = .ok r) : r.strip.line = line := by
  rw [endAtReturn.eq_def] at h
  have hone : ∀ rest, (ReadLine.mk (line ++ [carriageReturn]) false rest .cr).strip.line = line := fun rest => by
    simp [ReadLine.strip]
  have htwo : ∀ rest, (ReadLine.mk (line ++ [carriageReturn, newline]) false rest .crnl).strip.line = line := by
    intro rest
    have hdrop : line ++ [carriageReturn, newline] = line ++ [carriageReturn] ++ [newline] := by
      rw [List.append_assoc]
      rfl
    simp only [ReadLine.strip, hdrop, Bool.false_eq_true, if_false, List.dropLast_concat]
  split at h
  · cases h
  · obtain rfl := Except.ok.inj h
    exact hone _
  · split at h
    · obtain rfl := Except.ok.inj h
      exact htwo _
    · obtain rfl := Except.ok.inj h
      exact hone _
  · obtain rfl := Except.ok.inj h
    exact hone _
  · split at h
    · obtain rfl := Except.ok.inj h
      exact htwo _
    · cases h
  · cases h

theorem copyReadLineCsv_open (hline : quotec = newline ∨ quotec = carriageReturn) {w : Bool} {line post : Bytes}
    {r : ReadLine} (h : copyReadLineCsv quotec escapec eolType ⟨true, w⟩ line post = .ok r) :
    ∃ body, r.strip.line = line ++ body ∧ staysInQuote quotec escapec w body = true ∧ ∀ c ∈ body, c ∈ post := by
  induction post generalizing w line with
  | nil =>
    obtain rfl := Except.ok.inj h
    exact ⟨[], by simp [ReadLine.strip], rfl, fun c hc => hc⟩
  | cons c post ih =>
    rw [copyReadLineCsv] at h
    cases hin : (QuoteState.step quotec escapec ⟨true, w⟩ c).inQuote with
    | true =>
      obtain ⟨w', hstep⟩ : ∃ w', QuoteState.step quotec escapec ⟨true, w⟩ c = ⟨true, w'⟩ := by
        generalize QuoteState.step quotec escapec ⟨true, w⟩ c = q at hin ⊢
        obtain ⟨inQuote, w'⟩ := q
        exact ⟨w', congrArg (QuoteState.mk · w') hin⟩
      rw [hstep, if_neg (by simp), if_neg (by simp)] at h
      obtain ⟨body, hbody, hstay, hmem⟩ := ih h
      refine ⟨c :: body, ?_, ?_, ?_⟩
      · rw [hbody, List.append_assoc, List.singleton_append]
      · rw [staysInQuote, hstep]
        exact hstay
      · intro d hd
        rcases List.mem_cons.1 hd with rfl | hd
        · exact List.mem_cons_self
        · exact List.mem_cons_of_mem c (hmem d hd)
    | false =>
      -- the quote was closed by a quote
      have hc : c = quotec := by
        by_contra hne
        have hsame : (QuoteState.step quotec escapec ⟨true, w⟩ c).inQuote = true := by
          simp [QuoteState.step, hne]
        rw [hin] at hsame
        cases hsame
      rw [hin] at h
      refine ⟨[], ?_, rfl, fun d hd => by cases hd⟩
      rw [List.append_nil]
      rcases hline with hnew | hret
      · rw [if_neg (by rw [hc, hnew]; decide), if_pos ⟨hc.trans hnew, rfl⟩] at h
        obtain rfl := endAtNewline_rest h
        simp [ReadLine.strip]
      · rw [if_pos ⟨hc.trans hret, rfl⟩] at h
        exact endAtReturn_strip h

theorem nextCopyFromRawFields_open (h : cstate.opts.Admitted) (hcsv : cstate.opts.csvMode = true)
    (hline : cstate.opts.quotec = newline ∨ cstate.opts.quotec = carriageReturn) {pre post : Bytes}
    (hpre : Plain cstate.opts.quotec pre) (hnul : ∀ c ∈ post, c ≠ 0)
    {next : Option (List RawField × EolType × Bytes)} :
    nextCopyFromRawFields cstate eolType (pre ++ cstate.opts.quotec :: post) ≠ .ok next := by
  intro hok
  rw [nextCopyFromRawFields] at hok
  obtain ⟨r, hr, hnext⟩ := bind_eq_ok.1 hok
  have hloop : (copyReadLineCsv cstate.opts.quotec cstate.opts.lineEscapec eolType ⟨true, false⟩
      (pre ++ [cstate.opts.quotec]) post).map ReadLine.strip = .ok r := by
    rw [copyReadLine, if_pos hcsv, copyReadLineCsv_plain hpre, List.nil_append,
      copyReadLineCsv_step (step_opens (lineEscapec_ne h hcsv)) (.inl rfl)] at hr
    exact hr
  obtain ⟨r', hr', hstrip⟩ : ∃ r', copyReadLineCsv cstate.opts.quotec cstate.opts.lineEscapec eolType ⟨true, false⟩
      (pre ++ [cstate.opts.quotec]) post = .ok r' ∧ r'.strip = r := by
    cases hread : copyReadLineCsv cstate.opts.quotec cstate.opts.lineEscapec eolType ⟨true, false⟩
        (pre ++ [cstate.opts.quotec]) post with
    | error err =>
      rw [hread] at hloop
      cases hloop
    | ok r' =>
      rw [hread] at hloop
      exact ⟨r', rfl, Except.ok.inj hloop⟩
  obtain ⟨body, hbody, hstay, hmem⟩ := copyReadLineCsv_open hline hr'
  rw [hstrip, List.append_assoc, List.singleton_append] at hbody
  rw [hbody, if_neg (by simp)] at hnext
  obtain ⟨fields, hfields, -⟩ := bind_eq_ok.1 hnext
  rw [copyReadAttributes] at hfields
  split at hfields
  · rw [if_pos (by simp)] at hfields
    cases hfields
  · exact readFields_open h hcsv hpre (fun c hc => hnul c (hmem c hc)) hstay 0 fields hfields

theorem copyFrom_open (h : cstate.opts.Admitted) (hcsv : cstate.opts.csvMode = true)
    (hline : cstate.opts.quotec = newline ∨ cstate.opts.quotec = carriageReturn) {pre post : Bytes}
    (hpre : Plain cstate.opts.quotec pre) (hnul : ∀ c ∈ post, c ≠ 0) (rows : List (List RawField)) :
    copyFrom cstate eolType (pre ++ cstate.opts.quotec :: post) ≠ .ok rows := by
  intro hok
  rw [copyFrom] at hok
  split at hok
  · cases hok
  · next hnext => exact nextCopyFromRawFields_open h hcsv hline hpre hnul hnext
  · next hnext => exact nextCopyFromRawFields_open h hcsv hline hpre hnul hnext

theorem column_nonzero (h : dest.opts.Admitted) (hcsv : dest.opts.csvMode = true) (attnum : Nat)
    (column : Option CStr) : ∀ c ∈ dest.column attnum column, c ≠ 0 := by
  intro c hc
  cases column with
  | none => exact dest.opts.nullPrint.nonzero c hc
  | some string =>
    rw [CopyToState.column, if_pos hcsv, copyAttributeOutCSV] at hc
    split at hc
    · rw [List.mem_append, List.mem_cons, List.mem_singleton, List.mem_flatMap] at hc
      rcases hc with (rfl | ⟨d, hd, hout⟩) | rfl
      · exact quotec_ne_zero h hcsv
      · have hdnul := string.nonzero d hd
        rw [outQuotedChar] at hout
        split at hout
        · rcases List.mem_cons.1 hout with rfl | hout
          · exact escapec_ne_zero h hcsv
          · rwa [List.mem_singleton.1 hout]
        · rwa [List.mem_singleton.1 hout]
      · exact quotec_ne_zero h hcsv
    · exact string.nonzero c hc

theorem columns_nonzero (h : dest.opts.Admitted) (hcsv : dest.opts.csvMode = true) (needDelim : Bool)
    (attnums : List Nat) : ∀ c ∈ dest.columns slot needDelim attnums, c ≠ 0 := by
  induction attnums generalizing needDelim with
  | nil => exact fun c hc => by cases hc
  | cons attnum attnums ih =>
    intro c hc
    rw [CopyToState.columns, List.mem_append, List.mem_append] at hc
    rcases hc with (hdelim | hcolumn) | hrest
    · cases needDelim with
      | false => cases hdelim
      | true =>
        rw [List.mem_singleton.1 hdelim]
        exact delimc_ne_zero h
    · exact column_nonzero h hcsv attnum (slot attnum) c hcolumn
    · exact ih true c hrest

theorem rows_nonzero (h : dest.opts.Admitted) (hcsv : dest.opts.csvMode = true) (rows : List (Nat → Option CStr)) :
    ∀ c ∈ rows.flatMap (copyToTextLikeOneRow dest), c ≠ 0 := by
  intro c hc
  obtain ⟨slot, -, hrow⟩ := List.mem_flatMap.1 hc
  rw [copyToTextLikeOneRow, List.mem_append, List.mem_singleton] at hrow
  rcases hrow with hcolumns | rfl
  · exact columns_nonzero h hcsv false dest.attnumlist c hcolumns
  · decide

theorem plain_column (h : dest.opts.Admitted) (hcsv : dest.opts.csvMode = true) {attnum : Nat}
    {column : Option CStr} (hquotes : dest.quotes attnum column = false) :
    Plain dest.opts.quotec (dest.column attnum column) := by
  cases column with
  | none => exact plain_nullPrint h hcsv
  | some string =>
    rw [CopyToState.column, if_pos hcsv, copyAttributeOutCSV]
    rw [CopyToState.quotes] at hquotes
    rw [if_neg (by rw [hquotes]; simp)]
    exact (usesQuote_eq_false hquotes).2.1

theorem columns_cases (h : dest.opts.Admitted) (hcsv : dest.opts.csvMode = true) (slot : Nat → Option CStr)
    (needDelim : Bool) (attnums : List Nat) :
    (∀ a ∈ attnums, dest.quotes a (slot a) = false) ∧ Plain dest.opts.quotec (dest.columns slot needDelim attnums) ∨
      ∃ pre post, Plain dest.opts.quotec pre ∧
        dest.columns slot needDelim attnums = pre ++ dest.opts.quotec :: post := by
  induction attnums generalizing needDelim with
  | nil => exact .inl ⟨fun a ha => (by cases ha), fun c hc => (by cases hc)⟩
  | cons attnum attnums ih =>
    have hdelim : Plain dest.opts.quotec (if needDelim then [dest.opts.delimc] else []) := by
      intro c hc
      cases needDelim with
      | false => cases hc
      | true =>
        rw [List.mem_singleton.1 hc]
        exact ⟨h.quoteDelim hcsv, h.delimReturn, h.delimNewline⟩
    rw [CopyToState.columns]
    cases hquotes : dest.quotes attnum (slot attnum) with
    | false =>
      have hcolumn : Plain dest.opts.quotec
          ((if needDelim then [dest.opts.delimc] else []) ++ dest.column attnum (slot attnum)) :=
        List.forall_mem_append.2 ⟨hdelim, plain_column h hcsv hquotes⟩
      rcases ih true with ⟨hall, hrest⟩ | ⟨pre, post, hpre, hrest⟩
      · exact .inl ⟨List.forall_mem_cons.2 ⟨hquotes, hall⟩, List.forall_mem_append.2 ⟨hcolumn, hrest⟩⟩
      · refine .inr ⟨_, post, List.forall_mem_append.2 ⟨hcolumn, hpre⟩, ?_⟩
        rw [hrest]
        simp only [List.append_assoc]
    | true =>
      obtain ⟨body, hbody⟩ : ∃ body, dest.column attnum (slot attnum) = dest.opts.quotec :: body := by
        cases hslot : slot attnum with
        | none =>
          rw [hslot] at hquotes
          cases hquotes
        | some string =>
          rw [hslot, CopyToState.quotes] at hquotes
          exact ⟨_, by rw [CopyToState.column, if_pos hcsv, copyAttributeOutCSV, if_pos hquotes, List.cons_append]⟩
      refine .inr ⟨_, body ++ dest.columns slot true attnums, hdelim, ?_⟩
      rw [hbody]
      simp only [List.append_assoc, List.cons_append]

def QuoteUnused (dest : CopyToState) (rows : List (Nat → Option CStr)) : Prop :=
  dest.opts.csvMode = true → (dest.opts.quotec = newline → rows = []) ∧
      (dest.opts.quotec = carriageReturn → ∀ slot ∈ rows, ∀ a ∈ dest.attnumlist, dest.quotes a (slot a) = false)

theorem copyFrom_of_unused (h : dest.opts.Admitted) (hopts : dest.opts = cstate.opts)
    (hattnums : dest.attnumlist = cstate.attnumlist)
    (hnull : dest.opts.csvMode = false → dest.opts.nullPrint.bytes = [backslash, 0x4e])
    {rows : List (Nat → Option CStr)} (hunused : QuoteUnused dest rows) :
    copyFrom cstate .unknown (rows.flatMap (copyToTextLikeOneRow dest)) =
      .ok (rows.map fun slot => dest.attnumlist.map fun a => fieldOf (slot a)) := by
  cases hcsv : dest.opts.csvMode with
  | false =>
    have hmode : TextMode cstate.opts := hopts ▸ ⟨h, hcsv, hnull hcsv⟩
    exact copyFrom_rows (separates_text hmode) hopts hattnums (.inl rfl) rows fun slot _ a _ =>
      passes_text hmode dest hopts a (slot a)
  | true =>
    obtain ⟨hnew, hret⟩ := hunused hcsv
    by_cases hquote : dest.opts.quotec = newline
    · rw [hnew hquote]
      exact copyFrom_nil .unknown
    · refine copyFrom_rows (separates_csv (hopts ▸ h) (hopts ▸ hcsv) (hopts ▸ hquote)) hopts hattnums (.inl rfl) rows ?_
      intro slot hslot a ha
      refine passes_csv (hopts ▸ h) (hopts ▸ hcsv) dest hopts a (slot a) fun hquotes => ?_
      refine ⟨fun hcr => ?_, hopts ▸ hquote⟩
      have hunquoted := hret (hopts ▸ hcr) slot hslot a ha
      rw [hquotes] at hunquoted
      cases hunquoted

theorem unused_of_copyFrom (h : dest.opts.Admitted) (hopts : dest.opts = cstate.opts)
    (hattnums : dest.attnumlist = cstate.attnumlist) {rows : List (Nat → Option CStr)}
    (heol : eolType = .unknown ∨ eolType = .nl) {result : List (List RawField)}
    (hread : copyFrom cstate eolType (rows.flatMap (copyToTextLikeOneRow dest)) = .ok result) :
    QuoteUnused dest rows := by
  intro hcsv
  have hcsv' : cstate.opts.csvMode = true := hopts ▸ hcsv
  have h' : cstate.opts.Admitted := hopts ▸ h
  induction rows generalizing eolType result with
  | nil => exact ⟨fun _ => rfl, fun _ slot hslot => by cases hslot⟩
  | cons slot rows ih =>
    have hnul := rows_nonzero h hcsv rows
    have hcolumns : ∀ c ∈ dest.columns slot false dest.attnumlist, c ≠ 0 := columns_nonzero h hcsv false dest.attnumlist
    -- a quote in the row stands behind what is plain, and what is behind it is text
    have hopen {pre post : Bytes} (hline : dest.opts.quotec = newline ∨ dest.opts.quotec = carriageReturn)
        (hpre : Plain dest.opts.quotec pre)
        (hrow : copyToTextLikeOneRow dest slot = pre ++ dest.opts.quotec :: post) : False := by
      have hpost : ∀ c ∈ post ++ rows.flatMap (copyToTextLikeOneRow dest), c ≠ 0 := by
        refine List.forall_mem_append.2 ⟨fun c hc => ?_, hnul⟩
        have hmem : c ∈ copyToTextLikeOneRow dest slot := by
          rw [hrow]
          exact List.mem_append_right _ (List.mem_cons_of_mem _ hc)
        rw [copyToTextLikeOneRow, List.mem_append, List.mem_singleton] at hmem
        rcases hmem with hin | rfl
        · exact hcolumns c hin
        · decide
      rw [List.flatMap_cons, hrow, List.append_assoc, List.cons_append, hopts] at hread
      rw [hopts] at hline hpre
      exact copyFrom_open h' hcsv' hline hpre hpost result hread
    rcases columns_cases h hcsv slot false dest.attnumlist with ⟨hunquoted, hplain⟩ | ⟨pre, post, hpre, hcolumn⟩
    · by_cases hquote : dest.opts.quotec = newline
      · exact (hopen (.inl hquote) hplain (by rw [copyToTextLikeOneRow, hquote])).elim
      · have hsep : Separates cstate := separates_csv h' hcsv' (hopts ▸ hquote)
        have hpass : ∀ a ∈ dest.attnumlist, Passes cstate (dest.column a (slot a)) (fieldOf (slot a)) := by
          intro a ha
          refine passes_csv h' hcsv' dest hopts a (slot a) fun hquotes => ?_
          rw [hunquoted a ha] at hquotes
          cases hquotes
        have hrow := nextCopyFromRawFields_row hsep hopts hattnums heol (rows.flatMap (copyToTextLikeOneRow dest)) hpass
        rw [List.flatMap_cons, copyFrom_of_next hrow] at hread
        cases hrest : copyFrom cstate .nl (rows.flatMap (copyToTextLikeOneRow dest)) with
        | error err =>
          rw [hrest] at hread
          cases hread
        | ok result' =>
          obtain ⟨-, hret⟩ := ih (.inr rfl) hrest
          exact ⟨fun hnew => absurd hnew hquote, fun hcr => List.forall_mem_cons.2 ⟨hunquoted, hret hcr⟩⟩
    · have hrow : copyToTextLikeOneRow dest slot = pre ++ dest.opts.quotec :: (post ++ [newline]) := by
        rw [copyToTextLikeOneRow, hcolumn, List.append_assoc, List.cons_append]
      exact ⟨fun hnew => (hopen (.inl hnew) hpre hrow).elim, fun hcr => (hopen (.inr hcr) hpre hrow).elim⟩

/-- What COPY TO writes is read back by COPY FROM with the same options, if and only if a quote that
is a line ending is not used. -/
theorem copy_round_trip (given : GivenOptions) (hopts : processCopyOptions false given = .ok dest.opts)
    (hnull : given.csv = false → given.null = none) (hsame : dest.opts = cstate.opts)
    (hattnums : dest.attnumlist = cstate.attnumlist) (rows : List (Nat → Option CStr)) :
    copyFrom cstate .unknown (rows.flatMap (copyToTextLikeOneRow dest)) =
        .ok (rows.map fun slot => dest.attnumlist.map fun a => fieldOf (slot a)) ↔
      QuoteUnused dest rows := by
  have hadmitted := admitted_of_ok hopts
  obtain ⟨hcomplete, -⟩ := processCopyOptions_ok hopts
  have hmarker : dest.opts.csvMode = false → dest.opts.nullPrint.bytes = [backslash, 0x4e] := by
    intro htext
    rw [hcomplete] at htext ⊢
    have hcsv : given.csv = false := htext
    rw [GivenOptions.complete, hnull hcsv, hcsv]
    rfl
  exact ⟨unused_of_copyFrom hadmitted hsame hattnums (.inl rfl), copyFrom_of_unused hadmitted hsame hattnums hmarker⟩

def twoColumns (given : GivenOptions) : CopyToState := ⟨given.complete, [1, 2], fun attnum => attnum == 2⟩

def twoColumnsFrom (given : GivenOptions) : CopyFromState := ⟨given.complete, [1, 2], fun _ => false, fun _ => true⟩

def csvGiven (quote : Option CStr) : GivenOptions := ⟨true, none, none, none, quote, none, true⟩

def twoRows : List (Nat → Option CStr) :=
  [fun _ => some (.lit ['\\', '.']), fun attnum => if attnum = 1 then none else some (.lit ['a'])]

theorem two_rows_read_back :
    copyFrom (twoColumnsFrom (csvGiven none)) .unknown (twoRows.flatMap (copyToTextLikeOneRow (twoColumns (csvGiven none)))) =
      .ok [[.value [0x5c, 0x2e], .value [0x5c, 0x2e]], [.null, .value [0x61]]] := by
  have hquote : (twoColumns (csvGiven none)).opts.quotec = 0x22 := rfl
  refine (copy_round_trip (csvGiven none) rfl (fun h => by cases h) rfl rfl twoRows).2 fun _ => ⟨fun h => ?_,
    fun h => ?_⟩
  · rw [hquote] at h
    exact absurd h (by decide)
  · rw [hquote] at h
    exact absurd h (by decide)

/-- A newline is admitted as the quote, and nothing that is written with it is read back. -/
theorem newline_quote_not_read_back :
    processCopyOptions false (csvGiven (some (.lit ['\n']))) = .ok (twoColumns (csvGiven (some (.lit ['\n'])))).opts ∧
      copyFrom (twoColumnsFrom (csvGiven (some (.lit ['\n'])))) .unknown
          (twoRows.flatMap (copyToTextLikeOneRow (twoColumns (csvGiven (some (.lit ['\n'])))))) ≠
        .ok [[.value [0x5c, 0x2e], .value [0x5c, 0x2e]], [.null, .value [0x61]]] := by
  have haccepted : processCopyOptions false (csvGiven (some (.lit ['\n']))) =
      .ok (twoColumns (csvGiven (some (.lit ['\n'])))).opts := rfl
  refine ⟨haccepted, fun hread => ?_⟩
  have hunused := unused_of_copyFrom (admitted_of_ok haccepted) rfl rfl (.inl rfl) hread rfl
  have hnone : twoRows = [] := hunused.1 rfl
  cases hnone

end CdcKafka.Copy
