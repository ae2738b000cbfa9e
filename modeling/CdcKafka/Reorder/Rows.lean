import CdcKafka.Reorder.Process

/-! How the changes of one row follow one another in the WAL: toast chunks before the row that they
belong to, and a speculative insertion before its confirmation. -/

namespace CdcKafka.Reorder

variable {τ : Type} {outputRewrites : Bool}

inductive Fate
  | fails (e : ReplayError)
  | skipped
  | row
  | chunk
deriving DecidableEq

def TupleChange.fate (outputRewrites : Bool) (tp : TupleChange τ) : Fate :=
  match tp.relation with
  | .unmapped =>
    if tp.newtuple.isNone && tp.oldtuple.isNone then .skipped
    else .fails (.couldNotMapFilenumber tp.rlocator)
  | .notOpened => .fails .couldNotOpenRelation
  | .found logicallyLogged relrewrite sequence toast =>
    if !logicallyLogged || (relrewrite && !outputRewrites) || sequence then .skipped
    else if toast then .chunk
    else .row

theorem applyTuple_eq (s : Replay τ) (txn lsn : Nat) (action : RowAction) (tp : TupleChange τ) :
    applyTuple outputRewrites s txn lsn action tp = match tp.fate outputRewrites with
      | .fails e => .error e
      | .skipped => .ok ({ s with specinsert := none }, [])
      | .row =>
        .ok ({ specinsert := none, toast := if tp.clearToastAfterwards then [] else s.toast },
          [.change txn lsn action tp s.toast])
      | .chunk =>
        .ok ({ specinsert := none, toast := if action = .insert then s.toast ++ [tp] else s.toast },
          []) := by
  unfold applyTuple TupleChange.fate
  cases tp.relation with
  | unmapped =>
    simp only
    split <;> rfl
  | notOpened => rfl
  | found logicallyLogged relrewrite sequence toast =>
    cases logicallyLogged <;> cases relrewrite <;> cases outputRewrites <;> cases sequence <;>
      cases toast <;> cases action <;> rfl

inductive RowState
  | complete
  | chunks (xid : Nat)
  | speculative (xid : Nat)
deriving DecidableEq

def RowState.row (o : RowState) (txn : Nat) (clearToast : Bool) : Option RowState :=
  match o with
  | .complete => some .complete
  | .chunks xid =>
    if xid = txn then some (if clearToast then .complete else .chunks xid) else none
  | .speculative _ => none

def RowState.track (outputRewrites : Bool) (o : RowState) (c : Change (Data τ)) : Option RowState :=
  match c.data with
  | .insert tp =>
    match tp.fate outputRewrites, o with
    | .row, o => o.row c.txn tp.clearToastAfterwards
    | .skipped, .complete => some .complete
    | .chunk, .complete => some (.chunks c.txn)
    | .chunk, .chunks xid => if xid = c.txn then some (.chunks xid) else none
    | _, _ => none
  | .update tp =>
    match tp.fate outputRewrites, o with
    | .row, o => o.row c.txn tp.clearToastAfterwards
    | .skipped, .complete => some .complete
    | _, _ => none
  | .delete tp =>
    match tp.fate outputRewrites, o with
    | .row, .complete => some .complete
    | .skipped, .complete => some .complete
    | .chunk, .complete => some .complete
    | .chunk, .chunks xid => if xid = c.txn then some (.chunks xid) else none
    | _, _ => none
  | .specInsert tp =>
    if tp.fate outputRewrites = .row ∧ tp.clearToastAfterwards = true then
      match o with
      | .complete => some (.speculative c.txn)
      | .chunks xid => if xid = c.txn then some (.speculative c.txn) else none
      | .speculative _ => none
    else none
  | .specConfirm _ =>
    match o with
    | .speculative xid => if xid = c.txn then some .complete else none
    | _ => none
  | .specAbort _ =>
    match o with
    | .complete => some .complete
    | .speculative xid => if xid = c.txn then some .complete else none
    | .chunks _ => none
  | .truncate relids _ _ => if relids.all fun rel => rel.2.isSome then some o else none
  | .message _ => some o
  | .internal => some o

def RowState.xid? : RowState → Option Nat
  | .complete => none
  | .chunks xid | .speculative xid => some xid

def RowState.restrict (p : Nat → Bool) (o : RowState) : RowState :=
  if o.xid?.all p then o else .complete

def RowState.Holds (outputRewrites : Bool) (o : RowState) (s : Replay τ) : Prop :=
  match o with
  | .complete => s = ⟨none, []⟩
  | .chunks _ => s.specinsert = none
  | .speculative xid => ∃ lsn tp, s.specinsert = some (xid, lsn, tp) ∧
      tp.fate outputRewrites = .row ∧ tp.clearToastAfterwards = true

variable {o o' : RowState} {c : Change (Data τ)} {s : Replay τ} {p : Nat → Bool}

def Callback.txn? : Callback τ → Option Nat
  | .change txn _ _ _ _ | .truncate txn _ _ _ _ => some txn
  | .message _ _ => none

structure Neutral (outputRewrites : Bool) (c : Change (Data τ)) : Prop where
  track : ∀ o : RowState, o.track outputRewrites c = some o
  step : ∃ out, (∀ s, processChange outputRewrites s c = .ok (s, out)) ∧
    ∀ cb ∈ out, cb.txn? = none ∧ c.data.isMessage = true ∨ cb.txn? = some c.txn

structure OwnRow (outputRewrites : Bool) (o o' : RowState) (c : Change (Data τ)) : Prop where
  before : o = .complete ∨ o.xid? = some c.txn
  after : o' = .complete ∨ o'.xid? = some c.txn
  step : ∀ s : Replay τ, o.Holds outputRewrites s → ∃ s' out,
    processChange outputRewrites s c = .ok (s', out) ∧ o'.Holds outputRewrites s' ∧ ∀ cb ∈ out, cb.txn? = some c.txn

theorem RowState.row_cases {txn : Nat} {clearToast : Bool} (h : o.row txn clearToast = some o') :
    (o = .complete ∧ o' = .complete) ∨ (o = .chunks txn ∧ o' = if clearToast then .complete else .chunks txn) := by
  cases o with
  | complete =>
    obtain rfl : RowState.complete = o' := by simpa [RowState.row] using h
    exact .inl ⟨rfl, rfl⟩
  | chunks xid =>
    simp only [RowState.row] at h
    split at h
    · next heq =>
      subst heq
      exact .inr ⟨rfl, (Option.some.inj h).symm⟩
    · cases h
  | speculative xid => simp [RowState.row] at h

theorem ownRow_chunk {tp : TupleChange τ} {action : RowAction} (hprocess : ∀ s, processChange outputRewrites s c =
      applyTuple outputRewrites s c.txn c.lsn action tp)
    (hfate : tp.fate outputRewrites = .chunk) (hbefore : o = .complete ∨ o = .chunks c.txn) :
    OwnRow outputRewrites o (.chunks c.txn) c := by
  refine ⟨?_, .inr rfl, fun s _ => ?_⟩
  · rcases hbefore with rfl | rfl
    · exact .inl rfl
    · exact .inr rfl
  · refine ⟨_, _, by rw [hprocess, applyTuple_eq, hfate], ?_, by simp⟩
    rfl

theorem ownRow_row {tp : TupleChange τ} {action : RowAction} (hprocess : ∀ s, processChange outputRewrites s c =
      applyTuple outputRewrites s c.txn c.lsn action tp)
    (hfate : tp.fate outputRewrites = .row)
    (h : o.row c.txn tp.clearToastAfterwards = some o') : OwnRow outputRewrites o o' c := by
  rcases RowState.row_cases h with ⟨rfl, rfl⟩ | ⟨rfl, rfl⟩
  · refine ⟨.inl rfl, .inl rfl, ?_⟩
    rintro s rfl
    refine ⟨_, _, by rw [hprocess, applyTuple_eq, hfate], ?_, by simp [Callback.txn?]⟩
    simp [RowState.Holds]
  · refine ⟨.inr rfl, ?_, ?_⟩
    · split
      · exact .inl rfl
      · exact .inr rfl
    · intro s hs
      refine ⟨_, _, by rw [hprocess, applyTuple_eq, hfate], ?_, by simp [Callback.txn?]⟩
      split
      · simp [RowState.Holds]
      · rfl

theorem ownRow_skipped {tp : TupleChange τ} {action : RowAction} (hprocess : ∀ s, processChange outputRewrites s c =
      applyTuple outputRewrites s c.txn c.lsn action tp)
    (hfate : tp.fate outputRewrites = .skipped) :
    OwnRow outputRewrites .complete .complete c := by
  refine ⟨.inl rfl, .inl rfl, ?_⟩
  rintro s rfl
  exact ⟨_, _, by rw [hprocess, applyTuple_eq, hfate], rfl, by simp⟩

theorem RowState.track_cases (h : o.track outputRewrites c = some o') :
    (o' = o ∧ Neutral outputRewrites c) ∨ OwnRow outputRewrites o o' c := by
  unfold RowState.track at h
  cases hdata : c.data with
  | message text =>
    rw [hdata] at h
    refine .inl ⟨(Option.some.inj h).symm, fun o => by simp [RowState.track, hdata],
      [.message c.lsn text], fun s => by simp [processChange, hdata], ?_⟩
    simp [Callback.txn?, Data.isMessage, hdata]
  | internal =>
    rw [hdata] at h
    exact .inl ⟨(Option.some.inj h).symm, fun o => by simp [RowState.track, hdata],
      [], fun s => by simp [processChange, hdata], by simp⟩
  | truncate relids cascade restartSeqs =>
    rw [hdata] at h
    simp only at h
    split at h
    · next hall =>
      have hnone : (relids.any fun rel => rel.2.isNone) = false := by
        simpa [List.any_eq_false, List.all_eq_true, Option.ne_none_iff_isSome] using hall
      refine .inl ⟨(Option.some.inj h).symm, fun o => by simp [RowState.track, hdata, hall],
        [.truncate c.txn c.lsn ((relids.filter fun rel => rel.2 = some true).map Prod.fst) cascade
          restartSeqs], fun s => ?_, by simp [Callback.txn?]⟩
      simp only [processChange, hdata, hnone]
      rfl
    · cases h
  | insert tp =>
    refine .inr ?_
    have hprocess : ∀ s, processChange outputRewrites s c =
        applyTuple outputRewrites s c.txn c.lsn .insert tp := fun s => by
      simp only [processChange, hdata]
    rw [hdata] at h
    simp only at h
    split at h
    · next hfate => exact ownRow_row hprocess hfate h
    · next hfate =>
      obtain rfl := Option.some.inj h
      exact ownRow_skipped hprocess hfate
    · next hfate =>
      obtain rfl := Option.some.inj h
      exact ownRow_chunk hprocess hfate (.inl rfl)
    · next xid hfate =>
      split at h
      · next heq =>
        subst heq
        obtain rfl := Option.some.inj h
        exact ownRow_chunk hprocess hfate (.inr rfl)
      · cases h
    · cases h
  | update tp =>
    refine .inr ?_
    have hprocess : ∀ s, processChange outputRewrites s c =
        applyTuple outputRewrites s c.txn c.lsn .update tp := fun s => by
      simp only [processChange, hdata]
    rw [hdata] at h
    simp only at h
    split at h
    · next hfate => exact ownRow_row hprocess hfate h
    · next hfate =>
      obtain rfl := Option.some.inj h
      exact ownRow_skipped hprocess hfate
    · cases h
  | delete tp =>
    refine .inr ?_
    have hprocess : ∀ s, processChange outputRewrites s c =
        applyTuple outputRewrites s c.txn c.lsn .delete tp := fun s => by
      simp only [processChange, hdata]
    rw [hdata] at h
    simp only at h
    split at h
    · next hfate =>
      obtain rfl := Option.some.inj h
      exact ownRow_row hprocess hfate rfl
    · next hfate =>
      obtain rfl := Option.some.inj h
      exact ownRow_skipped hprocess hfate
    · next hfate =>
      obtain rfl := Option.some.inj h
      refine ⟨.inl rfl, .inl rfl, ?_⟩
      rintro s rfl
      refine ⟨_, _, by rw [hprocess, applyTuple_eq, hfate], ?_, by simp⟩
      rfl
    · next xid hfate =>
      split at h
      · next heq =>
        subst heq
        obtain rfl := Option.some.inj h
        exact ownRow_chunk hprocess hfate (.inr rfl)
      · cases h
    · cases h
  | specInsert tp =>
    refine .inr ?_
    rw [hdata] at h
    simp only at h
    split at h
    · next hrow =>
      have hstep : ∀ s : Replay τ, ∃ s' out, processChange outputRewrites s c = .ok (s', out) ∧
          (RowState.speculative c.txn).Holds outputRewrites s' ∧ ∀ cb ∈ out, cb.txn? = some c.txn := fun s =>
        ⟨_, _, by simp only [processChange, hdata]; rfl, ⟨c.lsn, tp, rfl, hrow⟩, by simp⟩
      split at h
      · obtain rfl := Option.some.inj h
        exact ⟨.inl rfl, .inr rfl, fun s _ => hstep s⟩
      · split at h
        · next heq =>
          subst heq
          obtain rfl := Option.some.inj h
          exact ⟨.inr rfl, .inr rfl, fun s _ => hstep s⟩
        · cases h
      · cases h
    · cases h
  | specConfirm tp =>
    refine .inr ?_
    rw [hdata] at h
    simp only at h
    split at h
    · split at h
      · next heq =>
        subst heq
        obtain rfl := Option.some.inj h
        refine ⟨.inr rfl, .inl rfl, ?_⟩
        rintro s ⟨lsn, tp, hspec, hfate, hclear⟩
        have hprocess : processChange outputRewrites s c = applyTuple outputRewrites s c.txn lsn .insert tp := by
          simp only [processChange, hdata, hspec]
        refine ⟨_, _, by rw [hprocess, applyTuple_eq, hfate], ?_, by simp [Callback.txn?]⟩
        simp [RowState.Holds, hclear]
      · cases h
    · cases h
  | specAbort tp =>
    refine .inr ?_
    rw [hdata] at h
    simp only at h
    split at h
    · obtain rfl := Option.some.inj h
      refine ⟨.inl rfl, .inl rfl, ?_⟩
      rintro s rfl
      exact ⟨_, _, by simp only [processChange, hdata]; rfl, rfl, by simp⟩
    · split at h
      · next heq =>
        subst heq
        obtain rfl := Option.some.inj h
        refine ⟨.inr rfl, .inl rfl, ?_⟩
        rintro s ⟨lsn, tp, hspec, -⟩
        exact ⟨_, _, by simp only [processChange, hdata, hspec]; rfl, rfl, by simp⟩
      · cases h
    · cases h

def Tracks (outputRewrites : Bool) (o : RowState) (l : List (Change (Data τ))) (o' : RowState) :
    Prop :=
  l.foldlM (RowState.track outputRewrites) o = some o'

variable {l l' : List (Change (Data τ))} {o₁ o₂ : RowState}

theorem tracks_nil : Tracks outputRewrites o ([] : List (Change (Data τ))) o' ↔ o' = o := by
  simp [Tracks, eq_comm]

theorem tracks_cons : Tracks outputRewrites o (c :: l) o' ↔
    ∃ o₁, o.track outputRewrites c = some o₁ ∧ Tracks outputRewrites o₁ l o' := by
  simp [Tracks, List.foldlM_cons, Option.bind_eq_some_iff]

theorem tracks_append : Tracks outputRewrites o (l ++ l') o' ↔
    ∃ o₁, Tracks outputRewrites o l o₁ ∧ Tracks outputRewrites o₁ l' o' := by
  simp [Tracks, List.foldlM_append, Option.bind_eq_some_iff]

theorem RowState.track_message (o : RowState) (h : c.data.isMessage = true) : o.track outputRewrites c = some o := by
  cases hdata : c.data with
  | message text => simp [RowState.track, hdata]
  | _ =>
    rw [hdata] at h
    cases h

theorem tracks_rows : Tracks outputRewrites o (l.filter fun c => !c.data.isMessage) o' ↔
    Tracks outputRewrites o l o' := by
  induction l generalizing o with
  | nil => exact Iff.rfl
  | cons c l ih =>
    cases hmessage : c.data.isMessage with
    | true => simp [hmessage, tracks_cons, ih, RowState.track_message o hmessage]
    | false => simp [hmessage, tracks_cons, ih]

@[simp] theorem RowState.restrict_complete : RowState.complete.restrict p = .complete := by
  simp [RowState.restrict]

theorem RowState.restrict_of_pos {xid : Nat} (h : o = .complete ∨ o.xid? = some xid)
    (hp : p xid = true) : o.restrict p = o := by
  rcases h with rfl | h
  · simp
  · simp [RowState.restrict, h, hp]

theorem RowState.restrict_of_neg {xid : Nat} (h : o = .complete ∨ o.xid? = some xid)
    (hp : p xid = false) : o.restrict p = .complete := by
  rcases h with rfl | h
  · simp
  · simp [RowState.restrict, h, hp]

theorem Tracks.restrict (p : Nat → Bool) (h : Tracks outputRewrites o l o') :
    Tracks outputRewrites (o.restrict p) (l.filter fun c => p c.txn) (o'.restrict p) := by
  induction l generalizing o with
  | nil =>
    obtain rfl := tracks_nil.mp h
    exact tracks_nil.mpr rfl
  | cons c l ih =>
    obtain ⟨o₁, htrack, hrest⟩ := tracks_cons.mp h
    have hrest := ih hrest
    rcases RowState.track_cases htrack with ⟨rfl, hneutral⟩ | hown
    · cases hp : p c.txn with
      | true =>
        simp only [List.filter_cons, hp, if_true]
        exact tracks_cons.mpr ⟨_, hneutral.track _, hrest⟩
      | false => simpa [hp] using hrest
    · cases hp : p c.txn with
      | true =>
        rw [RowState.restrict_of_pos hown.after hp] at hrest
        simp only [List.filter_cons, hp, if_true, RowState.restrict_of_pos hown.before hp]
        exact tracks_cons.mpr ⟨_, htrack, hrest⟩
      | false =>
        rw [RowState.restrict_of_neg hown.after hp] at hrest
        simpa [hp, RowState.restrict_of_neg hown.before hp] using hrest

theorem Tracks.processChanges (h : Tracks outputRewrites o l o') (hs : o.Holds outputRewrites s) :
    ∃ s', (processChanges outputRewrites s l).2 = .ok s' ∧ o'.Holds outputRewrites s' := by
  induction l generalizing o s with
  | nil =>
    obtain rfl := tracks_nil.mp h
    exact ⟨s, rfl, hs⟩
  | cons c l ih =>
    obtain ⟨o₁, htrack, hrest⟩ := tracks_cons.mp h
    have hstep : ∃ s' out, processChange outputRewrites s c = .ok (s', out) ∧ o₁.Holds outputRewrites s' := by
      rcases RowState.track_cases htrack with ⟨rfl, hneutral⟩ | hown
      · obtain ⟨out, hok, -⟩ := hneutral.step
        exact ⟨s, out, hok s, hs⟩
      · obtain ⟨s', out, hok, hs', -⟩ := hown.step s hs
        exact ⟨s', out, hok, hs'⟩
    obtain ⟨s', out, hok, hs'⟩ := hstep
    obtain ⟨s'', hresult, hs''⟩ := ih hrest hs'
    exact ⟨s'', by rw [processChanges_cons_ok hok]; exact hresult, hs''⟩

theorem Tracks.processChanges_append (h : Tracks outputRewrites .complete l .complete) (l' : List (Change (Data τ))) :
    Reorder.processChanges outputRewrites ⟨none, []⟩ (l ++ l') =
      ((Reorder.processChanges outputRewrites ⟨none, []⟩ l).1 ++
          (Reorder.processChanges outputRewrites ⟨none, []⟩ l').1,
        (Reorder.processChanges outputRewrites ⟨none, []⟩ l').2) := by
  have hgeneral : ∀ {l : List (Change (Data τ))} {s s' : Replay τ},
      (Reorder.processChanges outputRewrites s l).2 = .ok s' →
      Reorder.processChanges outputRewrites s (l ++ l') = ((Reorder.processChanges outputRewrites s l).1 ++
            (Reorder.processChanges outputRewrites s' l').1,
          (Reorder.processChanges outputRewrites s' l').2) := by
    intro l
    induction l with
    | nil =>
      intro s s' hs
      obtain rfl := Except.ok.inj hs
      rfl
    | cons c l ih =>
      intro s s' hs
      rw [Reorder.processChanges] at hs
      rw [List.cons_append, Reorder.processChanges, Reorder.processChanges]
      split at hs
      · cases hs
      · next s₁ out hok => simp [ih hs]
  obtain ⟨s', hresult, hs'⟩ := h.processChanges (s := ⟨none, []⟩) rfl
  obtain rfl : s' = ⟨none, []⟩ := hs'
  exact hgeneral hresult

section Emission

variable {β : Type}

theorem Tracks.filterMap (f : Callback τ → Option β) (keep : β → Bool) (p : Nat → Bool)
    (h : Tracks outputRewrites o l o') (hs : o.Holds outputRewrites s)
    (hkeep : ∀ cb b, f cb = some b → ∀ xid, cb.txn? = some xid → keep b = p xid)
    (hmessage : ∀ c ∈ l, c.data.isMessage = true → ∀ cb b, f cb = some b → cb.txn? = none → keep b = p c.txn) :
    ((Reorder.processChanges outputRewrites s l).1.filterMap f).filter keep =
      (Reorder.processChanges outputRewrites (if o.restrict p = o then s else ⟨none, []⟩)
        (l.filter fun c => p c.txn)).1.filterMap f := by
  induction l generalizing o s with
  | nil => rfl
  | cons c l ih =>
    obtain ⟨o₁, htrack, hrest⟩ := tracks_cons.mp h
    have hall : ∀ out : List (Callback τ), (∀ cb ∈ out, cb.txn? = none ∧ c.data.isMessage = true ∨
        cb.txn? = some c.txn) →
        (out.filterMap f).filter keep = if p c.txn then out.filterMap f else [] := by
      intro out hout
      have hsame : ∀ b ∈ out.filterMap f, keep b = p c.txn := by
        intro b hb
        obtain ⟨cb, hcb, hfb⟩ := List.mem_filterMap.mp hb
        rcases hout cb hcb with ⟨hnone, hdata⟩ | hsome
        · exact hmessage c (by simp) hdata cb b hfb hnone
        · exact hkeep cb b hfb _ hsome
      split
      · next hp =>
        apply List.filter_eq_self.mpr
        intro b hb
        rw [hsame b hb, hp]
      · next hp =>
        apply List.filter_eq_nil_iff.mpr
        intro b hb
        rw [hsame b hb]
        exact hp
    have hmessage' : ∀ c ∈ l, c.data.isMessage = true → ∀ cb b, f cb = some b → cb.txn? = none →
        keep b = p c.txn := fun c hc => hmessage c (by simp [hc])
    rcases RowState.track_cases htrack with ⟨rfl, hneutral⟩ | hown
    · obtain ⟨out, hok, hout⟩ := hneutral.step
      rw [processChanges_cons_ok (hok s), List.filterMap_append, List.filter_append, hall out hout,
        ih hrest hs hmessage']
      cases hp : p c.txn with
      | true =>
        simp only [List.filter_cons, hp, if_true, processChanges_cons_ok (hok _), List.filterMap_append]
      | false => simp [hp]
    · obtain ⟨s', out, hok, hs', hout⟩ := hown.step s hs
      rw [processChanges_cons_ok hok, List.filterMap_append, List.filter_append,
        hall out fun cb hcb => .inr (hout cb hcb), ih hrest hs' hmessage']
      cases hp : p c.txn with
      | true =>
        simp only [List.filter_cons, hp, if_true, RowState.restrict_of_pos hown.before hp,
          RowState.restrict_of_pos hown.after hp, processChanges_cons_ok hok,
          List.filterMap_append]
      | false =>
        -- of this row nothing is seen on the other side
        have hclean : ∀ {o : RowState} {s : Replay τ}, o.Holds outputRewrites s →
            (o = .complete ∨ o.xid? = some c.txn) →
            (if o.restrict p = o then s else ⟨none, []⟩) = (⟨none, []⟩ : Replay τ) := by
          intro o s hs ho
          split
          · next heq =>
            rw [RowState.restrict_of_neg ho hp] at heq
            subst heq
            exact hs
          · rfl
        simp [hp, hclean hs hown.before, hclean hs' hown.after]

end Emission

end CdcKafka.Reorder
