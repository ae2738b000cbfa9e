import CdcKafka.Reorder.Decode

/-! Replaying a transaction: the changes of its subtransactions merged by LSN, and the callbacks
into the output plugin that they give. -/

namespace CdcKafka.Reorder
open CdcKafka.Lib

variable {τ : Type}

inductive RowAction
  | insert
  | update
  | delete
deriving DecidableEq

/-- A content callback: of a change of the (sub)transaction `txn` at `lsn`. A row comes with the
toast chunks that it is reassembled from. -/
inductive Callback (τ : Type)
  | change (txn lsn : Nat) (action : RowAction) (tp : TupleChange τ) (toast : List (TupleChange τ))
  | truncate (txn lsn : Nat) (relids : List Nat) (cascade restartSeqs : Bool)
  | message (lsn : Nat) (text : String × String)
deriving DecidableEq

inductive ReplayError
  | invalidSpecOrdering
  | couldNotMapFilenumber (rlocator : Nat)
  | couldNotOpenRelation
deriving DecidableEq

structure Replay (τ : Type) where
  specinsert : Option (Nat × Nat × TupleChange τ)
  toast : List (TupleChange τ)
deriving DecidableEq

variable (outputRewrites : Bool)

def applyTuple (s : Replay τ) (txn lsn : Nat) (action : RowAction) (tp : TupleChange τ) :
    Except ReplayError (Replay τ × List (Callback τ)) :=
  match tp.relation with
  | .unmapped =>
    if tp.newtuple.isNone && tp.oldtuple.isNone then .ok ({ s with specinsert := none }, [])
    else .error (.couldNotMapFilenumber tp.rlocator)
  | .notOpened => .error .couldNotOpenRelation
  | .found logicallyLogged relrewrite sequence toast =>
    if !logicallyLogged then .ok ({ s with specinsert := none }, [])
    else if relrewrite && !outputRewrites then .ok ({ s with specinsert := none }, [])
    else if sequence then .ok ({ s with specinsert := none }, [])
    else if !toast then
      .ok ({ specinsert := none, toast := if tp.clearToastAfterwards then [] else s.toast },
        [.change txn lsn action tp s.toast])
    else if action = .insert then .ok ({ specinsert := none, toast := s.toast ++ [tp] }, [])
    else .ok ({ s with specinsert := none }, [])

def processChange (s : Replay τ) (c : Change (Data τ)) :
    Except ReplayError (Replay τ × List (Callback τ)) :=
  match c.data with
  | .specConfirm _ =>
    match s.specinsert with
    | none => .error .invalidSpecOrdering
    | some (txn, lsn, tp) => applyTuple outputRewrites s txn lsn .insert tp
  | .insert tp => applyTuple outputRewrites s c.txn c.lsn .insert tp
  | .update tp => applyTuple outputRewrites s c.txn c.lsn .update tp
  | .delete tp => applyTuple outputRewrites s c.txn c.lsn .delete tp
  | .specInsert tp => .ok ({ s with specinsert := some (c.txn, c.lsn, tp) }, [])
  | .specAbort _ =>
    if s.specinsert.isSome then .ok ({ specinsert := none, toast := [] }, []) else .ok (s, [])
  | .truncate relids cascade restartSeqs =>
    if relids.any fun rel => rel.2.isNone then .error .couldNotOpenRelation
    else
      let logged := (relids.filter fun rel => rel.2 = some true).map Prod.fst
      .ok (s, [.truncate c.txn c.lsn logged cascade restartSeqs])
  | .message text => .ok (s, [.message c.lsn text])
  | .internal => .ok (s, [])

def processChanges (s : Replay τ) :
    List (Change (Data τ)) → List (Callback τ) × Except ReplayError (Replay τ)
  | [] => ([], .ok s)
  | c :: rest =>
    match processChange outputRewrites s c with
    | .error e => ([], .error e)
    | .ok (s', out) => (out ++ (processChanges s' rest).1, (processChanges s' rest).2)

def iterAll (walSegmentSize : Nat) : Nat → IterState (Data τ) → List (Change (Data τ))
  | 0, _ => []
  | fuel + 1, st =>
    match reorderBufferIterTXNNext walSegmentSize st with
    | none => []
    | some (change, st') => change :: iterAll walSegmentSize fuel st'

/-- `ReorderBufferProcessTXN` of a transaction that is not streamed: the content callbacks, and
how it ends. -/
def reorderBufferProcessTXN (walSegmentSize top fuel : Nat) (rb : ReorderBuffer (Data τ)) :
    List (Callback τ) × Except ReplayError (Replay τ) :=
  processChanges outputRewrites { specinsert := none, toast := [] }
    (iterAll walSegmentSize fuel (reorderBufferIterTXNInit walSegmentSize top rb))

theorem Returns.iterAll_eq {walSegmentSize fuel : Nat} {st : IterState (Data τ)}
    {out : List (Change (Data τ))} (h : Returns walSegmentSize st out) (hle : out.length < fuel) :
    iterAll walSegmentSize fuel st = out := by
  induction out generalizing st fuel with
  | nil =>
    cases fuel with
    | zero => simp at hle
    | succ fuel => simp only [iterAll, show reorderBufferIterTXNNext walSegmentSize st = none from h]
  | cons change out ih =>
    obtain ⟨st', hnext, hrest⟩ := h
    cases fuel with
    | zero => simp at hle
    | succ fuel =>
      simp only [iterAll, hnext, ih hrest (by simpa using hle)]

variable {outputRewrites} {s : Replay τ} {c : Change (Data τ)} {l l' : List (Change (Data τ))}

def Data.silent (outputRewrites : Bool) : Data τ → Bool
  | .insert tp | .update tp | .delete tp =>
    match tp.relation with
    | .unmapped => tp.newtuple.isNone && tp.oldtuple.isNone
    | .notOpened => false
    | .found logicallyLogged relrewrite sequence toast =>
      !logicallyLogged || (relrewrite && !outputRewrites) || sequence || toast
  | .specInsert _ | .specAbort _ | .internal => true
  | .specConfirm _ | .truncate _ _ _ | .message _ => false

theorem Data.silent_of_isMessage {data : Data τ} (h : data.isMessage = true) : data.silent outputRewrites = false := by
  cases data with
  | message => rfl
  | _ => cases h

def messageCallback (c : Change (Data τ)) : Callback τ :=
  .message c.lsn (match c.data with | .message text => text | _ => ("", ""))

theorem processChange_message (outputRewrites : Bool) (s : Replay τ) (h : c.data.isMessage = true) :
    processChange outputRewrites s c = .ok (s, [messageCallback c]) := by
  cases hdata : c.data with
  | message text => simp [processChange, messageCallback, hdata]
  | _ =>
    rw [hdata] at h
    cases h

theorem applyTuple_silent (s : Replay τ) {txn lsn : Nat} {action : RowAction} {tp : TupleChange τ}
    (h : (Data.insert tp).silent outputRewrites = true) :
    ∃ s', applyTuple outputRewrites s txn lsn action tp = .ok (s', []) := by
  unfold applyTuple
  unfold Data.silent at h
  cases hrel : tp.relation with
  | unmapped =>
    simp only [hrel] at h
    exact ⟨_, by simp only [h, if_true]; rfl⟩
  | notOpened => simp [hrel] at h
  | found logicallyLogged relrewrite sequence toast =>
    simp only [hrel, Bool.or_eq_true] at h
    simp only
    split
    · exact ⟨_, rfl⟩
    split
    · exact ⟨_, rfl⟩
    split
    · exact ⟨_, rfl⟩
    split
    · simp_all
    split
    · exact ⟨_, rfl⟩
    · exact ⟨_, rfl⟩

theorem processChange_silent (s : Replay τ) (h : c.data.silent outputRewrites = true) :
    ∃ s', processChange outputRewrites s c = .ok (s', []) := by
  unfold processChange
  cases hdata : c.data with
  | insert tp | update tp | delete tp =>
    rw [hdata] at h
    exact applyTuple_silent s h
  | specAbort tp =>
    simp only
    split
    · exact ⟨_, rfl⟩
    · exact ⟨_, rfl⟩
  | specInsert tp | internal => exact ⟨_, rfl⟩
  | specConfirm tp | truncate relids cascade restartSeqs | message text =>
    rw [hdata] at h
    cases h

theorem processChanges_cons_ok {s' : Replay τ} {out : List (Callback τ)}
    (h : processChange outputRewrites s c = .ok (s', out)) (l : List (Change (Data τ))) :
    processChanges outputRewrites s (c :: l) =
      (out ++ (processChanges outputRewrites s' l).1, (processChanges outputRewrites s' l).2) := by
  rw [processChanges, h]

theorem processChanges_messages (h : ∀ c ∈ l, c.data.isMessage = true) (s : Replay τ) (l' : List (Change (Data τ))) :
    processChanges outputRewrites s (l ++ l') = (l.map messageCallback ++ (processChanges outputRewrites s l').1,
        (processChanges outputRewrites s l').2) := by
  induction l with
  | nil => rfl
  | cons c l ih =>
    have hok := processChange_message outputRewrites s (h c (by simp))
    rw [List.cons_append, processChanges_cons_ok hok, ih fun c hc => h c (by simp [hc])]
    simp

theorem processChanges_silent (s : Replay τ) (h : ∀ c ∈ l, c.data.silent outputRewrites = true) :
    ∃ s', ∀ l', processChanges outputRewrites s (l ++ l') = processChanges outputRewrites s' l' := by
  induction l generalizing s with
  | nil => exact ⟨s, fun _ => rfl⟩
  | cons c l ih =>
    obtain ⟨s', hok⟩ := processChange_silent s (h c (by simp))
    obtain ⟨s'', hrest⟩ := ih s' fun c hc => h c (by simp [hc])
    refine ⟨s'', fun l' => ?_⟩
    rw [List.cons_append, processChanges_cons_ok hok, ← hrest l']
    rfl

theorem processChanges_congr (s : Replay τ)
    (hrows : (l.filter fun c => !c.data.isMessage) = l'.filter fun c => !c.data.isMessage)
    (hloud : (l.filter fun c => !c.data.silent outputRewrites) = l'.filter fun c => !c.data.silent outputRewrites) :
    processChanges outputRewrites s l = processChanges outputRewrites s l' := by
  induction l generalizing l' s with
  | nil =>
    cases l' with
    | nil => rfl
    | cons c l' =>
      cases hmessage : c.data.isMessage with
      | true => simp [Data.silent_of_isMessage hmessage] at hloud
      | false => simp [hmessage] at hrows
  | cons c l ih =>
    cases hmessage : c.data.isMessage with
    | true =>
      -- whatever stands before the message in the other list is silent
      have hnot : c.data.silent outputRewrites = false := Data.silent_of_isMessage hmessage
      simp only [List.filter_cons, hnot, Bool.not_false, if_true] at hloud
      obtain ⟨pre, post, rfl, hpre, -, hpost⟩ := List.filter_eq_cons_iff.mp hloud.symm
      have hsilent : ∀ c ∈ pre, c.data.silent outputRewrites = true := by simpa using hpre
      obtain ⟨s', hskip⟩ := processChanges_silent s hsilent
      have hnil : (pre.filter fun c => !c.data.silent outputRewrites) = [] := by
        simpa using hsilent
      have hrest : processChanges outputRewrites s l = processChanges outputRewrites s (pre ++ post) := by
        apply ih
        · simpa [hmessage] using hrows
        · rw [List.filter_append, hnil, hpost, List.nil_append]
      rw [processChanges_cons_ok (processChange_message outputRewrites s hmessage), hrest,
        hskip, hskip, processChanges_cons_ok (processChange_message outputRewrites s' hmessage)]
    | false =>
      -- whatever stands before the row in the other list is a message
      simp only [List.filter_cons, hmessage, Bool.not_false, if_true] at hrows
      obtain ⟨pre, post, rfl, hpre, -, hpost⟩ := List.filter_eq_cons_iff.mp hrows.symm
      have hmessages : ∀ c ∈ pre, c.data.isMessage = true := by simpa using hpre
      have hkept : (pre.filter fun c => !c.data.silent outputRewrites) = pre := by
        apply List.filter_eq_self.mpr
        intro c hc
        simp [Data.silent_of_isMessage (hmessages c hc)]
      rw [List.filter_append, hkept] at hloud
      cases hsilent : c.data.silent outputRewrites with
      | true =>
        simp only [List.filter_cons, hsilent, Bool.not_true] at hloud
        obtain ⟨s', hok⟩ := processChange_silent s hsilent
        have hrest : processChanges outputRewrites s' l = processChanges outputRewrites s' (pre ++ post) := by
          apply ih
          · have hnil : (pre.filter fun c => !c.data.isMessage) = [] := by simpa using hmessages
            rw [List.filter_append, hnil, hpost, List.nil_append]
          · rw [List.filter_append, hkept]
            exact hloud
        rw [processChanges_cons_ok hok, hrest, processChanges_messages hmessages,
          processChanges_messages hmessages, processChanges_cons_ok hok]
        rfl
      | false =>
        -- both lists start with this row
        simp only [List.filter_cons, hsilent, Bool.not_false, if_true] at hloud
        cases pre with
        | cons m pre =>
          have hm := hmessages m (by simp)
          obtain ⟨rfl, -⟩ := List.cons.inj hloud
          rw [hmessage] at hm
          cases hm
        | nil =>
          have hrest : ∀ s', processChanges outputRewrites s' l = processChanges outputRewrites s' post := by
            intro s'
            exact ih s' hpost.symm (List.cons.inj hloud).2
          simp only [List.nil_append, processChanges, hrest]

/-- No message ends where the record of a row of another (sub)transaction starts for which
something is to be done. -/
def NoSharedLsn (outputRewrites : Bool) (changes : List (Change (Data τ))) : Prop :=
  ∀ m ∈ changes, ∀ c ∈ changes, m.data.isMessage = true → c.data.isMessage = false →
    c.data.silent outputRewrites = false → m.lsn = c.lsn → m.txn = c.txn

instance (outputRewrites : Bool) (changes : List (Change (Data τ))) :
    Decidable (NoSharedLsn outputRewrites changes) :=
  inferInstanceAs (Decidable (∀ m ∈ changes, ∀ c ∈ changes, m.data.isMessage = true →
    c.data.isMessage = false → c.data.silent outputRewrites = false → m.lsn = c.lsn → m.txn = c.txn))

theorem Change.apart_cases (h : l.Pairwise Change.Apart) {a b : Change (Data τ)} (ha : a ∈ l)
    (hb : b ∈ l) (heq : a.lsn = b.lsn) :
    a.txn = b.txn ∨ (a.data.isMessage = true ∧ b.data.isMessage = false) ∨
      (b.data.isMessage = true ∧ a.data.isMessage = false) := by
  have heither : l.Pairwise fun a b => a.Apart b ∨ b.Apart a := h.imp .inl
  have hboth := heither.forall_of_forall_of_flip (fun x _ => .inl (.inl rfl)) (heither.imp Or.symm) ha hb
  rcases hboth with (htxn | hlt | hmessage) | (htxn | hlt | hmessage)
  · exact .inl htxn
  · omega
  · exact .inr (.inl hmessage)
  · exact .inl htxn.symm
  · omega
  · exact .inr (.inr hmessage)

def SameTxn (p : Change (Data τ) → Bool) (changes : List (Change (Data τ))) : Prop :=
  ∀ c ∈ changes, ∀ d ∈ changes, p c = true → p d = true → c.lsn = d.lsn → c.txn = d.txn

theorem sameTxn_rows (h : l.Pairwise Change.Apart) : SameTxn (fun c => !c.data.isMessage) l := by
  intro c hc d hd hrow hrow' heq
  rcases Change.apart_cases h hc hd heq with htxn | ⟨hmessage, -⟩ | ⟨hmessage, -⟩
  · exact htxn
  · simp [hmessage] at hrow
  · simp [hmessage] at hrow'

theorem NoSharedLsn.sameTxn (hno : NoSharedLsn outputRewrites l) (h : l.Pairwise Change.Apart) :
    SameTxn (fun c => !c.data.silent outputRewrites) l := by
  intro c hc d hd hloud hloud' heq
  simp only [Bool.not_eq_true'] at hloud hloud'
  rcases Change.apart_cases h hc hd heq with htxn | ⟨hmessage, hrow⟩ | ⟨hmessage, hrow⟩
  · exact htxn
  · exact hno c hc d hd hmessage hrow hloud' heq
  · exact (hno d hd c hc hmessage hrow hloud heq.symm).symm

theorem Decoded.filter_eq {walSegmentSize top lsn : Nat} {rb : ReorderBuffer (Data τ)}
    {b : Backlog (Data τ)} (h : Decoded walSegmentSize top lsn rb b) :
    ∃ out, Returns walSegmentSize (reorderBufferIterTXNInit walSegmentSize top rb) out ∧ out.length = rb.nentries top ∧
      ∀ p, SameTxn p b.changes → out.filter p = b.changes.filter p := by
  obtain ⟨assigned, hholds, hsub⟩ := h.holds
  obtain ⟨out, hreturns, hsorted, hfilter, hlength⟩ := hholds.returns
  refine ⟨out, hreturns, hlength, fun p hp => ?_⟩
  have hcls : ∀ xid, (out.filter fun c => c.txn = xid) = b.changes.filter fun c => c.txn = xid := by
    intro xid
    rw [hfilter]
    split
    · rfl
    · next hnot =>
      symm
      apply List.filter_eq_nil_iff.mpr
      intro c hc htxn
      obtain rfl : c.txn = xid := by simpa using htxn
      rcases h.member c hc with htop | hmem
      · exact hnot (.inl htop)
      · exact hnot (.inr (hsub _ hmem))
  symm
  refine eq_of_filter_eq Change.lsn Change.txn (h.sorted.filter p) (hsorted.filter p)
    (fun xid => ?_) fun c hc d hd heq => ?_
  · rw [List.filter_comm, ← hcls xid, List.filter_comm]
  · obtain ⟨hc, hpc⟩ := List.mem_filter.mp hc
    obtain ⟨hd, hpd⟩ := List.mem_filter.mp hd
    exact hp c hc d hd hpc hpd heq

theorem Decoded.processes {walSegmentSize top lsn : Nat} {rb : ReorderBuffer (Data τ)}
    {b : Backlog (Data τ)} (h : Decoded walSegmentSize top lsn rb b)
    (hapart : b.changes.Pairwise Change.Apart) (hno : NoSharedLsn outputRewrites b.changes) :
    ∃ out, Returns walSegmentSize (reorderBufferIterTXNInit walSegmentSize top rb) out ∧
      ∀ s, processChanges outputRewrites s out = processChanges outputRewrites s b.changes := by
  obtain ⟨out, hreturns, -, hfilter⟩ := h.filter_eq
  exact ⟨out, hreturns, fun s =>
    processChanges_congr s (hfilter _ (sameTxn_rows hapart)) (hfilter _ (hno.sameTxn hapart))⟩

theorem Wal.WellFormed.replays (walSegmentSize : Nat) {ctx : Context} {top : Nat} {wal : Wal τ}
    {calls : List (Call (Data τ))} (h : wal.WellFormed ctx top)
    (hcalls : (calls.filter fun call => !call.isSerialize) = wal.calls ctx)
    (hno : NoSharedLsn outputRewrites (wal.changes ctx)) :
    ∃ n, ∀ fuel, n ≤ fuel → reorderBufferProcessTXN outputRewrites walSegmentSize top fuel
          (performAll walSegmentSize top calls) =
        processChanges outputRewrites { specinsert := none, toast := [] } (wal.changes ctx) := by
  obtain ⟨lsn, b, hdecoded, hb⟩ := h.decoded walSegmentSize hcalls
  rw [← hb] at hno ⊢
  have hapart : b.changes.Pairwise Change.Apart := by
    rw [hb]
    exact h.apart
  obtain ⟨out, hreturns, hprocess⟩ := hdecoded.processes hapart hno
  refine ⟨out.length + 1, fun fuel hfuel => ?_⟩
  rw [reorderBufferProcessTXN, hreturns.iterAll_eq hfuel, hprocess]

/-- However the records of a transaction and its subtransactions are interleaved and whatever is
spilled, the callbacks of the replay are those of the changes in the order of the WAL, provided
that no message shares its LSN with a row of another (sub)transaction. -/
theorem replay_in_wal_order (walSegmentSize : Nat) (outputRewrites : Bool) {ctx : Context}
    {top : Nat} {wal : Wal τ} {calls : List (Call (Data τ))} (h : wal.WellFormed ctx top)
    (hcalls : (calls.filter fun call => !call.isSerialize) = wal.calls ctx)
    (hno : NoSharedLsn outputRewrites (wal.changes ctx)) :
    ∃ n, ∀ fuel, n ≤ fuel → reorderBufferProcessTXN outputRewrites walSegmentSize top fuel
          (performAll walSegmentSize top calls) =
        processChanges outputRewrites { specinsert := none, toast := [] } (wal.changes ctx) :=
  h.replays walSegmentSize hcalls hno

def anyOrigin : Context where
  database := 5
  filterByOrigin := fun _ => false

def tableRecord (origptr endptr xid : Nat) (topXid : Option Nat) (body : Body Nat) :
    Record Nat where
  origptr := origptr
  endptr := endptr
  xid := xid
  topXid := topXid
  dbOid := 5
  origin := 0
  rlocator := 16384
  relation := .found true false false false
  body := body

def orderedWal : Wal Nat where
  records := [tableRecord 100 110 8 (some 7) (.message true ("job", "started")),
    tableRecord 110 120 8 none (.insert true false false 1),
    tableRecord 120 140 7 none (.multiInsert true true [2, 3])]
  commitPtr := 140
  subxacts := [8]

theorem replay_orderedWal : ∃ n, ∀ fuel, n ≤ fuel → reorderBufferProcessTXN false 64 7 fuel
          (performAll 64 7 (orderedWal.calls anyOrigin ++ [.serialize 8])) =
        processChanges false { specinsert := none, toast := [] } (orderedWal.changes anyOrigin) :=
  replay_in_wal_order 64 false (by decide +kernel) (by decide +kernel) (by decide +kernel)

def sharedLsnWal : Wal Nat where
  records := [tableRecord 100 110 8 (some 7) (.message true ("job", "started")),
    tableRecord 110 120 7 none (.insert true false false 1)]
  commitPtr := 120
  subxacts := [8]

/-- The row is replayed before the message that precedes it in the WAL. -/
theorem row_before_earlier_message : sharedLsnWal.WellFormed anyOrigin 7 ∧
      (processChanges false { specinsert := none, toast := [] } (sharedLsnWal.changes anyOrigin)).1 =
        [.message 110 ("job", "started"),
          .change 7 110 .insert ⟨16384, .found true false false false, none, some 1, true⟩ []] ∧
      ∀ fuel, 3 ≤ fuel → (reorderBufferProcessTXN false 64 7 fuel (performAll 64 7 (sharedLsnWal.calls anyOrigin))).1 =
          [.change 7 110 .insert ⟨16384, .found true false false false, none, some 1, true⟩ [],
            .message 110 ("job", "started")] := by
  refine ⟨by decide +kernel, by decide +kernel, fun fuel hfuel => ?_⟩
  have hreturns : Returns 64 (reorderBufferIterTXNInit 64 7 (performAll 64 7 (sharedLsnWal.calls anyOrigin)))
      [⟨110, 7, .insert ⟨16384, .found true false false false, none, some 1, true⟩⟩,
        ⟨110, 8, .message ("job", "started")⟩] :=
    ⟨_, rfl, _, rfl, rfl⟩
  rw [reorderBufferProcessTXN, hreturns.iterAll_eq hfuel]
  rfl

end CdcKafka.Reorder
