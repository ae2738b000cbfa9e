import CdcKafka.Reorder.Restored
import CdcKafka.Reorder.Rows

/-! Streaming a transaction that is in progress: whenever the memory limit is reached, what was
decoded so far is sent and dropped, each message with a transaction id so that the subscriber can
discard the work of an aborted subtransaction. -/

namespace CdcKafka.Reorder

variable {τ δ : Type}

inductive Content (τ : Type)
  | row (action : RowAction) (tp : TupleChange τ) (toast : List (TupleChange τ))
  | truncate (relids : List Nat) (cascade restartSeqs : Bool)
  | message (lsn : Nat) (text : String × String)
deriving DecidableEq

/-- The plugin's options, and what its publications say of the rows and truncates at an LSN; a row
filter can make an insert or a delete of an update. -/
structure PgOutput (τ : Type) where
  messages : Bool
  publishRow : Nat → RowAction → TupleChange τ → List (TupleChange τ) → Option RowAction
  publishTruncate : Nat → Nat → Bool

def pgoutputChange (data : PgOutput τ) (inStreaming : Bool) (txn lsn : Nat) (action : RowAction)
    (tp : TupleChange τ) (toast : List (TupleChange τ)) : Option (Nat × Content τ) :=
  let xid := if inStreaming then txn else 0
  (data.publishRow lsn action tp toast).map fun action => (xid, .row action tp toast)

def pgoutputTruncate (data : PgOutput τ) (inStreaming : Bool) (txn lsn : Nat) (relids : List Nat)
    (cascade restartSeqs : Bool) : Option (Nat × Content τ) :=
  let xid := if inStreaming then txn else 0
  let relids := relids.filter (data.publishTruncate lsn)
  if relids.isEmpty then none else some (xid, .truncate relids cascade restartSeqs)

def pgoutputMessage (data : PgOutput τ) (inStreaming : Bool) (top lsn : Nat)
    (text : String × String) : Option (Nat × Content τ) :=
  let xid := if inStreaming then top else 0
  if !data.messages then none else some (xid, .message lsn text)

def pgoutput (data : PgOutput τ) (inStreaming : Bool) (top : Nat) :
    Callback τ → Option (Nat × Content τ)
  | .change txn lsn action tp toast => pgoutputChange data inStreaming txn lsn action tp toast
  | .truncate txn lsn relids cascade restartSeqs =>
    pgoutputTruncate data inStreaming txn lsn relids cascade restartSeqs
  | .message lsn text => pgoutputMessage data inStreaming top lsn text

inductive Output (τ : Type)
  | content (xid : Nat) (body : Content τ)
  | streamAbort (xid : Nat)
deriving DecidableEq

def Output.see (seen : List (Nat × Content τ)) : Output τ → List (Nat × Content τ)
  | .content xid body => seen ++ [(xid, body)]
  | .streamAbort xid => seen.filter fun message => message.1 ≠ xid

def visible (out : List (Output τ)) : List (Nat × Content τ) := out.foldl Output.see []

/-- The flags of the top-level transaction, the transactions marked as streamed and the toast
chunks that one run leaves to the next. `sent` is a history variable: the changes streamed so far,
without those of aborted subtransactions. -/
structure Streaming (τ : Type) where
  rb : ReorderBuffer (Data τ)
  hasPartialChange : Bool
  hasStreamableChange : Bool
  streamed : List Nat
  toast : List (TupleChange τ)
  out : List (Output τ)
  failed : Option ReplayError
  sent : List (Change (Data τ))

def Streaming.init : Streaming τ where
  rb := .empty
  hasPartialChange := false
  hasStreamableChange := false
  streamed := []
  toast := []
  out := []
  failed := none
  sent := []

def Data.isStreamable : Data τ → Bool
  | .insert _ | .update _ | .delete _ | .specInsert _ | .truncate _ _ _ | .message _ => true
  | .specConfirm _ | .specAbort _ | .internal => false

def Data.clearsToast : Data τ → Bool
  | .insert tp | .update tp | .specInsert tp => tp.clearToastAfterwards
  | _ => false

def Data.isSpecInsert : Data τ → Bool
  | .specInsert _ => true
  | _ => false

def Data.isSpecConfirmOrAbort : Data τ → Bool
  | .specConfirm _ | .specAbort _ => true
  | _ => false

def reorderBufferProcessPartialChange (hasPartialChange : Bool) (data : Data τ)
    (toastInsert : Bool) : Bool :=
  let flag :=
    if toastInsert then true
    else if hasPartialChange && data.clearsToast then false
    else hasPartialChange
  if data.isSpecInsert then true
  else if flag && data.isSpecConfirmOrAbort then false
  else flag

def Txn.truncate (txn : Txn δ) : Txn δ :=
  { txn with changes := [], nentries := 0, nentriesMem := 0, isSerialized := false,
             files := fun _ => [] }

def reorderBufferTruncateTXN (top : Nat) (rb : ReorderBuffer δ) : ReorderBuffer δ :=
  { rb with byTxn := fun xid =>
      if xid ∈ top :: rb.subtxns then (rb.byTxn xid).map Txn.truncate else rb.byTxn xid }

def reorderBufferMaybeMarkTXNStreamed (top : Nat) (rb : ReorderBuffer δ) : List Nat :=
  top :: rb.subtxns.filter fun xid => ((rb.byTxn xid).map Txn.nentriesMem).getD 0 ≠ 0

section Streaming

variable (walSegmentSize top : Nat) (outputRewrites : Bool) (data : PgOutput τ)

def reorderBufferStreamTXN (st : Streaming τ) : Streaming τ :=
  let iter := reorderBufferIterTXNInit walSegmentSize top st.rb
  let fuel := st.rb.nentries top + 1
  let changes := iterAll walSegmentSize fuel iter
  let rb := (iterEnd walSegmentSize fuel iter).rb
  let (callbacks, result) :=
    processChanges outputRewrites { specinsert := none, toast := st.toast } changes
  let messages := callbacks.filterMap (pgoutput data true top)
  let out := st.out ++ messages.map fun message => .content message.1 message.2
  match result with
  | .error e => { st with out, failed := some e }
  | .ok s =>
    { st with
      rb := reorderBufferTruncateTXN top rb
      streamed := st.streamed ++ reorderBufferMaybeMarkTXNStreamed top rb
      toast := s.toast
      out
      sent := st.sent ++ changes }

inductive Event (δ : Type)
  | call (call : Call δ)
  | memoryLimit
deriving DecidableEq

def reorderBufferReplay (st : Streaming τ) : Streaming τ :=
  if top ∈ st.streamed then reorderBufferStreamTXN walSegmentSize top outputRewrites data st
  else
    let (callbacks, result) := reorderBufferProcessTXN outputRewrites walSegmentSize top
      (st.rb.nentries top + 1) st.rb
    let messages := callbacks.filterMap (pgoutput data false top)
    let out := st.out ++ messages.map fun message => .content message.1 message.2
    match result with
    | .error e => { st with out, failed := some e }
    | .ok _ => { st with out }

def streamStep (st : Streaming τ) : Event (Data τ) → Streaming τ
  | .call (.queue change toastInsert) =>
    { st with
      rb := perform walSegmentSize top st.rb (.queue change toastInsert)
      hasPartialChange :=
        reorderBufferProcessPartialChange st.hasPartialChange change.data toastInsert
      hasStreamableChange := st.hasStreamableChange || change.data.isStreamable }
  | .call (.abort xid) =>
    { st with
      rb := perform walSegmentSize top st.rb (.abort xid)
      streamed := st.streamed.filter fun x => x ≠ xid
      out := if xid ∈ st.streamed then st.out ++ [.streamAbort xid] else st.out
      sent := st.sent.filter fun change => change.txn ≠ xid }
  | .call (.replay lsn) =>
    reorderBufferReplay walSegmentSize top outputRewrites data
      { st with rb := perform walSegmentSize top st.rb (.replay lsn) }
  | .call call => { st with rb := perform walSegmentSize top st.rb call }
  | .memoryLimit =>
    if st.hasPartialChange || !st.hasStreamableChange then st
    else reorderBufferStreamTXN walSegmentSize top outputRewrites data st

def streamRun (st : Streaming τ) : List (Event (Data τ)) → Streaming τ
  | [] => st
  | event :: events =>
    if st.failed.isSome then st
    else streamRun (streamStep walSegmentSize top outputRewrites data st event) events

end Streaming

section Truncate

variable {walSegmentSize top lsn : Nat} {rb rb' : ReorderBuffer δ} {b : Backlog δ} {txn : Txn δ}

theorem Txn.holds_truncate (walSegmentSize : Nat) (txn : Txn δ) : txn.truncate.Holds walSegmentSize [] where
  split := ⟨[], rfl, OnDisk.nil _ fun _ => rfl, fun _ => rfl⟩
  sorted := .nil
  first_le := nofun
  nentries := rfl
  nentriesMem := rfl

theorem Decoded.truncate (h : Decoded walSegmentSize top lsn rb b) (hkeeps : Keeps (top :: rb.subtxns) rb rb') :
    Decoded walSegmentSize top lsn (reorderBufferTruncateTXN top rb') { b with changes := [] } := by
  obtain ⟨assigned, hholds, hsub⟩ := h.holds
  refine ⟨⟨assigned, ⟨?_, fun _ _ => rfl, nofun, nofun, ?_, ?_⟩, hsub⟩, .nil, nofun, nofun⟩
  · intro x txn hx
    simp only [reorderBufferTruncateTXN, hkeeps.subtxns] at hx
    split at hx
    · next hmem =>
      obtain ⟨txn', htxn', rfl⟩ := Option.map_eq_some_iff.mp hx
      refine ⟨txn'.holds_truncate walSegmentSize, ?_⟩
      have hfirst := hkeeps.firstLsn x
      rw [htxn'] at hfirst
      obtain ⟨txn₀, htxn₀, heq⟩ := Option.map_eq_some_iff.mp hfirst.symm
      have hle := (hholds.known x txn₀ htxn₀).2
      rw [heq] at hle
      exact hle
    · next hmem =>
      rw [hkeeps.others x hmem] at hx
      obtain ⟨htxn, hle⟩ := hholds.known x txn hx
      -- nothing is queued outside of the transaction
      have hnil : (b.changes.filter fun change => change.txn = x) = [] := by
        apply List.filter_eq_nil_iff.mpr
        intro c hc heq
        obtain rfl : c.txn = x := by simpa using heq
        rcases h.member c hc with htop | hmem'
        · exact hmem (by simp [htop])
        · exact hmem (List.mem_cons_of_mem _ ((hholds.subtxns _).mpr (hsub _ hmem')))
      rw [hnil] at htxn
      exact ⟨htxn, hle⟩
  · intro x
    rw [← hholds.subtxns x]
    simp only [reorderBufferTruncateTXN, hkeeps.subtxns]
  · simp only [reorderBufferTruncateTXN, hkeeps.subtxns]
    exact hholds.nodup

end Truncate

section Visible

variable {out : List (Output τ)}

@[simp] theorem visible_nil : visible ([] : List (Output τ)) = [] := rfl

theorem visible_streamAbort (out : List (Output τ)) (xid : Nat) :
    visible (out ++ [.streamAbort xid]) = (visible out).filter fun message => message.1 ≠ xid := by
  simp [visible, Output.see]

theorem visible_contents (out : List (Output τ)) (messages : List (Nat × Content τ)) :
    visible (out ++ messages.map fun message => .content message.1 message.2) = visible out ++ messages := by
  unfold visible
  rw [List.foldl_append]
  generalize out.foldl Output.see [] = seen
  induction messages generalizing seen with
  | nil => simp
  | cons message messages ih => simp [ih, Output.see]

end Visible

section Invariant

variable {walSegmentSize top lsn : Nat} {outputRewrites : Bool} {data : PgOutput τ}
  {all : List (Change (Data τ))} {st : Streaming τ} {b B : Backlog (Data τ)} {o o' : RowState}

/-- The buffer holds `b`, the part of the whole backlog `B` that was not streamed yet, and `all` has
what is ever queued. What is visible of the output is what the streamed changes give in one go. -/
structure Streaming.Inv (walSegmentSize top : Nat) (outputRewrites : Bool) (data : PgOutput τ)
    (lsn : Nat) (all : List (Change (Data τ))) (st : Streaming τ) (b B : Backlog (Data τ))
    (o : RowState) : Prop where
  decoded : Decoded walSegmentSize top lsn st.rb b
  subtxns : b.subtxns = B.subtxns
  mem : ∀ c ∈ b.changes, c ∈ B.changes
  queued : ∀ c ∈ B.changes, c ∈ all
  rows : Tracks outputRewrites .complete b.changes o
  sentRows : Tracks outputRewrites .complete st.sent .complete
  hasPartial : o ≠ .complete → st.hasPartialChange = true
  toast : st.toast = []
  ok : st.failed = none
  marked : ∀ c ∈ st.sent, c.txn = top ∨ c.txn ∈ st.streamed
  unsent : top ∉ st.streamed → st.streamed = [] ∧ st.out = [] ∧ st.sent = []
  visible : visible st.out = (processChanges outputRewrites ⟨none, []⟩ st.sent).1.filterMap (pgoutput data true top)
  same : ∀ p, SameTxn p B.changes → (st.sent ++ b.changes).filter p = B.changes.filter p

def SpillFits (top : Nat) (rb : ReorderBuffer δ) : Prop :=
  ∀ x ∈ rb.subtxns, ((rb.byTxn x).map Txn.nentries).getD 0 ≤ maxChangesInMemory ∨
    ∀ y ∈ [top, x], ((rb.byTxn y).map Txn.isSerialized).getD false = false

instance (top : Nat) (rb : ReorderBuffer δ) : Decidable (SpillFits top rb) :=
  inferInstanceAs (Decidable (∀ x ∈ rb.subtxns, _ ∨ ∀ y ∈ [top, x], _))

theorem streaming_init (walSegmentSize top : Nat) (outputRewrites : Bool) (data : PgOutput τ)
    (all : List (Change (Data τ))) :
    Streaming.init.Inv walSegmentSize top outputRewrites data 0 all ⟨[], []⟩ ⟨[], []⟩ .complete where
  decoded := decoded_empty walSegmentSize top
  subtxns := rfl
  mem _ hc := (List.not_mem_nil hc).elim
  queued _ hc := (List.not_mem_nil hc).elim
  rows := tracks_nil.mpr rfl
  sentRows := tracks_nil.mpr rfl
  hasPartial h := (h rfl).elim
  toast := rfl
  ok := rfl
  marked _ hc := (List.not_mem_nil hc).elim
  unsent _ := ⟨rfl, rfl, rfl⟩
  visible := rfl
  same _ _ := rfl

def Data.isChunkInsert (outputRewrites : Bool) : Data τ → Bool
  | .insert tp => tp.fate outputRewrites = .chunk
  | _ => false

theorem partial_of_track {c : Change (Data τ)} {flag : Bool}
    (h : o.track outputRewrites c = some o') (hflag : o ≠ .complete → flag = true)
    (ho' : o' ≠ .complete) :
    reorderBufferProcessPartialChange flag c.data (c.data.isChunkInsert outputRewrites) = true := by
  unfold RowState.track at h
  have hrow : ∀ {txn : Nat} {clearToast : Bool}, o.row txn clearToast = some o' → clearToast = false ∧ flag = true := by
    intro txn clearToast hrow
    rcases RowState.row_cases hrow with ⟨-, hcomplete⟩ | ⟨rfl, heq⟩
    · exact (ho' hcomplete).elim
    · refine ⟨?_, hflag (by simp)⟩
      cases clearToast with
      | true => exact (ho' (by simpa using heq)).elim
      | false => rfl
  cases hdata : c.data with
  | insert tp =>
    rw [hdata] at h
    simp only at h
    split at h
    · next hfate =>
      obtain ⟨hclear, rfl⟩ := hrow h
      simp [reorderBufferProcessPartialChange, Data.isChunkInsert, Data.clearsToast,
        Data.isSpecInsert, Data.isSpecConfirmOrAbort, hfate, hclear]
    · exact (ho' (Option.some.inj h).symm).elim
    · next hfate =>
      simp [reorderBufferProcessPartialChange, Data.isChunkInsert, Data.isSpecInsert, Data.isSpecConfirmOrAbort, hfate]
    · next hfate =>
      simp [reorderBufferProcessPartialChange, Data.isChunkInsert, Data.isSpecInsert, Data.isSpecConfirmOrAbort, hfate]
    · cases h
  | update tp =>
    rw [hdata] at h
    simp only at h
    split at h
    · obtain ⟨hclear, rfl⟩ := hrow h
      simp [reorderBufferProcessPartialChange, Data.isChunkInsert, Data.clearsToast,
        Data.isSpecInsert, Data.isSpecConfirmOrAbort, hclear]
    · exact (ho' (Option.some.inj h).symm).elim
    · cases h
  | specInsert tp => simp [reorderBufferProcessPartialChange, Data.isSpecInsert]
  | specConfirm tp =>
    rw [hdata] at h
    simp only at h
    split at h
    · split at h
      · exact (ho' (Option.some.inj h).symm).elim
      · cases h
    · cases h
  | specAbort tp =>
    rw [hdata] at h
    simp only at h
    split at h
    · exact (ho' (Option.some.inj h).symm).elim
    · split at h
      · exact (ho' (Option.some.inj h).symm).elim
      · cases h
    · cases h
  | delete tp =>
    rw [hdata] at h
    simp only at h
    split at h
    · exact (ho' (Option.some.inj h).symm).elim
    · exact (ho' (Option.some.inj h).symm).elim
    · exact (ho' (Option.some.inj h).symm).elim
    · simp [reorderBufferProcessPartialChange, Data.isChunkInsert, Data.clearsToast,
        Data.isSpecInsert, Data.isSpecConfirmOrAbort, hflag]
    · cases h
  | truncate relids cascade restartSeqs =>
    rw [hdata] at h
    simp only at h
    split at h
    · obtain rfl := Option.some.inj h
      simp [reorderBufferProcessPartialChange, Data.isChunkInsert, Data.clearsToast,
        Data.isSpecInsert, Data.isSpecConfirmOrAbort, hflag ho']
    · cases h
  | message text =>
    rw [hdata] at h
    obtain rfl := Option.some.inj h
    simp [reorderBufferProcessPartialChange, Data.isChunkInsert, Data.clearsToast,
      Data.isSpecInsert, Data.isSpecConfirmOrAbort, hflag ho']
  | internal =>
    rw [hdata] at h
    obtain rfl := Option.some.inj h
    simp [reorderBufferProcessPartialChange, Data.isChunkInsert, Data.clearsToast,
      Data.isSpecInsert, Data.isSpecConfirmOrAbort, hflag ho']

theorem SameTxn.of_mem {p : Change (Data τ) → Bool} {l l' : List (Change (Data τ))}
    (h : SameTxn p l) (hmem : ∀ c ∈ l', c ∈ l) : SameTxn p l' :=
  fun c hc d hd => h c (hmem c hc) d (hmem d hd)

theorem Streaming.Inv.queue {change : Change (Data τ)}
    (h : st.Inv walSegmentSize top outputRewrites data lsn all b B o) (hle : lsn ≤ change.lsn)
    (hlegal : change.txn = top ∨ change.txn ∈ B.subtxns) (hmem : change ∈ all)
    (htrack : o.track outputRewrites change = some o') :
    (streamStep walSegmentSize top outputRewrites data st
      (.call (.queue change (change.data.isChunkInsert outputRewrites)))).Inv walSegmentSize top
      outputRewrites data change.lsn all { b with changes := b.changes ++ [change] }
      { B with changes := B.changes ++ [change] } o' := by
  refine ⟨h.decoded.queue hle (by rwa [h.subtxns]), h.subtxns, ?_, ?_, ?_, h.sentRows, ?_, h.toast,
    h.ok, h.marked, h.unsent, h.visible, ?_⟩
  · intro c hc
    rcases List.mem_append.mp hc with hc | hc
    · exact List.mem_append_left _ (h.mem c hc)
    · exact List.mem_append_right _ hc
  · intro c hc
    rcases List.mem_append.mp hc with hc | hc
    · exact h.queued c hc
    · obtain rfl := List.mem_singleton.mp hc
      exact hmem
  · exact tracks_append.mpr ⟨o, h.rows, tracks_cons.mpr ⟨o', htrack, tracks_nil.mpr rfl⟩⟩
  · exact partial_of_track htrack h.hasPartial
  · intro p hp
    have hsame := h.same p (hp.of_mem fun c hc => List.mem_append_left _ hc)
    show (st.sent ++ (b.changes ++ [change])).filter p = (B.changes ++ [change]).filter p
    rw [← List.append_assoc, List.filter_append, hsame, List.filter_append]

theorem Streaming.Inv.keep {rb : ReorderBuffer (Data τ)} {lsn' : Nat} {subtxns : List Nat}
    (h : st.Inv walSegmentSize top outputRewrites data lsn all b B o)
    (hdecoded : Decoded walSegmentSize top lsn' rb { b with subtxns }) :
    Streaming.Inv walSegmentSize top outputRewrites data lsn' all { st with rb }
      { b with subtxns } { B with subtxns } o :=
  ⟨hdecoded, rfl, h.mem, h.queued, h.rows, h.sentRows, h.hasPartial, h.toast, h.ok, h.marked, h.unsent,
    h.visible, h.same⟩

theorem pgoutput_tag {cb : Callback τ} {message : Nat × Content τ} (h : pgoutput data true top cb = some message) :
    message.1 = cb.txn?.getD top ∧ (cb.txn? = none → data.messages = true) := by
  cases cb with
  | change txn lsn action tp toast =>
    obtain ⟨action', -, rfl⟩ := Option.map_eq_some_iff.mp h
    exact ⟨rfl, nofun⟩
  | truncate txn lsn relids cascade restartSeqs =>
    simp only [pgoutput, pgoutputTruncate] at h
    split at h
    · cases h
    · obtain rfl := Option.some.inj h
      exact ⟨rfl, nofun⟩
  | message lsn text =>
    simp only [pgoutput, pgoutputMessage] at h
    split at h
    · cases h
    · next hmessages =>
      obtain rfl := Option.some.inj h
      exact ⟨rfl, fun _ => by simpa using hmessages⟩

theorem visible_abort {sent : List (Change (Data τ))} {xid : Nat}
    (h : Tracks outputRewrites .complete sent .complete) (hne : xid ≠ top)
    (hmessages : data.messages = true → ∀ c ∈ sent, c.data.isMessage = true → c.txn ≠ xid) :
    (((processChanges outputRewrites ⟨none, []⟩ sent).1.filterMap (pgoutput data true top)).filter
        fun message => message.1 ≠ xid) =
      (processChanges outputRewrites ⟨none, []⟩ (sent.filter fun c => c.txn ≠ xid)).1.filterMap
        (pgoutput data true top) := by
  have hfilter := h.filterMap (s := ⟨none, []⟩) (pgoutput data true top)
    (fun message => message.1 ≠ xid) (fun x => x ≠ xid) rfl ?_ ?_
  · simpa using hfilter
  · intro cb message hmessage x hx
    have htag := (pgoutput_tag hmessage).1
    rw [hx, Option.getD_some] at htag
    simp [htag]
  · intro c hc hdata cb message hmessage hnone
    obtain ⟨htag, henabled⟩ := pgoutput_tag hmessage
    rw [hnone, Option.getD_none] at htag
    have hsurvives := hmessages (henabled hnone) c hc hdata
    simp [htag, hsurvives, Ne.symm hne]

theorem Streaming.Inv.abort {xid : Nat}
    (h : st.Inv walSegmentSize top outputRewrites data lsn all b B o) (hne : xid ≠ top)
    (hmessages : data.messages = true → ∀ c ∈ st.sent, c.data.isMessage = true → c.txn ≠ xid) :
    (streamStep walSegmentSize top outputRewrites data st (.call (.abort xid))).Inv walSegmentSize
      top outputRewrites data lsn all (b.perform (.abort xid)) (B.perform (.abort xid))
      (o.restrict fun x => x ≠ xid) := by
  have hrestrict := h.sentRows.restrict fun x => x ≠ xid
  simp only [RowState.restrict_complete] at hrestrict
  have hrows := h.rows.restrict fun x => x ≠ xid
  rw [RowState.restrict_complete] at hrows
  refine ⟨h.decoded.abort hne, ?_, ?_, fun c hc => h.queued c (List.mem_filter.mp hc).1, hrows, hrestrict, ?_, h.toast,
    h.ok, ?_, ?_, ?_, ?_⟩
  · simp only [Backlog.perform, h.subtxns]
  · intro c hc
    obtain ⟨hc, htxn⟩ := List.mem_filter.mp hc
    exact List.mem_filter.mpr ⟨h.mem c hc, htxn⟩
  · intro hopen
    refine h.hasPartial ?_
    rintro rfl
    exact hopen RowState.restrict_complete
  · intro c hc
    obtain ⟨hc, htxn⟩ := List.mem_filter.mp hc
    rcases h.marked c hc with htop | hmem
    · exact .inl htop
    · exact .inr (List.mem_filter.mpr ⟨hmem, htxn⟩)
  · intro htop
    have htop' : top ∉ st.streamed := by
      intro hmem
      exact htop (List.mem_filter.mpr ⟨hmem, by simpa using Ne.symm hne⟩)
    obtain ⟨hstreamed, hout, hsent⟩ := h.unsent htop'
    simp [streamStep, hstreamed, hout, hsent]
  · have habort := visible_abort h.sentRows hne hmessages
    rw [← h.visible] at habort
    simp only [streamStep]
    split
    · rw [visible_streamAbort, habort]
    · next hnot =>
      -- nothing of it was sent
      have hall : (st.sent.filter fun c => c.txn ≠ xid) = st.sent := by
        apply List.filter_eq_self.mpr
        intro c hc
        rcases h.marked c hc with htop | hmem
        · simpa [htop] using Ne.symm hne
        · have : c.txn ≠ xid := fun heq => hnot (heq ▸ hmem)
          simpa using this
      rw [hall]
      exact h.visible
  · intro p hp
    have hsame := h.same (fun c => p c && decide (c.txn ≠ xid)) ?_
    · simp only [streamStep, Backlog.perform, List.filter_append, List.filter_filter] at hsame ⊢
      exact hsame
    · intro c hc d hd hpc hpd heq
      simp only [Bool.and_eq_true] at hpc hpd
      exact hp c (List.mem_filter.mpr ⟨hc, hpc.2⟩) d (List.mem_filter.mpr ⟨hd, hpd.2⟩) hpc.1 hpd.1 heq

theorem Streaming.Inv.streamTXN (h : st.Inv walSegmentSize top outputRewrites data lsn all b B o)
    (hall : SameTxn (fun c => !c.data.isMessage) all) (ho : o = .complete) :
    ∃ changes rb, Keeps (top :: st.rb.subtxns) st.rb rb ∧
      (∀ p, SameTxn p b.changes → changes.filter p = b.changes.filter p) ∧
      Tracks outputRewrites .complete changes .complete ∧
      (SpillFits top st.rb → ∀ c ∈ changes, c.txn = top ∨ c.txn ∈ reorderBufferMaybeMarkTXNStreamed top rb) ∧
      reorderBufferStreamTXN walSegmentSize top outputRewrites data st =
        { st with
          rb := reorderBufferTruncateTXN top rb
          streamed := st.streamed ++ reorderBufferMaybeMarkTXNStreamed top rb
          toast := []
          out := st.out ++ ((processChanges outputRewrites ⟨none, []⟩ changes).1.filterMap
            (pgoutput data true top)).map fun message => .content message.1 message.2
          sent := st.sent ++ changes } := by
  obtain ⟨changes, hreturns, hlength, hfilter⟩ := h.decoded.filter_eq
  have hiter : iterAll walSegmentSize (st.rb.nentries top + 1)
      (reorderBufferIterTXNInit walSegmentSize top st.rb) = changes :=
    hreturns.iterAll_eq (by omega)
  obtain ⟨assigned, hholds, hsub⟩ := h.decoded.holds
  obtain ⟨hkeeps, hmemory⟩ := hholds.iterEnd (st.rb.nentries top + 1)
  -- the rows come in the order of the backlog
  have hrows : Tracks outputRewrites .complete changes .complete := by
    have hsame := hfilter (fun c => !c.data.isMessage) (hall.of_mem fun c hc => h.queued c (h.mem c hc))
    rw [← tracks_rows, hsame, tracks_rows, ← ho]
    exact ho ▸ h.rows
  have hcls : ∀ c ∈ changes, c ∈ b.changes := by
    intro c hc
    have hc' : c ∈ changes.filter fun d => d.txn = c.txn := by simpa using hc
    rw [hfilter _ fun d _ e _ hd he _ => by simp at hd he; rw [hd, he]] at hc'
    exact (List.mem_filter.mp hc').1
  refine ⟨changes, _, hkeeps, hfilter, hrows, ?_, ?_⟩
  · intro hfits c hc
    have hcb := hcls c hc
    rcases h.decoded.member c hcb with htop | hmem
    · exact .inl htop
    · have hsubtxn : c.txn ∈ st.rb.subtxns := (hholds.subtxns _).mpr (hsub _ hmem)
      have hne : (b.changes.filter fun d => d.txn = c.txn) ≠ [] := by
        apply List.ne_nil_of_mem (a := c)
        simpa using hcb
      have hfits' : (b.changes.filter fun d => d.txn = c.txn).length ≤ maxChangesInMemory ∨
          ∀ y txn, y = top ∨ y = c.txn → st.rb.byTxn y = some txn → txn.isSerialized = false := by
        rcases hfits c.txn hsubtxn with hsmall | hnone
        · refine .inl ?_
          cases hknown : st.rb.byTxn c.txn with
          | none => exact (hne (hholds.unknown _ hknown)).elim
          | some txn =>
            rw [hknown] at hsmall
            rw [← (hholds.known _ txn hknown).1.nentries]
            exact hsmall
        · refine .inr fun y txn hy htxn => ?_
          have hserialized := hnone y (by simpa using hy)
          rwa [htxn] at hserialized
      obtain ⟨txn, htxn, -, hpos⟩ := (hmemory c.txn hsubtxn hne hfits').counters
      refine .inr (List.mem_cons_of_mem _ (List.mem_filter.mpr ⟨?_, ?_⟩))
      · rw [hkeeps.subtxns]
        exact hsubtxn
      · rw [htxn]
        simpa using Nat.pos_iff_ne_zero.mp hpos
  · obtain ⟨s', hresult, hs'⟩ := hrows.processChanges (s := ⟨none, []⟩) rfl
    obtain rfl : s' = ⟨none, []⟩ := hs'
    simp only [reorderBufferStreamTXN, hiter, h.toast, hresult]

theorem Streaming.Inv.memoryLimit (h : st.Inv walSegmentSize top outputRewrites data lsn all b B o)
    (hall : SameTxn (fun c => !c.data.isMessage) all) (hfits : SpillFits top st.rb) :
    ∃ b', (streamStep walSegmentSize top outputRewrites data st .memoryLimit).Inv walSegmentSize top
      outputRewrites data lsn all b' B o := by
  simp only [streamStep]
  split
  · exact ⟨b, h⟩
  · next hflags =>
    have ho : o = .complete := by
      by_contra hopen
      simp [h.hasPartial hopen] at hflags
    obtain ⟨changes, rb, hkeeps, hfilter, hrows, hmarked, hstream⟩ := h.streamTXN hall ho
    rw [hstream]
    have hnone : ∀ c ∈ ([] : List (Change (Data τ))), c ∈ B.changes :=
      fun _ hc => (List.not_mem_nil hc).elim
    refine ⟨{ b with changes := [] }, h.decoded.truncate hkeeps, h.subtxns, hnone, h.queued,
      tracks_nil.mpr ho, tracks_append.mpr ⟨_, h.sentRows, hrows⟩, h.hasPartial, rfl, h.ok, ?_, ?_,
      ?_, ?_⟩
    · intro c hc
      rcases List.mem_append.mp hc with hc | hc
      · rcases h.marked c hc with htop | hmem
        · exact .inl htop
        · exact .inr (List.mem_append_left _ hmem)
      · rcases hmarked hfits c hc with htop | hmem
        · exact .inl htop
        · exact .inr (List.mem_append_right _ hmem)
    · intro htop
      exact (htop (by simp [reorderBufferMaybeMarkTXNStreamed])).elim
    · rw [visible_contents, h.visible, h.sentRows.processChanges_append, List.filterMap_append]
    · intro p hp
      have hsame := h.same p hp
      rw [List.filter_append, ← hfilter p (hp.of_mem h.mem), ← List.filter_append] at hsame
      simpa using hsame

def Call.nextRow (outputRewrites : Bool) (o : RowState) : Call (Data τ) → Option RowState
  | .queue change toastInsert =>
    if toastInsert = change.data.isChunkInsert outputRewrites then o.track outputRewrites change
    else none
  | .abort xid => some (o.restrict fun x => x ≠ xid)
  | _ => some o

/-- The rows of the WAL are written one after the other: nothing else of the transaction comes
between the toast chunks or the speculative insertion of a row and the row or its confirmation,
unless the subtransaction is aborted. -/
def Wal.WholeRows (ctx : Context) (outputRewrites : Bool) (wal : Wal τ) : Prop :=
  (wal.calls ctx).foldlM (Call.nextRow outputRewrites) .complete = some .complete

instance (ctx : Context) (outputRewrites : Bool) (wal : Wal τ) :
    Decidable (wal.WholeRows ctx outputRewrites) :=
  decEq ((wal.calls ctx).foldlM (Call.nextRow outputRewrites) .complete) (some .complete)

def Event.call? : Event δ → Option (Call δ)
  | .call c => some c
  | .memoryLimit => none

/-- No message of an aborted subtransaction was sent, and nothing is streamed of a subtransaction
that was spilled with more changes than fit into memory. -/
def Event.Safe (top : Nat) (data : PgOutput τ) (st : Streaming τ) : Event (Data τ) → Prop
  | .call (.abort xid) =>
    data.messages = true → ∀ c ∈ st.sent, c.data.isMessage = true → c.txn ≠ xid
  | .memoryLimit =>
    st.hasPartialChange = false → st.hasStreamableChange = true → SpillFits top st.rb
  | _ => True

instance (top : Nat) (data : PgOutput τ) (st : Streaming τ) :
    ∀ event : Event (Data τ), Decidable (event.Safe top data st)
  | .call (.abort xid) => inferInstanceAs (Decidable (data.messages = true → ∀ c ∈ st.sent,
      c.data.isMessage = true → c.txn ≠ xid))
  | .memoryLimit => inferInstanceAs (Decidable (st.hasPartialChange = false →
      st.hasStreamableChange = true → SpillFits top st.rb))
  | .call (.processXid _ _) | .call (.assignChild _ _) | .call (.queue _ _) | .call (.serialize _)
  | .call (.commitChild _ _) | .call (.replay _) => inferInstanceAs (Decidable True)

def SafeFrom (walSegmentSize top : Nat) (outputRewrites : Bool) (data : PgOutput τ) :
    Streaming τ → List (Event (Data τ)) → Prop
  | _, [] => True
  | st, event :: events =>
    event.Safe top data st ∧ SafeFrom walSegmentSize top outputRewrites data
      (streamStep walSegmentSize top outputRewrites data st event) events

instance decidableSafeFrom (walSegmentSize top : Nat) (outputRewrites : Bool) (data : PgOutput τ) :
    ∀ (st : Streaming τ) (events : List (Event (Data τ))),
      Decidable (SafeFrom walSegmentSize top outputRewrites data st events)
  | _, [] => inferInstanceAs (Decidable True)
  | st, event :: events =>
    have := decidableSafeFrom walSegmentSize top outputRewrites data
      (streamStep walSegmentSize top outputRewrites data st event) events
    inferInstanceAs (Decidable (event.Safe top data st ∧ SafeFrom walSegmentSize top outputRewrites
      data (streamStep walSegmentSize top outputRewrites data st event) events))

theorem Streaming.Inv.call {call : Call (Data τ)} (h : st.Inv walSegmentSize top outputRewrites data lsn all b B o)
    (hlegal : call.Legal top B) (hle : ∀ l, call.lsn? = some l → lsn ≤ l)
    (hrow : call.nextRow outputRewrites o = some o')
    (hmem : ∀ change toastInsert, call = .queue change toastInsert → change ∈ all)
    (hreplay : ∀ l, call ≠ .replay l) (hsafe : (Event.call call).Safe top data st) :
    ∃ b', (streamStep walSegmentSize top outputRewrites data st (.call call)).Inv walSegmentSize top
      outputRewrites data (call.lsn?.getD lsn) all b' (B.perform call) o' := by
  have hlegal' : call.Legal top b := by
    cases call with
    | queue change toastInsert => simpa [Call.Legal, h.subtxns] using hlegal
    | _ => exact hlegal
  cases call with
  | queue change toastInsert =>
    simp only [Call.nextRow] at hrow
    split at hrow
    · next hflag =>
      subst hflag
      exact ⟨_, h.queue (hle _ rfl) hlegal (hmem change _ rfl) hrow⟩
    · cases hrow
  | abort xid =>
    obtain rfl := Option.some.inj hrow
    exact ⟨_, h.abort hlegal hsafe⟩
  | assignChild subxid lsn' =>
    obtain rfl := Option.some.inj hrow
    have hkeep := h.keep (h.decoded.step hlegal' hle)
    rw [h.subtxns] at hkeep
    exact ⟨_, hkeep⟩
  | processXid xid lsn' | serialize xid | commitChild subxid lsn' =>
    obtain rfl := Option.some.inj hrow
    have hkeep := h.keep (h.decoded.step hlegal' hle)
    rw [h.subtxns] at hkeep
    exact ⟨_, hkeep⟩
  | replay lsn' => exact (hreplay lsn' rfl).elim

theorem Streaming.Inv.run {events : List (Event (Data τ))}
    (h : st.Inv walSegmentSize top outputRewrites data lsn all b B o)
    (hall : SameTxn (fun c => !c.data.isMessage) all)
    (hlegal : LegalFrom top B (events.filterMap Event.call?))
    (hlsns : ((events.filterMap Event.call?).filterMap Call.lsn?).Pairwise (· ≤ ·))
    (hle : ∀ l ∈ (events.filterMap Event.call?).filterMap Call.lsn?, lsn ≤ l)
    (hrows : (events.filterMap Event.call?).foldlM (Call.nextRow outputRewrites) o = some o')
    (hmem : ∀ change toastInsert, .call (.queue change toastInsert) ∈ events → change ∈ all)
    (hreplay : ∀ l, .call (.replay l) ∉ events)
    (hsafe : SafeFrom walSegmentSize top outputRewrites data st events) :
    ∃ lsn' b', (lsn' = lsn ∨ lsn' ∈ (events.filterMap Event.call?).filterMap Call.lsn?) ∧
      (streamRun walSegmentSize top outputRewrites data st events).Inv walSegmentSize top
        outputRewrites data lsn' all b' ((events.filterMap Event.call?).foldl Backlog.perform B)
        o' := by
  induction events generalizing lsn st b B o with
  | nil =>
    obtain rfl : o = o' := by simpa using hrows
    exact ⟨lsn, b, .inl rfl, h⟩
  | cons event events ih =>
    have hrun : streamRun walSegmentSize top outputRewrites data st (event :: events) =
        streamRun walSegmentSize top outputRewrites data
          (streamStep walSegmentSize top outputRewrites data st event) events := by
      simp [streamRun, h.ok]
    rw [hrun]
    have hmem' : ∀ change toastInsert, .call (.queue change toastInsert) ∈ events → change ∈ all :=
      fun change toastInsert hin => hmem change toastInsert (by simp [hin])
    have hreplay' : ∀ l, .call (.replay l) ∉ events := fun l hin => hreplay l (by simp [hin])
    cases event with
    | memoryLimit =>
      simp only [List.filterMap_cons, Event.call?] at hlegal hlsns hle hrows ⊢
      have hstep : ∃ b', (streamStep walSegmentSize top outputRewrites data st .memoryLimit).Inv
          walSegmentSize top outputRewrites data lsn all b' B o := by
        by_cases hflags : st.hasPartialChange = false ∧ st.hasStreamableChange = true
        · exact h.memoryLimit hall (hsafe.1 hflags.1 hflags.2)
        · refine ⟨b, ?_⟩
          have hskip : (st.hasPartialChange || !st.hasStreamableChange) = true := by
            by_contra hne
            exact hflags (by simpa using hne)
          simpa only [streamStep, hskip, if_true] using h
      obtain ⟨b', hstep⟩ := hstep
      exact ih hstep hlegal hlsns hle hrows hmem' hreplay' hsafe.2
    | call call =>
      simp only [List.filterMap_cons, Event.call?] at hlegal hlsns hle hrows ⊢
      simp only [List.foldlM_cons, Option.bind_eq_bind, Option.bind_eq_some_iff] at hrows
      obtain ⟨o₁, hrow, hrows⟩ := hrows
      have hcall : ∀ l, call.lsn? = some l → lsn ≤ l := by
        intro l hl
        exact hle l (by simp [hl])
      obtain ⟨b', hstep⟩ := h.call hlegal.1 hcall hrow
        (fun change toastInsert heq => hmem change toastInsert (by simp [heq]))
        (fun l heq => hreplay l (by simp [heq])) hsafe.1
      cases hlsn : call.lsn? with
      | none =>
        rw [hlsn] at hstep
        simp only [hlsn] at hlsns hle ⊢
        exact ih hstep hlegal.2 hlsns hle hrows hmem' hreplay' hsafe.2
      | some l =>
        rw [hlsn] at hstep
        simp only [hlsn, List.pairwise_cons] at hlsns ⊢
        obtain ⟨lsn', b'', hlsn', hinv⟩ :=
          ih hstep hlegal.2 hlsns.2 hlsns.1 hrows hmem' hreplay' hsafe.2
        refine ⟨lsn', b'', .inr ?_, hinv⟩
        rcases hlsn' with rfl | hlsn'
        · exact List.mem_cons_self
        · exact List.mem_cons_of_mem _ hlsn'

theorem contents_eq (data : PgOutput τ) (top : Nat) (callbacks : List (Callback τ)) :
    (callbacks.filterMap (pgoutput data true top)).map Prod.snd =
      (callbacks.filterMap (pgoutput data false top)).map Prod.snd := by
  have hone : ∀ cb : Callback τ, (pgoutput data true top cb).map Prod.snd =
      (pgoutput data false top cb).map Prod.snd := by
    intro cb
    cases cb with
    | change txn lsn action tp toast =>
      simp [pgoutput, pgoutputChange, Function.comp_def]
    | truncate txn lsn relids cascade restartSeqs =>
      simp only [pgoutput, pgoutputTruncate]
      split <;> rfl
    | message lsn text =>
      simp only [pgoutput, pgoutputMessage]
      split <;> rfl
  simp only [List.map_filterMap, hone]

theorem Streaming.Inv.replay {commitPtr : Nat} (h : st.Inv walSegmentSize top outputRewrites data lsn all b B .complete)
    (hall : SameTxn (fun c => !c.data.isMessage) all) (hle : lsn ≤ commitPtr)
    (hapart : B.changes.Pairwise Change.Apart) (hno : NoSharedLsn outputRewrites B.changes) :
    (Reorder.visible (streamStep walSegmentSize top outputRewrites data st
        (.call (.replay commitPtr))).out).map Prod.snd =
      ((processChanges outputRewrites ⟨none, []⟩ B.changes).1.filterMap (pgoutput data false top)).map Prod.snd := by
  have hkeep : Streaming.Inv walSegmentSize top outputRewrites data commitPtr all
      { st with rb := perform walSegmentSize top st.rb (.replay commitPtr) } b B .complete := by
    have hdecoded : Decoded walSegmentSize top commitPtr (perform walSegmentSize top st.rb (.replay commitPtr)) b :=
      h.decoded.keep hle fun _ assigned hholds =>
        ⟨assigned, hholds.setFinalLsn top, fun _ hx => hx⟩
    exact ⟨hdecoded, h.subtxns, h.mem, h.queued, h.rows, h.sentRows, h.hasPartial, h.toast, h.ok,
      h.marked, h.unsent, h.visible, h.same⟩
  -- whatever was sent and whatever is left give what the whole backlog gives
  have hcongr : ∀ changes : List (Change (Data τ)), (∀ p, SameTxn p b.changes → changes.filter p = b.changes.filter p) →
      processChanges outputRewrites ⟨none, []⟩ (st.sent ++ changes) =
        processChanges outputRewrites ⟨none, []⟩ B.changes := by
    intro changes hfilter
    have hsame : ∀ p, SameTxn p B.changes → (st.sent ++ changes).filter p = B.changes.filter p := by
      intro p hp
      rw [List.filter_append, hfilter p (hp.of_mem h.mem), ← List.filter_append, h.same p hp]
    exact processChanges_congr _ (hsame _ (sameTxn_rows hapart)) (hsame _ (hno.sameTxn hapart))
  simp only [streamStep, reorderBufferReplay]
  split
  · obtain ⟨changes, rb, -, hfilter, hrows, -, hstream⟩ := hkeep.streamTXN hall rfl
    rw [hstream]
    simp only
    rw [visible_contents, h.visible, ← List.filterMap_append]
    have happend := h.sentRows.processChanges_append changes
    rw [hcongr changes hfilter] at happend
    rw [happend]
    exact contents_eq data top _
  · next htop =>
    obtain ⟨-, hout, hsent⟩ := h.unsent htop
    obtain ⟨changes, hreturns, hlength, hfilter⟩ := hkeep.decoded.filter_eq
    have hprocess : reorderBufferProcessTXN outputRewrites walSegmentSize top
        ((perform walSegmentSize top st.rb (.replay commitPtr)).nentries top + 1)
        (perform walSegmentSize top st.rb (.replay commitPtr)) =
        processChanges outputRewrites ⟨none, []⟩ B.changes := by
      rw [reorderBufferProcessTXN, hreturns.iterAll_eq (Nat.lt_succ_of_le (Nat.le_of_eq hlength))]
      simpa [hsent] using hcongr changes hfilter
    have hvisible : ∀ messages : List (Nat × Content τ),
        Reorder.visible (st.out ++ messages.map fun message => .content message.1 message.2) = messages := by
      intro messages
      rw [visible_contents, hout, visible_nil, List.nil_append]
    rw [hprocess]
    split <;> simp only [hvisible]

theorem streamRun_append (st : Streaming τ) (events events' : List (Event (Data τ))) :
    streamRun walSegmentSize top outputRewrites data st (events ++ events') =
      streamRun walSegmentSize top outputRewrites data
        (streamRun walSegmentSize top outputRewrites data st events) events' := by
  induction events generalizing st with
  | nil => rfl
  | cons event events ih =>
    rw [List.cons_append, streamRun, streamRun]
    split
    · next hfailed =>
      cases events' with
      | nil => rfl
      | cons event' events' => rw [streamRun, if_pos hfailed]
    · exact ih _

theorem foldlM_nextRow_filter (calls : List (Call (Data τ))) (o : RowState) :
    (calls.filter fun call => !call.isSerialize).foldlM (Call.nextRow outputRewrites) o =
      calls.foldlM (Call.nextRow outputRewrites) o := by
  induction calls generalizing o with
  | nil => rfl
  | cons call calls ih =>
    cases hcall : call.isSerialize with
    | true =>
      obtain ⟨xid, rfl⟩ := Call.eq_serialize hcall
      simpa [hcall, Call.nextRow] using ih o
    | false => simp [hcall, List.foldlM_cons, ih]

theorem Wal.queue_mem {ctx : Context} {wal : Wal τ} {change : Change (Data τ)} (toastInsert : Bool)
    (h : .queue change toastInsert ∈ wal.calls ctx) :
    change ∈ wal.records.flatMap (Record.changes ctx) := by
  simp only [Wal.calls, decodeCommit, logicalDecodingProcessRecord, List.mem_append,
    List.mem_flatMap, List.mem_map, List.mem_singleton, reduceCtorEq, or_false, and_false,
    exists_false] at h
  obtain ⟨r, hr, h⟩ := h
  refine List.mem_flatMap.mpr ⟨r, hr, ?_⟩
  rcases h with h | ⟨c, hc, heq⟩
  · split at h
    · simp at h
    · simp at h
  · obtain ⟨rfl, -⟩ := Call.queue.inj heq
    exact hc

theorem Wal.replay_not_mem {ctx : Context} {wal : Wal τ} {l : Nat} :
    .replay l ∉ wal.records.flatMap (logicalDecodingProcessRecord ctx) ++
      wal.subxacts.map fun subxid => .commitChild subxid wal.commitPtr := by
  simp only [logicalDecodingProcessRecord, List.mem_append, List.mem_flatMap, List.mem_map,
    List.mem_singleton, reduceCtorEq, or_false, and_false, exists_false, not_exists, not_and]
  intro r hr hmem
  split at hmem <;> simp at hmem

/-- Whenever the memory limit is reached, and whatever is spilled and aborted, what the subscriber
keeps of the streamed output is what the replay of the whole transaction gives, provided that
nothing goes wrong on the way. -/
theorem streaming_refines_replay (walSegmentSize : Nat) (outputRewrites : Bool) (data : PgOutput τ)
    {ctx : Context} {top : Nat} {wal : Wal τ} {events : List (Event (Data τ))}
    {calls : List (Call (Data τ))} (h : wal.WellFormed ctx top)
    (hrows : wal.WholeRows ctx outputRewrites)
    (hevents : ((events.filterMap Event.call?).filter fun call => !call.isSerialize) ++
      [.replay wal.commitPtr] = wal.calls ctx)
    (hcalls : (calls.filter fun call => !call.isSerialize) = wal.calls ctx)
    (hno : NoSharedLsn outputRewrites (wal.changes ctx))
    (hsafe : SafeFrom walSegmentSize top outputRewrites data .init events) :
    ∃ n, ∀ fuel, n ≤ fuel → (visible (streamRun walSegmentSize top outputRewrites data .init
          (events ++ [.call (.replay wal.commitPtr)])).out).map Prod.snd =
        ((reorderBufferProcessTXN outputRewrites walSegmentSize top fuel
          (performAll walSegmentSize top calls)).1.filterMap (pgoutput data false top)).map Prod.snd := by
  obtain ⟨n, hreplays⟩ := h.replays walSegmentSize hcalls hno
  refine ⟨n, fun fuel hfuel => ?_⟩
  rw [hreplays fuel hfuel]
  have hlegal := h.legal
  have hlsns := h.lsns
  rw [Wal.WholeRows, ← hevents, List.foldlM_append, foldlM_nextRow_filter] at hrows
  obtain ⟨o, hrows, hlast⟩ := Option.bind_eq_some_iff.mp hrows
  obtain rfl : o = .complete := by simpa [Call.nextRow] using hlast
  rw [← hevents, legalFrom_append] at hlegal
  rw [← hevents, List.filterMap_append, filterMap_lsn_filter] at hlsns
  obtain ⟨hsorted, -, hlast⟩ := List.pairwise_append.mp hlsns
  have hqueue : ∀ change toastInsert, .call (.queue change toastInsert) ∈ events →
      change ∈ wal.records.flatMap (Record.changes ctx) := by
    intro change toastInsert hin
    apply Wal.queue_mem toastInsert
    rw [← hevents]
    refine List.mem_append_left _ (List.mem_filter.mpr ⟨?_, rfl⟩)
    exact List.mem_filterMap.mpr ⟨_, hin, rfl⟩
  have hreplay : ∀ l, .call (.replay l) ∉ events := by
    intro l hin
    have hpre : ((events.filterMap Event.call?).filter fun call => !call.isSerialize) =
        wal.records.flatMap (logicalDecodingProcessRecord ctx) ++
          wal.subxacts.map fun subxid => .commitChild subxid wal.commitPtr := by
      apply List.append_cancel_right
      rw [hevents, Wal.calls, decodeCommit, List.append_assoc]
    have hmem : .replay l ∈ (events.filterMap Event.call?).filter fun call => !call.isSerialize :=
      List.mem_filter.mpr ⟨List.mem_filterMap.mpr ⟨_, hin, rfl⟩, rfl⟩
    rw [hpre] at hmem
    exact Wal.replay_not_mem hmem
  have hrows_all := sameTxn_rows h.apart_all
  obtain ⟨lsn, b, hlsn, hinv⟩ := (streaming_init walSegmentSize top outputRewrites data
    (wal.records.flatMap (Record.changes ctx))).run hrows_all (legalFrom_of_filter hlegal.1) hsorted
    (fun l _ => Nat.zero_le l) hrows hqueue hreplay hsafe
  have hle : lsn ≤ wal.commitPtr := by
    rcases hlsn with rfl | hlsn
    · exact Nat.zero_le _
    · exact hlast lsn hlsn wal.commitPtr (by simp [Call.lsn?])
  have hB : ((events.filterMap Event.call?).foldl Backlog.perform ⟨[], []⟩).changes = wal.changes ctx := by
    rw [← foldl_perform_filter, ← wal.backlog_calls, backlog, ← hevents, List.foldl_append]
    rfl
  rw [streamRun_append, streamRun, if_neg (by simp [hinv.ok]), streamRun,
    hinv.replay hrows_all hle (by rw [hB]; exact h.apart) (by rwa [hB]), hB]

end Invariant

def publishAll : PgOutput Nat where
  messages := true
  publishRow := fun _ action _ _ => some action
  publishTruncate := fun _ _ => true

def abortedRowWal : Wal Nat where
  records := [tableRecord 100 110 7 none (.insert true false false 1),
    tableRecord 110 120 8 (some 7) (.insert true false false 2),
    tableRecord 120 130 8 none (.abort []),
    tableRecord 130 140 7 none (.message true ("job", "done"))]
  commitPtr := 140
  subxacts := []

def abortedRowEvents : List (Event (Data Nat)) :=
  (abortedRowWal.calls anyOrigin).dropLast.flatMap fun call =>
    if call.lsn? = some 110 then [.call call, .memoryLimit] else [.call call]

/-- The second row was sent and is dropped. -/
theorem streaming_abortedRow : ∃ n, ∀ fuel, n ≤ fuel → (visible (streamRun 64 7 false publishAll .init
          (abortedRowEvents ++ [.call (.replay abortedRowWal.commitPtr)])).out).map Prod.snd =
        ((reorderBufferProcessTXN false 64 7 fuel (performAll 64 7 (abortedRowWal.calls anyOrigin))).1.filterMap
            (pgoutput publishAll false 7)).map Prod.snd := by
  have hwal : abortedRowWal.WellFormed anyOrigin 7 := by decide +kernel
  exact streaming_refines_replay 64 false publishAll hwal (by decide +kernel) (by decide +kernel)
    (by decide +kernel) (by decide +kernel) (by decide +kernel)

def abortedMessageWal : Wal Nat where
  records := [tableRecord 100 110 7 none (.insert true false false 1),
    tableRecord 110 120 8 (some 7) (.message true ("job", "done")),
    tableRecord 120 130 8 none (.abort [])]
  commitPtr := 130
  subxacts := []

def abortedMessageEvents : List (Event (Data Nat)) :=
  (abortedMessageWal.calls anyOrigin).dropLast.flatMap fun call =>
    if call = .abort 8 then [.memoryLimit, .call call] else [.call call]

/-- The message is sent under the id of the top-level transaction and so it is not dropped, whereas
the replay has no such message. -/
theorem aborted_message_stays : abortedMessageWal.WellFormed anyOrigin 7 ∧ abortedMessageWal.WholeRows anyOrigin false ∧
      (visible (streamRun 64 7 false publishAll .init
          (abortedMessageEvents ++ [.call (.replay 130)])).out).map Prod.snd =
        [.row .insert ⟨16384, .found true false false false, none, some 1, true⟩ [],
          .message 120 ("job", "done")] ∧
      ∀ fuel, 2 ≤ fuel → ((reorderBufferProcessTXN false 64 7 fuel
          (performAll 64 7 (abortedMessageWal.calls anyOrigin))).1.filterMap
            (pgoutput publishAll false 7)).map Prod.snd =
          [.row .insert ⟨16384, .found true false false false, none, some 1, true⟩ []] := by
  refine ⟨by decide +kernel, by decide +kernel, by decide +kernel, fun fuel hfuel => ?_⟩
  have hreturns : Returns 64 (reorderBufferIterTXNInit 64 7 (performAll 64 7 (abortedMessageWal.calls anyOrigin)))
      [⟨100, 7, .insert ⟨16384, .found true false false false, none, some 1, true⟩⟩] :=
    ⟨_, rfl, rfl⟩
  rw [reorderBufferProcessTXN, hreturns.iterAll_eq hfuel]
  rfl

end CdcKafka.Reorder
