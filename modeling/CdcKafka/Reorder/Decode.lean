import CdcKafka.Reorder.Iterate

/-! Decoding WAL records into the changes of a transaction: each record's calls into the reorder
buffer, and the changes that the buffer then holds. -/

namespace CdcKafka.Reorder
open CdcKafka.Lib

variable {τ δ : Type}

inductive Lookup
  | unmapped
  | notOpened
  | found (logicallyLogged relrewrite sequence toast : Bool)
deriving DecidableEq

structure TupleChange (τ : Type) where
  rlocator : Nat
  relation : Lookup
  oldtuple : Option τ
  newtuple : Option τ
  clearToastAfterwards : Bool
deriving DecidableEq

inductive Data (τ : Type)
  | insert (tp : TupleChange τ)
  | update (tp : TupleChange τ)
  | delete (tp : TupleChange τ)
  | specInsert (tp : TupleChange τ)
  | specConfirm (tp : TupleChange τ)
  | specAbort (tp : TupleChange τ)
  /-- Each relation with whether it can be opened, and then whether it is logically logged. -/
  | truncate (relids : List (Nat × Option Bool)) (cascade restartSeqs : Bool)
  | message (text : String × String)
  | internal
deriving DecidableEq

def Data.isMessage : Data τ → Bool
  | .message _ => true
  | _ => false

inductive Body (τ : Type)
  | insert (containsNewTuple speculative onToastRelation : Bool) (newtuple : τ)
  | update (newtuple oldtuple : Option τ)
  | delete (super : Bool) (oldtuple : Option τ)
  | multiInsert (containsNewTuple lastInMulti : Bool) (tuples : List τ)
  | confirm
  | truncate (relids : List (Nat × Option Bool)) (cascade restartSeqs : Bool)
  | message (transactional : Bool) (text : String × String)
  | internal
  | abort (subxacts : List Nat)
  | other
deriving DecidableEq

structure Record (τ : Type) where
  origptr : Nat
  endptr : Nat
  xid : Nat
  topXid : Option Nat
  dbOid : Nat
  origin : Nat
  rlocator : Nat
  relation : Lookup
  body : Body τ
deriving DecidableEq

structure Context where
  database : Nat
  filterByOrigin : Nat → Bool

def Record.tuple (r : Record τ) (oldtuple newtuple : Option τ) (clearToast : Bool) :
    TupleChange τ where
  rlocator := r.rlocator
  relation := r.relation
  oldtuple := oldtuple
  newtuple := newtuple
  clearToastAfterwards := clearToast

def Record.wanted (ctx : Context) (r : Record τ) : Bool :=
  r.dbOid == ctx.database && !ctx.filterByOrigin r.origin

def decodeInsert (r : Record τ) (containsNewTuple speculative : Bool) (newtuple : τ) :
    List (Data τ) :=
  if !containsNewTuple then []
  else if !speculative then [.insert (r.tuple none (some newtuple) true)]
  else [.specInsert (r.tuple none (some newtuple) true)]

def decodeDelete (r : Record τ) (super : Bool) (oldtuple : Option τ) : List (Data τ) :=
  if super then [.specAbort (r.tuple oldtuple none true)]
  else [.delete (r.tuple oldtuple none true)]

def decodeMultiInsert (r : Record τ) (lastInMulti : Bool) : List τ → List (Data τ)
  | [] => []
  | [tuple] => [.insert (r.tuple none (some tuple) lastInMulti)]
  | tuple :: next :: rest =>
    .insert (r.tuple none (some tuple) false) :: decodeMultiInsert r lastInMulti (next :: rest)

def decodeData (ctx : Context) (r : Record τ) : List (Data τ) :=
  match r.body with
  | .internal => [.internal]
  | .abort _ => []
  | .other => []
  | body =>
    if !r.wanted ctx then []
    else
      match body with
      | .insert containsNewTuple speculative _ newtuple =>
        decodeInsert r containsNewTuple speculative newtuple
      | .update newtuple oldtuple => [.update (r.tuple oldtuple newtuple true)]
      | .delete super oldtuple => decodeDelete r super oldtuple
      | .multiInsert containsNewTuple lastInMulti tuples =>
        if !containsNewTuple then [] else decodeMultiInsert r lastInMulti tuples
      | .confirm => [.specConfirm (r.tuple none none true)]
      | .truncate relids cascade restartSeqs => [.truncate relids cascade restartSeqs]
      | .message transactional text => if transactional then [.message text] else []
      | _ => []

def Record.queueLsn (r : Record τ) : Nat :=
  match r.body with
  | .message _ _ => r.endptr
  | _ => r.origptr

def Record.toastInsert (r : Record τ) : Bool :=
  match r.body with
  | .insert _ _ onToastRelation _ => onToastRelation
  | _ => false

def Record.aborts (r : Record τ) : List Nat :=
  match r.body with
  | .abort subxacts => subxacts ++ [r.xid]
  | _ => []

def Record.changes (ctx : Context) (r : Record τ) : List (Change (Data τ)) :=
  (decodeData ctx r).map fun data => { lsn := r.queueLsn, txn := r.xid, data }

inductive Call (δ : Type)
  | processXid (xid lsn : Nat)
  | assignChild (subxid lsn : Nat)
  | queue (change : Change δ) (toastInsert : Bool)
  | serialize (xid : Nat)
  | abort (xid : Nat)
  | commitChild (subxid lsn : Nat)
  | replay (lsn : Nat)
deriving DecidableEq

def Call.lsn? : Call δ → Option Nat
  | .processXid _ lsn | .assignChild _ lsn | .commitChild _ lsn | .replay lsn => some lsn
  | .queue change _ => some change.lsn
  | .serialize _ | .abort _ => none

def Call.isSerialize : Call δ → Bool
  | .serialize _ => true
  | _ => false

def logicalDecodingProcessRecord (ctx : Context) (r : Record τ) : List (Call (Data τ)) :=
  (if r.topXid.isSome then [.assignChild r.xid r.origptr] else []) ++
    [.processXid r.xid r.origptr] ++ (r.changes ctx).map (fun change => .queue change r.toastInsert) ++
      r.aborts.map .abort

def decodeCommit (origptr : Nat) (subxacts : List Nat) : List (Call δ) :=
  subxacts.map (fun subxid => .commitChild subxid origptr) ++ [.replay origptr]

def reorderBufferProcessXid (rb : ReorderBuffer δ) (xid lsn : Nat) : ReorderBuffer δ :=
  rb.set xid (reorderBufferTXNByXid rb xid lsn)

def reorderBufferAbort (rb : ReorderBuffer δ) (xid : Nat) : ReorderBuffer δ where
  byTxn := Function.update rb.byTxn xid none
  subtxns := rb.subtxns.filter fun subxid => subxid ≠ xid

def reorderBufferCommitChild (rb : ReorderBuffer δ) (xid subxid lsn : Nat) : ReorderBuffer δ :=
  match rb.byTxn subxid with
  | none => rb
  | some _ => reorderBufferAssignChild (setFinalLsn rb subxid lsn) xid subxid 0

def perform (walSegmentSize top : Nat) (rb : ReorderBuffer δ) : Call δ → ReorderBuffer δ
  | .processXid xid lsn => reorderBufferProcessXid rb xid lsn
  | .assignChild subxid lsn => reorderBufferAssignChild rb top subxid lsn
  | .queue change _ => reorderBufferQueueChange rb change.txn change.lsn change.data
  | .serialize xid => reorderBufferSerializeTXN walSegmentSize top rb xid
  | .abort xid => reorderBufferAbort rb xid
  | .commitChild subxid lsn => reorderBufferCommitChild rb top subxid lsn
  | .replay lsn => setFinalLsn rb top lsn

def performAll (walSegmentSize top : Nat) (calls : List (Call δ)) : ReorderBuffer δ :=
  calls.foldl (perform walSegmentSize top) .empty

structure Backlog (δ : Type) where
  changes : List (Change δ)
  subtxns : List Nat

def Backlog.perform (b : Backlog δ) : Call δ → Backlog δ
  | .assignChild subxid _ => { b with subtxns := b.subtxns ++ [subxid] }
  | .queue change _ => { b with changes := b.changes ++ [change] }
  | .abort xid =>
    { changes := b.changes.filter fun change => change.txn ≠ xid
      subtxns := b.subtxns.filter fun subxid => subxid ≠ xid }
  | _ => b

def backlog (calls : List (Call δ)) : Backlog δ :=
  calls.foldl Backlog.perform { changes := [], subtxns := [] }

def Call.Legal (top : Nat) (b : Backlog δ) : Call δ → Prop
  | .assignChild subxid _ | .commitChild subxid _ => subxid ≠ top
  | .queue change _ => change.txn = top ∨ change.txn ∈ b.subtxns
  | .abort xid => xid ≠ top
  | _ => True

structure Decoded (walSegmentSize top lsn : Nat) (rb : ReorderBuffer δ) (b : Backlog δ) : Prop where
  holds : ∃ assigned, rb.Holds walSegmentSize top lsn
      (fun xid => b.changes.filter fun change => change.txn = xid) assigned ∧
    ∀ subxid ∈ b.subtxns, subxid ∈ assigned
  sorted : b.changes.Pairwise fun a b => a.lsn ≤ b.lsn
  le : ∀ change ∈ b.changes, change.lsn ≤ lsn
  member : ∀ change ∈ b.changes, change.txn = top ∨ change.txn ∈ b.subtxns

section Decoded

variable {walSegmentSize top lsn : Nat} {rb : ReorderBuffer δ} {b : Backlog δ}

theorem decoded_empty (walSegmentSize top : Nat) :
    Decoded walSegmentSize top 0 (.empty : ReorderBuffer δ) ⟨[], []⟩ where
  holds := ⟨[], holds_empty walSegmentSize top, nofun⟩
  sorted := .nil
  le := nofun
  member := nofun

theorem ReorderBuffer.Holds.abort {queuedBy : Nat → List (Change δ)} {assigned : List Nat}
    (h : rb.Holds walSegmentSize top lsn queuedBy assigned) (xid : Nat) :
    (reorderBufferAbort rb xid).Holds walSegmentSize top lsn
      (fun x => if x = xid then [] else queuedBy x) (assigned.filter fun x => x ≠ xid) where
  known x txn hx := by
    by_cases heq : x = xid
    · subst heq
      simp [reorderBufferAbort] at hx
    · rw [if_neg heq]
      exact h.known x txn (by simpa [reorderBufferAbort, Function.update_of_ne heq] using hx)
  unknown x hx := by
    split
    · rfl
    · next heq =>
      exact h.unknown x (by simpa [reorderBufferAbort, Function.update_of_ne heq] using hx)
  queued_le x c hc := by
    split at hc
    · cases hc
    · exact h.queued_le x c hc
  queued_txn x c hc := by
    split at hc
    · cases hc
    · exact h.queued_txn x c hc
  subtxns x := by
    simp [reorderBufferAbort, h.subtxns]
  nodup := by
    obtain ⟨htop, hnodup⟩ := List.nodup_cons.mp h.nodup
    refine List.nodup_cons.mpr ⟨fun hmem => htop (List.mem_filter.mp hmem).1, ?_⟩
    exact hnodup.filter _

theorem Decoded.queue (h : Decoded walSegmentSize top lsn rb b) {change : Change δ}
    (hle : lsn ≤ change.lsn) (htxn : change.txn = top ∨ change.txn ∈ b.subtxns) :
    Decoded walSegmentSize top change.lsn (reorderBufferQueueChange rb change.txn change.lsn change.data)
      { b with changes := b.changes ++ [change] } := by
  obtain ⟨assigned, hholds, hsub⟩ := h.holds
  refine ⟨⟨assigned, ?_, hsub⟩, ?_, ?_, ?_⟩
  · have hqueue := (hholds.mono hle).queue change.txn change.data
    have heq : (fun x => (b.changes.filter fun change => change.txn = x) ++
          if change.txn = x then [{ lsn := change.lsn, txn := x, data := change.data }] else []) =
        fun x => (b.changes ++ [change]).filter fun change => change.txn = x := by
      funext x
      rw [List.filter_append]
      by_cases hx : change.txn = x
      · subst hx
        simp
      · simp [hx]
    rwa [heq] at hqueue
  · refine List.pairwise_append.mpr ⟨h.sorted, List.pairwise_singleton _ _, ?_⟩
    intro a ha c hc
    obtain rfl := List.mem_singleton.mp hc
    exact Nat.le_trans (h.le a ha) hle
  · intro c hc
    rcases List.mem_append.mp hc with hc | hc
    · exact Nat.le_trans (h.le c hc) hle
    · obtain rfl := List.mem_singleton.mp hc
      exact Nat.le_refl _
  · intro c hc
    rcases List.mem_append.mp hc with hc | hc
    · exact h.member c hc
    · obtain rfl := List.mem_singleton.mp hc
      exact htxn

theorem Decoded.abort (h : Decoded walSegmentSize top lsn rb b) {xid : Nat} (hne : xid ≠ top) :
    Decoded walSegmentSize top lsn (reorderBufferAbort rb xid) (b.perform (.abort xid)) := by
  obtain ⟨assigned, hholds, hsub⟩ := h.holds
  refine ⟨⟨assigned.filter fun x => x ≠ xid, ?_, ?_⟩, h.sorted.filter _, ?_, ?_⟩
  · have habort := hholds.abort xid
    have heq : (fun x => if x = xid then [] else b.changes.filter fun change => change.txn = x) =
        fun x => (b.changes.filter fun change => change.txn ≠ xid).filter fun change => change.txn = x := by
      funext x
      rw [List.filter_filter]
      by_cases hx : x = xid
      · subst hx
        simp
      · rw [if_neg hx]
        apply List.filter_congr
        intro change hchange
        by_cases htxn : change.txn = x
        · simp [htxn, hx]
        · simp [htxn]
    rwa [heq] at habort
  · intro subxid hsubxid
    obtain ⟨hmem, hsubne⟩ := List.mem_filter.mp hsubxid
    exact List.mem_filter.mpr ⟨hsub subxid hmem, hsubne⟩
  · intro c hc
    exact h.le c (List.mem_filter.mp hc).1
  · intro c hc
    obtain ⟨hc, hcne⟩ := List.mem_filter.mp hc
    rcases h.member c hc with htop | hmem
    · exact .inl htop
    · exact .inr (List.mem_filter.mpr ⟨hmem, hcne⟩)

theorem Decoded.keep (h : Decoded walSegmentSize top lsn rb b) {lsn' : Nat} (hle : lsn ≤ lsn') {rb' : ReorderBuffer δ}
    (hkeep : ∀ queuedBy assigned, rb.Holds walSegmentSize top lsn' queuedBy assigned →
      ∃ assigned', rb'.Holds walSegmentSize top lsn' queuedBy assigned' ∧ ∀ subxid ∈ assigned, subxid ∈ assigned') :
    Decoded walSegmentSize top lsn' rb' b := by
  obtain ⟨assigned, hholds, hsub⟩ := h.holds
  obtain ⟨assigned', hholds', hsub'⟩ := hkeep _ _ (hholds.mono hle)
  exact ⟨⟨assigned', hholds', fun x hx => hsub' x (hsub x hx)⟩, h.sorted,
    fun c hc => Nat.le_trans (h.le c hc) hle, h.member⟩

theorem Decoded.step (h : Decoded walSegmentSize top lsn rb b) {call : Call δ}
    (hlegal : call.Legal top b) (hle : ∀ l, call.lsn? = some l → lsn ≤ l) :
    Decoded walSegmentSize top (call.lsn?.getD lsn) (perform walSegmentSize top rb call) (b.perform call) := by
  cases call with
  | processXid xid lsn' =>
    exact h.keep (hle lsn' rfl) fun _ assigned hholds =>
      ⟨assigned, hholds.create (Nat.le_refl _) xid, fun _ hx => hx⟩
  | assignChild subxid lsn' =>
    obtain ⟨assigned, hholds, hsub⟩ := h.holds
    have hassign := (hholds.mono (hle lsn' rfl)).assign (Nat.le_refl lsn') hlegal
    refine ⟨⟨_, hassign, ?_⟩, h.sorted, fun c hc => Nat.le_trans (h.le c hc) (hle lsn' rfl), ?_⟩
    · intro x hx
      rcases List.mem_append.mp hx with hx | hx
      · exact List.mem_append_left _ (hsub x hx)
      · exact List.mem_append_right _ hx
    · intro c hc
      rcases h.member c hc with htop | hmem
      · exact .inl htop
      · exact .inr (List.mem_append_left _ hmem)
  | queue change toastInsert => exact h.queue (hle change.lsn rfl) hlegal
  | serialize xid =>
    exact h.keep (Nat.le_refl lsn) fun _ assigned hholds =>
      ⟨assigned, hholds.serialize xid, fun _ hx => hx⟩
  | abort xid => exact h.abort hlegal
  | commitChild subxid lsn' =>
    refine h.keep (hle lsn' rfl) fun _ assigned hholds => ?_
    show ∃ assigned', (reorderBufferCommitChild rb top subxid lsn').Holds walSegmentSize top lsn' _ assigned' ∧ _
    unfold reorderBufferCommitChild
    split
    · exact ⟨assigned, hholds, fun _ hx => hx⟩
    · exact ⟨_, (hholds.setFinalLsn subxid).assign (Nat.zero_le lsn') hlegal, fun _ hx => List.mem_append_left _ hx⟩
  | replay lsn' =>
    exact h.keep (hle lsn' rfl) fun _ assigned hholds =>
      ⟨assigned, hholds.setFinalLsn top, fun _ hx => hx⟩

def LegalFrom (top : Nat) : Backlog δ → List (Call δ) → Prop
  | _, [] => True
  | b, call :: calls => call.Legal top b ∧ LegalFrom top (b.perform call) calls

theorem Decoded.run {calls : List (Call δ)} (h : Decoded walSegmentSize top lsn rb b)
    (hlegal : LegalFrom top b calls) (hlsns : (calls.filterMap Call.lsn?).Pairwise (· ≤ ·))
    (hle : ∀ l ∈ calls.filterMap Call.lsn?, lsn ≤ l) :
    ∃ lsn', Decoded walSegmentSize top lsn' (calls.foldl (perform walSegmentSize top) rb)
      (calls.foldl Backlog.perform b) := by
  induction calls generalizing lsn rb b with
  | nil => exact ⟨lsn, h⟩
  | cons call calls ih =>
    have hstep := h.step hlegal.1 fun l hl => hle l (by simp [hl])
    cases hcall : call.lsn? with
    | none =>
      rw [hcall] at hstep
      simp only [List.filterMap_cons, hcall] at hlsns hle
      exact ih hstep hlegal.2 hlsns hle
    | some l =>
      rw [hcall] at hstep
      simp only [List.filterMap_cons, hcall, List.pairwise_cons] at hlsns
      exact ih hstep hlegal.2 hlsns.2 hlsns.1

theorem Call.eq_serialize {call : Call δ} (h : call.isSerialize = true) : ∃ xid, call = .serialize xid := by
  cases call with
  | serialize xid => exact ⟨xid, rfl⟩
  | _ => cases h

theorem foldl_perform_filter (calls : List (Call δ)) (b : Backlog δ) :
    (calls.filter fun call => !call.isSerialize).foldl Backlog.perform b = calls.foldl Backlog.perform b := by
  induction calls generalizing b with
  | nil => rfl
  | cons call calls ih =>
    cases hcall : call.isSerialize with
    | true =>
      obtain ⟨xid, rfl⟩ := Call.eq_serialize hcall
      simpa [hcall, Backlog.perform] using ih b
    | false => simpa [hcall] using ih (b.perform call)

theorem filterMap_lsn_filter (calls : List (Call δ)) :
    (calls.filter fun call => !call.isSerialize).filterMap Call.lsn? = calls.filterMap Call.lsn? := by
  induction calls with
  | nil => rfl
  | cons call calls ih =>
    cases hcall : call.isSerialize with
    | true =>
      obtain ⟨xid, rfl⟩ := Call.eq_serialize hcall
      simpa [hcall, List.filterMap_cons, Call.lsn?] using ih
    | false => simp [hcall, List.filterMap_cons, ih]

theorem legalFrom_of_filter {calls : List (Call δ)}
    (h : LegalFrom top b (calls.filter fun call => !call.isSerialize)) : LegalFrom top b calls := by
  induction calls generalizing b with
  | nil => trivial
  | cons call calls ih =>
    cases hcall : call.isSerialize with
    | true =>
      obtain ⟨xid, rfl⟩ := Call.eq_serialize hcall
      simp only [List.filter_cons, hcall] at h
      exact ⟨trivial, ih h⟩
    | false =>
      simp only [List.filter_cons, hcall] at h
      exact ⟨h.1, ih h.2⟩

theorem legalFrom_append {calls calls' : List (Call δ)} : LegalFrom top b (calls ++ calls') ↔
      LegalFrom top b calls ∧ LegalFrom top (calls.foldl Backlog.perform b) calls' := by
  induction calls generalizing b with
  | nil => simp [LegalFrom]
  | cons call calls ih => simp [LegalFrom, ih, and_assoc]

end Decoded

structure Wal (τ : Type) where
  records : List (Record τ)
  commitPtr : Nat
  subxacts : List Nat
deriving DecidableEq

structure Record.Valid (top : Nat) (subtxns : List Nat) (r : Record τ) : Prop where
  nonempty : r.origptr < r.endptr
  topXid : ∀ xid, r.topXid = some xid → xid = top ∧ r.xid ≠ top
  known : r.xid = top ∨ r.topXid.isSome ∨ r.xid ∈ subtxns
  aborts : top ∉ r.aborts

instance (top : Nat) (subtxns : List Nat) (r : Record τ) : Decidable (r.Valid top subtxns) :=
  decidable_of_iff (r.origptr < r.endptr ∧ (∀ xid ∈ r.topXid, xid = top ∧ r.xid ≠ top) ∧
      (r.xid = top ∨ r.topXid.isSome ∨ r.xid ∈ subtxns) ∧ top ∉ r.aborts)
    ⟨fun h => ⟨h.1, h.2.1, h.2.2.1, h.2.2.2⟩, fun h => ⟨h.1, h.2, h.3, h.4⟩⟩

def Backlog.record (ctx : Context) (b : Backlog (Data τ)) (r : Record τ) : Backlog (Data τ) where
  changes := (b.changes ++ r.changes ctx).filter fun change => change.txn ∉ r.aborts
  subtxns := (if r.topXid.isSome then b.subtxns ++ [r.xid] else b.subtxns).filter
    fun subxid => subxid ∉ r.aborts

def Follows (ctx : Context) (top commitPtr : Nat) : Nat → Backlog (Data τ) → List (Record τ) → Prop
  | lsn, _, [] => lsn ≤ commitPtr
  | lsn, b, r :: records =>
    lsn ≤ r.origptr ∧ r.Valid top b.subtxns ∧ Follows ctx top commitPtr r.endptr (b.record ctx r) records

instance decidableFollows (ctx : Context) (top commitPtr : Nat) :
    ∀ (lsn : Nat) (b : Backlog (Data τ)) (records : List (Record τ)),
      Decidable (Follows ctx top commitPtr lsn b records)
  | lsn, _, [] => inferInstanceAs (Decidable (lsn ≤ commitPtr))
  | lsn, b, r :: records =>
    have := decidableFollows ctx top commitPtr r.endptr (b.record ctx r) records
    inferInstanceAs (Decidable (lsn ≤ r.origptr ∧ r.Valid top b.subtxns ∧
      Follows ctx top commitPtr r.endptr (b.record ctx r) records))

def Wal.WellFormed (ctx : Context) (top : Nat) (wal : Wal τ) : Prop :=
  Follows ctx top wal.commitPtr 0 ⟨[], []⟩ wal.records ∧ top ∉ wal.subxacts

instance (ctx : Context) (top : Nat) (wal : Wal τ) : Decidable (wal.WellFormed ctx top) :=
  inferInstanceAs (Decidable (_ ∧ _))

def Wal.calls (ctx : Context) (wal : Wal τ) : List (Call (Data τ)) :=
  wal.records.flatMap (logicalDecodingProcessRecord ctx) ++ decodeCommit wal.commitPtr wal.subxacts

def Wal.changes (ctx : Context) (wal : Wal τ) : List (Change (Data τ)) :=
  (wal.records.foldl (Backlog.record ctx) ⟨[], []⟩).changes

section Wal

variable {walSegmentSize top lsn commitPtr : Nat} {ctx : Context} {b : Backlog (Data τ)}
  {r : Record τ} {records : List (Record τ)} {wal : Wal τ}

theorem foldl_queue (changes : List (Change δ)) (toastInsert : Bool) (b : Backlog δ) :
    (changes.map fun change => Call.queue change toastInsert).foldl Backlog.perform b =
      { b with changes := b.changes ++ changes } := by
  induction changes generalizing b with
  | nil => simp
  | cons change changes ih =>
    simp only [List.map_cons, List.foldl_cons, ih, Backlog.perform]
    simp

theorem foldl_abort (xids : List Nat) (b : Backlog δ) : (xids.map Call.abort).foldl Backlog.perform b =
      ⟨b.changes.filter fun change => change.txn ∉ xids, b.subtxns.filter fun subxid => subxid ∉ xids⟩ := by
  induction xids generalizing b with
  | nil => simp
  | cons xid xids ih =>
    simp only [List.map_cons, List.foldl_cons, ih, Backlog.perform, List.filter_filter, List.mem_cons, not_or]
    congr 1
    · apply List.filter_congr
      intro change _
      simp [Bool.and_comm]
    · apply List.filter_congr
      intro subxid _
      simp [Bool.and_comm]

theorem foldl_processRecord (b : Backlog (Data τ)) (r : Record τ) :
    (logicalDecodingProcessRecord ctx r).foldl Backlog.perform b = b.record ctx r := by
  simp only [logicalDecodingProcessRecord, List.foldl_append, foldl_abort, foldl_queue, Backlog.record]
  split <;> rfl

theorem foldl_decodeCommit (b : Backlog δ) (origptr : Nat) (subxacts : List Nat) :
    (decodeCommit origptr subxacts).foldl Backlog.perform b = b := by
  rw [decodeCommit, List.foldl_append]
  induction subxacts generalizing b with
  | nil => rfl
  | cons subxid subxacts ih => exact ih b

theorem foldl_records (records : List (Record τ)) (b : Backlog (Data τ)) :
    (records.flatMap (logicalDecodingProcessRecord ctx)).foldl Backlog.perform b =
      records.foldl (Backlog.record ctx) b := by
  induction records generalizing b with
  | nil => rfl
  | cons r records ih =>
    rw [List.flatMap_cons, List.foldl_append, foldl_processRecord, ih]
    rfl

theorem Wal.backlog_calls (wal : Wal τ) : (backlog (wal.calls ctx)).changes = wal.changes ctx := by
  simp only [backlog, Wal.calls, Wal.changes, List.foldl_append, foldl_decodeCommit, foldl_records]

theorem legalFrom_queue {changes : List (Change δ)} {b : Backlog δ} (toastInsert : Bool)
    (h : ∀ change ∈ changes, change.txn = top ∨ change.txn ∈ b.subtxns) :
    LegalFrom top b (changes.map fun change => .queue change toastInsert) := by
  induction changes generalizing b with
  | nil => trivial
  | cons change changes ih =>
    exact ⟨h change (by simp), ih fun c hc => h c (by simp [hc])⟩

theorem legalFrom_of_forall {calls : List (Call δ)}
    (h : ∀ call ∈ calls, ∀ b : Backlog δ, call.Legal top b) (b : Backlog δ) :
    LegalFrom top b calls := by
  induction calls generalizing b with
  | nil => trivial
  | cons call calls ih => exact ⟨h call (by simp) b, ih (fun c hc => h c (by simp [hc])) _⟩

theorem Record.Valid.legal (h : r.Valid top b.subtxns) : LegalFrom top b (logicalDecodingProcessRecord ctx r) := by
  simp only [logicalDecodingProcessRecord, legalFrom_append]
  refine ⟨⟨⟨?_, trivial, trivial⟩, legalFrom_queue _ fun change hchange => ?_⟩,
    legalFrom_of_forall (fun call hcall b => ?_) _⟩
  · split
    · next hsome =>
      obtain ⟨xid, hxid⟩ := Option.isSome_iff_exists.mp hsome
      exact ⟨(h.topXid xid hxid).2, trivial⟩
    · trivial
  · have htxn : change.txn = r.xid := by
      obtain ⟨data, -, rfl⟩ := List.mem_map.mp hchange
      rfl
    rw [htxn]
    rcases h.known with htop | hsome | hmem
    · exact .inl htop
    · exact .inr (by simp [hsome, Backlog.perform])
    · refine .inr ?_
      split
      · exact List.mem_append_left _ hmem
      · exact hmem
  · obtain ⟨xid, hxid, rfl⟩ := List.mem_map.mp hcall
    exact fun heq => h.aborts (heq ▸ hxid)

theorem Follows.legal (h : Follows ctx top commitPtr lsn b records) :
    LegalFrom top b (records.flatMap (logicalDecodingProcessRecord ctx)) := by
  induction records generalizing lsn b with
  | nil => trivial
  | cons r records ih =>
    rw [List.flatMap_cons, legalFrom_append, foldl_processRecord]
    exact ⟨h.2.1.legal, ih h.2.2⟩

theorem Record.queueLsn_le (h : r.origptr < r.endptr) : r.origptr ≤ r.queueLsn ∧ r.queueLsn ≤ r.endptr := by
  unfold Record.queueLsn
  split <;> omega

theorem lsns_processRecord (ctx : Context) (r : Record τ) :
    ∃ n m, (logicalDecodingProcessRecord ctx r).filterMap Call.lsn? =
      List.replicate n r.origptr ++ List.replicate m r.queueLsn := by
  have hqueue : ((r.changes ctx).map fun change => Call.queue change r.toastInsert).filterMap Call.lsn? =
      List.replicate (decodeData ctx r).length r.queueLsn := by
    simp [Record.changes, List.filterMap_map, Function.comp_def, Call.lsn?, List.map_const']
  have habort : (r.aborts.map (Call.abort (δ := Data τ))).filterMap Call.lsn? = [] := by
    simp [List.filterMap_map, Function.comp_def, Call.lsn?]
  refine ⟨if r.topXid.isSome then 2 else 1, (decodeData ctx r).length, ?_⟩
  simp only [logicalDecodingProcessRecord, List.filterMap_append, hqueue, habort, List.append_nil]
  congr 1
  split <;> rfl

theorem Follows.le_commit (h : Follows ctx top commitPtr lsn b records) : lsn ≤ commitPtr := by
  induction records generalizing lsn b with
  | nil => exact h
  | cons r records ih =>
    obtain ⟨hlsn, hvalid, hrest⟩ := h
    have := ih hrest
    have := hvalid.nonempty
    omega

theorem Follows.lsns (h : Follows ctx top commitPtr lsn b records) :
    ((records.flatMap (logicalDecodingProcessRecord ctx)).filterMap Call.lsn?).Pairwise (· ≤ ·) ∧
      ∀ l ∈ (records.flatMap (logicalDecodingProcessRecord ctx)).filterMap Call.lsn?, lsn ≤ l ∧ l ≤ commitPtr := by
  induction records generalizing lsn b with
  | nil => exact ⟨.nil, nofun⟩
  | cons r records ih =>
    obtain ⟨hlsn, hvalid, hrest⟩ := h
    obtain ⟨hsorted, hbounds⟩ := ih hrest
    have hend : r.endptr ≤ commitPtr := hrest.le_commit
    have hqueue := Record.queueLsn_le hvalid.nonempty
    obtain ⟨n, m, hcalls⟩ := lsns_processRecord ctx r
    rw [List.flatMap_cons, List.filterMap_append, hcalls]
    have hmem : ∀ l ∈ List.replicate n r.origptr ++ List.replicate m r.queueLsn, l = r.origptr ∨ l = r.queueLsn := by
      intro l hl
      rcases List.mem_append.mp hl with hl | hl
      · exact .inl (List.eq_of_mem_replicate hl)
      · exact .inr (List.eq_of_mem_replicate hl)
    refine ⟨List.pairwise_append.mpr ⟨?_, hsorted, ?_⟩, ?_⟩
    · refine List.pairwise_append.mpr ⟨List.pairwise_replicate.mpr (.inr (Nat.le_refl _)),
        List.pairwise_replicate.mpr (.inr (Nat.le_refl _)), ?_⟩
      intro l hl l' hl'
      rw [List.eq_of_mem_replicate hl, List.eq_of_mem_replicate hl']
      exact hqueue.1
    · intro l hl l' hl'
      have := hbounds l' hl'
      rcases hmem l hl with rfl | rfl <;> omega
    · intro l hl
      rcases List.mem_append.mp hl with hl | hl
      · rcases hmem l hl with rfl | rfl <;> omega
      · have := hbounds l hl
        omega

theorem Wal.WellFormed.legal (h : wal.WellFormed ctx top) : LegalFrom top ⟨[], []⟩ (wal.calls ctx) := by
  obtain ⟨hfollows, hsub⟩ := h
  rw [Wal.calls, legalFrom_append]
  refine ⟨hfollows.legal, legalFrom_of_forall (fun call hcall b => ?_) _⟩
  rcases List.mem_append.mp hcall with hcall | hcall
  · obtain ⟨subxid, hsubxid, rfl⟩ := List.mem_map.mp hcall
    exact fun heq => hsub (heq ▸ hsubxid)
  · obtain rfl := List.mem_singleton.mp hcall
    trivial

theorem Wal.WellFormed.lsns (h : wal.WellFormed ctx top) : ((wal.calls ctx).filterMap Call.lsn?).Pairwise (· ≤ ·) := by
  obtain ⟨hsorted, hbounds⟩ := h.1.lsns
  have hcommit : (decodeCommit wal.commitPtr wal.subxacts : List (Call (Data τ))).filterMap
      Call.lsn? = List.replicate (wal.subxacts.length + 1) wal.commitPtr := by
    simp [decodeCommit, List.filterMap_map, Function.comp_def, Call.lsn?, List.map_const', List.replicate_succ']
  rw [Wal.calls, List.filterMap_append, hcommit]
  refine List.pairwise_append.mpr ⟨hsorted, List.pairwise_replicate.mpr (.inr (Nat.le_refl _)), ?_⟩
  intro l hl l' hl'
  rw [List.eq_of_mem_replicate hl']
  exact (hbounds l hl).2

theorem Wal.WellFormed.decoded (walSegmentSize : Nat) {calls : List (Call (Data τ))} (h : wal.WellFormed ctx top)
    (hcalls : (calls.filter fun call => !call.isSerialize) = wal.calls ctx) :
    ∃ lsn b, Decoded walSegmentSize top lsn (performAll walSegmentSize top calls) b ∧ b.changes = wal.changes ctx := by
  have hlegal : LegalFrom top ⟨[], []⟩ calls := by
    apply legalFrom_of_filter
    rw [hcalls]
    exact h.legal
  have hlsns : (calls.filterMap Call.lsn?).Pairwise (· ≤ ·) := by
    rw [← filterMap_lsn_filter, hcalls]
    exact h.lsns
  obtain ⟨lsn, hdecoded⟩ := (decoded_empty walSegmentSize top).run hlegal hlsns fun l _ => Nat.zero_le l
  refine ⟨lsn, _, hdecoded, ?_⟩
  rw [← foldl_perform_filter, hcalls]
  exact wal.backlog_calls

/-- Of two changes, the first one is earlier by its LSN, or belongs to the same transaction, or is
a message that ends where the record of the second one starts. -/
def Change.Apart (a b : Change (Data τ)) : Prop :=
  a.txn = b.txn ∨ a.lsn < b.lsn ∨ (a.data.isMessage = true ∧ b.data.isMessage = false)

theorem decodeMultiInsert_isMessage (lastInMulti : Bool) (tuples : List τ) :
    ∀ data ∈ decodeMultiInsert r lastInMulti tuples, data.isMessage = false := by
  fun_induction decodeMultiInsert r lastInMulti tuples with
  | case1 => exact fun _ h => absurd h List.not_mem_nil
  | case2 tuple => simp [Data.isMessage]
  | case3 tuple next rest ih =>
    intro data hdata
    rcases List.mem_cons.mp hdata with rfl | hdata
    · rfl
    · exact ih data hdata

theorem queueLsn_of_mem {change : Change (Data τ)} (h : change ∈ r.changes ctx) : change.txn = r.xid ∧
      (change.data.isMessage = true ∧ change.lsn = r.endptr ∨
        change.data.isMessage = false ∧ change.lsn = r.origptr) := by
  obtain ⟨data, hdata, rfl⟩ := List.mem_map.mp h
  refine ⟨rfl, ?_⟩
  cases hbody : r.body with
  | message transactional text =>
    left
    simp only [decodeData, hbody] at hdata
    split at hdata
    · cases hdata
    · split at hdata
      · obtain rfl := List.mem_singleton.mp hdata
        exact ⟨rfl, by simp [Record.queueLsn, hbody]⟩
      · cases hdata
  | multiInsert containsNewTuple lastInMulti tuples =>
    right
    refine ⟨?_, by simp [Record.queueLsn, hbody]⟩
    simp only [decodeData, hbody] at hdata
    split at hdata
    · cases hdata
    · split at hdata
      · cases hdata
      · exact decodeMultiInsert_isMessage _ _ _ hdata
  | _ =>
    right
    refine ⟨?_, by simp [Record.queueLsn, hbody]⟩
    simp only [decodeData, hbody, decodeInsert, decodeDelete] at hdata
    grind [Data.isMessage]

structure ReadTo (changes : List (Change (Data τ))) (lsn : Nat) : Prop where
  apart : changes.Pairwise Change.Apart
  le : ∀ change ∈ changes, change.lsn ≤ lsn
  lt : ∀ change ∈ changes, change.data.isMessage = false → change.lsn < lsn

variable {changes : List (Change (Data τ))}

theorem ReadTo.filter (h : ReadTo changes lsn) (p : Change (Data τ) → Bool) : ReadTo (changes.filter p) lsn where
  apart := h.apart.filter p
  le c hc := h.le c (List.mem_filter.mp hc).1
  lt c hc := h.lt c (List.mem_filter.mp hc).1

theorem ReadTo.record (h : ReadTo changes lsn) (hle : lsn ≤ r.origptr)
    (hnonempty : r.origptr < r.endptr) : ReadTo (changes ++ r.changes ctx) r.endptr := by
  refine ⟨List.pairwise_append.mpr ⟨h.apart, ?_, ?_⟩, ?_, ?_⟩
  · apply List.pairwise_of_forall_mem_list
    intro a ha c hc
    exact .inl ((queueLsn_of_mem ha).1.trans (queueLsn_of_mem hc).1.symm)
  · intro a ha c hc
    have hale := h.le a ha
    have halt := h.lt a ha
    obtain ⟨-, ⟨-, hlsn⟩ | ⟨hmessage, hlsn⟩⟩ := queueLsn_of_mem hc
    · exact .inr (.inl (by omega))
    · cases ha' : a.data.isMessage with
      | true => exact .inr (.inr ⟨ha', hmessage⟩)
      | false => exact .inr (.inl (by have := halt ha'; omega))
  · intro c hc
    rcases List.mem_append.mp hc with hc | hc
    · have := h.le c hc
      omega
    · obtain ⟨-, ⟨-, hlsn⟩ | ⟨-, hlsn⟩⟩ := queueLsn_of_mem hc <;> omega
  · intro c hc hmessage
    rcases List.mem_append.mp hc with hc | hc
    · have := h.le c hc
      omega
    · obtain ⟨-, ⟨hmessage', -⟩ | ⟨-, hlsn⟩⟩ := queueLsn_of_mem hc
      · rw [hmessage] at hmessage'
        cases hmessage'
      · omega

theorem Follows.readTo (h : Follows ctx top commitPtr lsn b records) (hread : ReadTo b.changes lsn) :
    ∃ lsn', ReadTo (records.foldl (Backlog.record ctx) b).changes lsn' := by
  induction records generalizing lsn b with
  | nil => exact ⟨lsn, hread⟩
  | cons r records ih =>
    obtain ⟨hle, hvalid, hrest⟩ := h
    exact ih hrest ((hread.record hle hvalid.nonempty).filter _)

theorem Follows.readTo_all (h : Follows ctx top commitPtr lsn b records) (hread : ReadTo changes lsn) :
    ∃ lsn', ReadTo (changes ++ records.flatMap (Record.changes ctx)) lsn' := by
  induction records generalizing lsn b changes with
  | nil => exact ⟨lsn, by simpa using hread⟩
  | cons r records ih =>
    obtain ⟨hle, hvalid, hrest⟩ := h
    obtain ⟨lsn', hall⟩ := ih hrest (hread.record hle hvalid.nonempty)
    exact ⟨lsn', by simpa using hall⟩

theorem readTo_nil : ReadTo ([] : List (Change (Data τ))) 0 := ⟨.nil, fun _ h => absurd h List.not_mem_nil, fun _ h => absurd h List.not_mem_nil⟩

theorem Wal.WellFormed.apart (h : wal.WellFormed ctx top) : (wal.changes ctx).Pairwise Change.Apart := by
  obtain ⟨lsn, hread⟩ := h.1.readTo readTo_nil
  exact hread.apart

theorem Wal.WellFormed.apart_all (h : wal.WellFormed ctx top) :
    (wal.records.flatMap (Record.changes ctx)).Pairwise Change.Apart := by
  obtain ⟨lsn, hread⟩ := h.1.readTo_all readTo_nil
  exact hread.apart

end Wal

end CdcKafka.Reorder
