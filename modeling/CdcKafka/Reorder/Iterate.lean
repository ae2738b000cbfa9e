import CdcKafka.Lib.BinaryHeap
import CdcKafka.Reorder.Spill
import Mathlib.Data.Nat.Basic

/-! Iterating over a transaction and its subtransactions in LSN order: a k-way merge of the
changes of each, those on disk brought back in batches. -/

namespace CdcKafka.Reorder
open CdcKafka.Lib

variable {δ : Type}

structure IterEntry (δ : Type) where
  lsn : Nat
  /-- The change to return next, and those that follow it in memory. -/
  changes : List (Change δ)
  txn : Nat
  fd : Option Nat
  segno : Nat

/-- `entries` and the heap of their offsets, with the buffer that the iteration restores from. -/
structure IterState (δ : Type) where
  rb : ReorderBuffer δ
  entries : Nat → IterEntry δ
  nodes : Nat → Nat
  size : Nat

def IterState.key (st : IterState δ) (off : Nat) : Nat := (st.entries off).lsn

def headLsn (changes : List (Change δ)) : Nat := (changes.head?.map fun change => change.lsn).getD 0

variable (walSegmentSize top : Nat)

def reorderBufferRestoreChanges (rb : ReorderBuffer δ) (xid : Nat) (fd : Option Nat) (segno : Nat) :
    ReorderBuffer δ × Option Nat × Nat :=
  match rb.byTxn xid with
  | some txn =>
    let (txn, fd, segno) := txn.restore walSegmentSize fd segno
    (rb.set xid txn, fd, segno)
  | none => (rb, fd, segno)

def addEntry (st : ReorderBuffer δ × List (IterEntry δ)) (xid : Nat) :
    ReorderBuffer δ × List (IterEntry δ) :=
  match st.1.byTxn xid with
  | none => st
  | some txn =>
    if 0 < txn.nentries then
      let (rb, fd, segno) :=
        if txn.isSerialized then
          reorderBufferRestoreChanges walSegmentSize (reorderBufferSerializeTXN walSegmentSize top st.1 xid) xid none 0
        else (st.1, none, 0)
      let changes := ((rb.byTxn xid).map Txn.changes).getD []
      (rb, st.2 ++ [{ lsn := headLsn changes, changes, txn := xid, fd, segno }])
    else st

def entryAt (entries : List (IterEntry δ)) (off : Nat) : IterEntry δ :=
  entries.getD off { lsn := 0, changes := [], txn := 0, fd := none, segno := 0 }

def reorderBufferIterTXNInit (rb : ReorderBuffer δ) : IterState δ :=
  let (rb, entries) := (top :: rb.subtxns).foldl (addEntry walSegmentSize top) (rb, [])
  { rb
    entries := entryAt entries
    nodes := BinaryHeap.build (fun off => (entryAt entries off).lsn) entries.length id
    size := entries.length }

def IterState.replaceFirst (st : IterState δ) (entry : IterEntry δ) : IterState δ :=
  let entries := Function.update st.entries (st.nodes 0) entry
  { st with
    entries
    nodes := BinaryHeap.replaceFirst (fun off => (entries off).lsn) st.size st.nodes (st.nodes 0) }

def IterState.removeFirst (st : IterState δ) : IterState δ :=
  { st with nodes := BinaryHeap.removeFirst st.key st.size st.nodes, size := st.size - 1 }

def reorderBufferIterTXNNext (st : IterState δ) : Option (Change δ × IterState δ) :=
  if st.size = 0 then none
  else
    let entry := st.entries (st.nodes 0)
    match entry.changes with
    | [] => none
    | change :: next :: rest =>
      some (change, st.replaceFirst { entry with lsn := next.lsn, changes := next :: rest })
    | [change] =>
      match st.rb.byTxn entry.txn with
      | none => none
      | some txn =>
        if txn.nentries ≠ txn.nentriesMem then
          let (txn, fd, segno) := txn.restore walSegmentSize entry.fd entry.segno
          let st := { st with rb := st.rb.set entry.txn txn }
          match txn.changes with
          | next :: rest =>
            some (change, st.replaceFirst { lsn := next.lsn, changes := next :: rest, txn := entry.txn, fd, segno })
          | [] => some (change, st.removeFirst)
        else some (change, st.removeFirst)

def Returns (walSegmentSize : Nat) : IterState δ → List (Change δ) → Prop
  | st, [] => reorderBufferIterTXNNext walSegmentSize st = none
  | st, change :: out => ∃ st', reorderBufferIterTXNNext walSegmentSize st = some (change, st') ∧
      Returns walSegmentSize st' out

variable {walSegmentSize top} {st : IterState δ} {rb : ReorderBuffer δ} {rest : Nat → List (Change δ)}
  {entry : IterEntry δ}

/-- The changes that a transaction has still on disk: there are none left when its counters
agree. -/
def Later (walSegmentSize : Nat) (txn : Txn δ) (fd : Option Nat) (segno : Nat)
    (later : List (Change δ)) : Prop :=
  (later = [] ∧ txn.nentries = txn.nentriesMem) ∨
    ∃ spilled, spilled ≠ [] ∧ txn.OnDisk walSegmentSize spilled ∧ txn.ReadsAt segno fd ∧
      txn.unread walSegmentSize segno fd = later ∧ later.length ≤ txn.nentries ∧
      (txn.nentries = txn.nentriesMem → later = [])

structure EntryHolds (walSegmentSize : Nat) (rb : ReorderBuffer δ) (entry : IterEntry δ)
    (rest : List (Change δ)) : Prop where
  nonempty : entry.changes ≠ []
  lsn : entry.lsn = headLsn entry.changes
  later : ∃ txn later, rb.byTxn entry.txn = some txn ∧ rest = entry.changes ++ later ∧
    Later walSegmentSize txn entry.fd entry.segno later

structure Iterating (walSegmentSize : Nat) (st : IterState δ) (rest : Nat → List (Change δ)) :
    Prop where
  heap : BinaryHeap.HeapFrom st.key st.size 0 st.nodes
  entry : ∀ i < st.size, EntryHolds walSegmentSize st.rb (st.entries (st.nodes i)) (rest (st.entries (st.nodes i)).txn)
  distinct : ∀ i j, i < st.size → j < st.size → (st.entries (st.nodes i)).txn = (st.entries (st.nodes j)).txn → i = j
  others : ∀ xid, (∀ i < st.size, (st.entries (st.nodes i)).txn ≠ xid) → rest xid = []

theorem EntryHolds.congr {rb' : ReorderBuffer δ} {l : List (Change δ)}
    (h : EntryHolds walSegmentSize rb entry l) (hrb : rb'.byTxn entry.txn = rb.byTxn entry.txn) :
    EntryHolds walSegmentSize rb' entry l where
  nonempty := h.nonempty
  lsn := h.lsn
  later := by
    obtain ⟨txn, later, htxn, hrest, hlater⟩ := h.later
    exact ⟨txn, later, by rw [hrb, htxn], hrest, hlater⟩

section Step

variable {l : List (Change δ)}

theorem Iterating.node_ne (h : Iterating walSegmentSize st rest) {i : Nat} (hpos : 0 < i)
    (hi : i < st.size) : st.nodes i ≠ st.nodes 0 := by
  intro heq
  have := h.distinct i 0 hi (by omega) (by rw [heq])
  omega

theorem Iterating.replaceFirst (h : Iterating walSegmentSize st rest) (rb' : ReorderBuffer δ) (hsize : 0 < st.size)
    (hrb : ∀ y, y ≠ (st.entries (st.nodes 0)).txn → rb'.byTxn y = st.rb.byTxn y)
    (htxn : entry.txn = (st.entries (st.nodes 0)).txn)
    (hentry : EntryHolds walSegmentSize rb' entry l) :
    Iterating walSegmentSize (IterState.replaceFirst { st with rb := rb' } entry)
      (Function.update rest (st.entries (st.nodes 0)).txn l) := by
  have hroot : Function.update st.entries (st.nodes 0) entry (st.nodes 0) = entry := by simp
  have hbelow : ∀ j, 0 < j → j < st.size →
      Function.update st.entries (st.nodes 0) entry (st.nodes j) = st.entries (st.nodes j) :=
    fun j hpos hj => Function.update_of_ne (h.node_ne hpos hj) _ _
  have htxns : ∀ j, j < st.size → (Function.update st.entries (st.nodes 0) entry (st.nodes j)).txn =
        (st.entries (st.nodes j)).txn := by
    intro j hj
    rcases Nat.eq_zero_or_pos j with rfl | hpos
    · rw [hroot, htxn]
    · rw [hbelow j hpos hj]
  obtain ⟨p, hp, hnodes⟩ := BinaryHeap.replaceFirst_rearranged
    (fun off => (Function.update st.entries (st.nodes 0) entry off).lsn) st.size st.nodes
  have hnode : ∀ i, (IterState.replaceFirst { st with rb := rb' } entry).nodes i =
      st.nodes (p i) := fun i => congrFun hnodes i
  have hentries : (IterState.replaceFirst { st with rb := rb' } entry).entries =
      Function.update st.entries (st.nodes 0) entry := rfl
  refine ⟨?_, ?_, ?_, ?_⟩
  · refine BinaryHeap.replaceFirst_heap h.heap fun i hpos hi => ?_
    show (Function.update st.entries (st.nodes 0) entry (st.nodes i)).lsn = _
    rw [hbelow i hpos hi]
    rfl
  · intro i hi
    have hpi : p i < st.size := (hp i).mp hi
    rw [hentries, hnode, htxns (p i) hpi]
    rcases Nat.eq_zero_or_pos (p i) with h0 | hpos
    · rw [h0, hroot, Function.update_self]
      exact hentry
    · have hne : (st.entries (st.nodes (p i))).txn ≠ (st.entries (st.nodes 0)).txn := by
        intro heq
        have := h.distinct (p i) 0 hpi hsize heq
        omega
      rw [hbelow (p i) hpos hpi, Function.update_of_ne hne]
      exact (h.entry (p i) hpi).congr (hrb _ hne)
  · intro i j hi hj heq
    rw [hentries, hnode, hnode, htxns (p i) ((hp i).mp hi), htxns (p j) ((hp j).mp hj)] at heq
    exact p.injective (h.distinct (p i) (p j) ((hp i).mp hi) ((hp j).mp hj) heq)
  · intro xid hnone
    have hnot : ∀ j, j < st.size → (st.entries (st.nodes j)).txn ≠ xid := by
      intro j hj
      have hj' : p (p.symm j) < st.size := by simpa using hj
      have hno := hnone (p.symm j) ((hp _).mpr hj')
      rw [hentries, hnode, htxns _ hj', Equiv.apply_symm_apply] at hno
      exact hno
    rw [Function.update_of_ne (Ne.symm (hnot 0 hsize))]
    exact h.others xid hnot

theorem Iterating.removeFirst (h : Iterating walSegmentSize st rest) (rb' : ReorderBuffer δ) (hsize : 0 < st.size)
    (hrb : ∀ y, y ≠ (st.entries (st.nodes 0)).txn → rb'.byTxn y = st.rb.byTxn y) :
    Iterating walSegmentSize (IterState.removeFirst { st with rb := rb' })
      (Function.update rest (st.entries (st.nodes 0)).txn []) := by
  obtain ⟨f, hf, hinj, hsurj, hnodes⟩ :=
    BinaryHeap.removeFirst_rearranged st.key st.size st.nodes
  have hnode : ∀ i < st.size - 1, (IterState.removeFirst { st with rb := rb' }).nodes i =
      st.nodes (f i) := fun i hi => hnodes i hi
  have hne : ∀ i < st.size - 1, (st.entries (st.nodes (f i))).txn ≠ (st.entries (st.nodes 0)).txn := by
    intro i hi heq
    have := h.distinct (f i) 0 (hf i hi).2 hsize heq
    have := (hf i hi).1
    omega
  refine ⟨?_, ?_, ?_, ?_⟩
  · exact BinaryHeap.removeFirst_heap h.heap fun _ _ _ => rfl
  · intro i hi
    have hi' : i < st.size - 1 := hi
    rw [hnode i hi']
    show EntryHolds _ _ (st.entries (st.nodes (f i))) (Function.update rest _ [] (st.entries (st.nodes (f i))).txn)
    rw [Function.update_of_ne (hne i hi')]
    exact (h.entry (f i) (hf i hi').2).congr (hrb _ (hne i hi'))
  · intro i j hi hj heq
    have hi' : i < st.size - 1 := hi
    have hj' : j < st.size - 1 := hj
    rw [hnode i hi', hnode j hj'] at heq
    exact hinj i j hi' hj' (h.distinct (f i) (f j) (hf i hi').2 (hf j hj').2 heq)
  · intro xid hnone
    by_cases hx : xid = (st.entries (st.nodes 0)).txn
    · rw [hx, Function.update_self]
    · rw [Function.update_of_ne hx]
      refine h.others xid fun j hj => ?_
      rcases Nat.eq_zero_or_pos j with rfl | hpos
      · exact Ne.symm hx
      · obtain ⟨i, hi, rfl⟩ := hsurj j hpos hj
        have hno := hnone i hi
        rw [hnode i hi] at hno
        exact hno

theorem Later.restore {txn : Txn δ} {fd : Option Nat} {segno : Nat} {later : List (Change δ)}
    (h : Later walSegmentSize txn fd segno later) (hne : txn.nentries ≠ txn.nentriesMem) :
    ∃ txn' fd' segno' later', txn.restore walSegmentSize fd segno = (txn', fd', segno') ∧
      later = txn'.changes ++ later' ∧ (txn'.changes = [] → later = []) ∧
      Later walSegmentSize txn' fd' segno' later' := by
  rcases h with ⟨-, heq⟩ | ⟨spilled, hspilled, hdisk, hat, hunread, hlength, -⟩
  · exact (hne heq).elim
  · obtain ⟨txn', fd', segno', hrestore, hchanges, hmem, hnentries, hdisk', hat', hunread'⟩ :=
      hdisk.restore hspilled hat
    rw [hunread] at hchanges hunread'
    have hpos : 0 < maxChangesInMemory := by decide
    refine ⟨txn', fd', segno', later.drop maxChangesInMemory, hrestore, ?_, ?_, ?_⟩
    · rw [hchanges, List.take_append_drop]
    · intro hnil
      rw [hchanges] at hnil
      rcases List.take_eq_nil_iff.mp hnil with hzero | hnil
      · omega
      · exact hnil
    · refine .inr ⟨spilled, hspilled, hdisk', hat', hunread', ?_, fun heq => ?_⟩
      · rw [hnentries, List.length_drop]
        omega
      · -- the counters agree only if the batch was all there was
        rw [hnentries, hmem, hchanges, List.length_take] at heq
        apply List.drop_eq_nil_of_le
        omega

variable {change following : Change δ} {more : List (Change δ)} {txn txn' : Txn δ} {fd : Option Nat} {segno : Nat}

theorem next_of_mem (hsize : 0 < st.size) (hchanges : (st.entries (st.nodes 0)).changes = change :: following :: more) :
    reorderBufferIterTXNNext walSegmentSize st = some (change, st.replaceFirst
        { st.entries (st.nodes 0) with lsn := following.lsn, changes := following :: more }) := by
  simp [reorderBufferIterTXNNext, Nat.pos_iff_ne_zero.mp hsize, hchanges]

theorem next_of_all (hsize : 0 < st.size) (hchanges : (st.entries (st.nodes 0)).changes = [change])
    (htxn : st.rb.byTxn (st.entries (st.nodes 0)).txn = some txn)
    (hall : txn.nentries = txn.nentriesMem) :
    reorderBufferIterTXNNext walSegmentSize st = some (change, st.removeFirst) := by
  simp [reorderBufferIterTXNNext, Nat.pos_iff_ne_zero.mp hsize, hchanges, htxn, hall]

theorem next_of_restored (hsize : 0 < st.size) (hchanges : (st.entries (st.nodes 0)).changes = [change])
    (htxn : st.rb.byTxn (st.entries (st.nodes 0)).txn = some txn)
    (hall : txn.nentries ≠ txn.nentriesMem)
    (hrestore : txn.restore walSegmentSize (st.entries (st.nodes 0)).fd
      (st.entries (st.nodes 0)).segno = (txn', fd, segno))
    (hnext : txn'.changes = following :: more) :
    reorderBufferIterTXNNext walSegmentSize st = some (change, IterState.replaceFirst
        { st with rb := st.rb.set (st.entries (st.nodes 0)).txn txn' }
        { lsn := following.lsn, changes := following :: more, txn := (st.entries (st.nodes 0)).txn, fd,
          segno }) := by
  simp [reorderBufferIterTXNNext, Nat.pos_iff_ne_zero.mp hsize, hchanges, htxn, hall, hrestore, hnext]

theorem next_of_eof (hsize : 0 < st.size) (hchanges : (st.entries (st.nodes 0)).changes = [change])
    (htxn : st.rb.byTxn (st.entries (st.nodes 0)).txn = some txn)
    (hall : txn.nentries ≠ txn.nentriesMem)
    (hrestore : txn.restore walSegmentSize (st.entries (st.nodes 0)).fd
      (st.entries (st.nodes 0)).segno = (txn', fd, segno))
    (hnext : txn'.changes = []) :
    reorderBufferIterTXNNext walSegmentSize st = some (change, IterState.removeFirst
        { st with rb := st.rb.set (st.entries (st.nodes 0)).txn txn' }) := by
  simp [reorderBufferIterTXNNext, Nat.pos_iff_ne_zero.mp hsize, hchanges, htxn, hall, hrestore, hnext]

theorem set_byTxn_of_ne {y xid : Nat} (h : y ≠ xid) : (rb.set xid txn).byTxn y = rb.byTxn y :=
  Function.update_of_ne h _ _

theorem set_byTxn_self (rb : ReorderBuffer δ) (xid : Nat) (txn : Txn δ) :
    (rb.set xid txn).byTxn xid = some txn := Function.update_self _ _ _

theorem Iterating.least (h : Iterating walSegmentSize st rest) (hsize : 0 < st.size)
    (hchanges : (st.entries (st.nodes 0)).changes = change :: more) :
    ∀ y b, (rest y).head? = some b → change.lsn ≤ b.lsn := by
  intro y b hb
  by_contra hlt
  have hnone : rest y = [] := by
    refine h.others y fun i hi heq => hlt ?_
    subst heq
    have hroot := BinaryHeap.root_le h.heap i hi
    have hfirst := (h.entry 0 hsize).lsn
    obtain ⟨hnonempty', hlsn', _, later', -, hrest', -⟩ := h.entry i hi
    obtain ⟨first, more', hchanges'⟩ := List.exists_cons_of_ne_nil hnonempty'
    rw [hrest', hchanges'] at hb
    obtain rfl : first = b := by simpa using hb
    simp only [IterState.key, hfirst, hlsn', headLsn, hchanges, hchanges'] at hroot
    simpa using hroot
  simp [hnone] at hb

theorem Iterating.next (h : Iterating walSegmentSize st rest) :
    (reorderBufferIterTXNNext walSegmentSize st = none ∧ ∀ xid, rest xid = []) ∨
      ∃ xid change tail st', reorderBufferIterTXNNext walSegmentSize st = some (change, st') ∧
        rest xid = change :: tail ∧
        (∀ y b, (rest y).head? = some b → change.lsn ≤ b.lsn) ∧
        Iterating walSegmentSize st' (Function.update rest xid tail) := by
  rcases Nat.eq_zero_or_pos st.size with hzero | hsize
  · refine .inl ⟨by simp [reorderBufferIterTXNNext, hzero], fun xid => h.others xid ?_⟩
    intro i hi
    omega
  · refine .inr ⟨(st.entries (st.nodes 0)).txn, ?_⟩
    obtain ⟨hnonempty, hlsn, txn, later, htxn, hrest, hlater⟩ := h.entry 0 hsize
    obtain ⟨change, more, hchanges⟩ := List.exists_cons_of_ne_nil hnonempty
    have hleast := h.least hsize hchanges
    refine ⟨change, more ++ later, ?_⟩
    rw [hchanges, List.cons_append] at hrest
    cases more with
    | cons next more =>
      refine ⟨_, next_of_mem hsize hchanges, hrest, hleast, ?_⟩
      refine h.replaceFirst st.rb hsize (fun _ _ => rfl) rfl ⟨by simp, rfl, ?_⟩
      exact ⟨txn, later, htxn, rfl, hlater⟩
    | nil =>
      by_cases hall : txn.nentries = txn.nentriesMem
      · have hnone : later = [] := by
          rcases hlater with ⟨hnil, -⟩ | ⟨_, -, -, -, -, -, hnil⟩
          · exact hnil
          · exact hnil hall
        subst hnone
        refine ⟨_, next_of_all hsize hchanges htxn hall, hrest, hleast, ?_⟩
        exact h.removeFirst st.rb hsize fun _ _ => rfl
      · obtain ⟨txn', fd', segno', later', hrestore, hsplit, hempty, hlater'⟩ := hlater.restore hall
        have hrb : ∀ y, y ≠ (st.entries (st.nodes 0)).txn →
            (st.rb.set (st.entries (st.nodes 0)).txn txn').byTxn y = st.rb.byTxn y :=
          fun y hy => set_byTxn_of_ne hy
        cases hnext : txn'.changes with
        | cons next more =>
          refine ⟨_, next_of_restored hsize hchanges htxn hall hrestore hnext, hrest, hleast, ?_⟩
          refine h.replaceFirst _ hsize hrb rfl ⟨by simp, rfl, ?_⟩
          refine ⟨txn', later', set_byTxn_self _ _ _, ?_, hlater'⟩
          rw [List.nil_append, hsplit, hnext]
        | nil =>
          obtain rfl := hempty hnext
          refine ⟨_, next_of_eof hsize hchanges htxn hall hrestore hnext, hrest, hleast, ?_⟩
          exact h.removeFirst _ hsize hrb

theorem Iterating.returns {xids : List Nat} (hnodup : xids.Nodup)
    (h : Iterating walSegmentSize st rest) (hrest : ∀ xid, xid ∉ xids → rest xid = []) :
    ∃ out, Returns walSegmentSize st out ∧ Merged Change.lsn rest out ∧
      out.length = (xids.map fun xid => (rest xid).length).sum := by
  induction hn : (xids.map fun xid => (rest xid).length).sum generalizing st rest with
  | zero =>
    rcases h.next with ⟨hnone, hdone⟩ | ⟨xid, change, tail, st', -, hxid, -, -⟩
    · exact ⟨[], hnone, .done hdone, rfl⟩
    · have hmem : xid ∈ xids := by
        by_contra hnot
        simp [hrest xid hnot] at hxid
      have := sum_length_update hnodup hmem hxid
      omega
  | succ n ih =>
    rcases h.next with ⟨hnone, hdone⟩ | ⟨xid, change, tail, st', hnext, hxid, hleast, hst'⟩
    · have hzero : (xids.map fun xid => (rest xid).length).sum = 0 := by simp [hdone]
      omega
    · have hmem : xid ∈ xids := by
        by_contra hnot
        simp [hrest xid hnot] at hxid
      have hsum := sum_length_update hnodup hmem hxid
      have hrest' : ∀ y, y ∉ xids → Function.update rest xid tail y = [] := by
        intro y hy
        have hne : y ≠ xid := fun heq => hy (heq ▸ hmem)
        rw [Function.update_of_ne hne]
        exact hrest y hy
      obtain ⟨out, hreturns, hmerged, hlength⟩ := ih hst' hrest' (by omega)
      exact ⟨change :: out, ⟨st', hnext, hreturns⟩, .step hxid hleast hmerged, by simp [hlength]⟩

end Step

section Init

variable {queuedBy : Nat → List (Change δ)} {x y : Nat}

def Pending (walSegmentSize : Nat) (rb : ReorderBuffer δ) (queuedBy : Nat → List (Change δ))
    (xid : Nat) : Prop :=
  (∀ txn, rb.byTxn xid = some txn → txn.Holds walSegmentSize (queuedBy xid)) ∧ (rb.byTxn xid = none → queuedBy xid = [])

theorem Pending.congr {rb' : ReorderBuffer δ} (h : Pending walSegmentSize rb queuedBy x)
    (hrb : rb'.byTxn x = rb.byTxn x) : Pending walSegmentSize rb' queuedBy x := by
  unfold Pending
  rw [hrb]
  exact h

theorem serializeOne_of_ne (h : y ≠ x) : (serializeOne walSegmentSize rb x).byTxn y = rb.byTxn y := by
  unfold serializeOne
  split
  · exact set_byTxn_of_ne h
  · rfl

theorem serializeOne_self {txn : Txn δ} (h : rb.byTxn x = some txn) :
    (serializeOne walSegmentSize rb x).byTxn x = some (txn.serialize walSegmentSize) := by
  simp only [serializeOne, h]
  exact set_byTxn_self rb x _

theorem Pending.serializeOne (h : Pending walSegmentSize rb queuedBy y) (x : Nat) :
    Pending walSegmentSize (serializeOne walSegmentSize rb x) queuedBy y := by
  by_cases hyx : y = x
  · subst hyx
    cases hy : rb.byTxn y with
    | none =>
      refine h.congr ?_
      simp [Reorder.serializeOne, hy]
    | some txn =>
      refine ⟨fun txn' htxn' => ?_, fun hnone => ?_⟩
      · rw [serializeOne_self hy] at htxn'
        obtain rfl := Option.some.inj htxn'
        exact (h.1 txn hy).serialize.2
      · rw [serializeOne_self hy] at hnone
        cases hnone
  · exact h.congr (serializeOne_of_ne hyx)

theorem Pending.foldl_serializeOne (h : Pending walSegmentSize rb queuedBy y) (xids : List Nat) :
    Pending walSegmentSize (xids.foldl (Reorder.serializeOne walSegmentSize) rb) queuedBy y := by
  induction xids generalizing rb with
  | nil => exact h
  | cons x xids ih => exact ih (h.serializeOne x)

theorem foldl_serializeOne_known (walSegmentSize : Nat) {txn : Txn δ} (h : rb.byTxn y = some txn) (xids : List Nat) :
    ∃ txn', (xids.foldl (Reorder.serializeOne walSegmentSize) rb).byTxn y = some txn' := by
  induction xids generalizing rb txn with
  | nil => exact ⟨txn, h⟩
  | cons x xids ih =>
    by_cases hyx : y = x
    · subst hyx
      exact ih (serializeOne_self h)
    · exact ih (by rw [serializeOne_of_ne hyx, h])

theorem Pending.serialize (h : Pending walSegmentSize rb queuedBy y) (x : Nat) :
    Pending walSegmentSize (reorderBufferSerializeTXN walSegmentSize top rb x) queuedBy y := by
  unfold reorderBufferSerializeTXN
  split
  · exact (h.foldl_serializeOne _).serializeOne x
  · exact h.serializeOne x

theorem Pending.later (top : Nat) {txn : Txn δ} (h : Pending walSegmentSize rb queuedBy x)
    (hx : rb.byTxn x = some txn) (hne : queuedBy x ≠ []) :
    ∃ txn', (reorderBufferSerializeTXN walSegmentSize top rb x).byTxn x = some txn' ∧
      txn'.nentries ≠ txn'.nentriesMem ∧ Later walSegmentSize txn' none 0 (queuedBy x) := by
  have hserialized : ∀ {rb : ReorderBuffer δ} {txn : Txn δ},
      Pending walSegmentSize rb queuedBy x → rb.byTxn x = some txn →
      ∃ txn', (Reorder.serializeOne walSegmentSize rb x).byTxn x = some txn' ∧
        txn'.nentries ≠ txn'.nentriesMem ∧ Later walSegmentSize txn' none 0 (queuedBy x) := by
    intro rb txn h hx
    obtain ⟨hdisk, hholds⟩ := (h.1 txn hx).serialize
    have hnentries := hholds.nentries
    have hlength : 0 < (queuedBy x).length := List.length_pos_iff.mpr hne
    have hmem : (txn.serialize walSegmentSize).nentriesMem = 0 := rfl
    refine ⟨_, serializeOne_self hx, by omega, .inr ⟨queuedBy x, hne, hdisk, ?_, ?_, ?_, ?_⟩⟩
    · simp [Txn.ReadsAt]
    · exact hdisk.unread_zero
    · omega
    · omega
  unfold reorderBufferSerializeTXN
  split
  · obtain ⟨txn', htxn'⟩ := foldl_serializeOne_known walSegmentSize hx rb.subtxns
    exact hserialized (h.foldl_serializeOne _) htxn'
  · exact hserialized h hx

theorem addEntry_spec (top : Nat) (es : List (IterEntry δ)) (h : Pending walSegmentSize rb queuedBy x) :
    (addEntry walSegmentSize top (rb, es) x = (rb, es) ∧ queuedBy x = []) ∨
      ∃ rb' e, addEntry walSegmentSize top (rb, es) x = (rb', es ++ [e]) ∧ e.txn = x ∧
        EntryHolds walSegmentSize rb' e (queuedBy x) ∧
        (∀ y, y ≠ x → Pending walSegmentSize rb queuedBy y → Pending walSegmentSize rb' queuedBy y) ∧
        (x ≠ top → ∀ y, y ≠ x → rb'.byTxn y = rb.byTxn y) := by
  cases hx : rb.byTxn x with
  | none => exact .inl ⟨by simp [addEntry, hx], h.2 hx⟩
  | some txn =>
    have hholds := h.1 txn hx
    by_cases hpos : 0 < txn.nentries
    · refine .inr ?_
      have hne : queuedBy x ≠ [] := by
        intro hnil
        have := hholds.nentries
        simp [hnil] at this
        omega
      cases hser : txn.isSerialized with
      | true =>
        obtain ⟨txn₁, htxn₁, hcounters, hlater⟩ := h.later top hx hne
        obtain ⟨txn₂, fd, segno, later, hrestore, hsplit, hempty, hlater₂⟩ :=
          hlater.restore hcounters
        have hchanges : txn₂.changes ≠ [] := fun hnil => hne (hempty hnil)
        refine ⟨(reorderBufferSerializeTXN walSegmentSize top rb x).set x txn₂,
          ⟨headLsn txn₂.changes, txn₂.changes, x, fd, segno⟩, ?_, rfl, ⟨hchanges, rfl, txn₂, later, set_byTxn_self _ _ _, hsplit, hlater₂⟩, ?_, ?_⟩
        · simp [addEntry, hx, hpos, hser, reorderBufferRestoreChanges, htxn₁, hrestore, set_byTxn_self]
        · intro y hy hpending
          exact (hpending.serialize x).congr (set_byTxn_of_ne hy)
        · intro htop y hy
          rw [set_byTxn_of_ne hy, reorderBufferSerializeTXN, if_neg htop]
          exact serializeOne_of_ne hy
      | false =>
        obtain ⟨spilled, hsplit, -, hnil⟩ := hholds.split
        obtain rfl := hnil hser
        rw [List.nil_append] at hsplit
        refine ⟨rb, ⟨headLsn txn.changes, txn.changes, x, none, 0⟩, ?_, rfl,
          ⟨?_, rfl, txn, [], hx, ?_, .inl ⟨rfl, ?_⟩⟩, fun _ _ hp => hp, fun _ _ _ => rfl⟩
        · simp [addEntry, hx, hpos, hser]
        · rw [← hsplit]
          exact hne
        · rw [hsplit, List.append_nil]
        · rw [hholds.nentries, hholds.nentriesMem, hsplit]
    · refine .inl ⟨by simp [addEntry, hx, hpos], ?_⟩
      have := hholds.nentries
      exact List.length_eq_zero_iff.mp (by omega)

structure Started (walSegmentSize : Nat) (queuedBy : Nat → List (Change δ)) (rb : ReorderBuffer δ)
    (es : List (IterEntry δ)) (begun : List Nat) : Prop where
  entry : ∀ e ∈ es, EntryHolds walSegmentSize rb e (queuedBy e.txn)
  mem : ∀ e ∈ es, e.txn ∈ begun
  nodup : (es.map IterEntry.txn).Nodup
  others : ∀ x ∈ begun, x ∉ es.map IterEntry.txn → queuedBy x = []

theorem Started.addEntry {es : List (IterEntry δ)} {begun : List Nat} (h : Started walSegmentSize queuedBy rb es begun)
    (hpending : Pending walSegmentSize rb queuedBy x) (hx : x ∉ begun) (htop : x = top → es = []) :
    Started walSegmentSize queuedBy (addEntry walSegmentSize top (rb, es) x).1
        (addEntry walSegmentSize top (rb, es) x).2 (begun ++ [x]) ∧
      ∀ y, y ≠ x → Pending walSegmentSize rb queuedBy y →
        Pending walSegmentSize (Reorder.addEntry walSegmentSize top (rb, es) x).1 queuedBy y := by
  rcases addEntry_spec top es hpending with
    ⟨hadd, hnil⟩ | ⟨rb', e, hadd, rfl, hentry, hkeep, hother⟩
  · rw [hadd]
    refine ⟨⟨h.entry, fun e he => List.mem_append_left _ (h.mem e he), h.nodup, ?_⟩, fun _ _ hp => hp⟩
    intro y hy hnot
    rcases List.mem_append.mp hy with hy | hy
    · exact h.others y hy hnot
    · obtain rfl := List.mem_singleton.mp hy
      exact hnil
  · rw [hadd]
    have hne : ∀ e' ∈ es, e'.txn ≠ e.txn := fun e' he' heq => hx (heq ▸ h.mem e' he')
    refine ⟨⟨?_, ?_, ?_, ?_⟩, hkeep⟩
    · intro e' he'
      rcases List.mem_append.mp he' with he' | he'
      · by_cases hetop : e.txn = top
        · rw [htop hetop] at he'
          cases he'
        · exact (h.entry e' he').congr (hother hetop _ (hne e' he'))
      · obtain rfl := List.mem_singleton.mp he'
        exact hentry
    · intro e' he'
      rcases List.mem_append.mp he' with he' | he'
      · exact List.mem_append_left _ (h.mem e' he')
      · obtain rfl := List.mem_singleton.mp he'
        exact List.mem_append_right _ (List.mem_singleton.mpr rfl)
    · rw [List.map_append]
      refine List.nodup_append.mpr ⟨h.nodup, List.nodup_singleton _, ?_⟩
      intro a ha b hb heq
      obtain ⟨e', he', rfl⟩ := List.mem_map.mp ha
      obtain rfl : b = e.txn := by simpa using hb
      exact hne e' he' heq
    · intro y hy hnot
      rw [List.map_append, List.mem_append, not_or] at hnot
      rcases List.mem_append.mp hy with hy | hy
      · exact h.others y hy hnot.1
      · obtain rfl := List.mem_singleton.mp hy
        exact (hnot.2 (by simp)).elim

theorem Started.foldl_addEntry {es : List (IterEntry δ)} {begun : List Nat}
    (h : Started walSegmentSize queuedBy rb es begun) (xids : List Nat)
    (hpending : ∀ x ∈ xids, Pending walSegmentSize rb queuedBy x)
    (hnodup : (begun ++ xids).Nodup) (htop : top ∉ xids) :
    Started walSegmentSize queuedBy (xids.foldl (Reorder.addEntry walSegmentSize top) (rb, es)).1
      (xids.foldl (Reorder.addEntry walSegmentSize top) (rb, es)).2 (begun ++ xids) := by
  induction xids generalizing rb es begun with
  | nil => simpa using h
  | cons x xids ih =>
    have hx : x ∉ begun := by
      intro hmem
      exact (List.nodup_append.mp hnodup).2.2 x hmem x (by simp) rfl
    have hxids : x ∉ xids := (List.nodup_cons.mp (List.nodup_append.mp hnodup).2.1).1
    have hxtop : x ≠ top := fun heq => htop (by simp [heq])
    obtain ⟨hstarted, hkeep⟩ := h.addEntry (hpending x (by simp)) hx fun heq => (hxtop heq).elim
    have hrest := ih hstarted (fun y hy => hkeep y (fun heq => hxids (heq ▸ hy))
      (hpending y (by simp [hy]))) (by simpa using hnodup) (fun hmem => htop (by simp [hmem]))
    simpa using hrest

theorem entryAt_mem {es : List (IterEntry δ)} {i : Nat} (hi : i < es.length) : entryAt es i ∈ es := by
  simp [entryAt, List.getD_eq_getElem?_getD, hi]

theorem Started.iterating {es : List (IterEntry δ)} {begun : List Nat}
    (h : Started walSegmentSize queuedBy rb es begun) :
    Iterating walSegmentSize
      { rb, entries := entryAt es,
        nodes := BinaryHeap.build (fun off => (entryAt es off).lsn) es.length id,
        size := es.length }
      (fun x => if x ∈ begun then queuedBy x else []) := by
  obtain ⟨p, hp, hnodes⟩ : BinaryHeap.Rearranged es.length id
      (BinaryHeap.build (fun off => (entryAt es off).lsn) es.length id) :=
    BinaryHeap.buildFrom_rearranged
  have hnode : ∀ i, BinaryHeap.build (fun off => (entryAt es off).lsn) es.length id i = p i :=
    fun i => congrFun hnodes i
  refine ⟨BinaryHeap.build_heap, ?_, ?_, ?_⟩
  · intro i hi
    have hmem : entryAt es (p i) ∈ es := entryAt_mem ((hp i).mp hi)
    simp only [hnode, if_pos (h.mem _ hmem)]
    exact h.entry _ hmem
  · intro i j hi hj heq
    simp only [hnode] at heq
    have hpi := (hp i).mp hi
    have hpj := (hp j).mp hj
    have hinj := List.nodup_iff_injective_get.mp h.nodup
    have hfin : (⟨p i, by simpa using hpi⟩ : Fin (es.map IterEntry.txn).length) = ⟨p j, by simpa using hpj⟩ := by
      apply hinj
      simpa [entryAt, List.getD_eq_getElem?_getD, hpi, hpj] using heq
    exact p.injective (by simpa using hfin)
  · intro xid hnone
    simp only [hnode] at hnone
    split
    · next hbegun =>
      refine h.others xid hbegun fun hmem => ?_
      obtain ⟨e, he, rfl⟩ := List.mem_map.mp hmem
      obtain ⟨j, hj, rfl⟩ := List.mem_iff_getElem.mp he
      refine hnone (p.symm j) ((hp _).mpr (by simpa using hj)) ?_
      simp [entryAt, List.getD_eq_getElem?_getD, hj]
    · rfl

theorem ReorderBuffer.Holds.iterating {lsn : Nat} {assigned : List Nat}
    (h : rb.Holds walSegmentSize top lsn queuedBy assigned) :
    Iterating walSegmentSize (reorderBufferIterTXNInit walSegmentSize top rb)
      (fun x => if x ∈ top :: rb.subtxns then queuedBy x else []) := by
  have hpending : ∀ x, Pending walSegmentSize rb queuedBy x := fun x =>
    ⟨fun txn hx => (h.known x txn hx).1, h.unknown x⟩
  obtain ⟨htop, hsubs⟩ := List.nodup_cons.mp h.nodup
  have hnil : Started walSegmentSize queuedBy rb [] [] := ⟨nofun, nofun, .nil, nofun⟩
  obtain ⟨hfirst, hkeep⟩ := hnil.addEntry (hpending top) (by simp) fun _ => rfl
  have hall := hfirst.foldl_addEntry rb.subtxns
    (fun x hx => hkeep x (fun heq => htop (heq ▸ hx)) (hpending x)) h.nodup htop
  exact hall.iterating

end Init

def ReorderBuffer.nentries (top : Nat) (rb : ReorderBuffer δ) : Nat :=
  ((top :: rb.subtxns).map fun xid => ((rb.byTxn xid).map Txn.nentries).getD 0).sum

theorem ReorderBuffer.Holds.returns {rb : ReorderBuffer δ} {lsn : Nat} {top : Nat}
    {queuedBy : Nat → List (Change δ)} {assigned : List Nat}
    (h : rb.Holds walSegmentSize top lsn queuedBy assigned) :
    ∃ out, Returns walSegmentSize (reorderBufferIterTXNInit walSegmentSize top rb) out ∧
      out.Pairwise (fun a b => a.lsn ≤ b.lsn) ∧
      (∀ xid, (out.filter fun change => change.txn = xid) = if xid = top ∨ xid ∈ assigned then queuedBy xid else []) ∧
      out.length = rb.nentries top := by
  have hiter := h.iterating
  have hmem : ∀ x, x ∈ top :: rb.subtxns ↔ x = top ∨ x ∈ assigned := by
    intro x
    rw [List.mem_cons, h.subtxns]
  simp only [hmem] at hiter
  obtain ⟨out, hreturns, hmerged, hlength⟩ := hiter.returns h.nodup fun x hx => by
    rw [if_neg (fun hx' => hx ((hmem x).mpr hx'))]
  refine ⟨out, hreturns, hmerged.sorted fun x => ?_, hmerged.filter_eq fun x change hchange => ?_, ?_⟩
  · split
    · cases hx : rb.byTxn x with
      | some txn => exact (h.known x txn hx).1.sorted
      | none =>
        rw [h.unknown x hx]
        exact .nil
    · exact .nil
  · split at hchange
    · exact h.queued_txn x change hchange
    · cases hchange
  · rw [hlength, ReorderBuffer.nentries]
    congr 1
    apply List.map_congr_left
    intro x hx
    rw [if_pos ((hmem x).mp hx)]
    cases hknown : rb.byTxn x with
    | some txn => simp [(h.known x txn hknown).1.nentries]
    | none => simp [h.unknown x hknown]

/-- Whatever was queued for a transaction and its subtransactions in LSN order, and whenever any of
them was spilled, the iteration returns exactly that, by LSN and in the order of the calls for each
of them, and then nothing more. -/
theorem iter_returns_queued (walSegmentSize : Nat) {top : Nat} {ops : List (Op δ)} (h : WellOrdered top ops) :
    ∃ out, Returns walSegmentSize (reorderBufferIterTXNInit walSegmentSize top (run walSegmentSize top ops)) out ∧
      out.Pairwise (fun a b => a.lsn ≤ b.lsn) ∧
      ∀ xid, (out.filter fun change => change.txn = xid) =
        if xid = top ∨ xid ∈ assignedIn ops then queuedFor xid ops else [] := by
  obtain ⟨lsn, -, hholds⟩ := run_holds walSegmentSize h
  obtain ⟨out, hreturns, hsorted, hfilter, -⟩ := hholds.returns
  exact ⟨out, hreturns, hsorted, hfilter⟩

def spilledOps : List (Op Nat) :=
  [.queue 7 100 0, .assign 8 110, .queue 8 110 1, .serialize 7, .queue 7 120 2, .queue 8 130 3,
    .setFinalLsn 8 140, .setFinalLsn 7 140]

theorem iter_returns_spilledOps : ∃ out, Returns 64 (reorderBufferIterTXNInit 64 7 (run 64 7 spilledOps)) out ∧
      out.Pairwise (fun a b => a.lsn ≤ b.lsn) ∧
      ∀ xid, (out.filter fun change => change.txn = xid) =
        if xid = 7 ∨ xid ∈ assignedIn spilledOps then queuedFor xid spilledOps else [] :=
  iter_returns_queued 64 ⟨by decide, by decide⟩

end CdcKafka.Reorder
