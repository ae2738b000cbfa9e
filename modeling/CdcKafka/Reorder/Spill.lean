import CdcKafka.Lib.KMerge
import Mathlib.Data.List.Induction
import Mathlib.Data.List.Nodup

/-! The changes of a transaction in the reorder buffer: queued in memory, spilled to one file
for every WAL segment, and restored from there in batches. -/

namespace CdcKafka.Reorder
open CdcKafka.Lib

structure Change (δ : Type) where
  lsn : Nat
  txn : Nat
  data : δ
deriving DecidableEq

structure Txn (δ : Type) where
  firstLsn : Nat
  finalLsn : Nat
  changes : List (Change δ)
  nentries : Nat
  nentriesMem : Nat
  isSerialized : Bool
  /-- The spill file of each WAL segment; a missing one is empty. -/
  files : Nat → List (Change δ)

structure ReorderBuffer (δ : Type) where
  byTxn : Nat → Option (Txn δ)
  subtxns : List Nat

variable {δ : Type}

def ReorderBuffer.empty : ReorderBuffer δ where
  byTxn := fun _ => none
  subtxns := []

def ReorderBuffer.set (rb : ReorderBuffer δ) (xid : Nat) (txn : Txn δ) : ReorderBuffer δ :=
  { rb with byTxn := Function.update rb.byTxn xid (some txn) }

def Txn.new (lsn : Nat) : Txn δ where
  firstLsn := lsn
  finalLsn := 0
  changes := []
  nentries := 0
  nentriesMem := 0
  isSerialized := false
  files := fun _ => []

def reorderBufferTXNByXid (rb : ReorderBuffer δ) (xid lsn : Nat) : Txn δ :=
  (rb.byTxn xid).getD (Txn.new lsn)

def Txn.queue (txn : Txn δ) (change : Change δ) : Txn δ :=
  { txn with
    changes := txn.changes ++ [change]
    nentries := txn.nentries + 1
    nentriesMem := txn.nentriesMem + 1 }

def reorderBufferQueueChange (rb : ReorderBuffer δ) (xid lsn : Nat) (data : δ) : ReorderBuffer δ :=
  rb.set xid ((reorderBufferTXNByXid rb xid lsn).queue { lsn, txn := xid, data })

def reorderBufferAssignChild (rb : ReorderBuffer δ) (xid subxid lsn : Nat) : ReorderBuffer δ :=
  let rb := rb.set xid (reorderBufferTXNByXid rb xid lsn)
  let rb := rb.set subxid (reorderBufferTXNByXid rb subxid lsn)
  if subxid ∈ rb.subtxns then rb else { rb with subtxns := rb.subtxns ++ [subxid] }

def setFinalLsn (rb : ReorderBuffer δ) (xid lsn : Nat) : ReorderBuffer δ :=
  match rb.byTxn xid with
  | some txn => rb.set xid { txn with finalLsn := lsn }
  | none => rb

variable (walSegmentSize : Nat)

def xlByteToSeg (lsn : Nat) : Nat := lsn / walSegmentSize

def serializeChange (txn : Txn δ) (change : Change δ) : Txn δ :=
  { txn with
    files := Function.update txn.files (xlByteToSeg walSegmentSize change.lsn)
      (txn.files (xlByteToSeg walSegmentSize change.lsn) ++ [change])
    finalLsn := max txn.finalLsn change.lsn }

def Txn.serialize (txn : Txn δ) : Txn δ :=
  { txn.changes.foldl (serializeChange walSegmentSize) txn with
    changes := []
    nentriesMem := 0
    isSerialized := true }

def serializeOne (rb : ReorderBuffer δ) (xid : Nat) : ReorderBuffer δ :=
  match rb.byTxn xid with
  | some txn => rb.set xid (txn.serialize walSegmentSize)
  | none => rb

def reorderBufferSerializeTXN (top : Nat) (rb : ReorderBuffer δ) (xid : Nat) : ReorderBuffer δ :=
  if xid = top then
    serializeOne walSegmentSize (rb.subtxns.foldl (serializeOne walSegmentSize) rb) xid
  else serializeOne walSegmentSize rb xid

def maxChangesInMemory : Nat := 4096

/-- Reads on in the spill files: at change `fd` of the open file of segment `segno`, or at the
start of that segment's file when none is open. -/
def restoreLoop (txn : Txn δ) (lastSegno restored segno : Nat) (fd : Option Nat) :
    List (Change δ) × Option Nat × Nat :=
  if restored < maxChangesInMemory ∧ segno ≤ lastSegno then
    let segno' :=
      if fd = none ∧ segno = 0 then xlByteToSeg walSegmentSize txn.firstLsn else segno
    match (txn.files segno')[fd.getD 0]? with
    | some change =>
      let (changes, fd', segno'') := restoreLoop txn lastSegno (restored + 1) segno'
        (some (fd.getD 0 + 1))
      (change :: changes, fd', segno'')
    | none => restoreLoop txn lastSegno restored (segno' + 1) none
  else ([], fd, segno)
termination_by (lastSegno + 1 - segno) + (maxChangesInMemory - restored)
decreasing_by
  all_goals split <;> omega

def Txn.restore (txn : Txn δ) (fd : Option Nat) (segno : Nat) : Txn δ × Option Nat × Nat :=
  let (changes, fd, segno) :=
    restoreLoop walSegmentSize txn (xlByteToSeg walSegmentSize txn.finalLsn) 0 segno fd
  ({ txn with changes, nentriesMem := changes.length }, fd, segno)

variable {walSegmentSize : Nat}

structure Txn.OnDisk (walSegmentSize : Nat) (txn : Txn δ) (spilled : List (Change δ)) : Prop where
  files : ∀ segno, txn.files segno = spilled.filter fun change => xlByteToSeg walSegmentSize change.lsn = segno
  le_final : ∀ change ∈ spilled, change.lsn ≤ txn.finalLsn
  first_le : ∀ change ∈ spilled, txn.firstLsn ≤ change.lsn
  sorted : spilled.Pairwise fun a b => a.lsn ≤ b.lsn

def Txn.unread (walSegmentSize : Nat) (txn : Txn δ) (segno : Nat) (fd : Option Nat) :
    List (Change δ) :=
  ((List.range' segno (xlByteToSeg walSegmentSize txn.finalLsn + 1 - segno)).flatMap txn.files).drop (fd.getD 0)

def Txn.ReadsAt (txn : Txn δ) (segno : Nat) (fd : Option Nat) : Prop :=
  fd.getD 0 ≤ (txn.files segno).length

variable {txn : Txn δ} {segno : Nat} {fd : Option Nat}

theorem unread_nil (h : ¬ segno ≤ xlByteToSeg walSegmentSize txn.finalLsn) :
    txn.unread walSegmentSize segno fd = [] := by
  have hzero : xlByteToSeg walSegmentSize txn.finalLsn + 1 - segno = 0 := by omega
  simp [Txn.unread, hzero]

theorem unread_split (h : segno ≤ xlByteToSeg walSegmentSize txn.finalLsn) : txn.unread walSegmentSize segno fd =
      (txn.files segno ++ txn.unread walSegmentSize (segno + 1) none).drop (fd.getD 0) := by
  obtain ⟨n, hn⟩ : ∃ n, xlByteToSeg walSegmentSize txn.finalLsn + 1 - segno = n + 1 :=
    ⟨xlByteToSeg walSegmentSize txn.finalLsn - segno, by omega⟩
  have hn' : xlByteToSeg walSegmentSize txn.finalLsn + 1 - (segno + 1) = n := by omega
  simp [Txn.unread, hn, hn', List.range'_succ]

theorem unread_cons {change : Change δ} (h : segno ≤ xlByteToSeg walSegmentSize txn.finalLsn)
    (hget : (txn.files segno)[fd.getD 0]? = some change) :
    txn.unread walSegmentSize segno fd = change :: txn.unread walSegmentSize segno (some (fd.getD 0 + 1)) := by
  obtain ⟨hlt, hchange⟩ := List.getElem?_eq_some_iff.mp hget
  rw [unread_split h, unread_split h, List.drop_append_of_le_length (by omega),
    List.drop_eq_getElem_cons hlt, hchange, List.cons_append, Option.getD_some,
    List.drop_append_of_le_length (by omega)]

theorem unread_eof (h : segno ≤ xlByteToSeg walSegmentSize txn.finalLsn)
    (hat : txn.ReadsAt segno fd) (hget : (txn.files segno)[fd.getD 0]? = none) :
    txn.unread walSegmentSize segno fd = txn.unread walSegmentSize (segno + 1) none := by
  have hend : fd.getD 0 = (txn.files segno).length :=
    Nat.le_antisymm hat (List.getElem?_eq_none_iff.mp hget)
  rw [unread_split h, hend, List.drop_left]

theorem unread_first {first : Nat} (hempty : ∀ segno < first, txn.files segno = [])
    (hle : first ≤ xlByteToSeg walSegmentSize txn.finalLsn) :
    txn.unread walSegmentSize 0 none = txn.unread walSegmentSize first none := by
  induction first with
  | zero => rfl
  | succ n ih =>
    rw [ih (fun segno hlt => hempty segno (by omega)) (by omega)]
    have hnil : txn.files n = [] := hempty n (by omega)
    exact unread_eof (by omega) (by simp [Txn.ReadsAt]) (by simp [hnil])

theorem unread_start (hempty : ∀ segno < xlByteToSeg walSegmentSize txn.firstLsn, txn.files segno = [])
    (hle : xlByteToSeg walSegmentSize txn.firstLsn ≤ xlByteToSeg walSegmentSize txn.finalLsn)
    (hsegno : segno ≤ xlByteToSeg walSegmentSize txn.finalLsn) (hat : txn.ReadsAt segno fd) :
    ∃ start, (if fd = none ∧ segno = 0 then xlByteToSeg walSegmentSize txn.firstLsn else segno) =
        start ∧ segno ≤ start ∧ start ≤ xlByteToSeg walSegmentSize txn.finalLsn ∧
      txn.ReadsAt start fd ∧
      txn.unread walSegmentSize segno fd = txn.unread walSegmentSize start fd := by
  refine ⟨_, rfl, ?_⟩
  split
  · next hfirst =>
    obtain ⟨rfl, rfl⟩ := hfirst
    exact ⟨by omega, hle, by simp [Txn.ReadsAt], unread_first hempty hle⟩
  · exact ⟨Nat.le_refl _, hsegno, hat, rfl⟩

theorem restoreLoop_spec (restored : Nat)
    (hempty : ∀ segno < xlByteToSeg walSegmentSize txn.firstLsn, txn.files segno = [])
    (hle : xlByteToSeg walSegmentSize txn.firstLsn ≤ xlByteToSeg walSegmentSize txn.finalLsn)
    (hat : txn.ReadsAt segno fd) :
    ∃ fd' segno', restoreLoop walSegmentSize txn (xlByteToSeg walSegmentSize txn.finalLsn) restored segno fd =
        ((txn.unread walSegmentSize segno fd).take (maxChangesInMemory - restored), fd', segno') ∧
      txn.ReadsAt segno' fd' ∧
      txn.unread walSegmentSize segno' fd' =
        (txn.unread walSegmentSize segno fd).drop (maxChangesInMemory - restored) := by
  -- by induction on the changes that may still be read and the segments that are left
  induction hm : (xlByteToSeg walSegmentSize txn.finalLsn + 1 - segno) +
      (maxChangesInMemory - restored) using Nat.strongRecOn generalizing restored segno fd with
  | ind m ih =>
    rw [restoreLoop]
    split
    · next hgo =>
      obtain ⟨start, hstart, hge, hlast, hat', hunread⟩ := unread_start hempty hle hgo.2 hat
      simp only [hstart, hunread]
      obtain ⟨k, hk⟩ : ∃ k, maxChangesInMemory - restored = k + 1 :=
        ⟨maxChangesInMemory - restored - 1, by omega⟩
      have hk' : maxChangesInMemory - (restored + 1) = k := by omega
      split
      · next change hget =>
        have hat'' : txn.ReadsAt start (some (fd.getD 0 + 1)) := by
          obtain ⟨hlt, -⟩ := List.getElem?_eq_some_iff.mp hget
          exact hlt
        have hmeasure : (xlByteToSeg walSegmentSize txn.finalLsn + 1 - start) +
            (maxChangesInMemory - (restored + 1)) < m := by omega
        obtain ⟨fd', segno', hloop, hat₂, hrest⟩ := ih _ hmeasure (restored + 1) hat'' rfl
        refine ⟨fd', segno', ?_, hat₂, ?_⟩
        · rw [hloop, unread_cons hlast hget, hk, hk', List.take_succ_cons]
        · rw [hrest, unread_cons hlast hget, hk, hk', List.drop_succ_cons]
      · next hget =>
        have hmeasure : (xlByteToSeg walSegmentSize txn.finalLsn + 1 - (start + 1)) +
            (maxChangesInMemory - restored) < m := by omega
        rw [unread_eof hlast hat' hget]
        exact ih _ hmeasure restored (by simp [Txn.ReadsAt]) rfl
    · next hstop =>
      refine ⟨fd, segno, ?_, hat, ?_⟩
      · by_cases hfull : maxChangesInMemory - restored = 0
        · simp [hfull]
        · rw [unread_nil (by omega)]
          simp
      · by_cases hfull : maxChangesInMemory - restored = 0
        · simp [hfull]
        · rw [unread_nil (by omega)]
          simp

structure Txn.Holds (walSegmentSize : Nat) (txn : Txn δ) (queued : List (Change δ)) : Prop where
  split : ∃ spilled, queued = spilled ++ txn.changes ∧ txn.OnDisk walSegmentSize spilled ∧
    (txn.isSerialized = false → spilled = [])
  sorted : queued.Pairwise fun a b => a.lsn ≤ b.lsn
  first_le : ∀ change ∈ queued, txn.firstLsn ≤ change.lsn
  nentries : txn.nentries = queued.length
  nentriesMem : txn.nentriesMem = txn.changes.length

variable {queued spilled : List (Change δ)}

theorem OnDisk.nil (txn : Txn δ) (h : ∀ segno, txn.files segno = []) : txn.OnDisk walSegmentSize [] where
  files := fun segno => by simp [h]
  le_final := nofun
  first_le := nofun
  sorted := .nil

theorem holds_new (lsn : Nat) : (Txn.new lsn : Txn δ).Holds walSegmentSize [] where
  split := ⟨[], rfl, OnDisk.nil _ fun _ => rfl, fun _ => rfl⟩
  sorted := .nil
  first_le := nofun
  nentries := rfl
  nentriesMem := rfl

theorem Txn.Holds.queue (h : txn.Holds walSegmentSize queued) {change : Change δ}
    (hfirst : txn.firstLsn ≤ change.lsn) (hlast : ∀ c ∈ queued, c.lsn ≤ change.lsn) :
    (txn.queue change).Holds walSegmentSize (queued ++ [change]) where
  split := by
    obtain ⟨spilled, hsplit, hdisk, hserialized⟩ := h.split
    refine ⟨spilled, ?_, ⟨hdisk.files, hdisk.le_final, hdisk.first_le, hdisk.sorted⟩, hserialized⟩
    simp [hsplit, Txn.queue]
  sorted := by
    refine List.pairwise_append.mpr ⟨h.sorted, List.pairwise_singleton _ _, ?_⟩
    intro a ha b hb
    obtain rfl := List.mem_singleton.mp hb
    exact hlast a ha
  first_le c hc := by
    rcases List.mem_append.mp hc with hc | hc
    · exact h.first_le c hc
    · obtain rfl := List.mem_singleton.mp hc
      exact hfirst
  nentries := by simp [Txn.queue, h.nentries]
  nentriesMem := by simp [Txn.queue, h.nentriesMem]

theorem Txn.Holds.setFinalLsn (h : txn.Holds walSegmentSize queued) {lsn : Nat} (hlast : ∀ c ∈ queued, c.lsn ≤ lsn) :
    Txn.Holds walSegmentSize { txn with finalLsn := lsn } queued where
  split := by
    obtain ⟨spilled, hsplit, hdisk, hserialized⟩ := h.split
    refine ⟨spilled, hsplit, ⟨hdisk.files, fun c hc => ?_, hdisk.first_le, hdisk.sorted⟩, hserialized⟩
    exact hlast c (by simp [hsplit, hc])
  sorted := h.sorted
  first_le := h.first_le
  nentries := h.nentries
  nentriesMem := h.nentriesMem

theorem foldl_serializeChange (walSegmentSize : Nat) (changes : List (Change δ)) (txn : Txn δ) :
    (∀ segno, (changes.foldl (serializeChange walSegmentSize) txn).files segno = txn.files segno ++
          changes.filter fun change => xlByteToSeg walSegmentSize change.lsn = segno) ∧
      (changes.foldl (serializeChange walSegmentSize) txn).firstLsn = txn.firstLsn ∧
      (changes.foldl (serializeChange walSegmentSize) txn).nentries = txn.nentries ∧
      txn.finalLsn ≤ (changes.foldl (serializeChange walSegmentSize) txn).finalLsn ∧
      ∀ change ∈ changes, change.lsn ≤ (changes.foldl (serializeChange walSegmentSize) txn).finalLsn := by
  induction changes generalizing txn with
  | nil => simp
  | cons change changes ih =>
    obtain ⟨hfiles, hfirst, hnentries, hfinal, hchanges⟩ :=
      ih (serializeChange walSegmentSize txn change)
    have hstep : txn.finalLsn ≤ (serializeChange walSegmentSize txn change).finalLsn ∧
        change.lsn ≤ (serializeChange walSegmentSize txn change).finalLsn :=
      ⟨Nat.le_max_left _ _, Nat.le_max_right _ _⟩
    refine ⟨fun segno => ?_, hfirst, hnentries, Nat.le_trans hstep.1 hfinal, ?_⟩
    · rw [List.foldl_cons, hfiles]
      by_cases hseg : xlByteToSeg walSegmentSize change.lsn = segno
      · simp [serializeChange, hseg]
      · have hne : segno ≠ xlByteToSeg walSegmentSize change.lsn := fun heq => hseg heq.symm
        simp [serializeChange, hseg, Function.update_of_ne hne]
    · intro c hc
      rcases List.mem_cons.mp hc with rfl | hc
      · exact Nat.le_trans hstep.2 hfinal
      · exact hchanges c hc

theorem Txn.Holds.serialize (h : txn.Holds walSegmentSize queued) :
    (txn.serialize walSegmentSize).OnDisk walSegmentSize queued ∧
      (txn.serialize walSegmentSize).Holds walSegmentSize queued := by
  obtain ⟨spilled, hsplit, hdisk, -⟩ := h.split
  obtain ⟨hfiles, hfirst, hnentries, hfinal, hchanges⟩ :=
    foldl_serializeChange walSegmentSize txn.changes txn
  have hdisk' : (txn.serialize walSegmentSize).OnDisk walSegmentSize queued := by
    refine ⟨fun segno => ?_, fun c hc => ?_, fun c hc => ?_, h.sorted⟩
    · simp only [Txn.serialize, hfiles, hdisk.files, hsplit, List.filter_append]
    · rw [hsplit] at hc
      rcases List.mem_append.mp hc with hc | hc
      · exact Nat.le_trans (hdisk.le_final c hc) hfinal
      · exact hchanges c hc
    · simp only [Txn.serialize, hfirst]
      exact h.first_le c hc
  refine ⟨hdisk', ⟨⟨queued, ?_, hdisk', nofun⟩, h.sorted, ?_, ?_, rfl⟩⟩
  · simp [Txn.serialize]
  · simpa only [Txn.serialize, hfirst] using h.first_le
  · simpa only [Txn.serialize, hnentries] using h.nentries

theorem Txn.OnDisk.unread_zero (h : txn.OnDisk walSegmentSize spilled) :
    txn.unread walSegmentSize 0 none = spilled := by
  have hsorted : spilled.Pairwise fun a b =>
      xlByteToSeg walSegmentSize a.lsn ≤ xlByteToSeg walSegmentSize b.lsn :=
    h.sorted.imp fun hle => Nat.div_le_div_right hle
  have hfiles : txn.files = fun segno =>
      spilled.filter fun change => xlByteToSeg walSegmentSize change.lsn = segno :=
    funext h.files
  have hall : ∀ change ∈ spilled, xlByteToSeg walSegmentSize change.lsn < xlByteToSeg walSegmentSize txn.finalLsn + 1 :=
    fun change hc => Nat.lt_succ_of_le (Nat.div_le_div_right (h.le_final change hc))
  rw [Txn.unread, hfiles, Nat.sub_zero, ← List.range_eq_range', flatMap_filter_range hsorted]
  simpa using hall

theorem Txn.OnDisk.empty_below (h : txn.OnDisk walSegmentSize spilled) :
    ∀ segno < xlByteToSeg walSegmentSize txn.firstLsn, txn.files segno = [] := by
  intro segno hlt
  rw [h.files]
  apply List.filter_eq_nil_iff.mpr
  intro change hc
  have hle : xlByteToSeg walSegmentSize txn.firstLsn ≤ xlByteToSeg walSegmentSize change.lsn :=
    Nat.div_le_div_right (h.first_le change hc)
  simp
  omega

theorem Txn.OnDisk.first_le_final (h : txn.OnDisk walSegmentSize spilled) (hne : spilled ≠ []) :
    xlByteToSeg walSegmentSize txn.firstLsn ≤ xlByteToSeg walSegmentSize txn.finalLsn := by
  obtain ⟨change, hc⟩ := List.exists_mem_of_ne_nil spilled hne
  exact Nat.div_le_div_right (Nat.le_trans (h.first_le change hc) (h.le_final change hc))

theorem Txn.OnDisk.restore (h : txn.OnDisk walSegmentSize spilled) (hne : spilled ≠ []) (hat : txn.ReadsAt segno fd) :
    ∃ txn' fd' segno', txn.restore walSegmentSize fd segno = (txn', fd', segno') ∧
      txn'.changes = (txn.unread walSegmentSize segno fd).take maxChangesInMemory ∧
      txn'.nentriesMem = txn'.changes.length ∧ txn'.nentries = txn.nentries ∧
      txn'.OnDisk walSegmentSize spilled ∧ txn'.ReadsAt segno' fd' ∧
      txn'.unread walSegmentSize segno' fd' = (txn.unread walSegmentSize segno fd).drop maxChangesInMemory := by
  obtain ⟨fd', segno', hloop, hat', hrest⟩ :=
    restoreLoop_spec 0 h.empty_below (h.first_le_final hne) hat
  rw [Nat.sub_zero] at hloop hrest
  have hrestore : txn.restore walSegmentSize fd segno =
      ({ txn with
          changes := (txn.unread walSegmentSize segno fd).take maxChangesInMemory
          nentriesMem := ((txn.unread walSegmentSize segno fd).take maxChangesInMemory).length },
        fd', segno') := by
    rw [Txn.restore, hloop]
  exact ⟨_, fd', segno', hrestore, rfl, rfl, rfl, ⟨h.files, h.le_final, h.first_le, h.sorted⟩, hat', hrest⟩

inductive Op (δ : Type)
  | queue (xid lsn : Nat) (data : δ)
  | assign (subxid lsn : Nat)
  | serialize (xid : Nat)
  | setFinalLsn (xid lsn : Nat)
deriving DecidableEq

def Op.lsn? : Op δ → Option Nat
  | .queue _ lsn _ | .assign _ lsn | .setFinalLsn _ lsn => some lsn
  | .serialize _ => none

def step (walSegmentSize top : Nat) (rb : ReorderBuffer δ) : Op δ → ReorderBuffer δ
  | .queue xid lsn data => reorderBufferQueueChange rb xid lsn data
  | .assign subxid lsn => reorderBufferAssignChild rb top subxid lsn
  | .serialize xid => reorderBufferSerializeTXN walSegmentSize top rb xid
  | .setFinalLsn xid lsn => Reorder.setFinalLsn rb xid lsn

def run (walSegmentSize top : Nat) (ops : List (Op δ)) : ReorderBuffer δ :=
  ops.foldl (step walSegmentSize top) .empty

def queuedFor (xid : Nat) (ops : List (Op δ)) : List (Change δ) :=
  ops.filterMap fun op =>
    match op with
    | .queue x lsn data => if x = xid then some { lsn, txn := x, data } else none
    | _ => none

def assignedIn (ops : List (Op δ)) : List Nat :=
  ops.filterMap fun op =>
    match op with
    | .assign subxid _ => some subxid
    | _ => none

structure WellOrdered (top : Nat) (ops : List (Op δ)) : Prop where
  lsns : (ops.filterMap Op.lsn?).Pairwise (· ≤ ·)
  assigned : top ∉ assignedIn ops

structure ReorderBuffer.Holds (walSegmentSize top lsn : Nat) (rb : ReorderBuffer δ)
    (queued : Nat → List (Change δ)) (assigned : List Nat) : Prop where
  known : ∀ xid txn, rb.byTxn xid = some txn → txn.Holds walSegmentSize (queued xid) ∧ txn.firstLsn ≤ lsn
  unknown : ∀ xid, rb.byTxn xid = none → queued xid = []
  queued_le : ∀ xid, ∀ change ∈ queued xid, change.lsn ≤ lsn
  queued_txn : ∀ xid, ∀ change ∈ queued xid, change.txn = xid
  subtxns : ∀ xid, xid ∈ rb.subtxns ↔ xid ∈ assigned
  nodup : (top :: rb.subtxns).Nodup

section Runs

variable {rb : ReorderBuffer δ} {top lsn lsn' xid : Nat} {queuedBy : Nat → List (Change δ)} {assigned : List Nat}

theorem holds_empty (walSegmentSize top : Nat) :
    (ReorderBuffer.empty : ReorderBuffer δ).Holds walSegmentSize top 0 (fun _ => []) [] where
  known := nofun
  unknown := fun _ _ => rfl
  queued_le := nofun
  queued_txn := nofun
  subtxns := fun _ => Iff.rfl
  nodup := List.nodup_singleton top

theorem ReorderBuffer.Holds.mono (h : rb.Holds walSegmentSize top lsn queuedBy assigned)
    (hle : lsn ≤ lsn') : rb.Holds walSegmentSize top lsn' queuedBy assigned where
  known x txn hx := ⟨(h.known x txn hx).1, Nat.le_trans (h.known x txn hx).2 hle⟩
  unknown := h.unknown
  queued_le x c hc := Nat.le_trans (h.queued_le x c hc) hle
  queued_txn := h.queued_txn
  subtxns := h.subtxns
  nodup := h.nodup

theorem ReorderBuffer.Holds.set {txn : Txn δ} {queuedBy' : Nat → List (Change δ)}
    (h : rb.Holds walSegmentSize top lsn queuedBy assigned)
    (hsame : ∀ x, x ≠ xid → queuedBy' x = queuedBy x)
    (htxn : txn.Holds walSegmentSize (queuedBy' xid)) (hfirst : txn.firstLsn ≤ lsn)
    (hle : ∀ c ∈ queuedBy' xid, c.lsn ≤ lsn ∧ c.txn = xid) :
    (rb.set xid txn).Holds walSegmentSize top lsn queuedBy' assigned where
  known x t hx := by
    by_cases heq : x = xid
    · subst heq
      obtain rfl : txn = t := by simpa [ReorderBuffer.set] using hx
      exact ⟨htxn, hfirst⟩
    · rw [hsame x heq]
      exact h.known x t (by simpa [ReorderBuffer.set, Function.update_of_ne heq] using hx)
  unknown x hx := by
    by_cases heq : x = xid
    · subst heq
      simp [ReorderBuffer.set] at hx
    · rw [hsame x heq]
      exact h.unknown x (by simpa [ReorderBuffer.set, Function.update_of_ne heq] using hx)
  queued_le x c hc := by
    by_cases heq : x = xid
    · subst heq
      exact (hle c hc).1
    · rw [hsame x heq] at hc
      exact h.queued_le x c hc
  queued_txn x c hc := by
    by_cases heq : x = xid
    · subst heq
      exact (hle c hc).2
    · rw [hsame x heq] at hc
      exact h.queued_txn x c hc
  subtxns := h.subtxns
  nodup := h.nodup

theorem ReorderBuffer.Holds.txnByXid (h : rb.Holds walSegmentSize top lsn queuedBy assigned)
    (hle : lsn' ≤ lsn) (xid : Nat) :
    (reorderBufferTXNByXid rb xid lsn').Holds walSegmentSize (queuedBy xid) ∧
      (reorderBufferTXNByXid rb xid lsn').firstLsn ≤ lsn := by
  cases hx : rb.byTxn xid with
  | some txn =>
    simp only [reorderBufferTXNByXid, hx, Option.getD_some]
    exact h.known xid txn hx
  | none =>
    simp only [reorderBufferTXNByXid, hx, Option.getD_none, h.unknown xid hx]
    exact ⟨holds_new lsn', hle⟩

theorem ReorderBuffer.Holds.create (h : rb.Holds walSegmentSize top lsn queuedBy assigned)
    (hle : lsn' ≤ lsn) (xid : Nat) :
    (rb.set xid (reorderBufferTXNByXid rb xid lsn')).Holds walSegmentSize top lsn queuedBy assigned := by
  obtain ⟨htxn, hfirst⟩ := h.txnByXid hle xid
  exact h.set (fun _ _ => rfl) htxn hfirst fun c hc =>
    ⟨h.queued_le xid c hc, h.queued_txn xid c hc⟩

theorem ReorderBuffer.Holds.queue (h : rb.Holds walSegmentSize top lsn queuedBy assigned) (xid : Nat) (data : δ) :
    (reorderBufferQueueChange rb xid lsn data).Holds walSegmentSize top lsn
      (fun x => queuedBy x ++ if xid = x then [{ lsn, txn := x, data }] else []) assigned := by
  obtain ⟨htxn, hfirst⟩ := h.txnByXid (Nat.le_refl lsn) xid
  refine h.set (fun x hx => by simp [Ne.symm hx]) ?_ hfirst ?_
  · simpa using htxn.queue hfirst (h.queued_le xid)
  · intro c hc
    simp only [if_true, List.mem_append, List.mem_singleton] at hc
    rcases hc with hc | rfl
    · exact ⟨h.queued_le xid c hc, h.queued_txn xid c hc⟩
    · exact ⟨Nat.le_refl lsn, rfl⟩

theorem ReorderBuffer.Holds.assign {subxid : Nat}
    (h : rb.Holds walSegmentSize top lsn queuedBy assigned) (hle : lsn' ≤ lsn)
    (hne : subxid ≠ top) :
    (reorderBufferAssignChild rb top subxid lsn').Holds walSegmentSize top lsn queuedBy (assigned ++ [subxid]) := by
  have hcreated := (h.create hle top).create hle subxid
  simp only [reorderBufferAssignChild]
  split
  · next hmem =>
    refine { hcreated with subtxns := fun x => ?_ }
    rw [hcreated.subtxns x, List.mem_append, List.mem_singleton]
    refine ⟨.inl, ?_⟩
    rintro (hx | rfl)
    · exact hx
    · exact (hcreated.subtxns x).mp hmem
  · next hmem =>
    refine ⟨hcreated.known, hcreated.unknown, hcreated.queued_le, hcreated.queued_txn, fun x => ?_, ?_⟩
    · rw [List.mem_append, List.mem_append, hcreated.subtxns x]
    · obtain ⟨htop, hnodup⟩ := List.nodup_cons.mp hcreated.nodup
      refine List.nodup_cons.mpr ⟨?_, ?_⟩
      · simp only [List.mem_append, List.mem_singleton, not_or]
        exact ⟨htop, Ne.symm hne⟩
      · exact List.nodup_append.mpr ⟨hnodup, List.nodup_singleton _, by
          intro a ha b hb heq
          obtain rfl := List.mem_singleton.mp hb
          exact hmem (heq ▸ ha)⟩

theorem ReorderBuffer.Holds.serializeOne (h : rb.Holds walSegmentSize top lsn queuedBy assigned) (xid : Nat) :
    (serializeOne walSegmentSize rb xid).Holds walSegmentSize top lsn queuedBy assigned := by
  unfold Reorder.serializeOne
  split
  · next txn hx =>
    obtain ⟨htxn, hfirst⟩ := h.known xid txn hx
    obtain ⟨-, hkept, -⟩ := foldl_serializeChange walSegmentSize txn.changes txn
    refine h.set (fun _ _ => rfl) htxn.serialize.2 ?_ fun c hc =>
      ⟨h.queued_le xid c hc, h.queued_txn xid c hc⟩
    simpa only [Txn.serialize, hkept] using hfirst
  · exact h

theorem ReorderBuffer.Holds.foldl_serializeOne
    (h : rb.Holds walSegmentSize top lsn queuedBy assigned) (xids : List Nat) :
    (xids.foldl (Reorder.serializeOne walSegmentSize) rb).Holds walSegmentSize top lsn queuedBy assigned := by
  induction xids generalizing rb with
  | nil => exact h
  | cons x xids ih => exact ih (h.serializeOne x)

theorem ReorderBuffer.Holds.serialize (h : rb.Holds walSegmentSize top lsn queuedBy assigned) (xid : Nat) :
    (reorderBufferSerializeTXN walSegmentSize top rb xid).Holds walSegmentSize top lsn queuedBy assigned := by
  unfold reorderBufferSerializeTXN
  split
  · exact (h.foldl_serializeOne _).serializeOne xid
  · exact h.serializeOne xid

theorem ReorderBuffer.Holds.setFinalLsn (h : rb.Holds walSegmentSize top lsn queuedBy assigned) (xid : Nat) :
    (Reorder.setFinalLsn rb xid lsn).Holds walSegmentSize top lsn queuedBy assigned := by
  unfold Reorder.setFinalLsn
  split
  · next txn hx =>
    obtain ⟨htxn, hfirst⟩ := h.known xid txn hx
    exact h.set (fun _ _ => rfl) (htxn.setFinalLsn (h.queued_le xid)) hfirst fun c hc =>
      ⟨h.queued_le xid c hc, h.queued_txn xid c hc⟩
  · exact h

theorem ReorderBuffer.Holds.step {op : Op δ}
    (h : rb.Holds walSegmentSize top lsn queuedBy assigned) (hle : ∀ l, op.lsn? = some l → lsn ≤ l)
    (htop : top ∉ assignedIn [op]) :
    (step walSegmentSize top rb op).Holds walSegmentSize top (op.lsn?.getD lsn)
      (fun x => queuedBy x ++ queuedFor x [op]) (assigned ++ assignedIn [op]) := by
  cases op with
  | queue xid lsn' data =>
    have hqueue := (h.mono (hle lsn' rfl)).queue xid data
    have heq : (fun x => queuedBy x ++ queuedFor x [Op.queue xid lsn' data]) = fun x =>
        queuedBy x ++ if xid = x then [{ lsn := lsn', txn := x, data }] else [] := by
      funext x
      by_cases hx : xid = x
      · simp [queuedFor, hx]
      · simp [queuedFor, hx]
    simpa [Reorder.step, Op.lsn?, heq, assignedIn] using hqueue
  | assign subxid lsn' =>
    have hne : subxid ≠ top := by
      rintro rfl
      simp [assignedIn] at htop
    simpa [Reorder.step, Op.lsn?, queuedFor, assignedIn] using (h.mono (hle lsn' rfl)).assign (Nat.le_refl lsn') hne
  | serialize xid =>
    simpa [Reorder.step, Op.lsn?, queuedFor, assignedIn] using h.serialize xid
  | setFinalLsn xid lsn' =>
    simpa [Reorder.step, Op.lsn?, queuedFor, assignedIn] using (h.mono (hle lsn' rfl)).setFinalLsn xid

theorem run_holds (walSegmentSize : Nat) {ops : List (Op δ)} (h : WellOrdered top ops) :
    ∃ lsn, (lsn = 0 ∨ lsn ∈ ops.filterMap Op.lsn?) ∧
      (run walSegmentSize top ops).Holds walSegmentSize top lsn (fun x => queuedFor x ops) (assignedIn ops) := by
  induction ops using List.reverseRecOn with
  | nil => exact ⟨0, .inl rfl, holds_empty walSegmentSize top⟩
  | append_singleton ops op ih =>
    have hlsns := h.lsns
    have hassigned := h.assigned
    rw [List.filterMap_append] at hlsns
    simp only [assignedIn, List.filterMap_append, List.mem_append, not_or] at hassigned
    obtain ⟨hpre, -, hacross⟩ := List.pairwise_append.mp hlsns
    obtain ⟨lsn, hlsn, hholds⟩ := ih ⟨hpre, hassigned.1⟩
    have hle : ∀ l, op.lsn? = some l → lsn ≤ l := by
      intro l hl
      rcases hlsn with rfl | hlsn
      · exact Nat.zero_le l
      · exact hacross lsn hlsn l (by simp [hl])
    have hstep := hholds.step hle hassigned.2
    refine ⟨op.lsn?.getD lsn, ?_, ?_⟩
    · cases hop : op.lsn? with
      | some l => exact .inr (by simp [hop])
      | none =>
        rcases hlsn with rfl | hlsn
        · exact .inl rfl
        · exact .inr (by simpa [hop] using hlsn)
    · simpa [run, queuedFor, assignedIn, List.filterMap_append] using hstep

end Runs

end CdcKafka.Reorder
