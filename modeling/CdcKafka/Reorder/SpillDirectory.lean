import CdcKafka.Lib.Printf
import CdcKafka.Reorder.DiskRoundTrip
import CdcKafka.Reorder.Spill

/-! The spill files of all transactions in the directory of a slot: `ReorderBufferSerializeTXN`,
`ReorderBufferSerializedPath` and `ReorderBufferRestoreCleanup` of `reorderbuffer.c`. -/

namespace CdcKafka.Reorder.Disk
open CdcKafka.Lib CdcKafka.Xact

abbrev Path := List Char

abbrev Directory := Path → Option Bytes

/-- What the transactions and the buffer share: `final_lsn` of each transaction, `outbuf` of the
buffer and the files. -/
structure SpillState where
  finalLsn : UInt32 → UInt64
  outbuf : Bytes
  files : Directory

structure Decoding where
  slot : Path
  walSegmentSize : Nat
  pos : 0 < walSegmentSize
  firstLsn : UInt32 → UInt64

abbrev Decoding.seg (d : Decoding) (lsn : Nat) : Nat := xlByteToSeg d.walSegmentSize lsn

variable (d : Decoding)

def reorderBufferSerializedPath (xid : UInt32) (segno : Nat) : Path :=
  let recptr := segno * d.walSegmentSize % 2 ^ 64
  d.slot ++ "/xid-".toList ++ printNat 10 xid.toNat ++ "-lsn-".toList ++
    printNat 16 (recptr / 2 ^ 32) ++ "-".toList ++ printNat 16 (recptr % 2 ^ 32) ++ ".spill".toList

def SpillState.write (s : SpillState) (xid : UInt32) (lsn : UInt64) (record : Bytes) : SpillState :=
  let path := reorderBufferSerializedPath d xid (d.seg lsn.toNat)
  { finalLsn := Function.update s.finalLsn xid (if s.finalLsn xid < lsn then lsn else s.finalLsn xid)
    outbuf := record ++ s.outbuf.drop record.length
    -- the file is opened to append, and created if it is missing
    files := Function.update s.files path (some ((s.files path).getD [] ++ record)) }

/-- The changes of one transaction, each with the addresses that its pointers hold; those of its
subtransactions are calls of their own before it. -/
def reorderBufferSerializeTXN (xid : UInt32) (s : SpillState) :
    List (Addresses × ReorderBufferChange) → Except SpillError SpillState
  | [] => .ok s
  | (mem, change) :: changes =>
    match reorderBufferSerializeChange mem s.outbuf change with
    | .error e => .error e
    | .ok record =>
      reorderBufferSerializeTXN xid (s.write d xid change.lsn record) changes

def reorderBufferRestoreCleanup (xid : UInt32) (s : SpillState) : SpillState :=
  let first := d.seg (d.firstLsn xid).toNat
  let last := d.seg (s.finalLsn xid).toNat
  { s with
    files := (List.range' first (last + 1 - first)).foldl (fun files cur =>
      Function.update files (reorderBufferSerializedPath d xid cur) none)
      s.files }

variable {d : Decoding} {xid xid' : UInt32} {segno segno' : Nat}

def SegmentInRange (d : Decoding) (segno : Nat) : Prop := segno * d.walSegmentSize < 2 ^ 64

theorem segment_inRange {lsn : UInt64} (h : segno ≤ d.seg lsn.toNat) : SegmentInRange d segno :=
  Nat.lt_of_le_of_lt ((Nat.mul_le_mul_right _ h).trans (Nat.div_mul_le_self _ _)) lsn.toNat_lt

theorem serializedPath_injective (hrange : SegmentInRange d segno) (hrange' : SegmentInRange d segno')
    (h : reorderBufferSerializedPath d xid segno =
      reorderBufferSerializedPath d xid' segno') : xid = xid' ∧ segno = segno' := by
  simp only [reorderBufferSerializedPath, List.append_assoc, List.append_cancel_left_eq] at h
  obtain ⟨hxid, hlsn⟩ := split_at_sep (dash_notMem_printNat (by decide) (by decide))
    (dash_notMem_printNat (by decide) (by decide)) h
  have hlsn' := @List.append_cancel_left _ "lsn-".toList _ _ hlsn
  obtain ⟨hhi, hlo⟩ := split_at_sep (dash_notMem_printNat (by decide) (by decide))
    (dash_notMem_printNat (by decide) (by decide)) hlsn'
  have hhi' := printNat_injective (by decide) (by decide) hhi
  have hlo' := printNat_injective (by decide) (by decide) (List.append_cancel_right hlo)
  have hrecptr : segno * d.walSegmentSize = segno' * d.walSegmentSize := by
    rw [Nat.mod_eq_of_lt hrange, Nat.mod_eq_of_lt hrange'] at hhi' hlo'
    omega
  exact ⟨UInt32.toNat_inj.mp (printNat_injective (by decide) (by decide) hxid),
    Nat.eq_of_mul_eq_mul_right d.pos hrecptr⟩

theorem serializedPath_ne (hrange : SegmentInRange d segno) (hrange' : SegmentInRange d segno')
    (hne : xid ≠ xid' ∨ segno ≠ segno') :
    reorderBufferSerializedPath d xid segno ≠ reorderBufferSerializedPath d xid' segno' := by
  intro heq
  obtain ⟨hxid, hsegno⟩ := serializedPath_injective hrange hrange' heq
  exact hne.elim (fun hx => hx hxid) fun hs => hs hsegno

abbrev SpilledChange := Reorder.Change (Addresses × ReorderBufferChange)

def spilledChange (xid : UInt32) (p : Addresses × ReorderBufferChange) : SpilledChange where
  lsn := p.2.lsn.toNat
  txn := xid.toNat
  data := p

@[simp]
theorem lsn_spilledChange (xid : UInt32) (p : Addresses × ReorderBufferChange) :
    (spilledChange xid p).lsn = p.2.lsn.toNat := rfl

def SpilledChange.record (c : SpilledChange) : Bytes :=
  CLayout.u64.bytes (UInt64.ofNat (diskSize c.data.2.data)) ++ changeBytes c.data.1 c.data.2 ++
    variableBytes c.data.1 c.data.2.data

def Spillable (change : ReorderBufferChange) : Prop :=
  change.WellFormed ∧ diskSize change.data ≤ maxAllocSize

theorem serializeChange_spillable {p : Addresses × ReorderBufferChange} (h : Spillable p.2)
    (xid : UInt32) (outbuf : Bytes) :
    reorderBufferSerializeChange p.1 outbuf p.2 = .ok (spilledChange xid p).record := by
  have hok : reorderBufferSerializeChange p.1 outbuf p.2 = .ok _ := if_neg (Nat.not_lt.mpr h.2)
  obtain ⟨-, hrecord, -⟩ := reorderBufferSerializeChange_ok h.1 hok
  exact hok.trans (congrArg Except.ok hrecord)

theorem SpilledChange.length_record {c : SpilledChange} (h : Spillable c.data.2) :
    c.record.length = diskSize c.data.2.data := by
  have hok := serializeChange_spillable h 0 []
  exact (reorderBufferSerializeChange_ok h.1 hok).2.2

def inSegment (d : Decoding) (segno : Nat) (changes : List SpilledChange) : List SpilledChange :=
  changes.filter fun c => d.seg c.lsn = segno

/-- No file stands for a segment without changes. -/
def spillFile (changes : List SpilledChange) : Option Bytes :=
  if changes = [] then none else some (changes.flatMap SpilledChange.record)

theorem spillFile_getD (changes : List SpilledChange) :
    (spillFile changes).getD [] = changes.flatMap SpilledChange.record := by
  unfold spillFile
  split
  · next hnil =>
    rw [hnil]
    rfl
  · rfl

theorem spillFile_concat (changes : List SpilledChange) (c : SpilledChange) :
    spillFile (changes ++ [c]) = some ((spillFile changes).getD [] ++ c.record) := by
  rw [spillFile_getD]
  simp [spillFile]

theorem inSegment_concat (changes : List SpilledChange) (c : SpilledChange) : inSegment d segno (changes ++ [c]) =
      if d.seg c.lsn = segno then inSegment d segno changes ++ [c]
      else inSegment d segno changes := by
  unfold inSegment
  split
  · next h => simp [h]
  · next h => simp [h]

theorem inSegment_outside {changes : List SpilledChange} {first last : Nat}
    (hfirst : ∀ c ∈ changes, first ≤ c.lsn) (hlast : ∀ c ∈ changes, c.lsn ≤ last)
    (h : segno < d.seg first ∨ d.seg last < segno) :
    inSegment d segno changes = [] := by
  apply List.filter_eq_nil_iff.mpr
  intro c hc heq
  have hsegno : d.seg c.lsn = segno := by simpa using heq
  have hge : d.seg first ≤ segno :=
    hsegno ▸ Nat.div_le_div_right (hfirst c hc)
  have hle : segno ≤ d.seg last := hsegno ▸ Nat.div_le_div_right (hlast c hc)
  omega

structure SpillState.Holds (d : Decoding) (files₀ : Directory) (spilled : UInt32 → List SpilledChange)
    (s : SpillState) : Prop where
  files : ∀ xid segno, SegmentInRange d segno → s.files (reorderBufferSerializedPath d xid segno) =
      spillFile (inSegment d segno (spilled xid))
  le_final : ∀ xid, ∀ c ∈ spilled xid, c.lsn ≤ (s.finalLsn xid).toNat
  first_le : ∀ xid, ∀ c ∈ spilled xid, (d.firstLsn xid).toNat ≤ c.lsn
  spillable : ∀ xid, ∀ c ∈ spilled xid, Spillable c.data.2
  others : ∀ path, (∀ xid segno, SegmentInRange d segno →
    path ≠ reorderBufferSerializedPath d xid segno) → s.files path = files₀ path

variable {files₀ : Directory} {spilled : UInt32 → List SpilledChange} {s : SpillState}

theorem le_final_write {lsn : UInt64} {n : Nat} (record : Bytes)
    (h : n ≤ (s.finalLsn xid').toNat ∨ xid' = xid ∧ n ≤ lsn.toNat) :
    n ≤ ((s.write d xid lsn record).finalLsn xid').toNat := by
  by_cases hx : xid' = xid
  · subst hx
    simp only [SpillState.write, Function.update_self, UInt64.lt_iff_toNat_lt]
    split <;> omega
  · simpa [SpillState.write, Function.update_of_ne hx, hx] using h

theorem mem_update_append {new c : SpilledChange} (h : c ∈ Function.update spilled xid (spilled xid ++ [new]) xid') :
    c ∈ spilled xid' ∨ xid' = xid ∧ c = new := by
  by_cases hx : xid' = xid
  · subst hx
    simpa using h
  · exact .inl (by rwa [Function.update_of_ne hx] at h)

theorem SpillState.Holds.write (h : s.Holds d files₀ spilled) {p : Addresses × ReorderBufferChange} (hp : Spillable p.2)
    (hfirst : d.firstLsn xid ≤ p.2.lsn) :
    (s.write d xid p.2.lsn (spilledChange xid p).record).Holds d files₀
      (Function.update spilled xid (spilled xid ++ [spilledChange xid p])) := by
  have hown := segment_inRange (Nat.le_refl (d.seg p.2.lsn.toNat))
  refine ⟨fun xid' segno hrange => ?_, fun xid' c hc => ?_, fun xid' c hc => ?_,
    fun xid' c hc => ?_, fun path hpath => ?_⟩
  · by_cases hx : xid' = xid
    · subst hx
      rw [Function.update_self]
      by_cases hsegno : d.seg p.2.lsn.toNat = segno
      · subst hsegno
        simp only [SpillState.write, Function.update_self, h.files xid' _ hrange]
        rw [inSegment_concat, lsn_spilledChange, if_pos rfl, spillFile_concat]
      · have hne := @serializedPath_ne d xid' xid' _ _ hrange hown (.inr (Ne.symm hsegno))
        simp only [SpillState.write, Function.update_of_ne hne, h.files xid' _ hrange]
        rw [inSegment_concat, lsn_spilledChange, if_neg hsegno]
    · have hne := @serializedPath_ne d _ _ _ _ hrange hown (.inl hx)
      simp only [SpillState.write, Function.update_of_ne hne, Function.update_of_ne hx, h.files xid' _ hrange]
  · refine le_final_write _ ?_
    rcases mem_update_append hc with hc | ⟨rfl, rfl⟩
    · exact .inl (h.le_final xid' c hc)
    · exact .inr ⟨rfl, Nat.le_refl _⟩
  · rcases mem_update_append hc with hc | ⟨rfl, rfl⟩
    · exact h.first_le xid' c hc
    · exact UInt64.le_iff_toNat_le.mp hfirst
  · rcases mem_update_append hc with hc | ⟨rfl, rfl⟩
    · exact h.spillable xid' c hc
    · exact hp
  · exact (Function.update_of_ne (hpath xid _ hown) _ _).trans (h.others path hpath)

theorem foldl_unlink (paths : Nat → Path) (segnos : List Nat) (files : Directory) (path : Path) :
    segnos.foldl (fun files cur => Function.update files (paths cur) none) files path =
      if path ∈ segnos.map paths then none else files path := by
  induction segnos generalizing files with
  | nil => rfl
  | cons cur segnos ih =>
    rw [List.foldl_cons, ih, List.map_cons]
    by_cases hcur : path = paths cur
    · simp [hcur]
    · simp [hcur]

theorem SpillState.Holds.cleanup (h : s.Holds d files₀ spilled) (xid : UInt32) :
    (reorderBufferRestoreCleanup d xid s).Holds d files₀ (Function.update spilled xid []) := by
  have hrange : ∀ {cur}, cur ∈ List.range' (d.seg (d.firstLsn xid).toNat) (d.seg (s.finalLsn xid).toNat + 1 -
        d.seg (d.firstLsn xid).toNat) → SegmentInRange d cur := by
    intro cur hcur
    have hbounds := List.mem_range'_1.mp hcur
    have hle : cur ≤ d.seg (s.finalLsn xid).toNat := by omega
    exact segment_inRange hle
  have hsub : ∀ {xid' c}, c ∈ Function.update spilled xid [] xid' → c ∈ spilled xid' := by
    intro xid' c hc
    by_cases hx : xid' = xid
    · subst hx
      simp at hc
    · rwa [Function.update_of_ne hx] at hc
  refine ⟨fun xid' segno hown => ?_, fun xid' c hc => h.le_final xid' c (hsub hc),
    fun xid' c hc => h.first_le xid' c (hsub hc), fun xid' c hc => h.spillable xid' c (hsub hc),
    fun path hpath => ?_⟩
  · simp only [reorderBufferRestoreCleanup, foldl_unlink]
    by_cases hx : xid' = xid
    · subst hx
      rw [Function.update_self]
      split
      · rfl
      · next hmem =>
        -- a segment that no file is looked for in holds no change
        have hout : ¬ (d.seg (d.firstLsn xid').toNat ≤ segno ∧ segno ≤ d.seg (s.finalLsn xid').toNat) := fun hbounds =>
          hmem (List.mem_map_of_mem (List.mem_range'_1.mpr (by omega)))
        rw [h.files xid' segno hown, inSegment_outside (h.first_le xid') (h.le_final xid') (by omega)]
        rfl
    · rw [Function.update_of_ne hx, if_neg, h.files xid' segno hown]
      intro hmem
      obtain ⟨cur, hcur, heq⟩ := List.mem_map.mp hmem
      exact hx (serializedPath_injective (hrange hcur) hown heq).1.symm
  · simp only [reorderBufferRestoreCleanup, foldl_unlink]
    rw [if_neg, h.others path hpath]
    intro hmem
    obtain ⟨cur, hcur, heq⟩ := List.mem_map.mp hmem
    exact hpath xid cur (hrange hcur) heq.symm

inductive SpillOp
  | serialize (xid : UInt32) (changes : List (Addresses × ReorderBufferChange))
  | cleanup (xid : UInt32)

def spillStep (d : Decoding) (s : SpillState) : SpillOp → Except SpillError SpillState
  | .serialize xid changes => reorderBufferSerializeTXN d xid s changes
  | .cleanup xid => .ok (reorderBufferRestoreCleanup d xid s)

def spillRun (d : Decoding) (s : SpillState) (ops : List SpillOp) : Except SpillError SpillState :=
  ops.foldlM (spillStep d) s

def SpillOp.spills (spilled : UInt32 → List SpilledChange) :
    SpillOp → UInt32 → List SpilledChange
  | .serialize xid changes =>
    Function.update spilled xid (spilled xid ++ changes.map (spilledChange xid))
  | .cleanup xid => Function.update spilled xid []

def spilledBy (ops : List SpillOp) : UInt32 → List SpilledChange :=
  ops.foldl SpillOp.spills fun _ => []

def SpillOp.Ok (d : Decoding) : SpillOp → Prop
  | .serialize xid changes => ∀ p ∈ changes, Spillable p.2 ∧ d.firstLsn xid ≤ p.2.lsn
  | .cleanup _ => True

theorem SpillState.Holds.serialize (h : s.Holds d files₀ spilled) {changes : List (Addresses × ReorderBufferChange)}
    (hok : (SpillOp.serialize xid changes).Ok d) :
    ∃ s', reorderBufferSerializeTXN d xid s changes = .ok s' ∧ s'.Holds d files₀
        (Function.update spilled xid (spilled xid ++ changes.map (spilledChange xid))) := by
  induction changes generalizing s spilled with
  | nil => exact ⟨s, rfl, by simpa using h⟩
  | cons p changes ih =>
    obtain ⟨hp, hfirst⟩ := hok p List.mem_cons_self
    obtain ⟨s', hrun, hs'⟩ := ih (h.write hp hfirst) fun q hq => hok q (.tail _ hq)
    refine ⟨s', ?_, ?_⟩
    · rw [reorderBufferSerializeTXN, serializeChange_spillable hp xid]
      exact hrun
    · simpa using hs'

theorem SpillState.Holds.run (h : s.Holds d files₀ spilled) {ops : List SpillOp} (hok : ∀ op ∈ ops, op.Ok d) :
    ∃ s', spillRun d s ops = .ok s' ∧ s'.Holds d files₀ (ops.foldl SpillOp.spills spilled) := by
  induction ops generalizing s spilled with
  | nil => exact ⟨s, rfl, h⟩
  | cons op ops ih =>
    have htail : ∀ op ∈ ops, op.Ok d := fun op hop => hok op (.tail _ hop)
    cases op with
    | serialize xid changes =>
      obtain ⟨s₁, hstep, hs₁⟩ := h.serialize (hok _ List.mem_cons_self)
      obtain ⟨s', hrun, hs'⟩ := ih hs₁ htail
      refine ⟨s', ?_, hs'⟩
      rw [spillRun, List.foldlM_cons, spillStep, hstep]
      exact hrun
    | cleanup xid => exact ih (h.cleanup xid) htail

def Directory.Fresh (d : Decoding) (files : Directory) : Prop :=
  ∀ xid segno, SegmentInRange d segno → files (reorderBufferSerializedPath d xid segno) = none

theorem SpillState.holds_fresh (h : s.files.Fresh d) : s.Holds d s.files fun _ => [] where
  files := h
  le_final := fun _ _ hc => by cases hc
  first_le := fun _ _ hc => by cases hc
  spillable := fun _ _ hc => by cases hc
  others := fun _ _ => rfl

theorem files_of_all_cleaned (hfresh : s.files.Fresh d) {ops : List SpillOp}
    (hok : ∀ op ∈ ops, op.Ok d) (hclean : ∀ xid, spilledBy ops xid = []) :
    ∃ s', spillRun d s ops = .ok s' ∧ s'.files = s.files := by
  obtain ⟨s', hrun, hs'⟩ := (SpillState.holds_fresh hfresh).run hok
  refine ⟨s', hrun, ?_⟩
  funext path
  by_cases hpath : ∃ xid segno, SegmentInRange d segno ∧ path = reorderBufferSerializedPath d xid segno
  · obtain ⟨xid, segno, hrange, rfl⟩ := hpath
    have hnone : ops.foldl SpillOp.spills (fun _ => []) xid = [] := hclean xid
    rw [hs'.files xid segno hrange, hnone, hfresh xid segno hrange]
    rfl
  · exact hs'.others path fun xid segno hrange heq => hpath ⟨xid, segno, hrange, heq⟩

def SpillState.none : SpillState where
  finalLsn := fun _ => 0
  outbuf := []
  files := fun _ => .none

theorem SpillState.fresh_none (d : Decoding) : SpillState.none.files.Fresh d := fun _ _ _ => rfl

def sampleDecoding : Decoding where
  slot := []
  walSegmentSize := 0x1000000
  pos := by decide
  firstLsn := fun _ => 0

def sampleSpills : List SpillOp :=
  [.serialize 7 [(⟨fun _ => 4096, fun _ => by decide⟩, sampleChange)],
   .serialize 8 [(⟨fun _ => 8192, fun _ => by decide⟩, sampleChange)], .cleanup 8]

theorem sampleSpills_ok : ∀ op ∈ sampleSpills, op.Ok sampleDecoding := by
  have hsample : Spillable sampleChange := by
    unfold Spillable ReorderBufferChange.WellFormed HeapTuple.WellFormed
    decide
  simp [sampleSpills, SpillOp.Ok, hsample, sampleDecoding]

theorem files_of_sampleSpills_cleaned : ∃ s', spillRun sampleDecoding SpillState.none (sampleSpills ++ [.cleanup 7]) =
        .ok s' ∧ s'.files = fun _ => .none := by
  have hok : ∀ op ∈ sampleSpills ++ [.cleanup 7], op.Ok sampleDecoding := by
    intro op hop
    rcases List.mem_append.mp hop with hop | hop
    · exact sampleSpills_ok op hop
    · obtain rfl := List.mem_singleton.mp hop
      exact trivial
  refine files_of_all_cleaned (SpillState.fresh_none _) hok fun xid => ?_
  simp only [spilledBy, sampleSpills, List.cons_append, List.nil_append, List.foldl_cons,
    List.foldl_nil, SpillOp.spills, Function.update_apply]
  grind

end CdcKafka.Reorder.Disk
