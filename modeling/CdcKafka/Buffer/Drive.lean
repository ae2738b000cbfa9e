import CdcKafka.Buffer.Link

/-! The operations that the decoding of a log drives, record by record. -/

namespace CdcKafka.Buffer
open CdcKafka.Lib

def snapBuildProcessChange (rb : ReorderBuffer) (xid lsn xmin : Nat) : ReorderBuffer :=
  let r := reorderBufferXidHasBaseSnapshot rb xid
  if r.1 then r.2 else reorderBufferSetBaseSnapshot r.2 xid lsn xmin

/-- `SnapBuildDistributeSnapshotAndInval`: snapshot and invalidations are queued for every listed
transaction with a base snapshot. -/
def snapBuildDistributeSnapshotAndInval (rb : ReorderBuffer) (lsn : Nat) (changes : Nat → List Change) :
    ReorderBuffer :=
  rb.toplevelByLsn.foldl (fun rb xid =>
    let r := reorderBufferXidHasBaseSnapshot rb xid
    if r.1 then (changes xid).foldl (fun rb change => reorderBufferQueueChange rb xid lsn change) r.2 else r.2) rb

inductive Op
  | processXid (xid : Nat)
  | queueChange (xid : Nat) (change : Change)
  | assignChild (xid subxid : Nat)
  | commitChild (xid subxid : Nat)
  | setBaseSnapshot (xid xmin : Nat)
  | distribute (changes : Nat → List Change)
  | commit (xid : Nat)
  | abort (xid : Nat)
  | abortOld (oldestRunningXid : Nat)
  | forget (xid : Nat)

def step (rb : ReorderBuffer) (lsn : Nat) : Op → ReorderBuffer
  | .processXid xid => reorderBufferProcessXid rb xid lsn
  | .queueChange xid change => reorderBufferQueueChange rb xid lsn change
  | .assignChild xid subxid => reorderBufferAssignChild rb xid subxid lsn
  | .commitChild xid subxid => reorderBufferCommitChild rb xid subxid
  | .setBaseSnapshot xid xmin => snapBuildProcessChange rb xid lsn xmin
  | .distribute changes => snapBuildDistributeSnapshotAndInval rb lsn changes
  | .commit xid => reorderBufferCommit rb xid
  | .abort xid => reorderBufferAbort rb xid
  | .abortOld oldest => reorderBufferAbortOld rb oldest
  | .forget xid => reorderBufferForget rb xid

inductive OwnOp
  | processXid
  | queueChange (change : Change)
  | setBaseSnapshot (xmin : Nat)

def OwnOp.op (xid : Nat) : OwnOp → Op
  | .processXid => .processXid xid
  | .queueChange change => .queueChange xid change
  | .setBaseSnapshot xmin => .setBaseSnapshot xid xmin

inductive Body
  | change (ops : List OwnOp)
  | commit (subxacts : List Nat) (base : Option Nat) (distributed : Nat → List Change) (skip : Bool)
  | abort (subxacts : List Nat)
  | runningXacts (oldestRunningXid : Nat)

structure Record where
  lsn : Nat
  xid : Nat
  topXid : Option Nat
  body : Body

def Body.ops (xid : Nat) : Body → List Op
  | .change ops => ops.map (OwnOp.op xid)
  | .commit subxacts base distributed skip =>
    base.toList.map (Op.setBaseSnapshot xid) ++ [.distribute distributed] ++
      if skip then subxacts.map Op.forget ++ [.forget xid] else subxacts.map (Op.commitChild xid) ++ [.commit xid]
  | .abort subxacts => subxacts.map Op.abort ++ [.abort xid]
  | .runningXacts oldest => [.processXid xid, .abortOld oldest]

def Record.ops (r : Record) : List Op :=
  (r.topXid.toList.map fun top => Op.assignChild top r.xid) ++ r.body.ops r.xid

def Record.steps (r : Record) : List (Nat × Op) := r.ops.map fun op => (r.lsn, op)

def runSteps (rb : ReorderBuffer) (steps : List (Nat × Op)) : ReorderBuffer :=
  steps.foldl (fun rb s => step rb s.1 s.2) rb

structure Record.Valid (K : Kinship) (r : Record) : Prop where
  topXid : ∀ top ∈ r.topXid, K.parent r.xid = some top
  subxacts : ∀ subxacts base distributed skip, r.body = .commit subxacts base distributed skip →
    ∀ s ∈ subxacts, K.parent s = some r.xid

structure WellFormed (K : Kinship) (wal : List Record) : Prop where
  lsn_increasing : wal.Pairwise fun a b => a.lsn < b.lsn
  valid : ∀ r ∈ wal, r.Valid K

def Throughout (P : ReorderBuffer → Op → Prop) : ReorderBuffer → List (Nat × Op) → Prop
  | _, [] => True
  | rb, s :: steps => P rb s.2 ∧ Throughout P (step rb s.1 s.2) steps

def ParentKnown (rb : ReorderBuffer) : Op → Prop
  | .commitChild xid subxid =>
    ∀ t, rb.byTxn subxid = some t → t.isKnownSubxact = false → rb.byTxn xid ≠ none
  | _ => True

namespace ReorderBuffer

variable {rb rb' : ReorderBuffer} {x s F B lsn : Nat} {t st : Txn} {o : Option Txn}

structure Before (F B : Nat) (t : Txn) : Prop where
  first : t.firstLsn < F
  base : ∀ snap, t.baseSnapshot = some snap → snap.lsn < B

def Bounded (F B : Nat) (rb : ReorderBuffer) : Prop := ∀ x t, rb.byTxn x = some t → Before F B t

theorem Bounded.firstsBelow (h : Bounded F B rb) : rb.FirstsBelow F := fun x t hx => (h x t hx).first

theorem Bounded.basesBelow (h : Bounded F B rb) : rb.BasesBelow B := fun x t snap hx hsnap => (h x t hx).base snap hsnap

theorem Bounded.mono {F' B' : Nat} (h : Bounded F B rb) (hF : F ≤ F') (hB : B ≤ B') : Bounded F' B' rb := by
  intro x t hx
  obtain ⟨hfirst, hbase⟩ := h x t hx
  exact ⟨by omega, fun snap hsnap => Nat.lt_of_lt_of_le (hbase snap hsnap) hB⟩

theorem Bounded.of_byTxn (h : Bounded F B rb) (hby : rb'.byTxn = rb.byTxn) : Bounded F B rb' := by
  intro x t hx
  rw [hby] at hx
  exact h x t hx

theorem Bounded.set (h : Bounded F B rb) (ht : ∀ t, o = some t → Before F B t) : Bounded F B (rb.set x o) := by
  intro y u hu
  rw [byTxn_set] at hu
  split at hu
  · exact ht u hu
  · exact h y u hu

theorem Bounded.modify (h : Bounded F B rb) {f : Txn → Txn} (hf : ∀ t, Before F B t → Before F B (f t)) :
    Bounded F B (rb.modify x f) := by
  apply h.set
  intro u hu
  obtain ⟨t, ht, rfl⟩ := Option.map_eq_some_iff.mp hu
  exact hf t (h x t ht)

theorem Bounded.txnByXid (h : Bounded F B rb) {create top : Bool} (hlsn : create = true → lsn < F) :
    Bounded F B (reorderBufferTXNByXid rb x create lsn top).1 := by
  unfold reorderBufferTXNByXid
  split
  · exact h
  · split
    · exact h.of_byTxn rfl
    · split
      · rename_i hcreate
        have hnew : Bounded F B (rb.set x (some (Txn.new x lsn rb.currentRestartDecodingLsn))) := by
          apply h.set
          intro t ht
          cases ht
          exact ⟨hlsn hcreate, fun snap hsnap => by cases hsnap⟩
        apply hnew.of_byTxn
        dsimp only
        split <;> rfl
      · exact h.of_byTxn rfl

theorem Bounded.alike (h : Bounded F B rb) (ha : Alike rb rb') : Bounded F B rb' := by
  intro x t hx
  obtain ⟨u, hu, hs⟩ := ha.from hx
  obtain ⟨hfirst, hbase⟩ := h x u hu
  refine ⟨hs.firstLsn ▸ hfirst, fun snap hsnap => hbase snap ?_⟩
  rw [← hs.baseSnapshot]
  exact hsnap

theorem Bounded.queueChange (h : Bounded F B rb) (hlsn : lsn < F) (change : Change) :
    Bounded F B (reorderBufferQueueChange rb x lsn change) := by
  have hlook : Bounded F B (reorderBufferTXNByXid rb x true lsn true).1 := h.txnByXid fun _ => hlsn
  unfold reorderBufferQueueChange
  dsimp only
  split
  · exact hlook
  · split
    · exact hlook
    · exact hlook.alike (alike_enqueue _ _ _)

theorem Bounded.transfer (h : Bounded F B rb) (p st : Txn) (hst : Before F B st) :
    Bounded F B (reorderBufferTransferSnapToParent rb p st) := by
  have hnone : ∀ t, Before F B t → Before F B { t with baseSnapshot := none } := fun t ht =>
    ⟨ht.first, fun snap hsnap => by cases hsnap⟩
  unfold reorderBufferTransferSnapToParent
  split
  · exact h
  · rename_i snap hsnap
    split
    · have htaken : Bounded F B (rb.modify p.xid fun t => { t with baseSnapshot := some snap }) := by
        apply h.modify
        intro t ht
        refine ⟨ht.first, fun snap' heq => ?_⟩
        cases heq
        exact hst.base snap hsnap
      exact (htaken.modify (x := st.xid) hnone).of_byTxn rfl
    · exact (h.modify (x := st.xid) hnone).of_byTxn rfl

theorem Bounded.link (h : Bounded F B rb) (x s : Nat) : Bounded F B (linkChild rb x s) := by
  have hmark : Bounded F B (rb.mark x s) := by
    have hsub : Bounded F B (rb.modify s fun t => { t with isKnownSubxact := true, toplevelXid := x }) :=
      h.modify fun t ht => ⟨ht.first, ht.base⟩
    have hkeep : ∀ t, Before F B t → Before F B { t with subtxns := t.subtxns ++ [s] } := fun t ht =>
      ⟨ht.first, ht.base⟩
    exact hsub.modify hkeep
  obtain heq | ⟨p, st, hs, heq⟩ := linkChild_cases rb x s
  · rw [heq]
    exact hmark
  · rw [heq]
    exact hmark.transfer p st (hmark s st hs)

theorem Bounded.assignChild (h : Bounded F B rb) (hlsn : lsn < F) (x s : Nat) :
    Bounded F B (reorderBufferAssignChild rb x s lsn) := by
  have hboth : Bounded F B (reorderBufferTXNByXid (reorderBufferTXNByXid rb x true lsn true).1 s true lsn false).1 :=
    Bounded.txnByXid (h.txnByXid fun _ => hlsn) fun _ => hlsn
  unfold reorderBufferAssignChild
  dsimp only
  split
  · exact hboth
  · split
    · exact hboth.link x s
    · split
      · exact hboth
      · apply Bounded.link
        exact hboth.of_byTxn rfl

theorem Bounded.commitChild (h : Bounded F B rb) (hF : 0 < F) (x s : Nat) :
    Bounded F B (reorderBufferCommitChild rb x s) := by
  have hlook : Bounded F B (reorderBufferTXNByXid rb s false 0 false).1 := h.txnByXid nofun
  unfold reorderBufferCommitChild
  dsimp only
  split
  · exact hlook
  · exact hlook.assignChild hF x s

theorem Bounded.giveBase (h : Bounded F B rb) {snap : BaseSnapshot} (hsnap : snap.lsn < B) :
    Bounded F B (setBaseSnapshot rb x snap) := by
  have hgiven : Bounded F B (rb.modify x fun t => { t with baseSnapshot := some snap }) := by
    apply h.modify
    intro t ht
    refine ⟨ht.first, fun snap' heq => ?_⟩
    cases heq
    exact hsnap
  exact hgiven.of_byTxn rfl

theorem Bounded.setBaseSnapshot (h : Bounded F B rb) (hF : lsn < F) (hB : lsn < B) (x xmin : Nat) :
    Bounded F B (reorderBufferSetBaseSnapshot rb x lsn xmin) := by
  have hlook : Bounded F B (reorderBufferTXNByXid rb x true lsn true).1 := h.txnByXid fun _ => hF
  unfold reorderBufferSetBaseSnapshot
  dsimp only
  split
  · exact hlook
  · split
    · apply Bounded.giveBase _ hB
      exact hlook.txnByXid nofun
    · exact hlook.giveBase hB

theorem Bounded.hasBaseSnapshot (h : Bounded F B rb) (x : Nat) :
    Bounded F B (reorderBufferXidHasBaseSnapshot rb x).2 := by
  have hlook : Bounded F B (reorderBufferTXNByXid rb x false 0 false).1 := h.txnByXid nofun
  unfold reorderBufferXidHasBaseSnapshot
  dsimp only
  split
  · exact hlook
  · split
    · exact hlook.txnByXid nofun
    · exact hlook

theorem Bounded.processChange (h : Bounded F B rb) (hF : lsn < F) (hB : lsn < B) (x xmin : Nat) :
    Bounded F B (snapBuildProcessChange rb x lsn xmin) := by
  unfold snapBuildProcessChange
  dsimp only
  split
  · exact h.hasBaseSnapshot x
  · exact (h.hasBaseSnapshot x).setBaseSnapshot hF hB x xmin

theorem Bounded.distribute (h : Bounded F B rb) (hF : lsn < F) (changes : Nat → List Change) :
    Bounded F B (snapBuildDistributeSnapshotAndInval rb lsn changes) := by
  have hqueue : ∀ (x : Nat) (l : List Change) (rb : ReorderBuffer), Bounded F B rb →
      Bounded F B (l.foldl (fun rb change => reorderBufferQueueChange rb x lsn change) rb) := by
    intro x l
    induction l with
    | nil => exact fun rb h => h
    | cons change l ih => exact fun rb h => ih _ (h.queueChange hF change)
  unfold snapBuildDistributeSnapshotAndInval
  generalize rb.toplevelByLsn = l
  induction l generalizing rb with
  | nil => exact h
  | cons x l ih =>
    apply ih
    dsimp only
    split
    · exact hqueue x _ _ (h.hasBaseSnapshot x)
    · exact h.hasBaseSnapshot x

theorem Bounded.remove (h : Bounded F B rb) (x : Nat) (t : Txn) : Bounded F B (removeTxn rb x t) := by
  intro y u hu
  obtain ⟨-, v, hv, -, hfirst, -, -, hbase, -⟩ := removeTxn_some hu
  obtain ⟨hfirst', hbase'⟩ := h y v hv
  refine ⟨by omega, fun snap hsnap => hbase' snap ?_⟩
  rw [← hbase]
  exact hsnap

theorem Bounded.cleanupOne (h : Bounded F B rb) (x : Nat) : Bounded F B (cleanupOne rb x) := by
  unfold Buffer.cleanupOne
  split
  · exact h
  · exact (h.alike (alike_memoryUpdate _ _ _ _)).remove x _

theorem Bounded.cleanupTXN (h : Bounded F B rb) (x : Nat) : Bounded F B (reorderBufferCleanupTXN rb x) := by
  have hfold : ∀ (l : List Nat) (rb : ReorderBuffer), Bounded F B rb → Bounded F B (l.foldl Buffer.cleanupOne rb) := by
    intro l
    induction l with
    | nil => exact fun rb h => h
    | cons s l ih => exact fun rb h => ih _ (h.cleanupOne s)
  unfold reorderBufferCleanupTXN
  split
  · exact h
  · exact (hfold _ _ h).cleanupOne x

theorem Bounded.finish (h : Bounded F B rb) (x : Nat) : Bounded F B (finish rb x) := by
  have hlook : Bounded F B (reorderBufferTXNByXid rb x false 0 false).1 := h.txnByXid nofun
  unfold Buffer.finish
  dsimp only
  split
  · exact hlook
  · exact hlook.cleanupTXN x

theorem Bounded.abortOld (h : Bounded F B rb) (oldest : Nat) : Bounded F B (reorderBufferAbortOld rb oldest) := by
  unfold reorderBufferAbortOld
  generalize rb.toplevelByLsn.takeWhile _ = l
  induction l generalizing rb with
  | nil => exact h
  | cons x l ih => exact ih (h.cleanupTXN x)

theorem Bounded.step (h : Bounded F B rb) (hF : lsn < F) (hB : lsn < B) (op : Op) : Bounded F B (step rb lsn op) := by
  cases op with
  | processXid x =>
    show Bounded F B (reorderBufferProcessXid rb x lsn)
    unfold reorderBufferProcessXid
    split
    · exact h.txnByXid fun _ => hF
    · exact h
  | queueChange x change => exact h.queueChange hF change
  | assignChild x s => exact h.assignChild hF x s
  | commitChild x s => exact h.commitChild (by omega) x s
  | setBaseSnapshot x xmin => exact h.processChange hF hB x xmin
  | distribute changes => exact h.distribute hF changes
  | commit x => exact h.finish x
  | abort x => exact h.finish x
  | abortOld oldest => exact h.abortOld oldest
  | forget x => exact h.finish x

end ReorderBuffer

end CdcKafka.Buffer
