import CdcKafka.Buffer.Drive

/-! The structure of the reorder buffer along the decoding of a log. -/

namespace CdcKafka.Buffer
open CdcKafka.Lib

variable {rb rb' : ReorderBuffer} {x s L lsn xmin : Nat} {t top : Txn} {K : Kinship}

namespace ReorderBuffer

def Baseless (rb : ReorderBuffer) (x : Nat) : Prop :=
  ∀ t top, rb.byTxn x = some t → rb.byTxn t.toptxn = some top → top.baseSnapshot = none

/-- What holds between the operations of a record at `L` that belongs to transaction `x`: the
record may still have to create the transaction, or hand out its base snapshot. -/
structure Ready (K : Kinship) (x L : Nat) (rb : ReorderBuffer) : Prop extends Inv K rb where
  firsts : rb.byTxn x = none → rb.FirstsBelow L
  bases : rb.Baseless x → rb.BasesBelow L

theorem Inv.ready (h : Inv K rb) (hb : Bounded L L rb) (x : Nat) : Ready K x L rb :=
  ⟨h, fun _ => hb.firstsBelow, fun _ => hb.basesBelow⟩

theorem Ready.of_byTxn (h : Ready K x L rb) (hinv : Inv K rb') (hby : rb'.byTxn = rb.byTxn) : Ready K x L rb' := by
  refine ⟨hinv, fun hx => ?_, fun hx => ?_⟩
  · have hfirsts := h.firsts (by rw [← hby]; exact hx)
    intro y u hu
    rw [hby] at hu
    exact hfirsts y u hu
  · have hbases := h.bases (by rw [Baseless, ← hby]; exact hx)
    intro y u snap hu
    rw [hby] at hu
    exact hbases y u snap hu

theorem SameShape.toptxn {t' : Txn} (h : SameShape t t') : t'.toptxn = t.toptxn := by
  rw [Txn.toptxn, Txn.toptxn, h.isKnownSubxact, h.toplevelXid, h.xid]

theorem Ready.alike (h : Ready K x L rb) (ha : Alike rb rb') : Ready K x L rb' := by
  refine ⟨h.toInv.alike ha, fun hx => ?_, fun hx => ?_⟩
  · have hfirsts := h.firsts ((ha.none_iff x).mp hx)
    intro y u hu
    obtain ⟨v, hv, hs⟩ := ha.from hu
    rw [hs.firstLsn]
    exact hfirsts y v hv
  · have hbaseless : rb.Baseless x := by
      intro t top ht htop
      obtain ⟨t', ht', hst⟩ := ha.to ht
      obtain ⟨top', htop', hstop⟩ := ha.to htop
      rw [← hstop.baseSnapshot]
      exact hx t' top' ht' (by rw [hst.toptxn]; exact htop')
    intro y u snap hu hsnap
    obtain ⟨v, hv, hs⟩ := ha.from hu
    exact h.bases hbaseless y v snap hv (hs.baseSnapshot ▸ hsnap)

theorem Ready.lookup (h : Ready K x L rb) : Ready K x L (reorderBufferTXNByXid rb x true L true).1 ∧
      ∃ t, (reorderBufferTXNByXid rb x true L true).1.found = some t ∧
        (reorderBufferTXNByXid rb x true L true).1.byTxn x = some t := by
  obtain ⟨hinv, hfound⟩ := h.toInv.lookup x L h.firsts
  refine ⟨?_, hfound⟩
  cases hx : rb.byTxn x with
  | some t =>
    rw [h.cached.txnByXid_known hx] at hinv ⊢
    exact h.of_byTxn hinv rfl
  | none =>
    rw [h.cached.txnByXid_create hx] at hinv ⊢
    have hget := byTxn_create rb x L true
    refine ⟨hinv, fun hnone => ?_, fun _ y u snap hu hsnap => ?_⟩
    · rw [hget, if_pos rfl] at hnone
      cases hnone
    · -- nothing was known of the transaction, so the record has handed out nothing yet
      have hbases := h.bases fun t top ht => by
        rw [hx] at ht
        cases ht
      rw [hget] at hu
      split at hu
      · cases hu
        cases hsnap
      · exact hbases y u snap hu hsnap

theorem Ready.queueChange (h : Ready K x L rb) (change : Change) :
    Ready K x L (reorderBufferQueueChange rb x L change) := by
  obtain ⟨hready, t, hfound, -⟩ := h.lookup
  unfold reorderBufferQueueChange
  simp only [hfound]
  split
  · exact hready
  · exact hready.alike (alike_enqueue _ _ _)

theorem Inv.toptxn_listed (h : Inv K rb) (hx : rb.byTxn x = some t) :
    ∃ top, rb.byTxn t.toptxn = some top ∧ top.isKnownSubxact = false := by
  cases hsub : t.isKnownSubxact with
  | false =>
    refine ⟨t, ?_, hsub⟩
    rw [Txn.toptxn, hsub, if_neg Bool.false_ne_true, h.xid_eq x t hx]
    exact hx
  | true =>
    obtain ⟨hp, p, hbp, -⟩ := h.kin x t hx hsub
    rw [Txn.toptxn, hsub, if_pos rfl]
    exact ⟨p, hbp, h.toFamily.parent_listed hp hbp⟩

theorem Ready.giveBase (h : Ready K x L rb) (hx : rb.byTxn x = some t) (hbaseless : rb.Baseless x) (xmin : Nat) :
    Ready K x L (setBaseSnapshot rb t.toptxn ⟨xmin, L⟩) := by
  obtain ⟨top, htop, hlisted⟩ := h.toptxn_listed hx
  have hnone := hbaseless t top hx htop
  have hget : ∀ y, (setBaseSnapshot rb t.toptxn ⟨xmin, L⟩).byTxn y =
      if y = t.toptxn then some { top with baseSnapshot := some ⟨xmin, L⟩ } else rb.byTxn y := by
    intro y
    show (rb.modify t.toptxn _).byTxn y = _
    rw [byTxn_modify, htop]
    rfl
  -- the transaction still refers to the same top-level one
  have hself : ∃ t', (setBaseSnapshot rb t.toptxn ⟨xmin, L⟩).byTxn x = some t' ∧ t'.toptxn = t.toptxn := by
    rw [hget]
    split
    · rename_i heq
      rw [← heq, hx] at htop
      cases htop
      exact ⟨_, rfl, rfl⟩
    · exact ⟨t, hx, rfl⟩
  obtain ⟨t', ht', heq⟩ := hself
  refine ⟨h.toInv.setBaseSnapshot htop hlisted hnone (h.bases hbaseless), fun hmissing => ?_, fun hno => ?_⟩
  · rw [ht'] at hmissing
    cases hmissing
  · have := hno t' { top with baseSnapshot := some ⟨xmin, L⟩ } ht' (by rw [heq, hget, if_pos rfl])
    cases this

theorem Ready.setBaseSnapshot (h : Ready K x L rb) (hbaseless : rb.Baseless x) (xmin : Nat) :
    Ready K x L (reorderBufferSetBaseSnapshot rb x L xmin) := by
  obtain ⟨hready, t, hfound, hx⟩ := h.lookup
  have hbaseless' : (reorderBufferTXNByXid rb x true L true).1.Baseless x := by
    cases hx₀ : rb.byTxn x with
    | some t₀ =>
      rw [h.cached.txnByXid_known hx₀]
      exact hbaseless
    | none =>
      rw [h.cached.txnByXid_create hx₀]
      intro u top hu htop
      rw [byTxn_create, if_pos rfl] at hu
      cases hu
      have htop : (rb.create x L true).byTxn x = some top := htop
      rw [byTxn_create, if_pos rfl] at htop
      cases htop
      rfl
  unfold reorderBufferSetBaseSnapshot
  simp only [hfound]
  split
  · rename_i hsub
    obtain ⟨hinv, hby, -⟩ := hready.toInv.lookup_only t.toplevelXid 0 false
    have htop : t.toptxn = t.toplevelXid := by rw [Txn.toptxn, if_pos hsub]
    rw [← htop] at hinv hby ⊢
    apply (hready.of_byTxn hinv hby).giveBase
    · rw [hby]
      exact hx
    · rw [Baseless, hby]
      exact hbaseless'
  · rename_i hsub
    have htop : t.toptxn = t.xid := by rw [Txn.toptxn, if_neg hsub]
    rw [← htop]
    exact hready.giveBase hx hbaseless' xmin

theorem Ready.processChange (h : Ready K x L rb) (xmin : Nat) : Ready K x L (snapBuildProcessChange rb x L xmin) := by
  obtain ⟨hinv, hby, -, hno⟩ := h.toInv.hasBaseSnapshot x
  have hready := h.of_byTxn hinv hby
  unfold snapBuildProcessChange
  dsimp only
  split
  · exact hready
  · rename_i hfalse
    apply hready.setBaseSnapshot
    intro t top ht htop
    rw [hby] at ht htop
    exact hno (by simpa using hfalse) t ht top htop

theorem Ready.ownOp (h : Ready K x L rb) (op : OwnOp) : Ready K x L (step rb L (op.op x)) := by
  cases op with
  | processXid =>
    show Ready K x L (reorderBufferProcessXid rb x L)
    unfold reorderBufferProcessXid
    split
    · exact h.lookup.1
    · exact h
  | queueChange change => exact h.queueChange change
  | setBaseSnapshot xmin => exact h.processChange xmin

theorem isSome_modify (rb : ReorderBuffer) (x : Nat) (f : Txn → Txn) (y : Nat) :
    ((rb.modify x f).byTxn y).isSome = (rb.byTxn y).isSome := by
  rw [byTxn_modify]
  split
  · rename_i heq
    rw [heq, Option.isSome_map]
  · rfl

theorem isSome_transfer (rb : ReorderBuffer) (p st : Txn) (y : Nat) :
    ((reorderBufferTransferSnapToParent rb p st).byTxn y).isSome = (rb.byTxn y).isSome := by
  unfold reorderBufferTransferSnapToParent
  split
  · rfl
  · split
    · exact (isSome_modify _ _ _ y).trans (isSome_modify _ _ _ y)
    · exact isSome_modify _ _ _ y

theorem isSome_linkChild (rb : ReorderBuffer) (x s y : Nat) :
    ((linkChild rb x s).byTxn y).isSome = (rb.byTxn y).isSome := by
  have hmark : ((rb.mark x s).byTxn y).isSome = (rb.byTxn y).isSome :=
    (isSome_modify _ _ _ y).trans (isSome_modify _ _ _ y)
  rw [← hmark]
  obtain heq | ⟨p, st, -, heq⟩ := linkChild_cases rb x s
  · rw [heq]
  · rw [heq]
    exact isSome_transfer _ _ _ y

theorem Inv.assignChild_known (h : Inv K rb) (hlsn : rb.byTxn x = none → rb.FirstsBelow lsn) :
    (reorderBufferAssignChild rb x s lsn).byTxn s ≠ none := by
  obtain ⟨hinv, -⟩ := h.lookup x lsn hlsn
  have hsome : ((reorderBufferTXNByXid (reorderBufferTXNByXid rb x true lsn true).1 s true lsn false).1.byTxn s).isSome
      = true := by
    generalize (reorderBufferTXNByXid rb x true lsn true).1 = rb₁ at hinv
    cases hs : rb₁.byTxn s with
    | none =>
      rw [hinv.cached.txnByXid_create hs, byTxn_create, if_pos rfl]
      rfl
    | some st =>
      rw [hinv.cached.txnByXid_known hs]
      exact Option.isSome_iff_exists.mpr ⟨st, hs⟩
  rw [Option.ne_none_iff_isSome]
  unfold reorderBufferAssignChild
  dsimp only
  split
  · exact hsome
  · split
    · rw [isSome_linkChild]
      exact hsome
    · split
      · exact hsome
      · rw [isSome_linkChild]
        exact hsome

theorem Ready.assignChild (h : Inv K rb) (hb : Bounded L L rb) (hp : K.parent s = some x) :
    Ready K s L (reorderBufferAssignChild rb x s L) := by
  have hinv := h.assignChild hp fun _ => hb.firstsBelow
  have hbases : Bounded (L + 1) L (reorderBufferAssignChild rb x s L) :=
    Bounded.assignChild (hb.mono (Nat.le_succ L) (Nat.le_refl L)) (Nat.lt_succ_self L) x s
  refine ⟨hinv, fun hnone => ?_, fun _ => hbases.basesBelow⟩
  exact absurd hnone (h.assignChild_known fun _ => hb.firstsBelow)

theorem Inv.queueChange_known (h : Inv K rb) (hx : rb.byTxn x ≠ none) (lsn : Nat) (change : Change) :
    Inv K (reorderBufferQueueChange rb x lsn change) ∧
      ∀ y, (reorderBufferQueueChange rb x lsn change).byTxn y = none ↔ rb.byTxn y = none := by
  refine ⟨h.queueChange x lsn change fun hnone => absurd hnone hx, fun y => ?_⟩
  obtain ⟨t, ht⟩ := Option.ne_none_iff_exists'.mp hx
  have hfound : (rb.cacheAs x (some x)).found = some t := ht
  unfold reorderBufferQueueChange
  rw [h.cached.txnByXid_known ht]
  simp only [hfound]
  split
  · exact Iff.rfl
  · exact (alike_enqueue (rb.cacheAs x (some x)) t change).none_iff y

theorem Inv.queueChanges_known (h : Inv K rb) (hx : rb.byTxn x ≠ none) (lsn : Nat) (changes : List Change) :
    Inv K (changes.foldl (fun rb change => reorderBufferQueueChange rb x lsn change) rb) ∧
      ∀ y, (changes.foldl (fun rb change => reorderBufferQueueChange rb x lsn change) rb).byTxn y = none ↔
        rb.byTxn y = none := by
  induction changes generalizing rb with
  | nil => exact ⟨h, fun _ => Iff.rfl⟩
  | cons change changes ih =>
    obtain ⟨hinv, hkeep⟩ := h.queueChange_known hx lsn change
    obtain ⟨hinv', hkeep'⟩ := ih hinv fun hnone => hx ((hkeep x).mp hnone)
    exact ⟨hinv', fun y => (hkeep' y).trans (hkeep y)⟩

theorem Inv.distribute (h : Inv K rb) (lsn : Nat) (changes : Nat → List Change) :
    Inv K (snapBuildDistributeSnapshotAndInval rb lsn changes) := by
  have hall : ∀ y ∈ rb.toplevelByLsn, rb.byTxn y ≠ none := by
    intro y hy hnone
    obtain ⟨t, ht, -⟩ := (h.toplevel.mem_iff y).mp hy
    rw [hnone] at ht
    cases ht
  unfold snapBuildDistributeSnapshotAndInval
  generalize rb.toplevelByLsn = l at hall
  induction l generalizing rb with
  | nil => exact h
  | cons y l ih =>
    obtain ⟨hinv, hby, -⟩ := h.hasBaseSnapshot y
    have hy : (reorderBufferXidHasBaseSnapshot rb y).2.byTxn y ≠ none := by
      rw [hby]
      exact hall y List.mem_cons_self
    rw [List.foldl_cons]
    dsimp only
    split
    · obtain ⟨hinv', hkeep⟩ := hinv.queueChanges_known hy lsn (changes y)
      apply ih hinv'
      intro z hz hnone
      rw [hkeep, hby] at hnone
      exact hall z (List.mem_cons_of_mem y hz) hnone
    · apply ih hinv
      intro z hz hnone
      rw [hby] at hnone
      exact hall z (List.mem_cons_of_mem y hz) hnone

end ReorderBuffer

def Along (P : ReorderBuffer → Prop) : ReorderBuffer → List (Nat × Op) → Prop
  | rb, [] => P rb
  | rb, s :: steps => P rb ∧ Along P (step rb s.1 s.2) steps

theorem Along.last {P : ReorderBuffer → Prop} {steps : List (Nat × Op)} (h : Along P rb steps) :
    P (runSteps rb steps) := by
  induction steps generalizing rb with
  | nil => exact h
  | cons s steps ih => exact ih h.2

theorem Along.append {P : ReorderBuffer → Prop} {as bs : List (Nat × Op)} (ha : Along P rb as)
    (hb : Along P (runSteps rb as) bs) : Along P rb (as ++ bs) := by
  induction as generalizing rb with
  | nil => exact hb
  | cons s as ih => exact ⟨ha.1, ih ha.2 hb⟩

theorem Along.take {P : ReorderBuffer → Prop} {as bs : List (Nat × Op)} (h : Along P rb (as ++ bs)) :
    P (runSteps rb as) := by
  induction as generalizing rb with
  | nil =>
    cases bs with
    | nil => exact h
    | cons s bs => exact h.1
  | cons s as ih => exact ih h.2

theorem Along.imp {P Q : ReorderBuffer → Prop} (hPQ : ∀ rb, P rb → Q rb) {steps : List (Nat × Op)}
    (h : Along P rb steps) : Along Q rb steps := by
  induction steps generalizing rb with
  | nil => exact hPQ rb h
  | cons s steps ih => exact ⟨hPQ rb h.1, ih h.2⟩

theorem throughout_append {P : ReorderBuffer → Op → Prop} {as bs : List (Nat × Op)} :
    Throughout P rb (as ++ bs) ↔ Throughout P rb as ∧ Throughout P (runSteps rb as) bs := by
  induction as generalizing rb with
  | nil => exact (true_and _).symm ▸ Iff.rfl
  | cons s as ih =>
    show _ ∧ Throughout P _ (as ++ bs) ↔ (_ ∧ _) ∧ Throughout P (runSteps _ as) bs
    rw [ih, and_assoc]

theorem along_of_each {P : ReorderBuffer → Prop} {C : ReorderBuffer → Op → Prop} {steps : List (Nat × Op)}
    (hstep : ∀ s ∈ steps, ∀ rb, P rb → C rb s.2 → P (step rb s.1 s.2)) (h : P rb) (hC : Throughout C rb steps) :
    Along P rb steps := by
  induction steps generalizing rb with
  | nil => exact h
  | cons s steps ih =>
    refine ⟨h, ih (fun s' hs' => hstep s' (List.mem_cons_of_mem s hs')) ?_ hC.2⟩
    exact hstep s List.mem_cons_self rb h hC.1

def Op.Settling (K : Kinship) : Op → Prop
  | .commitChild xid subxid => K.parent subxid = some xid
  | .distribute _ | .commit _ | .abort _ | .abortOld _ | .forget _ => True
  | _ => False

open ReorderBuffer in
theorem inv_of_settling (h : Inv K rb) {op : Op} (hop : op.Settling K) (hknown : ParentKnown rb op) (lsn : Nat) :
    Inv K (step rb lsn op) := by
  cases op with
  | commitChild x s => exact h.commitChild hop hknown
  | distribute changes => exact h.distribute lsn changes
  | commit x => exact h.finish x
  | abort x => exact h.finish x
  | abortOld oldest => exact h.abortOld oldest
  | forget x => exact h.finish x
  | processXid x => exact hop.elim
  | queueChange x change => exact hop.elim
  | assignChild x s => exact hop.elim
  | setBaseSnapshot x xmin => exact hop.elim

open ReorderBuffer in
theorem along_own_settling (h : Ready K x L rb) {own : List OwnOp} {ops : List Op} (hops : ∀ op ∈ ops, op.Settling K)
    (hknown : Throughout ParentKnown rb ((own.map (OwnOp.op x) ++ ops).map fun op => (L, op))) :
    Along (Inv K) rb ((own.map (OwnOp.op x) ++ ops).map fun op => (L, op)) := by
  rw [List.map_append] at hknown ⊢
  obtain ⟨hfirst, hrest⟩ := throughout_append.mp hknown
  have hown : Along (Ready K x L) rb ((own.map (OwnOp.op x)).map fun op => (L, op)) := by
    apply along_of_each _ h hfirst
    intro s hs rb h _
    obtain ⟨op, hop, rfl⟩ := List.mem_map.mp hs
    obtain ⟨o, -, rfl⟩ := List.mem_map.mp hop
    exact h.ownOp o
  apply (hown.imp fun rb h => h.toInv).append
  apply along_of_each _ hown.last.toInv hrest
  intro s hs rb h hparent
  obtain ⟨op, hop, rfl⟩ := List.mem_map.mp hs
  exact inv_of_settling h (hops op hop) hparent L

theorem Body.ops_eq (body : Body) (xid : Nat)
    (hsubs : ∀ subxacts base distributed skip, body = .commit subxacts base distributed skip →
      ∀ s ∈ subxacts, K.parent s = some xid) :
    ∃ (own : List OwnOp) (ops : List Op), body.ops xid = own.map (OwnOp.op xid) ++ ops ∧ ∀ op ∈ ops, op.Settling K := by
  cases body with
  | change ops => exact ⟨ops, [], by simp [Body.ops], fun op hop => (List.not_mem_nil hop).elim⟩
  | abort subxacts =>
    refine ⟨[], subxacts.map Op.abort ++ [.abort xid], rfl, fun op hop => ?_⟩
    rcases List.mem_append.mp hop with hop | hop
    · obtain ⟨s, -, rfl⟩ := List.mem_map.mp hop
      exact trivial
    · obtain rfl := List.mem_singleton.mp hop
      exact trivial
  | runningXacts oldest =>
    refine ⟨[.processXid], [.abortOld oldest], rfl, fun op hop => ?_⟩
    obtain rfl := List.mem_singleton.mp hop
    exact trivial
  | commit subxacts base distributed skip =>
    refine ⟨base.toList.map OwnOp.setBaseSnapshot, .distribute distributed ::
      if skip then subxacts.map Op.forget ++ [.forget xid] else subxacts.map (Op.commitChild xid) ++ [.commit xid],
      ?_, fun op hop => ?_⟩
    · cases base <;> rfl
    · rcases List.mem_cons.mp hop with rfl | hop
      · exact trivial
      · split at hop
        · rcases List.mem_append.mp hop with hop | hop
          · obtain ⟨s, -, rfl⟩ := List.mem_map.mp hop
            exact trivial
          · obtain rfl := List.mem_singleton.mp hop
            exact trivial
        · rcases List.mem_append.mp hop with hop | hop
          · obtain ⟨s, hs, rfl⟩ := List.mem_map.mp hop
            exact hsubs subxacts base distributed skip rfl s hs
          · obtain rfl := List.mem_singleton.mp hop
            exact trivial

open ReorderBuffer in
theorem along_record {r : Record} (hr : r.Valid K) (h : Inv K rb) (hb : Bounded r.lsn r.lsn rb)
    (hknown : Throughout ParentKnown rb r.steps) : Along (Inv K) rb r.steps := by
  obtain ⟨own, ops, hops, hsettling⟩ := r.body.ops_eq r.xid hr.subxacts
  unfold Record.steps Record.ops at hknown ⊢
  rw [hops] at hknown ⊢
  cases htop : r.topXid with
  | none =>
    rw [htop] at hknown
    exact along_own_settling (h.ready hb r.xid) hsettling hknown
  | some top =>
    rw [htop] at hknown
    exact ⟨h, along_own_settling (Ready.assignChild h hb (hr.topXid top htop)) hsettling hknown.2⟩

open ReorderBuffer in
theorem bounded_record {r : Record} (hb : Bounded r.lsn r.lsn rb) :
    Bounded (r.lsn + 1) (r.lsn + 1) (runSteps rb r.steps) := by
  have hfold : ∀ (ops : List Op) (rb : ReorderBuffer), Bounded (r.lsn + 1) (r.lsn + 1) rb →
      Bounded (r.lsn + 1) (r.lsn + 1) (runSteps rb (ops.map fun op => (r.lsn, op))) := by
    intro ops
    induction ops with
    | nil => exact fun rb h => h
    | cons op ops ih => exact fun rb h => ih _ (h.step (Nat.lt_succ_self _) (Nat.lt_succ_self _) op)
  exact hfold r.ops rb (hb.mono (Nat.le_succ _) (Nat.le_succ _))

open ReorderBuffer in
theorem along_wal {wal : List Record} (hwal : WellFormed K wal) (h : Inv K rb)
    (hb : ∀ r ∈ wal, Bounded r.lsn r.lsn rb) (hknown : Throughout ParentKnown rb (wal.flatMap Record.steps)) :
    Along (Inv K) rb (wal.flatMap Record.steps) := by
  induction wal generalizing rb with
  | nil => exact h
  | cons r wal ih =>
    obtain ⟨hlt, hincreasing⟩ := List.pairwise_cons.mp hwal.lsn_increasing
    rw [List.flatMap_cons] at hknown ⊢
    obtain ⟨hhead, htail⟩ := throughout_append.mp hknown
    have hbr := hb r List.mem_cons_self
    have hrecord := along_record (hwal.valid r List.mem_cons_self) h hbr hhead
    apply hrecord.append
    apply ih ⟨hincreasing, fun r' hr' => hwal.valid r' (List.mem_cons_of_mem r hr')⟩ hrecord.last _ htail
    intro r' hr'
    exact (bounded_record hbr).mono (hlt r' hr') (hlt r' hr')

theorem structured_of_wellFormed {wal : List Record} (hwal : WellFormed K wal)
    (hknown : Throughout ParentKnown .empty (wal.flatMap Record.steps)) {done rest : List (Nat × Op)}
    (hsteps : wal.flatMap Record.steps = done ++ rest) : (runSteps .empty done).Structured := by
  have hall := along_wal hwal (ReorderBuffer.inv_empty K) (fun r _ x t hx => by cases hx) hknown
  rw [hsteps] at hall
  exact hall.take.toStructured

def familyOfTwo : Kinship where
  parent s := if s = 3 then some 2 else none
  parent_top s p h := by
    split at h
    · cases h
      rfl
    · cases h

def parentFirst : List Record :=
  [⟨10, 2, none, .change [.processXid]⟩,
    ⟨20, 3, some 2, .change [.processXid, .setBaseSnapshot 1, .queueChange ⟨.insert, 8⟩]⟩,
    ⟨30, 4, none, .change [.processXid]⟩, ⟨40, 2, none, .commit [3] none (fun _ => []) false⟩]

theorem parentFirst_wellFormed : WellFormed familyOfTwo parentFirst := by
  refine ⟨by decide, fun r hr => ⟨fun top htop => ?_, fun subxacts base distributed skip hbody s hs => ?_⟩⟩
  · simp only [parentFirst, List.mem_cons, List.not_mem_nil, or_false] at hr
    rcases hr with rfl | rfl | rfl | rfl
    · cases htop
    · cases htop
      rfl
    · cases htop
    · cases htop
  · simp only [parentFirst, List.mem_cons, List.not_mem_nil, or_false] at hr
    rcases hr with rfl | rfl | rfl | rfl
    · cases hbody
    · cases hbody
    · cases hbody
    · cases hbody
      obtain rfl := List.mem_singleton.mp hs
      rfl

theorem structured_parentFirst : (runSteps .empty (parentFirst.flatMap Record.steps)).Structured ∧
      (runSteps .empty (parentFirst.flatMap Record.steps)).toplevelByLsn = [4] := by
  refine ⟨structured_of_wellFormed parentFirst_wellFormed ?_ (List.append_nil _).symm, by decide +kernel⟩
  refine ⟨trivial, trivial, trivial, trivial, trivial, trivial, trivial, fun t _ _ => ?_, trivial, trivial⟩
  decide +kernel

def parentUnknown : List Record :=
  [⟨5, 7, none, .change [.processXid]⟩, ⟨10, 3, none, .change [.processXid]⟩,
    ⟨20, 2, none, .commit [3] none (fun _ => []) false⟩]

theorem parentUnknown_wellFormed : WellFormed familyOfTwo parentUnknown := by
  refine ⟨by decide, fun r hr => ⟨fun top htop => ?_, fun subxacts base distributed skip hbody s hs => ?_⟩⟩
  · simp only [parentUnknown, List.mem_cons, List.not_mem_nil, or_false] at hr
    rcases hr with rfl | rfl | rfl <;> cases htop
  · simp only [parentUnknown, List.mem_cons, List.not_mem_nil, or_false] at hr
    rcases hr with rfl | rfl | rfl
    · cases hbody
    · cases hbody
    · cases hbody
      obtain rfl := List.mem_singleton.mp hs
      rfl

/-- Created at commit, the parent is listed with an invalid LSN behind the others. -/
theorem parentUnknown_not_structured :
    ¬ ∀ (K : Kinship) (wal : List Record) (done rest : List (Nat × Op)), WellFormed K wal →
      wal.flatMap Record.steps = done ++ rest → (runSteps .empty done).Structured := by
  intro hall
  have hstructured := hall familyOfTwo parentUnknown ((parentUnknown.flatMap Record.steps).take 4)
    ((parentUnknown.flatMap Record.steps).drop 4) parentUnknown_wellFormed (List.take_append_drop 4 _).symm
  have hsorted := hstructured.toplevel.sorted
  have hnot : ¬ (runSteps .empty ((parentUnknown.flatMap Record.steps).take 4)).toplevelByLsn.Pairwise fun a b =>
      (runSteps .empty ((parentUnknown.flatMap Record.steps).take 4)).firstLsn a <
        (runSteps .empty ((parentUnknown.flatMap Record.steps).take 4)).firstLsn b := by
    decide +kernel
  exact hnot hsorted

end CdcKafka.Buffer
