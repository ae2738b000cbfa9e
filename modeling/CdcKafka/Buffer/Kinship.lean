import CdcKafka.Buffer.Counters

/-! The counters and flags that a top-level transaction keeps for its family, when it is learned
late that a transaction belongs to it. -/

namespace CdcKafka.Buffer
open CdcKafka.Lib

variable {rb rb' : ReorderBuffer} {p s x : Nat} {t u st : Txn}

inductive QueueOp
  | queueChange (xid lsn : Nat) (change : Change)
  | xidSetCatalogChanges (xid lsn : Nat)
  /-- The memory limit was reached and the transaction goes to disk. -/
  | serialize (xid : Nat)

def QueueOp.run (rb : ReorderBuffer) : QueueOp → ReorderBuffer
  | .queueChange xid lsn change => reorderBufferQueueChange rb xid lsn change
  | .xidSetCatalogChanges xid lsn => reorderBufferXidSetCatalogChanges rb xid lsn
  | .serialize xid => reorderBufferSerializeTXN rb xid

def runQueue (rb : ReorderBuffer) (ops : List QueueOp) : ReorderBuffer := ops.foldl QueueOp.run rb

inductive Learned
  | assigned (lsn : Nat)
  | committed

def Learned.run (rb : ReorderBuffer) (p s : Nat) : Learned → ReorderBuffer
  | .assigned lsn => reorderBufferAssignChild rb p s lsn
  | .committed => reorderBufferCommitChild rb p s

namespace ReorderBuffer

def sizeOf (rb : ReorderBuffer) (x : Nat) : Nat := ((rb.byTxn x).map fun t => t.size).getD 0

def catalogOf (rb : ReorderBuffer) (x : Nat) : Bool := ((rb.byTxn x).map fun t => t.hasCatalogChanges).getD false

def streamableOf (rb : ReorderBuffer) (x : Nat) : Bool := ((rb.byTxn x).map fun t => t.hasStreamableChange).getD false

/-- The changes of a transaction can be freed without a counter wrapping around. -/
def Frees (rb : ReorderBuffer) (x : Nat) : Prop :=
  ∀ t top, rb.byTxn x = some t → rb.byTxn t.toptxn = some top → t.memory ≤ t.size ∧ t.memory ≤ top.totalSize

/-- What a top-level transaction says about its family, and what is left of it when the family is
cleaned up. -/
structure Aggregates (rb : ReorderBuffer) (p : Nat) (t : Txn) : Prop where
  total : t.totalSize = t.size + (t.subtxns.map rb.sizeOf).sum
  catalog : ∀ s ∈ t.subtxns, rb.catalogOf s = true → t.hasCatalogChanges = true
  streamable : ∀ s ∈ t.subtxns, rb.streamableOf s = true → t.hasStreamableChange = true
  frees_subs : ∀ done s rest, t.subtxns = done ++ s :: rest → Frees (done.foldl cleanupOne rb) s
  frees : Frees (t.subtxns.foldl cleanupOne rb) p
  zero : ∀ t', (t.subtxns.foldl cleanupOne rb).byTxn p = some t' → ∀ t'',
    (reorderBufferChangeMemoryUpdate (t.subtxns.foldl cleanupOne rb) t' false t'.memory).byTxn p = some t'' →
      t''.totalSize = 0

variable {g : Nat → Txn → Txn}

/-- A transaction that is on its own: its two counters both say what its changes take. -/
structure Alone (t : Txn) : Prop where
  isKnownSubxact : t.isKnownSubxact = false
  baseSnapshot : t.baseSnapshot = none
  subtxns : t.subtxns = []
  size : t.size = t.memory
  total : t.totalSize = t.size

structure Solo (rb : ReorderBuffer) : Prop extends Cached rb where
  alone : ∀ x t, rb.byTxn x = some t → Alone t

theorem Alone.toptxn (h : Alone t) : t.toptxn = t.xid := by
  rw [Txn.toptxn, h.isKnownSubxact, if_neg Bool.false_ne_true]

theorem solo_empty : Solo .empty where
  xid_eq x t hx := by cases hx
  cache hne := absurd rfl hne
  alone x t hx := by cases hx

theorem alone_new (x lsn restart : Nat) : Alone (Txn.new x lsn restart) := ⟨rfl, rfl, rfl, rfl, rfl⟩

theorem Solo.lookup (h : Solo rb) (x lsn : Nat) (createAsTop : Bool) :
    Solo (reorderBufferTXNByXid rb x true lsn createAsTop).1 ∧
      ∃ t, (reorderBufferTXNByXid rb x true lsn createAsTop).1.found = some t ∧
        (reorderBufferTXNByXid rb x true lsn createAsTop).1.byTxn x = some t := by
  obtain ⟨t, hfound, hx, hcached, hcases, hother⟩ := h.toCached.lookup x lsn createAsTop
  refine ⟨⟨hcached, fun y u hu => ?_⟩, t, hfound, hx⟩
  by_cases hy : y = x
  · rw [hy, hx] at hu
    cases hu
    rcases hcases with hold | ⟨rfl, -⟩
    · exact h.alone x t hold
    · exact alone_new _ _ _
  · rw [hother y hy] at hu
    exact h.alone y u hu

theorem Solo.each (h : Solo rb) (he : Each g rb rb')
    (hsize : ∀ y u, rb.byTxn y = some u → (g y u).size = (g y u).memory)
    (htotal : ∀ y u, rb.byTxn y = some u → (g y u).totalSize = (g y u).size) : Solo rb' := by
  refine ⟨he.cached h.toCached, fun y u hu => ?_⟩
  obtain ⟨v, hv, rfl⟩ := he.from hu
  have hold := h.alone y v hv
  have hs := he.shape y v
  exact ⟨hs.isKnownSubxact.trans hold.isKnownSubxact, hs.baseSnapshot.trans hold.baseSnapshot,
    hs.subtxns.trans hold.subtxns, hsize y v hv, htotal y v hv⟩

theorem Solo.serialize (h : Solo rb) (x : Nat) : Solo (serializeChanges rb x) := by
  cases hx : rb.byTxn x with
  | none =>
    rw [serializeChanges, hx]
    exact h
  | some t =>
    have hxid := h.xid_eq x t hx
    apply h.each (each_serialize hx)
    · intro y u hy
      exact spill_size hx hxid hy (h.alone y u hy).size
    · intro y u hy
      have hu := (h.alone y u hy).total
      simp only [spill, charge, (h.alone x t hx).toptxn]
      split
      · rw [hu]
      · exact hu

theorem Solo.run (h : Solo rb) (op : QueueOp) : Solo (op.run rb) := by
  cases op with
  | queueChange x lsn change =>
    obtain ⟨hsolo, t, hfound, hx⟩ := h.lookup x lsn true
    show Solo (reorderBufferQueueChange rb x lsn change)
    unfold reorderBufferQueueChange
    simp only [hfound]
    split
    · exact hsolo
    · apply hsolo.each (each_enqueue _ t change)
      · intro y u hy
        exact enqueue_size t change y (hsolo.alone y u hy).size
      · intro y u hy
        have hu := (hsolo.alone y u hy).total
        simp only [enqueue, charge, (hsolo.alone x t hx).toptxn]
        split
        · rw [hu]
        · exact hu
  | xidSetCatalogChanges x lsn =>
    obtain ⟨hsolo, t, hfound, hx⟩ := h.lookup x lsn true
    show Solo (reorderBufferXidSetCatalogChanges rb x lsn)
    unfold reorderBufferXidSetCatalogChanges
    simp only [hfound]
    rw [if_neg (by rw [(hsolo.alone x t hx).isKnownSubxact]; exact Bool.false_ne_true)]
    apply hsolo.each (each_markCatalogChanges _ t.xid)
    · intro y u hy
      exact (hsolo.alone y u hy).size
    · intro y u hy
      exact (hsolo.alone y u hy).total
  | serialize x =>
    show Solo (reorderBufferSerializeTXN rb x)
    unfold reorderBufferSerializeTXN
    cases hx : rb.byTxn x with
    | none => exact h
    | some t =>
      simp only [(h.alone x t hx).subtxns, List.foldl_nil]
      exact h.serialize x

theorem Solo.runQueue (h : Solo rb) (ops : List QueueOp) : Solo (runQueue rb ops) := by
  induction ops generalizing rb with
  | nil => exact h
  | cons op ops ih => exact ih (h.run op)

structure Joined (p s : Nat) (rb : ReorderBuffer) : Prop extends Cached rb where
  ne : p ≠ s
  parent : ∃ t, rb.byTxn p = some t ∧ t.isKnownSubxact = false ∧ t.subtxns = [s]
  child : ∃ st, rb.byTxn s = some st ∧ st.isKnownSubxact = true ∧ st.toplevelXid = p ∧ st.subtxns = []
  others : ∀ x t, rb.byTxn x = some t → x ≠ p → x ≠ s → t.isKnownSubxact = false ∧ t.subtxns = []
  sizes : ∀ x t, rb.byTxn x = some t → t.size = t.memory

structure Shared (p s : Nat) (rb : ReorderBuffer) : Prop extends Joined p s rb where
  total : ∀ t st, rb.byTxn p = some t → rb.byTxn s = some st → t.totalSize = t.size + st.size
  catalog : ∀ t st, rb.byTxn p = some t → rb.byTxn s = some st → st.hasCatalogChanges = true →
    t.hasCatalogChanges = true
  streamable : ∀ t st, rb.byTxn p = some t → rb.byTxn s = some st → st.hasStreamableChange = true →
    t.hasStreamableChange = true

theorem Joined.toptxn (h : Joined p s rb) (hx : rb.byTxn x = some t) : t.toptxn = if x = s then p else x := by
  have hxid := h.xid_eq x t hx
  by_cases hs : x = s
  · obtain ⟨st, hst, hsub, htop, -⟩ := h.child
    rw [hs, hst] at hx
    cases hx
    rw [if_pos hs, Txn.toptxn, hsub, if_pos rfl, htop]
  · have hsub : t.isKnownSubxact = false := by
      by_cases hp : x = p
      · obtain ⟨pt, hpt, hsub, -⟩ := h.parent
        rw [hp, hpt] at hx
        cases hx
        exact hsub
      · exact (h.others x t hx hp hs).1
    rw [if_neg hs, Txn.toptxn, hsub, if_neg Bool.false_ne_true, hxid]

theorem Joined.each (h : Joined p s rb) (he : Each g rb rb')
    (hsize : ∀ y u, rb.byTxn y = some u → (g y u).size = (g y u).memory) : Joined p s rb' where
  toCached := he.cached h.toCached
  ne := h.ne
  parent := by
    obtain ⟨t, ht, hsub, hsubs⟩ := h.parent
    have hs := he.shape p t
    exact ⟨g p t, he.to ht, hs.isKnownSubxact.trans hsub, hs.subtxns.trans hsubs⟩
  child := by
    obtain ⟨st, hst, hsub, htop, hsubs⟩ := h.child
    have hs := he.shape s st
    exact ⟨g s st, he.to hst, hs.isKnownSubxact.trans hsub, hs.toplevelXid.trans htop, hs.subtxns.trans hsubs⟩
  others x u hu hp hs := by
    obtain ⟨t, ht, rfl⟩ := he.from hu
    obtain ⟨hsub, hsubs⟩ := h.others x t ht hp hs
    have hshape := he.shape x t
    exact ⟨hshape.isKnownSubxact.trans hsub, hshape.subtxns.trans hsubs⟩
  sizes x u hu := by
    obtain ⟨t, ht, rfl⟩ := he.from hu
    exact hsize x t ht

theorem Shared.each (h : Shared p s rb) (he : Each g rb rb')
    (hsize : ∀ y u, rb.byTxn y = some u → (g y u).size = (g y u).memory)
    (htotal : ∀ t st, rb.byTxn p = some t → rb.byTxn s = some st → (g p t).totalSize = (g p t).size + (g s st).size)
    (hcatalog : ∀ t st, rb.byTxn p = some t → rb.byTxn s = some st → (g s st).hasCatalogChanges = true →
      (g p t).hasCatalogChanges = true)
    (hstreamable : ∀ t st, rb.byTxn p = some t → rb.byTxn s = some st → (g s st).hasStreamableChange = true →
      (g p t).hasStreamableChange = true) : Shared p s rb' where
  toJoined := h.toJoined.each he hsize
  total u su hu hsu := by
    obtain ⟨t, ht, rfl⟩ := he.from hu
    obtain ⟨st, hst, rfl⟩ := he.from hsu
    exact htotal t st ht hst
  catalog u su hu hsu := by
    obtain ⟨t, ht, rfl⟩ := he.from hu
    obtain ⟨st, hst, rfl⟩ := he.from hsu
    exact hcatalog t st ht hst
  streamable u su hu hsu := by
    obtain ⟨t, ht, rfl⟩ := he.from hu
    obtain ⟨st, hst, rfl⟩ := he.from hsu
    exact hstreamable t st ht hst

theorem Shared.lookup (h : Shared p s rb) (x lsn : Nat) : Shared p s (reorderBufferTXNByXid rb x true lsn true).1 ∧
      ∃ t, (reorderBufferTXNByXid rb x true lsn true).1.found = some t ∧
        (reorderBufferTXNByXid rb x true lsn true).1.byTxn x = some t := by
  obtain ⟨t, hfound, hx, hcached, hcases, hother⟩ := h.toCached.lookup x lsn true
  obtain ⟨pt, hpt, hpsub, hpsubs⟩ := h.parent
  obtain ⟨st, hst, hssub, hstop, hssubs⟩ := h.child
  have hkeep : ∀ y u, rb.byTxn y = some u → (reorderBufferTXNByXid rb x true lsn true).1.byTxn y = some u := by
    intro y u hu
    by_cases hy : y = x
    · rcases hcases with hold | ⟨-, hnone⟩
      · rw [hy] at hu ⊢
        rw [hold] at hu
        cases hu
        exact hx
      · rw [hy, hnone] at hu
        cases hu
    · rw [hother y hy]
      exact hu
  have hback : ∀ y u, (reorderBufferTXNByXid rb x true lsn true).1.byTxn y = some u →
      rb.byTxn y = some u ∨ rb.byTxn y = none ∧ Alone u := by
    intro y u hu
    by_cases hy : y = x
    · rw [hy, hx] at hu
      cases hu
      rcases hcases with hold | ⟨rfl, hnone⟩
      · exact Or.inl (hy ▸ hold)
      · exact Or.inr ⟨hy ▸ hnone, alone_new _ _ _⟩
    · rw [hother y hy] at hu
      exact Or.inl hu
  have hparent : ∀ u, (reorderBufferTXNByXid rb x true lsn true).1.byTxn p = some u → rb.byTxn p = some u := by
    intro u hu
    rw [hkeep p pt hpt] at hu
    cases hu
    exact hpt
  have hchild : ∀ u, (reorderBufferTXNByXid rb x true lsn true).1.byTxn s = some u → rb.byTxn s = some u := by
    intro u hu
    rw [hkeep s st hst] at hu
    cases hu
    exact hst
  refine ⟨⟨⟨hcached, h.ne, ⟨pt, hkeep p pt hpt, hpsub, hpsubs⟩, ⟨st, hkeep s st hst, hssub, hstop, hssubs⟩, ?_, ?_⟩,
    ?_, ?_, ?_⟩, t, hfound, hx⟩
  · intro y u hu hp hs
    rcases hback y u hu with hu | ⟨-, halone⟩
    · exact h.others y u hu hp hs
    · exact ⟨halone.isKnownSubxact, halone.subtxns⟩
  · intro y u hu
    rcases hback y u hu with hu | ⟨-, halone⟩
    · exact h.sizes y u hu
    · exact halone.size
  · exact fun u su hu hsu => h.total u su (hparent u hu) (hchild su hsu)
  · exact fun u su hu hsu => h.catalog u su (hparent u hu) (hchild su hsu)
  · exact fun u su hu hsu => h.streamable u su (hparent u hu) (hchild su hsu)

theorem Shared.enqueue (h : Shared p s rb) (hx : rb.byTxn x = some t) (change : Change)
    (he : Each (ReorderBuffer.enqueue t change) rb rb') : Shared p s rb' := by
  have hxid := h.xid_eq x t hx
  have htop := h.toptxn hx
  have hne := h.ne
  apply h.each he
  · intro y u hy
    exact enqueue_size t change y (h.sizes y u hy)
  · intro u su hu hsu
    have htotal := h.total u su hu hsu
    simp only [ReorderBuffer.enqueue, charge, hxid, htop, if_true]
    -- a change of the child counts for the parent, one of the parent for itself
    by_cases hs : x = s
    · subst hs
      simp only [if_true, if_neg hne]
      omega
    · by_cases hp : x = p
      · subst hp
        simp only [if_neg hs, if_true, if_neg (Ne.symm hne)]
        omega
      · simp only [if_neg hs, if_neg (Ne.symm hp), if_neg (Ne.symm hs)]
        exact htotal
  · intro u su hu hsu hcat
    exact h.catalog u su hu hsu hcat
  · intro u su hu hsu hstream
    have hold := h.streamable u su hu hsu
    simp only [ReorderBuffer.enqueue, charge, htop, Bool.or_eq_true, Bool.and_eq_true, beq_iff_eq] at hstream ⊢
    rcases hstream with hstream | ⟨-, hself⟩
    · exact Or.inl (hold hstream)
    · -- the child is nobody's top-level transaction
      split at hself
      · exact absurd hself.symm hne
      · rename_i hxs
        exact absurd hself.symm hxs

theorem Shared.spill (h : Shared p s rb) (hx : rb.byTxn x = some t) (he : Each (ReorderBuffer.spill t x) rb rb') :
    Shared p s rb' := by
  have hxid := h.xid_eq x t hx
  have htop := h.toptxn hx
  have hne := h.ne
  apply h.each he
  · intro y u hy
    exact spill_size hx hxid hy (h.sizes y u hy)
  · intro u su hu hsu
    have htotal := h.total u su hu hsu
    simp only [ReorderBuffer.spill, charge, hxid, htop]
    by_cases hs : x = s
    · subst hs
      rw [hx] at hsu
      cases hsu
      have hle : t.size ≤ u.totalSize := by omega
      simp only [if_true, if_neg hne, Bool.false_eq_true, if_false, sizeSub_of_le hle, sizeSub_of_le (Nat.le_refl _)]
      omega
    · by_cases hp : x = p
      · subst hp
        rw [hx] at hu
        cases hu
        have hle : t.size ≤ t.totalSize := by omega
        simp only [if_neg hs, if_true, if_neg (Ne.symm hne), Bool.false_eq_true, if_false, sizeSub_of_le hle,
          sizeSub_of_le (Nat.le_refl _)]
        omega
      · simp only [if_neg hs, if_neg (Ne.symm hp), if_neg (Ne.symm hs)]
        exact htotal
  · intro u su hu hsu hcat
    exact h.catalog u su hu hsu hcat
  · intro u su hu hsu hstream
    exact h.streamable u su hu hsu hstream

theorem Shared.serializeChanges (h : Shared p s rb) (x : Nat) : Shared p s (serializeChanges rb x) := by
  cases hx : rb.byTxn x with
  | none =>
    rw [Buffer.serializeChanges, hx]
    exact h
  | some t => exact h.spill hx (each_serialize hx)

theorem Shared.mark (h : Shared p s rb) (he : Each g rb rb')
    (hg : ∀ y u, (g y u).size = u.size ∧ (g y u).totalSize = u.totalSize ∧ (g y u).memory = u.memory ∧
      (g y u).hasStreamableChange = u.hasStreamableChange)
    (hcatalog : ∀ u su, rb.byTxn p = some u → rb.byTxn s = some su → (g s su).hasCatalogChanges = true →
      (g p u).hasCatalogChanges = true) : Shared p s rb' := by
  apply h.each he
  · intro y u hy
    rw [(hg y u).1, (hg y u).2.2.1]
    exact h.sizes y u hy
  · intro u su hu hsu
    rw [(hg p u).1, (hg p u).2.1, (hg s su).1]
    exact h.total u su hu hsu
  · exact hcatalog
  · intro u su hu hsu hstream
    rw [(hg s su).2.2.2] at hstream
    rw [(hg p u).2.2.2]
    exact h.streamable u su hu hsu hstream

theorem Shared.setCatalogChanges (h : Shared p s rb) (hx : rb.byTxn x = some t) :
    Shared p s (if t.isKnownSubxact then markCatalogChanges (markCatalogChanges rb t.xid) t.toplevelXid
      else markCatalogChanges rb t.xid) := by
  have hxid := h.xid_eq x t hx
  by_cases hs : x = s
  · obtain ⟨st, hst, hsub, htop, -⟩ := h.child
    rw [hs, hst] at hx
    cases hx
    rw [if_pos hsub, hxid, htop]
    apply h.mark ((each_markCatalogChanges rb x).trans (each_markCatalogChanges _ p))
    · exact fun y u => ⟨rfl, rfl, rfl, rfl⟩
    · intro u su hu hsu _
      simp [markAs]
  · have hsub : t.isKnownSubxact = false := by
      by_cases hp : x = p
      · obtain ⟨pt, hpt, hsub, -⟩ := h.parent
        rw [hp, hpt] at hx
        cases hx
        exact hsub
      · exact (h.others x t hx hp hs).1
    rw [hsub, if_neg Bool.false_ne_true, hxid]
    apply h.mark (each_markCatalogChanges rb x)
    · exact fun y u => ⟨rfl, rfl, rfl, rfl⟩
    · intro u su hu hsu hcat
      simp only [markAs, Bool.or_eq_true, beq_iff_eq] at hcat ⊢
      rcases hcat with hcat | hself
      · exact Or.inl (h.catalog u su hu hsu hcat)
      · exact absurd hself.symm hs

theorem Shared.run (h : Shared p s rb) (op : QueueOp) : Shared p s (op.run rb) := by
  cases op with
  | queueChange x lsn change =>
    obtain ⟨hshared, t, hfound, hx⟩ := h.lookup x lsn
    show Shared p s (reorderBufferQueueChange rb x lsn change)
    unfold reorderBufferQueueChange
    simp only [hfound]
    split
    · exact hshared
    · exact hshared.enqueue hx change (each_enqueue _ t change)
  | xidSetCatalogChanges x lsn =>
    obtain ⟨hshared, t, hfound, hx⟩ := h.lookup x lsn
    show Shared p s (reorderBufferXidSetCatalogChanges rb x lsn)
    unfold reorderBufferXidSetCatalogChanges
    simp only [hfound]
    exact hshared.setCatalogChanges hx
  | serialize x =>
    show Shared p s (reorderBufferSerializeTXN rb x)
    unfold reorderBufferSerializeTXN
    split
    · exact h
    · rename_i t hx
      have hfold : ∀ (l : List Nat) (rb : ReorderBuffer), Shared p s rb →
          Shared p s (l.foldl Buffer.serializeChanges rb) := by
        intro l
        induction l with
        | nil => exact fun rb h => h
        | cons y l ih => exact fun rb h => ih _ (h.serializeChanges y)
      exact (hfold t.subtxns rb h).serializeChanges x

theorem Shared.runQueue (h : Shared p s rb) (ops : List QueueOp) : Shared p s (runQueue rb ops) := by
  induction ops generalizing rb with
  | nil => exact h
  | cons op ops ih => exact ih (h.run op)

theorem Shared.cleanupChild (h : Shared p s rb) (hp : rb.byTxn p = some t) :
    ∃ t', (cleanupOne rb s).byTxn p = some t' ∧ t'.toptxn = p ∧ t'.xid = p ∧ t'.size = t.size ∧
      t'.memory = t.memory ∧ t'.totalSize = t.size := by
  obtain ⟨st, hst, hsub, htop, -⟩ := h.child
  have htotal := h.total t st hp hst
  have hsize := h.sizes s st hst
  have hne := h.ne
  have hle : st.memory ≤ t.totalSize := by omega
  have hpt : (reorderBufferChangeMemoryUpdate rb st false st.memory).byTxn p =
      some (charge st false st.memory p t) := by
    rw [byTxn_memoryUpdate, hp]
    rfl
  have heq : cleanupOne rb s = removeTxn (reorderBufferChangeMemoryUpdate rb st false st.memory) s st := by
    rw [cleanupOne, hst]
  refine ⟨{ charge st false st.memory p t with subtxns := (charge st false st.memory p t).subtxns.erase s },
    ?_, ?_, ?_, ?_, ?_, ?_⟩
  · rw [heq, byTxn_removeTxn, if_neg hne, if_pos ⟨hsub, htop.symm⟩, hpt]
    rfl
  · have hold := h.toptxn hp
    rw [if_neg hne] at hold
    exact hold
  · exact h.xid_eq p t hp
  · simp only [charge, h.xid_eq s st hst, if_neg hne]
  · rfl
  · simp only [charge, h.toptxn hst, if_true, Bool.false_eq_true, if_false, sizeSub_of_le hle]
    omega

theorem Shared.aggregates (h : Shared p s rb) (hp : rb.byTxn p = some t) : Aggregates rb p t := by
  obtain ⟨pt, hpt, hpsub, hsubs⟩ := h.parent
  rw [hp] at hpt
  cases hpt
  obtain ⟨st, hst, hsub, htop, -⟩ := h.child
  have htotal := h.total t st hp hst
  have hsize := h.sizes s st hst
  have hpsize := h.sizes p t hp
  obtain ⟨t', ht', htop', hxid', hsize', hmem', htotal'⟩ := h.cleanupChild hp
  refine ⟨?_, ?_, ?_, ?_, ?_, ?_⟩
  · rw [hsubs, htotal]
    simp [sizeOf, hst]
  · intro y hy hcat
    rw [hsubs, List.mem_singleton] at hy
    subst hy
    rw [catalogOf, hst] at hcat
    exact h.catalog t st hp hst hcat
  · intro y hy hstream
    rw [hsubs, List.mem_singleton] at hy
    subst hy
    rw [streamableOf, hst] at hstream
    exact h.streamable t st hp hst hstream
  · intro done y rest hlist
    rw [hsubs] at hlist
    obtain ⟨rfl, hrest⟩ : done = [] ∧ [s] = y :: rest := by
      cases done with
      | nil => exact ⟨rfl, hlist⟩
      | cons z done => simp at hlist
    obtain ⟨rfl, -⟩ := List.cons.inj hrest
    intro u top hu hutop
    have hu : rb.byTxn s = some u := hu
    rw [hst] at hu
    cases hu
    have hutop : rb.byTxn st.toptxn = some top := hutop
    rw [h.toptxn hst, if_pos rfl, hp] at hutop
    cases hutop
    constructor <;> omega
  · rw [hsubs]
    intro u top hu hutop
    have hu : (cleanupOne rb s).byTxn p = some u := hu
    have hutop : (cleanupOne rb s).byTxn u.toptxn = some top := hutop
    rw [ht'] at hu
    cases hu
    rw [htop', ht'] at hutop
    cases hutop
    constructor <;> omega
  · rw [hsubs]
    intro u hu v hv
    have hu : (cleanupOne rb s).byTxn p = some u := hu
    rw [ht'] at hu
    cases hu
    rw [byTxn_memoryUpdate] at hv
    have hv : some (charge t' false t'.memory p t') = some v := by
      rw [← hv]
      show _ = ((cleanupOne rb s).byTxn p).map _
      rw [ht']
      rfl
    cases hv
    have hle : t'.memory ≤ t'.totalSize := by omega
    simp only [charge, htop', if_true, Bool.false_eq_true, if_false, sizeSub_of_le hle]
    omega

structure Agrees (rb : ReorderBuffer) (x : Nat) (t : Txn) : Prop extends Alone t where
  xid_eq : t.xid = x
  size_eq : t.size = rb.sizeOf x
  catalog_eq : t.hasCatalogChanges = rb.catalogOf x
  streamable_eq : t.hasStreamableChange = rb.streamableOf x

theorem Solo.agrees (h : Solo rb) (hx : rb.byTxn x = some t) : Agrees rb x t where
  toAlone := h.alone x t hx
  xid_eq := h.xid_eq x t hx
  size_eq := by rw [sizeOf, hx]; rfl
  catalog_eq := by rw [catalogOf, hx]; rfl
  streamable_eq := by rw [streamableOf, hx]; rfl

theorem agrees_new (hx : rb.byTxn x = none) (lsn restart : Nat) : Agrees rb x (Txn.new x lsn restart) where
  toAlone := alone_new x lsn restart
  xid_eq := rfl
  size_eq := by rw [sizeOf, hx]; rfl
  catalog_eq := by rw [catalogOf, hx]; rfl
  streamable_eq := by rw [streamableOf, hx]; rfl

theorem Agrees.of_byTxn (h : Agrees rb' x t) (hby : rb'.byTxn = rb.byTxn) : Agrees rb x t where
  toAlone := h.toAlone
  xid_eq := h.xid_eq
  size_eq := by rw [h.size_eq, sizeOf, sizeOf, hby]
  catalog_eq := by rw [h.catalog_eq, catalogOf, catalogOf, hby]
  streamable_eq := by rw [h.streamable_eq, streamableOf, streamableOf, hby]

structure LinkedFrom (p s : Nat) (rb rb' : ReorderBuffer) : Prop extends Cached rb' where
  parent : ∃ t, rb'.byTxn p = some { t with subtxns := [s] } ∧ Agrees rb p t
  child : ∃ st, rb'.byTxn s = some { st with isKnownSubxact := true, toplevelXid := p } ∧ Agrees rb s st
  others : ∀ y t, rb'.byTxn y = some t → y ≠ p → y ≠ s → Alone t

theorem linkChild_eq (hp : rb.byTxn p = some t) (hs : rb.byTxn s = some st) (hne : p ≠ s)
    (hbase : st.baseSnapshot = none) : linkChild rb p s = rb.mark p s := by
  have hparent := byTxn_mark hp hs hne p
  have hchild := byTxn_mark hp hs hne s
  rw [if_pos rfl] at hparent
  rw [if_neg hne.symm, if_pos rfl] at hchild
  rw [linkChild_of_some hparent hchild]
  -- there is no snapshot to hand over
  simp only [reorderBufferTransferSnapToParent, hbase]

theorem Cached.mark (h : Cached rb) (hp : rb.byTxn p = some t) (hs : rb.byTxn s = some st) (hne : p ≠ s) :
    Cached (rb.mark p s) := by
  have hget := byTxn_mark hp hs hne
  refine ⟨fun y u hu => ?_, fun hlast => ?_⟩
  · rw [hget] at hu
    split at hu
    · rename_i heq
      cases hu
      exact heq ▸ h.xid_eq p t hp
    · split at hu
      · rename_i heq
        cases hu
        exact heq ▸ h.xid_eq s st hs
      · exact h.xid_eq y u hu
  · show rb.byTxnLastTxn = ((rb.mark p s).byTxn rb.byTxnLastXid).map fun t => t.xid
    rw [h.cache hlast, hget]
    split
    · rename_i heq
      rw [heq, hp]
      rfl
    · split
      · rename_i heq
        rw [heq, hs]
        rfl
      · rfl

theorem Solo.assigned (h : Solo rb) (hne : p ≠ s) (lsn : Nat) :
    LinkedFrom p s rb (reorderBufferAssignChild rb p s lsn) := by
  obtain ⟨t, -, hp₁, hcached₁, hpcases, hother₁⟩ := h.toCached.lookup p lsn true
  obtain ⟨hsolo₁, -⟩ := h.lookup p lsn true
  have htAgrees : Agrees rb p t := by
    rcases hpcases with hold | ⟨rfl, hnone⟩
    · exact h.agrees hold
    · exact agrees_new hnone _ _
  unfold reorderBufferAssignChild
  dsimp only
  generalize (reorderBufferTXNByXid rb p true lsn true).1 = rb₁ at hp₁ hcached₁ hother₁ hsolo₁
  obtain ⟨st, -, hs₂, hcached₂, hscases, hother₂⟩ := hcached₁.lookup s lsn false
  obtain ⟨hsolo₂, -⟩ := hsolo₁.lookup s lsn false
  have hstAgrees : Agrees rb s st := by
    rcases hscases with hold | ⟨rfl, hnone⟩
    · rw [hother₁ s hne.symm] at hold
      exact h.agrees hold
    · rw [hother₁ s hne.symm] at hnone
      exact agrees_new hnone _ _
  have hp₂ := hother₂ p hne
  rw [hp₁] at hp₂
  generalize (reorderBufferTXNByXid rb₁ s true lsn false).2 = newSub
  generalize (reorderBufferTXNByXid rb₁ s true lsn false).1 = rb₂ at hs₂ hcached₂ hsolo₂ hp₂
  have hlinked : ∀ rb₃ : ReorderBuffer, rb₃.byTxn = rb₂.byTxn → rb₃.byTxnLastXid = rb₂.byTxnLastXid →
      rb₃.byTxnLastTxn = rb₂.byTxnLastTxn → LinkedFrom p s rb (linkChild rb₃ p s) := by
    intro rb₃ hby hxid htxn
    have hp₃ : rb₃.byTxn p = some t := by rw [hby]; exact hp₂
    have hs₃ : rb₃.byTxn s = some st := by rw [hby]; exact hs₂
    have hcached₃ : Cached rb₃ := by
      refine ⟨?_, ?_⟩
      · rw [hby]
        exact hcached₂.xid_eq
      · rw [hby, hxid, htxn]
        exact hcached₂.cache
    rw [linkChild_eq hp₃ hs₃ hne hstAgrees.baseSnapshot]
    have hget := byTxn_mark hp₃ hs₃ hne
    refine ⟨hcached₃.mark hp₃ hs₃ hne, ⟨t, ?_, htAgrees⟩, ⟨st, ?_, hstAgrees⟩, fun y u hu hyp hys => ?_⟩
    · rw [hget, if_pos rfl, htAgrees.subtxns]
      rfl
    · rw [hget, if_neg hne.symm, if_pos rfl]
    · rw [hget, if_neg hyp, if_neg hys, hby] at hu
      exact hsolo₂.alone y u hu
  simp only [hs₂]
  split
  · exact hlinked rb₂ rfl rfl rfl
  · rw [hstAgrees.isKnownSubxact, if_neg Bool.false_ne_true]
    exact hlinked _ rfl rfl rfl

theorem Solo.learned (h : Solo rb) (hne : p ≠ s) (link : Learned)
    (hmade : ∃ st, (link.run rb p s).byTxn s = some st ∧ st.isKnownSubxact = true) :
    LinkedFrom p s rb (link.run rb p s) := by
  cases link with
  | assigned lsn => exact h.assigned hne lsn
  | committed =>
    have heq : Learned.committed.run rb p s = reorderBufferCommitChild rb p s := rfl
    rw [heq] at hmade ⊢
    unfold reorderBufferCommitChild at hmade ⊢
    cases hs : rb.byTxn s with
    | none =>
      -- nothing is linked when the child is not known
      rw [h.toCached.txnByXid_missing hs] at hmade
      obtain ⟨st, hst, -⟩ := hmade
      have hst : rb.byTxn s = some st := hst
      rw [hs] at hst
      cases hst
    | some st =>
      rw [h.toCached.txnByXid_known hs]
      have hfound : (rb.cacheAs s (some s)).found = some st := hs
      simp only [hfound]
      have hsolo : Solo (rb.cacheAs s (some s)) := by
        refine ⟨h.toCached.cacheAs ?_, h.alone⟩
        rw [hs, Option.map_some, h.xid_eq s st hs]
      obtain ⟨hcached, ⟨t, ht, htA⟩, ⟨st', hst', hstA⟩, hothers⟩ := hsolo.assigned hne 0
      exact ⟨hcached, ⟨t, ht, htA.of_byTxn rfl⟩, ⟨st', hst', hstA.of_byTxn rfl⟩, hothers⟩

structure Carried (rb : ReorderBuffer) (p s : Nat) : Prop where
  size : rb.sizeOf s = 0
  catalog : rb.catalogOf s = true → rb.catalogOf p = true
  streamable : rb.streamableOf s = true → rb.streamableOf p = true

theorem LinkedFrom.shared (h : LinkedFrom p s rb rb') (hne : p ≠ s) (hc : Carried rb p s) : Shared p s rb' := by
  obtain ⟨t, ht, htA⟩ := h.parent
  obtain ⟨st, hst, hstA⟩ := h.child
  refine ⟨⟨h.toCached, hne, ⟨_, ht, htA.isKnownSubxact, rfl⟩, ⟨_, hst, rfl, rfl, hstA.subtxns⟩, ?_, ?_⟩, ?_, ?_, ?_⟩
  · intro y u hu hyp hys
    have halone := h.others y u hu hyp hys
    exact ⟨halone.isKnownSubxact, halone.subtxns⟩
  · intro y u hu
    by_cases hyp : y = p
    · rw [hyp, ht] at hu
      cases hu
      exact htA.size
    · by_cases hys : y = s
      · rw [hys, hst] at hu
        cases hu
        exact hstA.size
      · exact (h.others y u hu hyp hys).size
  · intro u su hu hsu
    rw [ht] at hu
    rw [hst] at hsu
    cases hu
    cases hsu
    have hzero : st.size = 0 := hstA.size_eq.trans hc.size
    show t.totalSize = t.size + st.size
    rw [htA.total, hzero]
    rfl
  · intro u su hu hsu hcat
    rw [ht] at hu
    rw [hst] at hsu
    cases hu
    cases hsu
    have hcat : st.hasCatalogChanges = true := hcat
    exact htA.catalog_eq.trans (hc.catalog (hstA.catalog_eq ▸ hcat))
  · intro u su hu hsu hstream
    rw [ht] at hu
    rw [hst] at hsu
    cases hu
    cases hsu
    have hstream : st.hasStreamableChange = true := hstream
    exact htA.streamable_eq.trans (hc.streamable (hstA.streamable_eq ▸ hstream))

theorem LinkedFrom.carried (h : LinkedFrom p s rb rb') (ha : ∀ t, rb'.byTxn p = some t → Aggregates rb' p t) :
    Carried rb p s := by
  obtain ⟨t, ht, htA⟩ := h.parent
  obtain ⟨st, hst, hstA⟩ := h.child
  have hagg := ha _ ht
  refine ⟨?_, fun hcat => ?_, fun hstream => ?_⟩
  · have htotal : t.totalSize = t.size + ([s].map rb'.sizeOf).sum := hagg.total
    have hsize : rb'.sizeOf s = st.size := by rw [sizeOf, hst]; rfl
    rw [htA.total, List.map_singleton, List.sum_singleton, hsize] at htotal
    rw [← hstA.size_eq]
    omega
  · rw [← htA.catalog_eq]
    apply hagg.catalog s List.mem_cons_self
    rw [catalogOf, hst]
    exact hstA.catalog_eq.trans hcat
  · rw [← htA.streamable_eq]
    apply hagg.streamable s List.mem_cons_self
    rw [streamableOf, hst]
    exact hstA.streamable_eq.trans hstream

end ReorderBuffer

/-- A late link loses nothing, whatever is queued afterwards, exactly when the child has nothing
yet that the parent would have to take over. -/
theorem aggregates_iff_carried (hne : p ≠ s) (before : List QueueOp) (link : Learned)
    (hmade : ∃ st, (link.run (runQueue .empty before) p s).byTxn s = some st ∧ st.isKnownSubxact = true) :
    (∀ after t, (runQueue (link.run (runQueue .empty before) p s) after).byTxn p = some t →
      (runQueue (link.run (runQueue .empty before) p s) after).Aggregates p t) ↔
      (runQueue .empty before).Carried p s := by
  have hlinked := (ReorderBuffer.solo_empty.runQueue before).learned hne link hmade
  constructor
  · intro hall
    exact hlinked.carried (hall [])
  · intro hcarried after t ht
    exact ((hlinked.shared hne hcarried).runQueue after).aggregates ht

theorem aggregates_iff_carried_assigned :
    (∀ after t, (runQueue ((Learned.assigned 30).run (runQueue .empty [.queueChange 2 10 ⟨.insert, 8⟩]) 2 3) after).byTxn 2
        = some t →
      (runQueue ((Learned.assigned 30).run (runQueue .empty [.queueChange 2 10 ⟨.insert, 8⟩]) 2 3) after).Aggregates 2 t) ↔
      (runQueue .empty [.queueChange 2 10 ⟨.insert, 8⟩]).Carried 2 3 :=
  aggregates_iff_carried (by decide) [.queueChange 2 10 ⟨.insert, 8⟩] (.assigned 30) ⟨_, rfl, rfl⟩

/-- One insert is queued for the child before anything tells of its parent. -/
theorem lateLink_loses_total :
    ¬ ∀ (p s : Nat) (before : List QueueOp) (link : Learned) (after : List QueueOp) (t : Txn), p ≠ s →
      (runQueue (link.run (runQueue .empty before) p s) after).byTxn p = some t →
        (runQueue (link.run (runQueue .empty before) p s) after).Aggregates p t := by
  intro hall
  have hagg := hall 2 3 [.queueChange 3 10 ⟨.insert, 8⟩] (.assigned 20) [] _ (by decide) rfl
  have htotal := hagg.total
  revert htotal
  decide +kernel

end CdcKafka.Buffer
