import CdcKafka.Buffer.Structure

/-! Taking transactions out of the buffer, and learning that one is the child of another. -/

namespace CdcKafka.Buffer
open CdcKafka.Lib

variable {rb rb' : ReorderBuffer} {x s xid lsn : Nat} {t st p : Txn} {K : Kinship}

namespace ReorderBuffer

theorem Family.parent_listed (h : Family K rb) (hp : K.parent s = some x) (hx : rb.byTxn x = some p) :
    p.isKnownSubxact = false := by
  cases hsub : p.isKnownSubxact with
  | false => rfl
  | true =>
    obtain ⟨hparent, -⟩ := h.kin x p hx hsub
    rw [K.parent_top s x hp] at hparent
    cases hparent

theorem Family.child_childless (h : Family K rb) (hp : K.parent s = some x) (hs : rb.byTxn s = some st) :
    st.subtxns = [] := by
  apply List.eq_nil_iff_forall_not_mem.mpr
  intro y hy
  obtain ⟨yt, hyt, hsub, htop⟩ := h.subs s st hs y hy
  obtain ⟨hparent, -⟩ := h.kin y yt hyt hsub
  rw [htop] at hparent
  rw [K.parent_top y s hparent] at hp
  cases hp

theorem byTxn_freeTXN (rb : ReorderBuffer) (xid : Nat) : (reorderBufferFreeTXN rb xid).byTxn = rb.byTxn := by
  unfold reorderBufferFreeTXN
  split <;> rfl

theorem lists_freeTXN (rb : ReorderBuffer) (xid : Nat) :
    (reorderBufferFreeTXN rb xid).toplevelByLsn = rb.toplevelByLsn ∧
      (reorderBufferFreeTXN rb xid).txnsByBaseSnapshotLsn = rb.txnsByBaseSnapshotLsn := by
  unfold reorderBufferFreeTXN
  split <;> exact ⟨rfl, rfl⟩

theorem cache_freeTXN (rb : ReorderBuffer) (xid : Nat) :
    ((reorderBufferFreeTXN rb xid).byTxnLastXid = 0 ∧ (reorderBufferFreeTXN rb xid).byTxnLastTxn = none) ∨
      (rb.byTxnLastXid ≠ xid ∧ (reorderBufferFreeTXN rb xid).byTxnLastXid = rb.byTxnLastXid ∧
        (reorderBufferFreeTXN rb xid).byTxnLastTxn = rb.byTxnLastTxn) := by
  unfold reorderBufferFreeTXN
  split
  · exact Or.inl ⟨rfl, rfl⟩
  · rename_i hne
    exact Or.inr ⟨hne, rfl, rfl⟩

theorem byTxn_removeTxn (rb : ReorderBuffer) (xid : Nat) (t : Txn) (y : Nat) : (removeTxn rb xid t).byTxn y =
      if y = xid then none
      else if t.isKnownSubxact = true ∧ y = t.toplevelXid then
        (rb.byTxn y).map fun u => { u with subtxns := u.subtxns.erase xid }
      else rb.byTxn y := by
  rw [removeTxn, byTxn_freeTXN, byTxn_set]
  split
  · rfl
  · cases hsub : t.isKnownSubxact with
    | false => simp [deleteNode, hsub]
    | true =>
      simp only [deleteNode, hsub, if_true, true_and]
      rw [byTxn_modify]
      split
      · rename_i heq
        rw [heq]
      · rfl

theorem toplevel_removeTxn (rb : ReorderBuffer) (xid : Nat) (t : Txn) : (removeTxn rb xid t).toplevelByLsn =
      if t.isKnownSubxact then rb.toplevelByLsn else rb.toplevelByLsn.erase xid := by
  rw [removeTxn, (lists_freeTXN _ _).1]
  show (deleteNode rb xid t).toplevelByLsn = _
  unfold deleteNode
  split <;> rfl

theorem base_removeTxn (rb : ReorderBuffer) (xid : Nat) (t : Txn) : (removeTxn rb xid t).txnsByBaseSnapshotLsn =
      if t.baseSnapshot.isSome then rb.txnsByBaseSnapshotLsn.erase xid else rb.txnsByBaseSnapshotLsn := by
  rw [removeTxn, (lists_freeTXN _ _).2]
  rfl

theorem cache_removeTxn (rb : ReorderBuffer) (xid : Nat) (t : Txn) :
    ((removeTxn rb xid t).byTxnLastXid = 0 ∧ (removeTxn rb xid t).byTxnLastTxn = none) ∨
      (rb.byTxnLastXid ≠ xid ∧ (removeTxn rb xid t).byTxnLastXid = rb.byTxnLastXid ∧
        (removeTxn rb xid t).byTxnLastTxn = rb.byTxnLastTxn) := by
  have hnode : (deleteNode rb xid t).byTxnLastXid = rb.byTxnLastXid ∧
      (deleteNode rb xid t).byTxnLastTxn = rb.byTxnLastTxn := by
    unfold deleteNode
    split <;> exact ⟨rfl, rfl⟩
  rcases cache_freeTXN (ReorderBuffer.set { deleteNode rb xid t with
      txnsByBaseSnapshotLsn :=
        if t.baseSnapshot.isSome then rb.txnsByBaseSnapshotLsn.erase xid else rb.txnsByBaseSnapshotLsn
      catchangeTxns := if t.hasCatalogChanges then rb.catchangeTxns.erase xid else rb.catchangeTxns } xid none) xid
    with hzero | ⟨hne, hlast, htxn⟩
  · exact Or.inl hzero
  · exact Or.inr ⟨fun heq => hne (hnode.1.trans heq), hlast.trans hnode.1, htxn.trans hnode.2⟩

theorem removeTxn_some {u : Txn} (hu : (removeTxn rb xid t).byTxn x = some u) :
    x ≠ xid ∧ ∃ v, rb.byTxn x = some v ∧ u.xid = v.xid ∧ u.firstLsn = v.firstLsn ∧
      u.isKnownSubxact = v.isKnownSubxact ∧ u.toplevelXid = v.toplevelXid ∧ u.baseSnapshot = v.baseSnapshot ∧
      u.subtxns = if t.isKnownSubxact = true ∧ x = t.toplevelXid then v.subtxns.erase xid else v.subtxns := by
  rw [byTxn_removeTxn] at hu
  split at hu
  · cases hu
  · rename_i hne
    refine ⟨hne, ?_⟩
    split at hu
    · rename_i htop
      obtain ⟨v, hv, rfl⟩ := Option.map_eq_some_iff.mp hu
      exact ⟨v, hv, rfl, rfl, rfl, rfl, rfl, by rw [if_pos htop]⟩
    · rename_i htop
      exact ⟨u, hu, rfl, rfl, rfl, rfl, rfl, by rw [if_neg htop]⟩

theorem some_removeTxn {v : Txn} (hne : x ≠ xid) (hv : rb.byTxn x = some v) :
    ∃ u, (removeTxn rb xid t).byTxn x = some u ∧ u.firstLsn = v.firstLsn ∧ u.isKnownSubxact = v.isKnownSubxact ∧
      u.toplevelXid = v.toplevelXid ∧ u.baseSnapshot = v.baseSnapshot ∧ u.xid = v.xid ∧
      u.subtxns = if t.isKnownSubxact = true ∧ x = t.toplevelXid then v.subtxns.erase xid else v.subtxns := by
  rw [byTxn_removeTxn, if_neg hne]
  split
  · rw [hv]
    exact ⟨_, rfl, rfl, rfl, rfl, rfl, rfl, rfl⟩
  · exact ⟨v, hv, rfl, rfl, rfl, rfl, rfl, rfl⟩

theorem listed_removeTxn (rb : ReorderBuffer) (xid : Nat) (t : Txn) (y : Nat) :
    (removeTxn rb xid t).Listed y ↔ rb.Listed y ∧ y ≠ xid := by
  constructor
  · rintro ⟨u, hu, hs⟩
    obtain ⟨hne, v, hv, -, -, hsub, -⟩ := removeTxn_some hu
    exact ⟨⟨v, hv, hsub ▸ hs⟩, hne⟩
  · rintro ⟨⟨v, hv, hs⟩, hne⟩
    obtain ⟨u, hu, -, hsub, -⟩ := some_removeTxn (t := t) hne hv
    exact ⟨u, hu, hsub.trans hs⟩

theorem based_removeTxn (rb : ReorderBuffer) (xid : Nat) (t : Txn) (y : Nat) :
    (removeTxn rb xid t).Based y ↔ rb.Based y ∧ y ≠ xid := by
  constructor
  · rintro ⟨u, hu, hs⟩
    obtain ⟨hne, v, hv, -, -, -, -, hbase, -⟩ := removeTxn_some hu
    exact ⟨⟨v, hv, hbase ▸ hs⟩, hne⟩
  · rintro ⟨⟨v, hv, hs⟩, hne⟩
    obtain ⟨u, hu, -, -, -, hbase, -⟩ := some_removeTxn (t := t) hne hv
    exact ⟨u, hu, by rw [hbase]; exact hs⟩

theorem Family.remove (h : Family K rb) (hx : rb.byTxn xid = some t) (hsubs : t.subtxns = []) :
    Family K (removeTxn rb xid t) := by
  refine ⟨fun y u hu => ?_, fun y u hu hs => ?_, fun y u hu s hs => ?_, fun y u hu => ?_⟩
  · obtain ⟨-, v, hv, hxid, -⟩ := removeTxn_some hu
    rw [hxid]
    exact h.xid_eq y v hv
  · obtain ⟨hne, v, hv, -, -, hsub, htop, -⟩ := removeTxn_some hu
    obtain ⟨hp, q, hq, hmem⟩ := h.kin y v hv (hsub ▸ hs)
    -- the parent is not the one removed, which has no children
    have hqne : v.toplevelXid ≠ xid := by
      intro heq
      rw [heq, hx] at hq
      cases hq
      rw [hsubs] at hmem
      exact List.not_mem_nil hmem
    obtain ⟨q', hq', -, -, -, -, -, hsub'⟩ := some_removeTxn (t := t) hqne hq
    rw [htop]
    refine ⟨hp, q', hq', ?_⟩
    rw [hsub']
    split
    · exact (List.mem_erase_of_ne hne).mpr hmem
    · exact hmem
  · obtain ⟨hne, v, hv, -, -, -, -, -, hsub⟩ := removeTxn_some hu
    have hmem : s ∈ v.subtxns := by
      rw [hsub] at hs
      split at hs
      · exact List.mem_of_mem_erase hs
      · exact hs
    obtain ⟨st, hst, hk, htop⟩ := h.subs y v hv s hmem
    -- the one removed has been taken out of its parent's list
    have hsne : s ≠ xid := by
      rintro rfl
      rw [hx] at hst
      cases hst
      rw [if_pos ⟨hk, htop.symm⟩] at hsub
      rw [hsub] at hs
      exact (h.subs_nodup y v hv).not_mem_erase hs
    obtain ⟨st', hst', -, hk', htop', -⟩ := some_removeTxn (t := t) hsne hst
    exact ⟨st', hst', hk'.trans hk, htop'.trans htop⟩
  · obtain ⟨-, v, hv, -, -, -, -, -, hsub⟩ := removeTxn_some hu
    have hnd := h.subs_nodup y v hv
    rw [hsub]
    split
    · exact hnd.erase xid
    · exact hnd

theorem Inv.remove (h : Inv K rb) (hx : rb.byTxn xid = some t) (hsubs : t.subtxns = []) :
    Inv K (removeTxn rb xid t) := by
  have hfirst : ∀ y, (removeTxn rb xid t).Listed y → (removeTxn rb xid t).firstLsn y = rb.firstLsn y := by
    rintro y ⟨u, hu, -⟩
    obtain ⟨-, v, hv, -, hlsn, -⟩ := removeTxn_some hu
    simp [firstLsn, hu, hv, hlsn]
  have hbase : ∀ y, (removeTxn rb xid t).Based y → (removeTxn rb xid t).baseLsn y = rb.baseLsn y := by
    rintro y ⟨u, hu, -⟩
    obtain ⟨-, v, hv, -, -, -, -, hb, -⟩ := removeTxn_some hu
    simp [baseLsn, hu, hv, hb]
  have hlisted := listed_removeTxn rb xid t
  have hbased := based_removeTxn rb xid t
  refine ⟨⟨?_, ?_, ?_, ?_⟩, h.toFamily.remove hx hsubs⟩
  · rw [toplevel_removeTxn]
    cases hsub : t.isKnownSubxact with
    | false =>
      simp only [Bool.false_eq_true, if_false]
      exact h.toplevel.erase hlisted hfirst
    | true =>
      -- a subtransaction was not listed
      have hnot : ¬ rb.Listed xid := by
        rintro ⟨u, hu, hs⟩
        rw [hx] at hu
        cases hu
        rw [hsub] at hs
        cases hs
      have hsame : ∀ y, (removeTxn rb xid t).Listed y ↔ rb.Listed y := by
        intro y
        rw [hlisted]
        exact ⟨fun hy => hy.1, fun hy => ⟨hy, fun heq => hnot (heq ▸ hy)⟩⟩
      exact h.toplevel.congr hsame fun y hy => hfirst y ((hsame y).mpr hy)
  · rw [base_removeTxn]
    split
    · exact h.base.erase hbased hbase
    · rename_i hnone
      have hnot : ¬ rb.Based xid := by
        rintro ⟨u, hu, hs⟩
        rw [hx] at hu
        cases hu
        exact hnone hs
      have hsame : ∀ y, (removeTxn rb xid t).Based y ↔ rb.Based y := by
        intro y
        rw [hbased]
        exact ⟨fun hy => hy.1, fun hy => ⟨hy, fun heq => hnot (heq ▸ hy)⟩⟩
      exact h.base.congr hsame fun y hy => hbase y ((hsame y).mpr hy)
  · intro y hy
    obtain ⟨hy, hne⟩ := (hbased y).mp hy
    exact (hlisted y).mpr ⟨h.base_listed y hy, hne⟩
  · intro hne
    rcases cache_removeTxn rb xid t with ⟨hzero, -⟩ | ⟨hother, hlast, htxn⟩
    · exact absurd hzero hne
    · rw [hlast] at hne ⊢
      rw [htxn, h.cache hne]
      cases hl : rb.byTxn rb.byTxnLastXid with
      | none =>
        rw [byTxn_removeTxn, if_neg hother, hl]
        split <;> rfl
      | some v =>
        obtain ⟨u, hu, -, -, -, -, hxid, -⟩ := some_removeTxn (t := t) hother hl
        rw [hu]
        exact congrArg some hxid.symm

theorem Alike.of_eq (hby : rb'.byTxn = rb.byTxn) (htop : rb'.toplevelByLsn = rb.toplevelByLsn)
    (hbase : rb'.txnsByBaseSnapshotLsn = rb.txnsByBaseSnapshotLsn) (hxid : rb'.byTxnLastXid = rb.byTxnLastXid)
    (htxn : rb'.byTxnLastTxn = rb.byTxnLastTxn)
    (hrestart : rb'.currentRestartDecodingLsn = rb.currentRestartDecodingLsn) : Alike rb rb' := by
  refine ⟨fun x => by rw [hby], fun x t t' ht ht' => ?_, htop, hbase, hxid, htxn, hrestart⟩
  rw [hby] at ht'
  exact (Alike.refl rb).shape x t t' ht ht'

theorem lastXid_removeTxn (rb : ReorderBuffer) (xid : Nat) (t : Txn) :
    (removeTxn rb xid t).byTxnLastXid = (if rb.byTxnLastXid = xid then 0 else rb.byTxnLastXid) ∧
      (removeTxn rb xid t).byTxnLastTxn = if rb.byTxnLastXid = xid then none else rb.byTxnLastTxn := by
  unfold removeTxn reorderBufferFreeTXN deleteNode
  cases t.isKnownSubxact
  · by_cases heq : rb.byTxnLastXid = xid
    · simp [set, heq]
    · simp [set, heq]
  · by_cases heq : rb.byTxnLastXid = xid
    · simp [set, modify, heq]
    · simp [set, modify, heq]

theorem restart_removeTxn (rb : ReorderBuffer) (xid : Nat) (t : Txn) :
    (removeTxn rb xid t).currentRestartDecodingLsn = rb.currentRestartDecodingLsn := by
  unfold removeTxn reorderBufferFreeTXN deleteNode
  cases t.isKnownSubxact
  · by_cases heq : rb.byTxnLastXid = xid
    · simp [set, heq]
    · simp [set, heq]
  · by_cases heq : rb.byTxnLastXid = xid
    · simp [set, modify, heq]
    · simp [set, modify, heq]

theorem alike_removeTxn {u : Txn} (hs : SameShape u t) : Alike (removeTxn rb xid t) (removeTxn rb xid u) := by
  have hcache := lastXid_removeTxn rb xid
  apply Alike.of_eq
  · funext y
    rw [byTxn_removeTxn, byTxn_removeTxn, hs.isKnownSubxact, hs.toplevelXid]
  · rw [toplevel_removeTxn, toplevel_removeTxn, hs.isKnownSubxact]
  · rw [base_removeTxn, base_removeTxn, hs.baseSnapshot]
  · rw [(hcache u).1, (hcache t).1]
  · rw [(hcache u).2, (hcache t).2]
  · rw [restart_removeTxn, restart_removeTxn]

theorem Inv.cleanupOne (h : Inv K rb) (hx : ∀ t, rb.byTxn xid = some t → t.subtxns = []) :
    Inv K (cleanupOne rb xid) := by
  unfold Buffer.cleanupOne
  cases hget : rb.byTxn xid with
  | none => exact h
  | some t =>
    have halike := alike_memoryUpdate rb t false t.memory
    obtain ⟨t', ht', hs⟩ := halike.to hget
    have hsubs : t'.subtxns = [] := by
      rw [hs.subtxns]
      exact hx t hget
    exact ((h.alike halike).remove ht' hsubs).alike (alike_removeTxn hs)

theorem subtxns_cleanupOne (h : Inv K rb) (hx : rb.byTxn x = some t) (hs : s ∈ t.subtxns) :
    ∃ u, (Buffer.cleanupOne rb s).byTxn x = some u ∧ u.subtxns = t.subtxns.erase s := by
  obtain ⟨st, hst, hsub, htop⟩ := h.subs x t hx s hs
  have hne : x ≠ s := by
    rintro rfl
    obtain ⟨hp, -⟩ := h.kin x st hst hsub
    rw [htop] at hp
    rw [K.parent_top x x hp] at hp
    cases hp
  unfold Buffer.cleanupOne
  rw [hst]
  obtain ⟨t', ht', hshape⟩ := (alike_memoryUpdate rb st false st.memory).to hx
  obtain ⟨u, hu, -, -, -, -, -, hsubs⟩ := some_removeTxn (t := st) hne ht'
  refine ⟨u, hu, ?_⟩
  rw [hsubs, if_pos ⟨hsub, htop.symm⟩, hshape.subtxns]

theorem Inv.cleanupTXN (h : Inv K rb) (xid : Nat) : Inv K (reorderBufferCleanupTXN rb xid) := by
  -- the children go one by one, each out of its parent's list
  have hfold : ∀ (l : List Nat) (rb : ReorderBuffer) (t : Txn), Inv K rb → rb.byTxn xid = some t → t.subtxns = l →
      Inv K (l.foldl Buffer.cleanupOne rb) ∧
        ∀ u, (l.foldl Buffer.cleanupOne rb).byTxn xid = some u → u.subtxns = [] := by
    intro l
    induction l with
    | nil =>
      intro rb t h hx hl
      refine ⟨h, fun u hu => ?_⟩
      have hu : rb.byTxn xid = some u := hu
      rw [hx] at hu
      cases hu
      exact hl
    | cons s l ih =>
      intro rb t h hx hl
      have hmem : s ∈ t.subtxns := by rw [hl]; exact List.mem_cons_self
      obtain ⟨u, hu, hsubs⟩ := subtxns_cleanupOne h hx hmem
      have hclean : Inv K (Buffer.cleanupOne rb s) := by
        apply h.cleanupOne
        intro st hst
        obtain ⟨st', hst', hsub, -⟩ := h.subs xid t hx s hmem
        rw [hst] at hst'
        cases hst'
        obtain ⟨hp, -⟩ := h.kin s st hst hsub
        exact h.toFamily.child_childless hp hst
      apply ih (Buffer.cleanupOne rb s) u hclean hu
      rw [hsubs, hl, List.erase_cons_head]
  unfold reorderBufferCleanupTXN
  cases hx : rb.byTxn xid with
  | none => exact h
  | some t =>
    obtain ⟨hinv, hempty⟩ := hfold t.subtxns rb t h hx rfl
    exact hinv.cleanupOne hempty

theorem Inv.finish (h : Inv K rb) (xid : Nat) : Inv K (finish rb xid) := by
  obtain ⟨hinv, -⟩ := h.lookup_only xid 0 false
  unfold Buffer.finish
  dsimp only
  split
  · exact hinv
  · exact hinv.cleanupTXN xid

theorem Inv.abortOld (h : Inv K rb) (oldest : Nat) : Inv K (reorderBufferAbortOld rb oldest) := by
  unfold reorderBufferAbortOld
  generalize rb.toplevelByLsn.takeWhile _ = l
  induction l generalizing rb with
  | nil => exact h
  | cons x l ih => exact ih (h.cleanupTXN x)

def BasesBelow (rb : ReorderBuffer) (lsn : Nat) : Prop :=
  ∀ x t snap, rb.byTxn x = some t → t.baseSnapshot = some snap → snap.lsn < lsn

theorem Inv.setBaseSnapshot (h : Inv K rb) {snap : BaseSnapshot} (hx : rb.byTxn xid = some t)
    (htop : t.isKnownSubxact = false) (hnone : t.baseSnapshot = none) (hlsn : rb.BasesBelow snap.lsn) :
    Inv K (setBaseSnapshot rb xid snap) := by
  have hget : ∀ y, (Buffer.setBaseSnapshot rb xid snap).byTxn y =
      if y = xid then some { t with baseSnapshot := some snap } else rb.byTxn y := by
    intro y
    show (rb.modify xid _).byTxn y = _
    rw [byTxn_modify, hx]
    rfl
  have hself : (Buffer.setBaseSnapshot rb xid snap).byTxn xid = some { t with baseSnapshot := some snap } := by
    rw [hget, if_pos rfl]
  have hlisted : ∀ y, (Buffer.setBaseSnapshot rb xid snap).Listed y ↔ rb.Listed y := by
    intro y
    by_cases hy : y = xid
    · subst hy
      simp [Listed, hself, hx]
    · simp [Listed, hget, hy]
  have hbased : ∀ y, (Buffer.setBaseSnapshot rb xid snap).Based y ↔ rb.Based y ∨ y = xid := by
    intro y
    by_cases hy : y = xid
    · subst hy
      simp [Based, hself]
    · simp [Based, hget, hy]
  have hnotBased : ¬ rb.Based xid := by
    rintro ⟨u, hu, hs⟩
    rw [hx] at hu
    cases hu
    rw [hnone] at hs
    cases hs
  have hkin : SameKin rb (Buffer.setBaseSnapshot rb xid snap) := by
    refine ⟨fun y v hv => ?_, fun y u hu => ?_⟩
    · by_cases hy : y = xid
      · subst hy
        rw [hx] at hv
        cases hv
        exact ⟨_, hself, rfl, rfl, rfl, rfl⟩
      · exact ⟨v, by rw [hget, if_neg hy]; exact hv, rfl, rfl, rfl, rfl⟩
    · rw [hget] at hu
      split at hu
      · rename_i heq
        cases hu
        exact ⟨t, by rw [heq]; exact hx, rfl, rfl, rfl, rfl⟩
      · exact ⟨u, hu, rfl, rfl, rfl, rfl⟩
  refine ⟨⟨?_, ?_, ?_, ?_⟩, h.toFamily.sameKin hkin⟩
  · apply h.toplevel.congr hlisted
    intro y _
    by_cases hy : y = xid
    · subst hy
      simp [firstLsn, hself, hx]
    · simp [firstLsn, hget, hy]
  · apply h.base.concat hbased
    · intro y hy
      have hne : y ≠ xid := fun heq => hnotBased (heq ▸ hy)
      simp [baseLsn, hget, hne]
    · rintro y ⟨u, hu, hs⟩
      obtain ⟨b, hb⟩ := Option.isSome_iff_exists.mp hs
      have := hlsn y u b hu hb
      simpa [baseLsn, hu, hb, hself] using this
  · intro y hy
    rcases (hbased y).mp hy with hy | rfl
    · exact (hlisted y).mpr (h.base_listed y hy)
    · exact (hlisted y).mpr ⟨t, hx, htop⟩
  · intro hne
    have hne : rb.byTxnLastXid ≠ 0 := hne
    show rb.byTxnLastTxn = ((Buffer.setBaseSnapshot rb xid snap).byTxn rb.byTxnLastXid).map _
    rw [h.cache hne, hget]
    split
    · rename_i heq
      rw [heq, hx]
      rfl
    · rfl

end ReorderBuffer

end CdcKafka.Buffer
