import CdcKafka.Buffer.Txns
import CdcKafka.Lib.Registry

/-! The structure of the reorder buffer: what its two lists and its lookup cache hold. -/

namespace CdcKafka.Buffer
open CdcKafka.Lib

structure Kinship where
  parent : Nat → Option Nat
  parent_top : ∀ s p, parent s = some p → parent p = none

variable {rb rb' : ReorderBuffer} {x y xid lsn : Nat} {t : Txn} {K : Kinship}

namespace ReorderBuffer

def Listed (rb : ReorderBuffer) (x : Nat) : Prop := ∃ t, rb.byTxn x = some t ∧ t.isKnownSubxact = false

def Based (rb : ReorderBuffer) (x : Nat) : Prop := ∃ t, rb.byTxn x = some t ∧ t.baseSnapshot.isSome = true

def firstLsn (rb : ReorderBuffer) (x : Nat) : Nat := ((rb.byTxn x).map fun t => t.firstLsn).getD 0

def baseLsn (rb : ReorderBuffer) (x : Nat) : Nat :=
  (((rb.byTxn x).bind fun t => t.baseSnapshot).map fun s => s.lsn).getD 0

structure Structured (rb : ReorderBuffer) : Prop where
  toplevel : Registry rb.Listed rb.firstLsn rb.toplevelByLsn
  base : Registry rb.Based rb.baseLsn rb.txnsByBaseSnapshotLsn
  base_listed : ∀ x, rb.Based x → rb.Listed x
  cache : rb.byTxnLastXid ≠ 0 → rb.byTxnLastTxn = (rb.byTxn rb.byTxnLastXid).map fun t => t.xid

structure Family (K : Kinship) (rb : ReorderBuffer) : Prop where
  xid_eq : ∀ x t, rb.byTxn x = some t → t.xid = x
  kin : ∀ x t, rb.byTxn x = some t → t.isKnownSubxact = true →
    K.parent x = some t.toplevelXid ∧ ∃ p, rb.byTxn t.toplevelXid = some p ∧ x ∈ p.subtxns
  subs : ∀ x t, rb.byTxn x = some t → ∀ s ∈ t.subtxns,
    ∃ st, rb.byTxn s = some st ∧ st.isKnownSubxact = true ∧ st.toplevelXid = x
  subs_nodup : ∀ x t, rb.byTxn x = some t → t.subtxns.Nodup

structure Inv (K : Kinship) (rb : ReorderBuffer) : Prop extends rb.Structured, Family K rb

theorem inv_empty (K : Kinship) : Inv K .empty where
  toplevel := ⟨fun x => by simp [Listed, empty], List.Pairwise.nil⟩
  base := ⟨fun x => by simp [Based, empty], List.Pairwise.nil⟩
  base_listed x h := by simp [Based, empty] at h
  cache h := absurd rfl h
  xid_eq x t h := by simp [empty] at h
  kin x t h := by simp [empty] at h
  subs x t h := by simp [empty] at h
  subs_nodup x t h := by simp [empty] at h

theorem byTxn_set (rb : ReorderBuffer) (x : Nat) (o : Option Txn) (y : Nat) :
    (rb.set x o).byTxn y = if y = x then o else rb.byTxn y := by
  simp [set, Function.update_apply]

theorem byTxn_modify (rb : ReorderBuffer) (x : Nat) (f : Txn → Txn) (y : Nat) :
    (rb.modify x f).byTxn y = if y = x then (rb.byTxn x).map f else rb.byTxn y := byTxn_set _ _ _ _

structure SameShape (t t' : Txn) : Prop where
  xid : t'.xid = t.xid
  firstLsn : t'.firstLsn = t.firstLsn
  isKnownSubxact : t'.isKnownSubxact = t.isKnownSubxact
  toplevelXid : t'.toplevelXid = t.toplevelXid
  baseSnapshot : t'.baseSnapshot = t.baseSnapshot
  subtxns : t'.subtxns = t.subtxns
  restartDecodingLsn : t'.restartDecodingLsn = t.restartDecodingLsn

structure Alike (rb rb' : ReorderBuffer) : Prop where
  none_iff : ∀ x, rb'.byTxn x = none ↔ rb.byTxn x = none
  shape : ∀ x t t', rb.byTxn x = some t → rb'.byTxn x = some t' → SameShape t t'
  toplevel : rb'.toplevelByLsn = rb.toplevelByLsn
  base : rb'.txnsByBaseSnapshotLsn = rb.txnsByBaseSnapshotLsn
  lastXid : rb'.byTxnLastXid = rb.byTxnLastXid
  lastTxn : rb'.byTxnLastTxn = rb.byTxnLastTxn
  restart : rb'.currentRestartDecodingLsn = rb.currentRestartDecodingLsn

theorem Alike.refl (rb : ReorderBuffer) : Alike rb rb :=
  ⟨fun _ => Iff.rfl, fun x t t' h h' => by rw [h] at h'; cases h'; exact ⟨rfl, rfl, rfl, rfl, rfl, rfl, rfl⟩,
    rfl, rfl, rfl, rfl, rfl⟩

theorem Alike.to (h : Alike rb rb') (hx : rb.byTxn x = some t) : ∃ t', rb'.byTxn x = some t' ∧ SameShape t t' := by
  cases hx' : rb'.byTxn x with
  | none =>
    rw [(h.none_iff x).mp hx'] at hx
    cases hx
  | some t' => exact ⟨t', rfl, h.shape x t t' hx hx'⟩

theorem Alike.from (h : Alike rb rb') (hx : rb'.byTxn x = some t) : ∃ t', rb.byTxn x = some t' ∧ SameShape t' t := by
  cases hx' : rb.byTxn x with
  | none =>
    rw [(h.none_iff x).mpr hx'] at hx
    cases hx
  | some t' => exact ⟨t', rfl, h.shape x t' t hx' hx⟩

theorem Alike.trans {rb'' : ReorderBuffer} (h : Alike rb rb') (h' : Alike rb' rb'') : Alike rb rb'' where
  none_iff x := (h'.none_iff x).trans (h.none_iff x)
  shape x t t'' ht ht'' := by
    obtain ⟨t', ht', hs⟩ := h.to ht
    have hs' := h'.shape x t' t'' ht' ht''
    exact ⟨hs'.xid.trans hs.xid, hs'.firstLsn.trans hs.firstLsn, hs'.isKnownSubxact.trans hs.isKnownSubxact,
      hs'.toplevelXid.trans hs.toplevelXid, hs'.baseSnapshot.trans hs.baseSnapshot, hs'.subtxns.trans hs.subtxns,
      hs'.restartDecodingLsn.trans hs.restartDecodingLsn⟩
  toplevel := h'.toplevel.trans h.toplevel
  base := h'.base.trans h.base
  lastXid := h'.lastXid.trans h.lastXid
  lastTxn := h'.lastTxn.trans h.lastTxn
  restart := h'.restart.trans h.restart

theorem Alike.modify (rb : ReorderBuffer) (x : Nat) {f : Txn → Txn} (hf : ∀ t, SameShape t (f t)) :
    Alike rb (rb.modify x f) := by
  refine ⟨fun y => ?_, fun y t t' ht ht' => ?_, rfl, rfl, rfl, rfl, rfl⟩
  · rw [byTxn_modify]
    split
    · rename_i hy
      rw [hy]
      simp
    · exact Iff.rfl
  · rw [byTxn_modify] at ht'
    split at ht'
    · rename_i hy
      rw [← hy, ht] at ht'
      cases ht'
      exact hf t
    · rw [ht] at ht'
      cases ht'
      exact ⟨rfl, rfl, rfl, rfl, rfl, rfl, rfl⟩

theorem Alike.size (rb : ReorderBuffer) (n : Nat) : Alike rb { rb with size := n } :=
  ⟨fun _ => Iff.rfl, (Alike.refl rb).shape, rfl, rfl, rfl, rfl, rfl⟩

theorem Alike.listed (h : Alike rb rb') (x : Nat) : rb'.Listed x ↔ rb.Listed x := by
  constructor
  · rintro ⟨t, ht, hs⟩
    obtain ⟨t', ht', hsame⟩ := h.from ht
    exact ⟨t', ht', hsame.isKnownSubxact ▸ hs⟩
  · rintro ⟨t, ht, hs⟩
    obtain ⟨t', ht', hsame⟩ := h.to ht
    exact ⟨t', ht', hsame.isKnownSubxact.trans hs⟩

theorem Alike.based (h : Alike rb rb') (x : Nat) : rb'.Based x ↔ rb.Based x := by
  constructor
  · rintro ⟨t, ht, hs⟩
    obtain ⟨t', ht', hsame⟩ := h.from ht
    exact ⟨t', ht', hsame.baseSnapshot ▸ hs⟩
  · rintro ⟨t, ht, hs⟩
    obtain ⟨t', ht', hsame⟩ := h.to ht
    exact ⟨t', ht', by rw [hsame.baseSnapshot]; exact hs⟩

theorem Alike.firstLsn (h : Alike rb rb') (x : Nat) : rb'.firstLsn x = rb.firstLsn x := by
  unfold ReorderBuffer.firstLsn
  cases hx : rb.byTxn x with
  | none => rw [(h.none_iff x).mpr hx]
  | some t =>
    obtain ⟨t', ht', hsame⟩ := h.to hx
    rw [ht']
    exact hsame.firstLsn

theorem Alike.baseLsn (h : Alike rb rb') (x : Nat) : rb'.baseLsn x = rb.baseLsn x := by
  unfold ReorderBuffer.baseLsn
  cases hx : rb.byTxn x with
  | none => rw [(h.none_iff x).mpr hx]
  | some t =>
    obtain ⟨t', ht', hsame⟩ := h.to hx
    simp [ht', hsame.baseSnapshot]

structure SameKin (rb rb' : ReorderBuffer) : Prop where
  later : ∀ x t, rb.byTxn x = some t → ∃ t', rb'.byTxn x = some t' ∧ t'.xid = t.xid ∧
    t'.isKnownSubxact = t.isKnownSubxact ∧ t'.toplevelXid = t.toplevelXid ∧ t'.subtxns = t.subtxns
  earlier : ∀ x t', rb'.byTxn x = some t' → ∃ t, rb.byTxn x = some t ∧ t'.xid = t.xid ∧
    t'.isKnownSubxact = t.isKnownSubxact ∧ t'.toplevelXid = t.toplevelXid ∧ t'.subtxns = t.subtxns

theorem Family.sameKin (h : Family K rb) (hk : SameKin rb rb') : Family K rb' := by
  refine ⟨fun x t hx => ?_, fun x t hx hs => ?_, fun x t hx s hs => ?_, fun x t hx => ?_⟩
  · obtain ⟨u, hu, hxid, -⟩ := hk.earlier x t hx
    rw [hxid]
    exact h.xid_eq x u hu
  · obtain ⟨u, hu, -, hsub, htop, -⟩ := hk.earlier x t hx
    obtain ⟨hp, p, hbp, hmem⟩ := h.kin x u hu (hsub ▸ hs)
    obtain ⟨p', hbp', -, -, -, hsubs⟩ := hk.later _ p hbp
    rw [htop]
    exact ⟨hp, p', hbp', by rw [hsubs]; exact hmem⟩
  · obtain ⟨u, hu, -, -, -, hsubs⟩ := hk.earlier x t hx
    obtain ⟨st, hst, hsub, htop⟩ := h.subs x u hu s (hsubs ▸ hs)
    obtain ⟨st', hst', -, hsub', htop', -⟩ := hk.later s st hst
    exact ⟨st', hst', hsub'.trans hsub, htop'.trans htop⟩
  · obtain ⟨u, hu, -, -, -, hsubs⟩ := hk.earlier x t hx
    rw [hsubs]
    exact h.subs_nodup x u hu

theorem Alike.sameKin (h : Alike rb rb') : SameKin rb rb' := by
  refine ⟨fun x t hx => ?_, fun x t hx => ?_⟩
  · obtain ⟨t', ht', hs⟩ := h.to hx
    exact ⟨t', ht', hs.xid, hs.isKnownSubxact, hs.toplevelXid, hs.subtxns⟩
  · obtain ⟨t', ht', hs⟩ := h.from hx
    exact ⟨t', ht', hs.xid, hs.isKnownSubxact, hs.toplevelXid, hs.subtxns⟩

theorem Inv.alike (h : Inv K rb) (ha : Alike rb rb') : Inv K rb' where
  toplevel := by
    rw [ha.toplevel]
    exact h.toplevel.congr ha.listed fun x _ => ha.firstLsn x
  base := by
    rw [ha.base]
    exact h.base.congr ha.based fun x _ => ha.baseLsn x
  base_listed x hx := (ha.listed x).mpr (h.base_listed x ((ha.based x).mp hx))
  cache hne := by
    rw [ha.lastXid] at hne ⊢
    rw [ha.lastTxn, h.cache hne]
    cases hx : rb.byTxn rb.byTxnLastXid with
    | none => rw [(ha.none_iff _).mpr hx]
    | some t =>
      obtain ⟨t', ht', hsame⟩ := ha.to hx
      rw [ht']
      exact congrArg some hsame.xid.symm
  toFamily := h.toFamily.sameKin ha.sameKin

def cacheAs (rb : ReorderBuffer) (xid : Nat) (txn : Option Nat) : ReorderBuffer :=
  { rb with byTxnLastXid := xid, byTxnLastTxn := txn }

theorem Inv.cacheAs (h : Inv K rb) {o : Option Nat} (ho : o = (rb.byTxn xid).map fun t => t.xid) :
    Inv K (rb.cacheAs xid o) where
  toplevel := h.toplevel
  base := h.base
  base_listed := h.base_listed
  cache _ := ho
  xid_eq := h.xid_eq
  kin := h.kin
  subs := h.subs
  subs_nodup := h.subs_nodup

structure Cached (rb : ReorderBuffer) : Prop where
  xid_eq : ∀ x t, rb.byTxn x = some t → t.xid = x
  cache : rb.byTxnLastXid ≠ 0 → rb.byTxnLastTxn = (rb.byTxn rb.byTxnLastXid).map fun t => t.xid

theorem Inv.cached (h : Inv K rb) : Cached rb := ⟨h.xid_eq, h.cache⟩

theorem Cached.txnByXid_known (h : Cached rb) (hx : rb.byTxn xid = some t) (create : Bool) (lsn : Nat)
    (createAsTop : Bool) :
    reorderBufferTXNByXid rb xid create lsn createAsTop = (rb.cacheAs xid (some xid), false) := by
  unfold reorderBufferTXNByXid
  split
  · rename_i hit
    obtain ⟨hne, rfl, -⟩ := hit
    -- the cache already holds what the lookup would put there
    have hcache := h.cache hne
    rw [hx, Option.map_some, h.xid_eq _ t hx] at hcache
    rw [ReorderBuffer.cacheAs, ← hcache]
  · rw [hx]
    rfl

theorem Cached.txnByXid_missing (h : Cached rb) (hx : rb.byTxn xid = none) (lsn : Nat) (createAsTop : Bool) :
    (reorderBufferTXNByXid rb xid false lsn createAsTop).1 = rb.cacheAs xid none := by
  unfold reorderBufferTXNByXid
  split
  · rename_i hit
    obtain ⟨hne, rfl, -⟩ := hit
    have hcache := h.cache hne
    rw [hx, Option.map_none] at hcache
    rw [ReorderBuffer.cacheAs, ← hcache]
  · rw [hx]
    rfl

def create (rb : ReorderBuffer) (xid lsn : Nat) (createAsTop : Bool) : ReorderBuffer :=
  { rb.set xid (some (Txn.new xid lsn rb.currentRestartDecodingLsn)) with
    toplevelByLsn := if createAsTop then rb.toplevelByLsn ++ [xid] else rb.toplevelByLsn
    byTxnLastXid := xid
    byTxnLastTxn := some xid }

theorem Cached.txnByXid_create (h : Cached rb) (hx : rb.byTxn xid = none) (lsn : Nat) (createAsTop : Bool) :
    reorderBufferTXNByXid rb xid true lsn createAsTop = (rb.create xid lsn createAsTop, true) := by
  unfold reorderBufferTXNByXid
  split
  · rename_i hit
    obtain ⟨hne, rfl, hsome⟩ := hit
    have hcache := h.cache hne
    rw [hx, Option.map_none] at hcache
    simp [hcache] at hsome
  · rw [hx]
    cases createAsTop <;> rfl

theorem byTxn_create (rb : ReorderBuffer) (xid lsn : Nat) (createAsTop : Bool) (y : Nat) :
    (rb.create xid lsn createAsTop).byTxn y =
      if y = xid then some (Txn.new xid lsn rb.currentRestartDecodingLsn) else rb.byTxn y := byTxn_set _ _ _ _

def FirstsBelow (rb : ReorderBuffer) (lsn : Nat) : Prop := ∀ x t, rb.byTxn x = some t → t.firstLsn < lsn

theorem Family.create (h : Family K rb) (lsn : Nat) (createAsTop : Bool) (hx : rb.byTxn xid = none) :
    Family K (rb.create xid lsn createAsTop) := by
  have hget := byTxn_create rb xid lsn createAsTop
  have hkeep : ∀ y t, rb.byTxn y = some t → (rb.create xid lsn createAsTop).byTxn y = some t := by
    intro y t hy
    have hne : y ≠ xid := by
      rintro rfl
      rw [hx] at hy
      cases hy
    rw [hget, if_neg hne, hy]
  have hcases : ∀ y t, (rb.create xid lsn createAsTop).byTxn y = some t →
      (y = xid ∧ t = Txn.new xid lsn rb.currentRestartDecodingLsn) ∨ rb.byTxn y = some t := by
    intro y t hy
    rw [hget] at hy
    split at hy
    · rename_i heq
      cases hy
      exact Or.inl ⟨heq, rfl⟩
    · exact Or.inr hy
  refine ⟨fun y t hy => ?_, fun y t hy hs => ?_, fun y t hy s hs => ?_, fun y t hy => ?_⟩
  · rcases hcases y t hy with ⟨rfl, rfl⟩ | hy
    · rfl
    · exact h.xid_eq y t hy
  · rcases hcases y t hy with ⟨rfl, rfl⟩ | hy
    · cases hs
    · obtain ⟨hp, p, hbp, hmem⟩ := h.kin y t hy hs
      exact ⟨hp, p, hkeep _ p hbp, hmem⟩
  · rcases hcases y t hy with ⟨rfl, rfl⟩ | hy
    · cases hs
    · obtain ⟨st, hst, hsub⟩ := h.subs y t hy s hs
      exact ⟨st, hkeep _ st hst, hsub⟩
  · rcases hcases y t hy with ⟨rfl, rfl⟩ | hy
    · exact List.nodup_nil
    · exact h.subs_nodup y t hy

theorem Inv.create (h : Inv K rb) (hx : rb.byTxn xid = none) (hlsn : rb.FirstsBelow lsn) :
    Inv K (rb.create xid lsn true) := by
  have hget := byTxn_create rb xid lsn true
  have hother : ∀ y, y ≠ xid → (rb.create xid lsn true).byTxn y = rb.byTxn y := fun y hy => by
    rw [hget, if_neg hy]
  have hne : ∀ y t, rb.byTxn y = some t → y ≠ xid := by
    rintro y t hy rfl
    rw [hx] at hy
    cases hy
  have hself : (rb.create xid lsn true).byTxn xid = some (Txn.new xid lsn rb.currentRestartDecodingLsn) := by
    rw [hget, if_pos rfl]
  have hbased : ∀ y, (rb.create xid lsn true).Based y ↔ rb.Based y := by
    intro y
    by_cases hy : y = xid
    · subst hy
      simp [Based, hself, hx, Txn.new]
    · simp [Based, hother y hy]
  have hlisted : ∀ y, (rb.create xid lsn true).Listed y ↔ rb.Listed y ∨ y = xid := by
    intro y
    by_cases hy : y = xid
    · subst hy
      simp [Listed, hself, Txn.new]
    · simp [Listed, hother y hy, hy]
  refine ⟨⟨?_, ?_, ?_, ?_⟩, h.toFamily.create lsn true hx⟩
  · apply h.toplevel.concat hlisted
    · rintro y ⟨t, hy, -⟩
      rw [firstLsn, firstLsn, hother y (hne y t hy)]
    · rintro y ⟨t, hy, -⟩
      have := hlsn y t hy
      simpa [firstLsn, hy, hself, Txn.new] using this
  · apply h.base.congr hbased
    rintro y ⟨t, hy, -⟩
    rw [baseLsn, baseLsn, hother y (hne y t hy)]
  · intro y hy
    exact (hlisted y).mpr (Or.inl (h.base_listed y ((hbased y).mp hy)))
  · intro _
    show some xid = ((rb.create xid lsn true).byTxn xid).map fun t => t.xid
    rw [hself]
    rfl

theorem Inv.lookup (h : Inv K rb) (xid lsn : Nat) (hlsn : rb.byTxn xid = none → rb.FirstsBelow lsn) :
    Inv K (reorderBufferTXNByXid rb xid true lsn true).1 ∧
      ∃ t, (reorderBufferTXNByXid rb xid true lsn true).1.found = some t ∧
        (reorderBufferTXNByXid rb xid true lsn true).1.byTxn xid = some t := by
  cases hx : rb.byTxn xid with
  | none =>
    rw [h.cached.txnByXid_create hx]
    have hself := byTxn_create rb xid lsn true xid
    rw [if_pos rfl] at hself
    exact ⟨h.create hx (hlsn hx), _, hself, hself⟩
  | some t =>
    rw [h.cached.txnByXid_known hx]
    refine ⟨h.cacheAs ?_, t, hx, hx⟩
    rw [hx, Option.map_some, h.xid_eq xid t hx]

theorem Inv.lookup_only (h : Inv K rb) (xid lsn : Nat) (createAsTop : Bool) :
    Inv K (reorderBufferTXNByXid rb xid false lsn createAsTop).1 ∧
      (reorderBufferTXNByXid rb xid false lsn createAsTop).1.byTxn = rb.byTxn ∧
      (reorderBufferTXNByXid rb xid false lsn createAsTop).1.found = rb.byTxn xid ∧
      (reorderBufferTXNByXid rb xid false lsn createAsTop).1.toplevelByLsn = rb.toplevelByLsn := by
  cases hx : rb.byTxn xid with
  | none =>
    rw [h.cached.txnByXid_missing hx]
    exact ⟨h.cacheAs (by rw [hx]; rfl), rfl, rfl, rfl⟩
  | some t =>
    rw [h.cached.txnByXid_known hx]
    refine ⟨h.cacheAs ?_, rfl, hx, rfl⟩
    rw [hx, Option.map_some, h.xid_eq xid t hx]

theorem alike_memoryUpdate (rb : ReorderBuffer) (t : Txn) (addition : Bool) (sz : Nat) :
    Alike rb (reorderBufferChangeMemoryUpdate rb t addition sz) := by
  have hsize : ∀ n, ∀ t : Txn, SameShape t { t with size := n } := fun _ _ => ⟨rfl, rfl, rfl, rfl, rfl, rfl, rfl⟩
  have htotal : ∀ n, ∀ t : Txn, SameShape t { t with totalSize := n } := fun _ _ => ⟨rfl, rfl, rfl, rfl, rfl, rfl, rfl⟩
  unfold reorderBufferChangeMemoryUpdate
  by_cases hz : sz = 0
  · rw [if_pos hz]
    exact Alike.refl rb
  · rw [if_neg hz]
    cases addition
    · exact ((Alike.size rb _).trans (Alike.modify _ _ fun t => hsize _ t)).trans (Alike.modify _ _ fun t => htotal _ t)
    · exact ((Alike.size rb _).trans (Alike.modify _ _ fun t => hsize _ t)).trans (Alike.modify _ _ fun t => htotal _ t)

theorem alike_enqueue (rb : ReorderBuffer) (t : Txn) (change : Change) : Alike rb (reorderBufferChangeMemoryUpdate
      ((if change.action.isStreamable then rb.modify t.toptxn fun t => { t with hasStreamableChange := true }
        else rb).modify t.xid fun t => { t with changes := t.changes ++ [change] }) t true change.size) := by
  refine Alike.trans ?_ (alike_memoryUpdate _ _ _ _)
  refine Alike.trans ?_ (Alike.modify _ _ fun t => ⟨rfl, rfl, rfl, rfl, rfl, rfl, rfl⟩)
  split
  · exact Alike.modify _ _ fun t => ⟨rfl, rfl, rfl, rfl, rfl, rfl, rfl⟩
  · exact Alike.refl _

theorem Inv.queueChange (h : Inv K rb) (xid lsn : Nat) (change : Change)
    (hlsn : rb.byTxn xid = none → rb.FirstsBelow lsn) :
    Inv K (reorderBufferQueueChange rb xid lsn change) := by
  obtain ⟨hinv, t, hfound, -⟩ := h.lookup xid lsn hlsn
  unfold reorderBufferQueueChange
  simp only [hfound]
  split
  · exact hinv
  · exact hinv.alike (alike_enqueue _ _ _)

end ReorderBuffer

end CdcKafka.Buffer
