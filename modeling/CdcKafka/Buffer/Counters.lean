import CdcKafka.Buffer.Link

/-! What the operations on queued changes do to each entry of the table. -/

namespace CdcKafka.Buffer
open CdcKafka.Lib

variable {rb rb' : ReorderBuffer} {x y lsn : Nat} {t u : Txn}

namespace ReorderBuffer

/-- What the counters of transaction `y` become when those of `t` change. -/
def charge (t : Txn) (addition : Bool) (sz y : Nat) (u : Txn) : Txn :=
  { u with
    size := if y = t.xid then (if addition then u.size + sz else sizeSub u.size sz) else u.size
    totalSize := if y = t.toptxn then (if addition then u.totalSize + sz else sizeSub u.totalSize sz) else u.totalSize }

theorem sizeSub_zero (a : Nat) : sizeSub a 0 = a := by simp [sizeSub]

theorem sizeSub_of_le {a b : Nat} (h : b ≤ a) : sizeSub a b = a - b := if_pos h

theorem charge_zero (t : Txn) (addition : Bool) (y : Nat) (u : Txn) : charge t addition 0 y u = u := by
  cases addition <;> simp [charge, sizeSub_zero]

theorem byTxn_memoryUpdate (rb : ReorderBuffer) (t : Txn) (addition : Bool) (sz y : Nat) :
    (reorderBufferChangeMemoryUpdate rb t addition sz).byTxn y = (rb.byTxn y).map (charge t addition sz y) := by
  unfold reorderBufferChangeMemoryUpdate
  split
  · rename_i hz
    have hid : charge t addition sz y = id := by
      funext u
      rw [hz]
      exact charge_zero t addition y u
    rw [hid, Option.map_id]
    rfl
  · have hmaps : ∀ f : Nat → Nat,
        ((({ rb with size := f rb.size } : ReorderBuffer).modify t.xid fun t => { t with size := f t.size }).modify
          t.toptxn fun t => { t with totalSize := f t.totalSize }).byTxn y =
        (rb.byTxn y).map fun u =>
          { u with
            size := if y = t.xid then f u.size else u.size
            totalSize := if y = t.toptxn then f u.totalSize else u.totalSize } := by
      intro f
      rw [byTxn_modify, byTxn_modify, byTxn_modify]
      by_cases htop : y = t.toptxn
      · by_cases hxid : y = t.xid
        · simp only [← htop, ← hxid, if_true, Option.map_map]
          rfl
        · simp only [← htop, hxid, if_true, if_false]
      · by_cases hxid : y = t.xid
        · simp only [htop, ← hxid, if_true, if_false]
        · simp only [htop, hxid, if_false]
          cases rb.byTxn y <;> rfl
    cases addition
    · exact hmaps fun n => sizeSub n sz
    · exact hmaps fun n => n + sz

structure Each (g : Nat → Txn → Txn) (rb rb' : ReorderBuffer) : Prop where
  byTxn : ∀ y, rb'.byTxn y = (rb.byTxn y).map (g y)
  shape : ∀ y u, SameShape u (g y u)
  lastXid : rb'.byTxnLastXid = rb.byTxnLastXid
  lastTxn : rb'.byTxnLastTxn = rb.byTxnLastTxn

variable {g : Nat → Txn → Txn}

theorem Each.to (h : Each g rb rb') (hx : rb.byTxn x = some t) : rb'.byTxn x = some (g x t) := by
  rw [h.byTxn, hx]
  rfl

theorem Each.from (h : Each g rb rb') (hx : rb'.byTxn x = some u) : ∃ t, rb.byTxn x = some t ∧ u = g x t := by
  rw [h.byTxn] at hx
  obtain ⟨t, ht, heq⟩ := Option.map_eq_some_iff.mp hx
  exact ⟨t, ht, heq.symm⟩

theorem Each.cached (h : Each g rb rb') (hc : Cached rb) : Cached rb' := by
  refine ⟨fun x u hu => ?_, fun hne => ?_⟩
  · obtain ⟨t, ht, rfl⟩ := h.from hu
    rw [(h.shape x t).xid]
    exact hc.xid_eq x t ht
  · rw [h.lastXid] at hne ⊢
    rw [h.lastTxn, hc.cache hne, h.byTxn]
    cases rb.byTxn rb.byTxnLastXid with
    | none => rfl
    | some t => exact congrArg some (h.shape _ t).xid.symm

theorem Each.trans {g' : Nat → Txn → Txn} {rb'' : ReorderBuffer} (h : Each g rb rb') (h' : Each g' rb' rb'') :
    Each (fun y u => g' y (g y u)) rb rb'' where
  byTxn y := by
    rw [h'.byTxn, h.byTxn, Option.map_map]
    rfl
  shape y u := by
    have hs := h.shape y u
    have hs' := h'.shape y (g y u)
    exact ⟨hs'.xid.trans hs.xid, hs'.firstLsn.trans hs.firstLsn, hs'.isKnownSubxact.trans hs.isKnownSubxact,
      hs'.toplevelXid.trans hs.toplevelXid, hs'.baseSnapshot.trans hs.baseSnapshot, hs'.subtxns.trans hs.subtxns,
      hs'.restartDecodingLsn.trans hs.restartDecodingLsn⟩
  lastXid := h'.lastXid.trans h.lastXid
  lastTxn := h'.lastTxn.trans h.lastTxn

theorem lists_memoryUpdate (rb : ReorderBuffer) (t : Txn) (addition : Bool) (sz : Nat) :
    (reorderBufferChangeMemoryUpdate rb t addition sz).byTxnLastXid = rb.byTxnLastXid ∧
      (reorderBufferChangeMemoryUpdate rb t addition sz).byTxnLastTxn = rb.byTxnLastTxn :=
  ⟨(alike_memoryUpdate rb t addition sz).lastXid, (alike_memoryUpdate rb t addition sz).lastTxn⟩

def enqueue (t : Txn) (change : Change) (y : Nat) (u : Txn) : Txn :=
  charge t true change.size y
    { u with
      hasStreamableChange := u.hasStreamableChange || (change.action.isStreamable && y == t.toptxn)
      changes := if y = t.xid then u.changes ++ [change] else u.changes }

theorem each_enqueue (rb : ReorderBuffer) (t : Txn) (change : Change) :
    Each (enqueue t change) rb (reorderBufferChangeMemoryUpdate
      ((if change.action.isStreamable then rb.modify t.toptxn fun t => { t with hasStreamableChange := true }
        else rb).modify t.xid fun t => { t with changes := t.changes ++ [change] }) t true change.size) := by
  have halike := alike_enqueue rb t change
  refine ⟨fun y => ?_, fun y u => ⟨rfl, rfl, rfl, rfl, rfl, rfl, rfl⟩, halike.lastXid, halike.lastTxn⟩
  rw [byTxn_memoryUpdate]
  have hqueued : ((if change.action.isStreamable then rb.modify t.toptxn fun t => { t with hasStreamableChange := true }
        else rb).modify t.xid fun t => { t with changes := t.changes ++ [change] }).byTxn y =
      (rb.byTxn y).map fun u =>
        { u with
          hasStreamableChange := u.hasStreamableChange || (change.action.isStreamable && y == t.toptxn)
          changes := if y = t.xid then u.changes ++ [change] else u.changes } := by
    rw [byTxn_modify]
    cases change.action.isStreamable with
    | false =>
      simp only [Bool.false_eq_true, if_false, Bool.false_and, Bool.or_false]
      by_cases hxid : y = t.xid
      · simp only [← hxid, if_true]
      · simp only [hxid, if_false]
        cases rb.byTxn y <;> rfl
    | true =>
      simp only [if_true, Bool.true_and]
      rw [byTxn_modify, byTxn_modify]
      by_cases hxid : y = t.xid
      · by_cases htop : y = t.toptxn
        · simp only [← hxid, ← htop, if_true, Option.map_map, beq_self_eq_true, Bool.or_true]
          rfl
        · have hne : (y == t.toptxn) = false := by simpa using htop
          simp only [← hxid, htop, if_true, if_false, hne, Bool.or_false]
      · by_cases htop : y = t.toptxn
        · simp only [hxid, ← htop, if_true, if_false, beq_self_eq_true, Bool.or_true]
        · have hne : (y == t.toptxn) = false := by simpa using htop
          simp only [hxid, htop, if_false, hne, Bool.or_false]
          cases rb.byTxn y <;> rfl
  rw [hqueued, Option.map_map]
  rfl

def spill (t : Txn) (x y : Nat) (u : Txn) : Txn :=
  charge t false t.size y { u with changes := if y = x then [] else u.changes }

theorem each_serialize (hx : rb.byTxn x = some t) : Each (spill t x) rb (serializeChanges rb x) := by
  have heq : serializeChanges rb x =
      reorderBufferChangeMemoryUpdate (rb.modify x fun t => { t with changes := [] }) t false t.size := by
    rw [serializeChanges, hx]
  have hcache := lists_memoryUpdate (rb.modify x fun t => { t with changes := [] }) t false t.size
  rw [heq]
  refine ⟨fun y => ?_, fun y u => ⟨rfl, rfl, rfl, rfl, rfl, rfl, rfl⟩, hcache.1, hcache.2⟩
  rw [byTxn_memoryUpdate, byTxn_modify]
  by_cases hy : y = x
  · simp only [hy, if_true, Option.map_map]
    cases rb.byTxn x with
    | none => rfl
    | some u => simp [spill]
  · simp only [hy, if_false]
    cases rb.byTxn y with
    | none => rfl
    | some u => simp [spill, hy]

def markAs (x y : Nat) (u : Txn) : Txn := { u with hasCatalogChanges := u.hasCatalogChanges || y == x }

theorem each_markCatalogChanges (rb : ReorderBuffer) (x : Nat) : Each (markAs x) rb (markCatalogChanges rb x) := by
  unfold markCatalogChanges
  cases hx : rb.byTxn x with
  | none =>
    refine ⟨fun y => ?_, fun y u => ⟨rfl, rfl, rfl, rfl, rfl, rfl, rfl⟩, rfl, rfl⟩
    by_cases hy : y = x
    · rw [hy, hx]
      rfl
    · have hne : (y == x) = false := by simpa using hy
      cases hby : rb.byTxn y with
      | none => rfl
      | some u => simp [markAs, hne]
  | some t =>
    dsimp only
    cases hcat : t.hasCatalogChanges with
    | true =>
      refine ⟨fun y => ?_, fun y u => ⟨rfl, rfl, rfl, rfl, rfl, rfl, rfl⟩, rfl, rfl⟩
      show rb.byTxn y = _
      by_cases hy : y = x
      · rw [hy, hx]
        simp [markAs, ← hcat]
      · have hne : (y == x) = false := by simpa using hy
        cases hby : rb.byTxn y with
        | none => rfl
        | some u => simp [markAs, hne]
    | false =>
      refine ⟨fun y => ?_, fun y u => ⟨rfl, rfl, rfl, rfl, rfl, rfl, rfl⟩, rfl, rfl⟩
      show (rb.modify x _).byTxn y = _
      rw [byTxn_modify]
      by_cases hy : y = x
      · rw [if_pos hy, hy, hx]
        simp [markAs]
      · have hne : (y == x) = false := by simpa using hy
        rw [if_neg hy]
        cases hby : rb.byTxn y with
        | none => rfl
        | some u => simp [markAs, hne]

theorem memory_append (changes : List Change) (change : Change) :
    ((changes ++ [change]).map fun c => c.size).sum = (changes.map fun c => c.size).sum + change.size := by
  rw [List.map_append, List.sum_append]
  simp

theorem enqueue_size (t : Txn) (change : Change) (y : Nat) (hu : u.size = u.memory) :
    (enqueue t change y u).size = (enqueue t change y u).memory := by
  by_cases hxid : y = t.xid
  · simp only [enqueue, charge, Txn.memory, hxid, if_true, memory_append]
    rw [hu]
    rfl
  · simp only [enqueue, charge, Txn.memory, hxid, if_false]
    exact hu

theorem spill_size (hx : rb.byTxn x = some t) (hxid : t.xid = x) (hy : rb.byTxn y = some u)
    (hu : u.size = u.memory) : (spill t x y u).size = (spill t x y u).memory := by
  by_cases heq : y = x
  · subst heq
    rw [hx] at hy
    cases hy
    simp [spill, charge, Txn.memory, hxid, sizeSub_of_le]
  · simp only [spill, charge, Txn.memory, hxid, heq, if_false]
    exact hu

theorem Cached.create (h : Cached rb) (x lsn : Nat) (createAsTop : Bool) : Cached (rb.create x lsn createAsTop) := by
  refine ⟨fun y t hy => ?_, fun _ => ?_⟩
  · rw [byTxn_create] at hy
    split at hy
    · rename_i heq
      cases hy
      exact heq.symm
    · exact h.xid_eq y t hy
  · show some x = ((rb.create x lsn createAsTop).byTxn x).map fun t => t.xid
    rw [byTxn_create, if_pos rfl]
    rfl

theorem Cached.cacheAs (h : Cached rb) {o : Option Nat} (ho : o = (rb.byTxn x).map fun t => t.xid) :
    Cached (rb.cacheAs x o) := ⟨h.xid_eq, fun _ => ho⟩

theorem Cached.lookup (h : Cached rb) (x lsn : Nat) (createAsTop : Bool) :
    ∃ t, (reorderBufferTXNByXid rb x true lsn createAsTop).1.found = some t ∧
      (reorderBufferTXNByXid rb x true lsn createAsTop).1.byTxn x = some t ∧
      Cached (reorderBufferTXNByXid rb x true lsn createAsTop).1 ∧
      (rb.byTxn x = some t ∨ t = Txn.new x lsn rb.currentRestartDecodingLsn ∧ rb.byTxn x = none) ∧
      ∀ y, y ≠ x → (reorderBufferTXNByXid rb x true lsn createAsTop).1.byTxn y = rb.byTxn y := by
  cases hx : rb.byTxn x with
  | none =>
    rw [h.txnByXid_create hx]
    have hself := byTxn_create rb x lsn createAsTop x
    rw [if_pos rfl] at hself
    refine ⟨_, hself, hself, h.create x lsn createAsTop, Or.inr ⟨rfl, rfl⟩, fun y hy => ?_⟩
    rw [byTxn_create, if_neg hy]
  | some t =>
    rw [h.txnByXid_known hx]
    refine ⟨t, hx, hx, h.cacheAs ?_, Or.inl rfl, fun y _ => rfl⟩
    rw [hx, Option.map_some, h.xid_eq x t hx]

end ReorderBuffer

end CdcKafka.Buffer
