import CdcKafka.Buffer.Surgery

/-! Learning that one transaction is the child of another. -/

namespace CdcKafka.Buffer
open CdcKafka.Lib

variable {rb : ReorderBuffer} {x s lsn : Nat} {p st : Txn} {K : Kinship}

namespace ReorderBuffer

theorem insertBefore_erase {l : List Nat} (hnd : l.Nodup) (hne : x ≠ s) :
    (insertBefore s x l).erase s = l.map fun y => if y = s then x else y := by
  induction l with
  | nil => rfl
  | cons y l ih =>
    obtain ⟨hy, hnd⟩ := List.nodup_cons.mp hnd
    by_cases hys : y = s
    · subst hys
      -- the rest of the list does not hold the entry again
      have hrest : l.map (fun z => if z = y then x else z) = l := by
        apply List.map_congr_left (g := id) _ |>.trans (List.map_id l)
        intro z hz
        have : z ≠ y := fun heq => hy (heq ▸ hz)
        simp [this]
      simp [insertBefore, hne, hrest]
    · simp [insertBefore, hys, ih hnd]

structure Unlisted (K : Kinship) (rb : ReorderBuffer) (s : Nat) : Prop extends Family K rb where
  toplevel : Registry (fun y => rb.Listed y ∧ y ≠ s) rb.firstLsn rb.toplevelByLsn
  base : Registry rb.Based rb.baseLsn rb.txnsByBaseSnapshotLsn
  base_listed : ∀ y, rb.Based y → rb.Listed y
  cache : rb.byTxnLastXid ≠ 0 → rb.byTxnLastTxn = (rb.byTxn rb.byTxnLastXid).map fun t => t.xid

theorem Inv.unlisted (h : Inv K rb) (s : Nat) : Unlisted K { rb with toplevelByLsn := rb.toplevelByLsn.erase s } s where
  toFamily := ⟨h.xid_eq, h.kin, h.subs, h.subs_nodup⟩
  toplevel := h.toplevel.erase (fun _ => Iff.rfl) fun _ _ => rfl
  base := h.base
  base_listed := h.base_listed
  cache := h.cache

theorem Inv.unlisted_create (h : Inv K rb) (hs : rb.byTxn s = none) (lsn : Nat) :
    Unlisted K (rb.create s lsn false) s := by
  have hget := byTxn_create rb s lsn false
  have hself : (rb.create s lsn false).byTxn s = some (Txn.new s lsn rb.currentRestartDecodingLsn) := by
    rw [hget, if_pos rfl]
  have hbased : ∀ y, (rb.create s lsn false).Based y ↔ rb.Based y := by
    intro y
    by_cases hy : y = s
    · subst hy
      simp [Based, hself, hs, Txn.new]
    · simp [Based, hget, hy]
  have hlisted : ∀ y, ((rb.create s lsn false).Listed y ∧ y ≠ s) ↔ rb.Listed y := by
    intro y
    by_cases hy : y = s
    · subst hy
      simp [Listed, hs]
    · simp [Listed, hget, hy]
  refine ⟨h.toFamily.create lsn false hs, ?_, ?_, ?_, ?_⟩
  · apply h.toplevel.congr hlisted
    rintro y ⟨t, hy, -⟩
    have hne : y ≠ s := by
      rintro rfl
      rw [hs] at hy
      cases hy
    rw [firstLsn, firstLsn, hget, if_neg hne]
  · apply h.base.congr hbased
    rintro y ⟨t, hy, -⟩
    have hne : y ≠ s := by
      rintro rfl
      rw [hs] at hy
      cases hy
    rw [baseLsn, baseLsn, hget, if_neg hne]
  · intro y hy
    exact ((hlisted y).mpr (h.base_listed y ((hbased y).mp hy))).1
  · intro _
    show some s = ((rb.create s lsn false).byTxn s).map fun t => t.xid
    rw [hself]
    rfl

def mark (rb : ReorderBuffer) (x s : Nat) : ReorderBuffer :=
  (rb.modify s fun t => { t with isKnownSubxact := true, toplevelXid := x }).modify x fun t =>
    { t with subtxns := t.subtxns ++ [s] }

theorem linkChild_of_some (hx : (rb.mark x s).byTxn x = some p) (hs : (rb.mark x s).byTxn s = some st) :
    linkChild rb x s = reorderBufferTransferSnapToParent (rb.mark x s) p st := by
  unfold mark at hx hs
  simp only [linkChild, hx, hs]
  rfl

theorem linkChild_cases (rb : ReorderBuffer) (x s : Nat) : linkChild rb x s = rb.mark x s ∨
    ∃ p st, (rb.mark x s).byTxn s = some st ∧ linkChild rb x s = reorderBufferTransferSnapToParent (rb.mark x s) p st := by
  cases hx : (rb.mark x s).byTxn x with
  | none =>
    unfold mark at hx
    exact Or.inl (by simp only [linkChild, hx, mark])
  | some p =>
    cases hs : (rb.mark x s).byTxn s with
    | none =>
      unfold mark at hx hs
      exact Or.inl (by simp only [linkChild, hx, hs, mark])
    | some st => exact Or.inr ⟨p, st, rfl, linkChild_of_some hx hs⟩

structure Marked (K : Kinship) (rb : ReorderBuffer) (s : Nat) : Prop extends Family K rb where
  toplevel : Registry rb.Listed rb.firstLsn rb.toplevelByLsn
  base : Registry rb.Based rb.baseLsn rb.txnsByBaseSnapshotLsn
  base_listed : ∀ y, rb.Based y → y ≠ s → rb.Listed y
  cache : rb.byTxnLastXid ≠ 0 → rb.byTxnLastTxn = (rb.byTxn rb.byTxnLastXid).map fun t => t.xid

section Mark

variable (hx : rb.byTxn x = some p) (hs : rb.byTxn s = some st) (hne : x ≠ s)
include hx hs hne

theorem byTxn_mark (y : Nat) : (rb.mark x s).byTxn y = if y = x then some { p with subtxns := p.subtxns ++ [s] }
      else if y = s then some { st with isKnownSubxact := true, toplevelXid := x } else rb.byTxn y := by
  rw [mark, byTxn_modify]
  split
  · rw [byTxn_modify, if_neg hne, hx]
    rfl
  · rw [byTxn_modify]
    split
    · rw [hs]
      rfl
    · rfl

theorem Family.mark (h : Family K rb) (hp : K.parent s = some x) (hsub : st.isKnownSubxact = false) :
    Family K (rb.mark x s) := by
  have hget := byTxn_mark hx hs hne
  have htop := h.parent_listed hp hx
  have hchildless := h.child_childless hp hs
  have hparent : (rb.mark x s).byTxn x = some { p with subtxns := p.subtxns ++ [s] } := by rw [hget, if_pos rfl]
  have hchild : (rb.mark x s).byTxn s = some { st with isKnownSubxact := true, toplevelXid := x } := by
    rw [hget, if_neg hne.symm, if_pos rfl]
  have hother : ∀ y, y ≠ x → y ≠ s → (rb.mark x s).byTxn y = rb.byTxn y := by
    intro y hyx hys
    rw [hget, if_neg hyx, if_neg hys]
  refine ⟨fun y t hy => ?_, fun y t hy hk => ?_, fun y t hy u hu => ?_, fun y t hy => ?_⟩
  · rw [hget] at hy
    split at hy
    · rename_i heq
      cases hy
      exact (h.xid_eq x p hx).trans heq.symm
    · split at hy
      · rename_i heq
        cases hy
        exact (h.xid_eq s st hs).trans heq.symm
      · exact h.xid_eq y t hy
  · rw [hget] at hy
    split at hy
    · cases hy
      rw [htop] at hk
      cases hk
    · split at hy
      · rename_i heq
        cases hy
        exact ⟨heq ▸ hp, _, hparent, by simp [heq]⟩
      · rename_i hyx hys
        obtain ⟨hpar, q, hq, hmem⟩ := h.kin y t hy hk
        refine ⟨hpar, ?_⟩
        by_cases hqx : t.toplevelXid = x
        · rw [hqx] at hq ⊢
          rw [hx] at hq
          cases hq
          exact ⟨_, hparent, List.mem_append_left _ hmem⟩
        · have hqs : t.toplevelXid ≠ s := by
            intro heq
            rw [heq, hs] at hq
            cases hq
            rw [hchildless] at hmem
            exact List.not_mem_nil hmem
          exact ⟨q, by rw [hother _ hqx hqs]; exact hq, hmem⟩
  · -- a child that was known before is neither of the two
    have hold : ∀ z tz, rb.byTxn z = some tz → u ∈ tz.subtxns →
        ∃ su, (rb.mark x s).byTxn u = some su ∧ su.isKnownSubxact = true ∧ su.toplevelXid = z := by
      intro z tz hz hmem
      obtain ⟨su, hsu, hk, hz'⟩ := h.subs z tz hz u hmem
      have hux : u ≠ x := by
        rintro rfl
        rw [hx] at hsu
        cases hsu
        rw [htop] at hk
        cases hk
      have hus : u ≠ s := by
        rintro rfl
        rw [hs] at hsu
        cases hsu
        rw [hsub] at hk
        cases hk
      exact ⟨su, by rw [hother u hux hus]; exact hsu, hk, hz'⟩
    rw [hget] at hy
    split at hy
    · rename_i heq
      cases hy
      subst heq
      rcases List.mem_append.mp hu with hmem | hmem
      · exact hold _ p hx hmem
      · obtain rfl : u = s := by simpa using hmem
        exact ⟨_, hchild, rfl, rfl⟩
    · split at hy
      · cases hy
        have hu : u ∈ st.subtxns := hu
        rw [hchildless] at hu
        exact absurd hu List.not_mem_nil
      · exact hold y t hy hu
  · rw [hget] at hy
    split at hy
    · cases hy
      have hnot : s ∉ p.subtxns := by
        intro hmem
        obtain ⟨su, hsu, hk, -⟩ := h.subs x p hx s hmem
        rw [hs] at hsu
        cases hsu
        rw [hsub] at hk
        cases hk
      exact List.Nodup.append (h.subs_nodup x p hx) (List.nodup_singleton s) (by simpa using hnot)
    · split at hy
      · cases hy
        exact h.subs_nodup s st hs
      · exact h.subs_nodup y t hy

theorem Unlisted.mark (h : Unlisted K rb s) (hp : K.parent s = some x) (hsub : st.isKnownSubxact = false) :
    Marked K (rb.mark x s) s := by
  have hget := byTxn_mark hx hs hne
  have hparent : (rb.mark x s).byTxn x = some { p with subtxns := p.subtxns ++ [s] } := by rw [hget, if_pos rfl]
  have hchild : (rb.mark x s).byTxn s = some { st with isKnownSubxact := true, toplevelXid := x } := by
    rw [hget, if_neg hne.symm, if_pos rfl]
  have hother : ∀ y, y ≠ x → y ≠ s → (rb.mark x s).byTxn y = rb.byTxn y := by
    intro y hyx hys
    rw [hget, if_neg hyx, if_neg hys]
  have hlisted : ∀ y, (rb.mark x s).Listed y ↔ rb.Listed y ∧ y ≠ s := by
    intro y
    by_cases hyx : y = x
    · subst hyx
      simp [Listed, hparent, hx, hne]
    · by_cases hys : y = s
      · subst hys
        simp [Listed, hchild]
      · simp [Listed, hother y hyx hys, hys]
  have hbased : ∀ y, (rb.mark x s).Based y ↔ rb.Based y := by
    intro y
    by_cases hyx : y = x
    · subst hyx
      simp [Based, hparent, hx]
    · by_cases hys : y = s
      · subst hys
        simp [Based, hchild, hs]
      · simp [Based, hother y hyx hys]
  have hfirst : ∀ y, (rb.mark x s).firstLsn y = rb.firstLsn y := by
    intro y
    by_cases hyx : y = x
    · subst hyx
      simp [firstLsn, hparent, hx]
    · by_cases hys : y = s
      · subst hys
        simp [firstLsn, hchild, hs]
      · rw [firstLsn, firstLsn, hother y hyx hys]
  have hbaseLsn : ∀ y, (rb.mark x s).baseLsn y = rb.baseLsn y := by
    intro y
    by_cases hyx : y = x
    · subst hyx
      simp [baseLsn, hparent, hx]
    · by_cases hys : y = s
      · subst hys
        simp [baseLsn, hchild, hs]
      · rw [baseLsn, baseLsn, hother y hyx hys]
  refine ⟨h.toFamily.mark hx hs hne hp hsub, ?_, ?_, ?_, ?_⟩
  · exact h.toplevel.congr hlisted fun y _ => hfirst y
  · exact h.base.congr hbased fun y _ => hbaseLsn y
  · intro y hy hys
    exact (hlisted y).mpr ⟨h.base_listed y ((hbased y).mp hy), hys⟩
  · intro hlast
    have hlast : rb.byTxnLastXid ≠ 0 := hlast
    show rb.byTxnLastTxn = ((rb.mark x s).byTxn rb.byTxnLastXid).map fun t => t.xid
    rw [h.cache hlast]
    by_cases hyx : rb.byTxnLastXid = x
    · rw [hyx, hparent, hx]
      rfl
    · by_cases hys : rb.byTxnLastXid = s
      · rw [hys, hchild, hs]
        rfl
      · rw [hother _ hyx hys]

end Mark

def rebase (rb : ReorderBuffer) (f : Nat → Option BaseSnapshot) (list : List Nat) : ReorderBuffer :=
  { rb with
    byTxn := fun y => (rb.byTxn y).map fun t => { t with baseSnapshot := f y }
    txnsByBaseSnapshotLsn := list }

theorem Marked.rebase (h : Marked K rb s) {f : Nat → Option BaseSnapshot} {list : List Nat}
    (hbase : Registry (rb.rebase f list).Based (rb.rebase f list).baseLsn list)
    (hlisted : ∀ y, (rb.rebase f list).Based y → rb.Listed y) : Inv K (rb.rebase f list) := by
  have hget : ∀ y, (rb.rebase f list).byTxn y = (rb.byTxn y).map fun t => { t with baseSnapshot := f y } :=
    fun _ => rfl
  have hsame : ∀ y, (rb.rebase f list).Listed y ↔ rb.Listed y := by
    intro y
    constructor
    · rintro ⟨t, ht, hk⟩
      obtain ⟨u, hu, rfl⟩ := Option.map_eq_some_iff.mp ht
      exact ⟨u, hu, hk⟩
    · rintro ⟨t, ht, hk⟩
      exact ⟨{ t with baseSnapshot := f y }, by rw [hget, ht]; rfl, hk⟩
  have hkin : SameKin rb (rb.rebase f list) := by
    refine ⟨fun y t ht => ⟨{ t with baseSnapshot := f y }, by rw [hget, ht]; rfl, rfl, rfl, rfl, rfl⟩, fun y t ht => ?_⟩
    obtain ⟨u, hu, rfl⟩ := Option.map_eq_some_iff.mp ht
    exact ⟨u, hu, rfl, rfl, rfl, rfl⟩
  refine ⟨⟨?_, hbase, fun y hy => (hsame y).mpr (hlisted y hy), ?_⟩, h.toFamily.sameKin hkin⟩
  · apply h.toplevel.congr hsame
    intro y _
    simp [firstLsn, hget, Function.comp_def]
  · intro hne
    have hne : rb.byTxnLastXid ≠ 0 := hne
    show rb.byTxnLastTxn = ((rb.rebase f list).byTxn rb.byTxnLastXid).map fun t => t.xid
    rw [h.cache hne, hget, Option.map_map]
    rfl

theorem based_rebase (f : Nat → Option BaseSnapshot) (list : List Nat) (y : Nat) :
    (rb.rebase f list).Based y ↔ (rb.byTxn y).isSome = true ∧ (f y).isSome = true := by
  constructor
  · rintro ⟨t, ht, hb⟩
    obtain ⟨u, hu, rfl⟩ := Option.map_eq_some_iff.mp ht
    exact ⟨by rw [hu]; rfl, hb⟩
  · rintro ⟨hy, hb⟩
    obtain ⟨u, hu⟩ := Option.isSome_iff_exists.mp hy
    exact ⟨_, Option.map_eq_some_iff.mpr ⟨u, hu, rfl⟩, hb⟩

theorem baseLsn_rebase {f : Nat → Option BaseSnapshot} {list : List Nat} {y : Nat} (hy : (rb.byTxn y).isSome = true) :
    (rb.rebase f list).baseLsn y = ((f y).map fun b => b.lsn).getD 0 := by
  obtain ⟨u, hu⟩ := Option.isSome_iff_exists.mp hy
  simp [baseLsn, rebase, hu]

def baseOf (rb : ReorderBuffer) (y : Nat) : Option BaseSnapshot := (rb.byTxn y).bind fun t => t.baseSnapshot

theorem based_iff (rb : ReorderBuffer) (y : Nat) : rb.Based y ↔ (rb.baseOf y).isSome = true := by
  constructor
  · rintro ⟨t, ht, hb⟩
    simpa [baseOf, ht] using hb
  · intro hb
    cases hy : rb.byTxn y with
    | none => simp [baseOf, hy] at hb
    | some t => exact ⟨t, hy, by simpa [baseOf, hy] using hb⟩

theorem isSome_of_based {y : Nat} (h : rb.Based y) : (rb.byTxn y).isSome = true := by
  obtain ⟨t, ht, -⟩ := h
  rw [ht]
  rfl

theorem transfer_eq_rebase (hx : rb.byTxn x = some p) (hs : rb.byTxn s = some st) (hxp : p.xid = x)
    (hss : st.xid = s) (hne : x ≠ s) {snap : BaseSnapshot} (hsnap : st.baseSnapshot = some snap) :
    reorderBufferTransferSnapToParent rb p st =
      if p.baseSnapshot.isNone ∨ ∃ top ∈ p.baseSnapshot, snap.lsn < top.lsn then
        rb.rebase (fun y => if y = x then some snap else if y = s then none else rb.baseOf y)
          ((insertBefore s x (if p.baseSnapshot.isSome then rb.txnsByBaseSnapshotLsn.erase x
            else rb.txnsByBaseSnapshotLsn)).erase s)
      else
        rb.rebase (fun y => if y = s then none else rb.baseOf y) (rb.txnsByBaseSnapshotLsn.erase s) := by
  have hid : ∀ y t, rb.byTxn y = some t → some { t with baseSnapshot := rb.baseOf y } = some t := by
    intro y t hy
    simp [baseOf, hy]
  unfold reorderBufferTransferSnapToParent
  rw [hsnap]
  dsimp only
  rw [hxp, hss]
  split
  · simp only [rebase, modify, set, ReorderBuffer.mk.injEq, and_true]
    funext y
    by_cases hys : y = s
    · subst hys
      simp [hs, hne.symm]
    · rw [Function.update_of_ne hys]
      by_cases hyx : y = x
      · subst hyx
        simp [hx]
      · rw [Function.update_of_ne hyx]
        cases hy : rb.byTxn y with
        | none => rfl
        | some t =>
          simp only [Option.map_some, if_neg hyx, if_neg hys]
          exact (hid y t hy).symm
  · simp only [rebase, modify, set, ReorderBuffer.mk.injEq, and_true]
    funext y
    by_cases hys : y = s
    · subst hys
      simp [hs]
    · rw [Function.update_of_ne hys]
      cases hy : rb.byTxn y with
      | none => rfl
      | some t =>
        simp only [Option.map_some, if_neg hys]
        exact (hid y t hy).symm

theorem Marked.transfer (h : Marked K rb s) (hx : rb.byTxn x = some p) (hs : rb.byTxn s = some st) (hne : x ≠ s)
    (htop : p.isKnownSubxact = false) : Inv K (reorderBufferTransferSnapToParent rb p st) := by
  have hxp := h.xid_eq x p hx
  have hss := h.xid_eq s st hs
  cases hsnap : st.baseSnapshot with
  | none =>
    -- there is nothing to transfer
    have heq : reorderBufferTransferSnapToParent rb p st = rb := by
      simp [reorderBufferTransferSnapToParent, hsnap]
    have hnot : ¬ rb.Based s := by
      rintro ⟨u, hu, hb⟩
      rw [hs] at hu
      cases hu
      rw [hsnap] at hb
      cases hb
    rw [heq]
    exact ⟨⟨h.toplevel, h.base, fun y hy => h.base_listed y hy fun hys => hnot (hys ▸ hy), h.cache⟩, h.toFamily⟩
  | some snap =>
    have hsBased : rb.Based s := ⟨st, hs, by rw [hsnap]; rfl⟩
    have hsLsn : rb.baseLsn s = snap.lsn := by simp [baseLsn, hs, hsnap]
    have hkeep : ∀ {f : Nat → Option BaseSnapshot} {list : List Nat} {y : Nat}, rb.Based y → f y = rb.baseOf y →
        (rb.rebase f list).baseLsn y = rb.baseLsn y := by
      intro f list y hy hf
      rw [baseLsn_rebase (isSome_of_based hy), hf]
      rfl
    have hxListed : rb.Listed x := ⟨p, hx, htop⟩
    rw [transfer_eq_rebase hx hs hxp hss hne hsnap]
    by_cases hcond : p.baseSnapshot.isNone ∨ ∃ top ∈ p.baseSnapshot, snap.lsn < top.lsn
    · rw [if_pos hcond]
      -- first the parent's own snapshot is dropped, then the parent takes the child's place
      have hwithout : Registry (fun y => rb.Based y ∧ y ≠ x) rb.baseLsn
          (if p.baseSnapshot.isSome then rb.txnsByBaseSnapshotLsn.erase x else rb.txnsByBaseSnapshotLsn) := by
        split
        · exact h.base.erase (fun _ => Iff.rfl) fun _ _ => rfl
        · rename_i hpnone
          apply h.base.congr (fun y => ?_) fun _ _ => rfl
          refine ⟨fun hy => hy.1, fun hy => ⟨hy, ?_⟩⟩
          rintro rfl
          obtain ⟨u, hu, hb⟩ := hy
          rw [hx] at hu
          cases hu
          exact hpnone hb
      have hbased : ∀ (list : List Nat) (y : Nat),
          (rb.rebase (fun y => if y = x then some snap else if y = s then none else rb.baseOf y) list).Based y ↔
            ((rb.Based y ∧ y ≠ x) ∧ y ≠ s) ∨ y = x := by
        intro list y
        rw [based_rebase]
        by_cases hyx : y = x
        · subst hyx
          simp [hx]
        · by_cases hys : y = s
          · subst hys
            simp [hyx]
          · rw [if_neg hyx, if_neg hys, ← based_iff]
            refine ⟨fun hy => Or.inl ⟨⟨hy.2, hyx⟩, hys⟩, fun hy => ?_⟩
            rcases hy with ⟨⟨hy, -⟩, -⟩ | hy
            · exact ⟨isSome_of_based hy, hy⟩
            · exact absurd hy hyx
      apply h.rebase
      · rw [insertBefore_erase hwithout.nodup hne]
        apply hwithout.replace s x ⟨hsBased, hne.symm⟩ (fun hy => hy.2 rfl) (hbased _)
        · rintro y ⟨hy, hyx⟩ hys
          exact hkeep hy (by simp [hyx, hys])
        · rw [baseLsn_rebase (by rw [hx]; rfl), hsLsn]
          simp
      · intro y hy
        rcases (hbased _ y).mp hy with ⟨⟨hy, -⟩, hys⟩ | rfl
        · exact h.base_listed y hy hys
        · exact hxListed
    · rw [if_neg hcond]
      have hbased : ∀ (list : List Nat) (y : Nat),
          (rb.rebase (fun y => if y = s then none else rb.baseOf y) list).Based y ↔ rb.Based y ∧ y ≠ s := by
        intro list y
        rw [based_rebase]
        by_cases hys : y = s
        · subst hys
          simp
        · rw [if_neg hys, ← based_iff]
          exact ⟨fun hy => ⟨hy.2, hys⟩, fun hy => ⟨isSome_of_based hy.1, hy.1⟩⟩
      apply h.rebase
      · apply h.base.erase (hbased _)
        intro y hy
        obtain ⟨hy, hys⟩ := (hbased _ y).mp hy
        exact hkeep hy (by simp [hys])
      · intro y hy
        obtain ⟨hy, hys⟩ := (hbased _ y).mp hy
        exact h.base_listed y hy hys

theorem Unlisted.link (h : Unlisted K rb s) (hx : rb.byTxn x = some p) (hs : rb.byTxn s = some st)
    (hp : K.parent s = some x) (hsub : st.isKnownSubxact = false) : Inv K (linkChild rb x s) := by
  have hne : x ≠ s := by
    rintro rfl
    rw [K.parent_top x x hp] at hp
    cases hp
  have hget := byTxn_mark hx hs hne
  have hmarked := h.mark hx hs hne hp hsub
  have hparent : (rb.mark x s).byTxn x = some { p with subtxns := p.subtxns ++ [s] } := by rw [hget, if_pos rfl]
  have hchild : (rb.mark x s).byTxn s = some { st with isKnownSubxact := true, toplevelXid := x } := by
    rw [hget, if_neg hne.symm, if_pos rfl]
  have heq : linkChild rb x s = reorderBufferTransferSnapToParent (rb.mark x s)
      { p with subtxns := p.subtxns ++ [s] } { st with isKnownSubxact := true, toplevelXid := x } :=
    linkChild_of_some hparent hchild
  have htop : p.isKnownSubxact = false := h.parent_listed hp hx
  rw [heq]
  exact hmarked.transfer hparent hchild hne htop

theorem Inv.assignChild (h : Inv K rb) (hp : K.parent s = some x)
    (hlsn : rb.byTxn x = none → rb.FirstsBelow lsn) : Inv K (reorderBufferAssignChild rb x s lsn) := by
  have hne : x ≠ s := by
    rintro rfl
    rw [K.parent_top x x hp] at hp
    cases hp
  obtain ⟨hinv, p, -, hx⟩ := h.lookup x lsn hlsn
  unfold reorderBufferAssignChild
  dsimp only
  generalize (reorderBufferTXNByXid rb x true lsn true).1 = rb₁ at hinv hx
  cases hs : rb₁.byTxn s with
  | none =>
    -- a child seen for the first time is never listed
    rw [hinv.cached.txnByXid_create hs]
    have hself : (rb₁.create s lsn false).byTxn s = some (Txn.new s lsn rb₁.currentRestartDecodingLsn) := by
      rw [byTxn_create, if_pos rfl]
    have hx' : (rb₁.create s lsn false).byTxn x = some p := by
      rw [byTxn_create, if_neg hne]
      exact hx
    simp only [hself, if_true]
    exact (hinv.unlisted_create hs lsn).link hx' hself hp rfl
  | some st =>
    rw [hinv.cached.txnByXid_known hs]
    have hcached : Inv K (rb₁.cacheAs s (some s)) := by
      apply hinv.cacheAs
      rw [hs, Option.map_some, hinv.xid_eq s st hs]
    have hs' : (rb₁.cacheAs s (some s)).byTxn s = some st := hs
    simp only [hs', Bool.false_eq_true, if_false]
    split
    · exact hcached
    · rename_i hsub
      exact (hcached.unlisted s).link hx hs hp (by simpa using hsub)

theorem Inv.commitChild (h : Inv K rb) (hp : K.parent s = some x)
    (hknown : ∀ t, rb.byTxn s = some t → t.isKnownSubxact = false → rb.byTxn x ≠ none) :
    Inv K (reorderBufferCommitChild rb x s) := by
  obtain ⟨hinv, hby, hfound, -⟩ := h.lookup_only s 0 false
  unfold reorderBufferCommitChild
  dsimp only
  rw [hfound]
  cases hs : rb.byTxn s with
  | none => exact hinv
  | some st =>
    apply hinv.assignChild hp
    intro hx
    rw [hby] at hx
    -- an associated child has a known parent too
    cases hsub : st.isKnownSubxact with
    | false => exact absurd hx (hknown st hs hsub)
    | true =>
      obtain ⟨hp', q, hq, -⟩ := h.kin s st hs hsub
      rw [hp] at hp'
      cases hp'
      rw [hx] at hq
      cases hq

theorem Inv.hasBaseSnapshot (h : Inv K rb) (xid : Nat) : Inv K (reorderBufferXidHasBaseSnapshot rb xid).2 ∧
      (reorderBufferXidHasBaseSnapshot rb xid).2.byTxn = rb.byTxn ∧
      (reorderBufferXidHasBaseSnapshot rb xid).2.toplevelByLsn = rb.toplevelByLsn ∧
      ((reorderBufferXidHasBaseSnapshot rb xid).1 = false → ∀ t, rb.byTxn xid = some t →
        ∀ top, rb.byTxn t.toptxn = some top → top.baseSnapshot = none) := by
  obtain ⟨hinv, hby, hfound, htop⟩ := h.lookup_only xid 0 false
  unfold reorderBufferXidHasBaseSnapshot
  dsimp only
  rw [hfound]
  cases hx : rb.byTxn xid with
  | none => exact ⟨hinv, hby, htop, fun _ t ht => by cases ht⟩
  | some t =>
    dsimp only
    cases hsub : t.isKnownSubxact with
    | false =>
      simp only [Bool.false_eq_true, if_false]
      refine ⟨hinv, hby, htop, fun hfalse u hu top htop => ?_⟩
      cases hu
      rw [Txn.toptxn, hsub, if_neg Bool.false_ne_true, h.xid_eq xid t hx, hx] at htop
      cases htop
      simpa using hfalse
    | true =>
      simp only [if_true]
      obtain ⟨hinv', hby', hfound', htop'⟩ := hinv.lookup_only t.toplevelXid 0 false
      refine ⟨hinv', hby'.trans hby, htop'.trans htop, fun hfalse u hu top htop => ?_⟩
      cases hu
      rw [Txn.toptxn, hsub, if_pos rfl] at htop
      rw [hfound', hby, htop] at hfalse
      simpa using hfalse

end ReorderBuffer

end CdcKafka.Buffer
