import CdcKafka.Reorder.Iterate

/-! What an iteration leaves in the buffer: transactions whose changes were brought back from disk,
the last batch of them in memory. -/

namespace CdcKafka.Reorder

variable {δ : Type} {walSegmentSize top : Nat} {xs : List Nat} {rb rb' rb'' : ReorderBuffer δ}
  {x y : Nat} {txn txn' : Txn δ}

structure Keeps (xs : List Nat) (rb rb' : ReorderBuffer δ) : Prop where
  subtxns : rb'.subtxns = rb.subtxns
  others : ∀ x, x ∉ xs → rb'.byTxn x = rb.byTxn x
  firstLsn : ∀ x, (rb'.byTxn x).map Txn.firstLsn = (rb.byTxn x).map Txn.firstLsn

theorem Keeps.refl (xs : List Nat) (rb : ReorderBuffer δ) : Keeps xs rb rb :=
  ⟨rfl, fun _ _ => rfl, fun _ => rfl⟩

theorem Keeps.trans (h : Keeps xs rb rb') (h' : Keeps xs rb' rb'') : Keeps xs rb rb'' where
  subtxns := h'.subtxns.trans h.subtxns
  others x hx := (h'.others x hx).trans (h.others x hx)
  firstLsn x := (h'.firstLsn x).trans (h.firstLsn x)

theorem keeps_set (hx : x ∈ xs) (htxn : rb.byTxn x = some txn)
    (hfirst : txn'.firstLsn = txn.firstLsn) : Keeps xs rb (rb.set x txn') where
  subtxns := rfl
  others y hy := set_byTxn_of_ne fun heq => hy (heq ▸ hx)
  firstLsn y := by
    by_cases hyx : y = x
    · subst hyx
      rw [set_byTxn_self, htxn]
      simp [hfirst]
    · rw [set_byTxn_of_ne hyx]

theorem Txn.serialize_firstLsn (txn : Txn δ) : (txn.serialize walSegmentSize).firstLsn = txn.firstLsn := by
  obtain ⟨-, hkept, -⟩ := foldl_serializeChange walSegmentSize txn.changes txn
  simp only [Txn.serialize, hkept]

theorem keeps_serializeOne (hx : x ∈ xs) : Keeps xs rb (serializeOne walSegmentSize rb x) := by
  unfold serializeOne
  split
  · next txn htxn => exact keeps_set hx htxn txn.serialize_firstLsn
  · exact .refl xs rb

theorem keeps_foldl_serializeOne {ys : List Nat} (h : ∀ y ∈ ys, y ∈ xs) :
    Keeps xs rb (ys.foldl (serializeOne walSegmentSize) rb) := by
  induction ys generalizing rb with
  | nil => exact .refl xs rb
  | cons y ys ih =>
    exact (keeps_serializeOne (h y (by simp))).trans (ih fun z hz => h z (by simp [hz]))

theorem keeps_serializeTXN (hx : x ∈ xs) (hsub : ∀ y ∈ rb.subtxns, y ∈ xs) :
    Keeps xs rb (reorderBufferSerializeTXN walSegmentSize top rb x) := by
  unfold reorderBufferSerializeTXN
  split
  · exact (keeps_foldl_serializeOne hsub).trans (keeps_serializeOne hx)
  · exact keeps_serializeOne hx

theorem keeps_restoreChanges (hx : x ∈ xs) (fd : Option Nat) (segno : Nat) :
    Keeps xs rb (reorderBufferRestoreChanges walSegmentSize rb x fd segno).1 := by
  unfold reorderBufferRestoreChanges
  split
  · next txn htxn => exact keeps_set hx htxn rfl
  · exact .refl xs rb

theorem addEntry_fst (walSegmentSize top : Nat) (rb : ReorderBuffer δ) (es : List (IterEntry δ)) (x : Nat) :
    (addEntry walSegmentSize top (rb, es) x).1 =
      if ∃ txn, rb.byTxn x = some txn ∧ 0 < txn.nentries ∧ txn.isSerialized = true then
        (reorderBufferRestoreChanges walSegmentSize (reorderBufferSerializeTXN walSegmentSize top rb x) x none 0).1
      else rb := by
  cases hx : rb.byTxn x with
  | none => simp [addEntry, hx]
  | some txn =>
    by_cases hpos : 0 < txn.nentries
    · cases hser : txn.isSerialized with
      | true => simp [addEntry, hx, hpos, hser]
      | false => simp [addEntry, hx, hpos, hser]
    · simp [addEntry, hx, hpos]

theorem keeps_addEntry (walSegmentSize top : Nat) (hx : x ∈ xs) (hsub : ∀ y ∈ rb.subtxns, y ∈ xs)
    (es : List (IterEntry δ)) : Keeps xs rb (addEntry walSegmentSize top (rb, es) x).1 := by
  rw [addEntry_fst]
  split
  · exact (keeps_serializeTXN hx hsub).trans (keeps_restoreChanges hx none 0)
  · exact .refl xs rb

theorem keeps_foldl_addEntry (walSegmentSize top : Nat) {ys : List Nat} (h : ∀ y ∈ ys, y ∈ xs)
    (hsub : ∀ y ∈ rb.subtxns, y ∈ xs) (es : List (IterEntry δ)) :
    Keeps xs rb (ys.foldl (addEntry walSegmentSize top) (rb, es)).1 := by
  induction ys generalizing rb es with
  | nil => exact .refl xs rb
  | cons y ys ih =>
    have hfirst := keeps_addEntry walSegmentSize top (h y (by simp)) hsub es
    refine hfirst.trans ?_
    exact ih (fun z hz => h z (by simp [hz])) (by rwa [hfirst.subtxns]) _

theorem keeps_init (walSegmentSize top : Nat) (rb : ReorderBuffer δ) :
    Keeps (top :: rb.subtxns) rb (reorderBufferIterTXNInit walSegmentSize top rb).rb :=
  keeps_foldl_addEntry walSegmentSize top (fun _ hy => hy) (fun _ hy => List.mem_cons_of_mem _ hy) []

structure ReorderBuffer.InMemory (rb : ReorderBuffer δ) (x : Nat) : Prop where
  counters : ∃ txn, rb.byTxn x = some txn ∧ txn.nentries = txn.nentriesMem ∧ 0 < txn.nentriesMem

theorem ReorderBuffer.InMemory.congr (h : rb.InMemory x) (heq : rb'.byTxn x = rb.byTxn x) :
    rb'.InMemory x := ⟨by rw [heq]; exact h.counters⟩

variable {queuedBy : Nat → List (Change δ)}

theorem inMemory_addEntry (top : Nat) (h : Pending walSegmentSize rb queuedBy x)
    (hne : queuedBy x ≠ []) (es : List (IterEntry δ))
    (hfits : (queuedBy x).length ≤ maxChangesInMemory ∨ ∀ txn, rb.byTxn x = some txn → txn.isSerialized = false) :
    (addEntry walSegmentSize top (rb, es) x).1.InMemory x := by
  cases hx : rb.byTxn x with
  | none => exact (hne (h.2 hx)).elim
  | some txn =>
    have hholds := h.1 txn hx
    have hlength : 0 < (queuedBy x).length := List.length_pos_iff.mpr hne
    have hpos : 0 < txn.nentries := by
      rw [hholds.nentries]
      exact hlength
    rw [addEntry_fst]
    cases hser : txn.isSerialized with
    | false =>
      have hnot : ¬ ∃ txn, rb.byTxn x = some txn ∧ 0 < txn.nentries ∧ txn.isSerialized = true := by
        rintro ⟨txn', htxn', -, hser'⟩
        rw [hx] at htxn'
        obtain rfl := Option.some.inj htxn'
        rw [hser] at hser'
        cases hser'
      rw [if_neg hnot]
      obtain ⟨spilled, hsplit, -, hnil⟩ := hholds.split
      obtain rfl := hnil hser
      have hmem : txn.nentries = txn.nentriesMem := by
        rw [hholds.nentries, hholds.nentriesMem, hsplit, List.nil_append]
      exact ⟨txn, hx, hmem, by omega⟩
    | true =>
      rw [if_pos ⟨txn, hx, hpos, hser⟩]
      have hsmall : (queuedBy x).length ≤ maxChangesInMemory := by
        rcases hfits with hsmall | hnone
        · exact hsmall
        · rw [hnone txn hx] at hser
          cases hser
      obtain ⟨txn₁, htxn₁, hcounters, hlater⟩ := h.later top hx hne
      have hnentries : txn₁.nentries = (queuedBy x).length :=
        ((h.serialize x).1 txn₁ htxn₁).nentries
      rcases hlater with ⟨hnil, -⟩ | ⟨spilled, hspilled, hdisk, hat, hunread, -, -⟩
      · exact (hne hnil).elim
      · obtain ⟨txn₂, fd, segno, hrestore, hchanges, hmem, hkept, -⟩ := hdisk.restore hspilled hat
        rw [hunread, List.take_of_length_le hsmall] at hchanges
        refine ⟨txn₂, ?_, ?_, ?_⟩
        · simp [reorderBufferRestoreChanges, htxn₁, hrestore, set_byTxn_self]
        · rw [hkept, hnentries, hmem, hchanges]
        · rw [hmem, hchanges]
          exact hlength

theorem addEntry_byTxn (walSegmentSize : Nat) (rb : ReorderBuffer δ) (hne : x ≠ y) (htop : y ≠ top)
    (es : List (IterEntry δ)) : (addEntry walSegmentSize top (rb, es) y).1.byTxn x = rb.byTxn x := by
  rw [addEntry_fst]
  split
  · have hkeeps : Keeps [y] rb (reorderBufferRestoreChanges walSegmentSize
        (reorderBufferSerializeTXN walSegmentSize top rb y) y none 0).1 := by
      refine Keeps.trans ?_ (keeps_restoreChanges (by simp) none 0)
      rw [reorderBufferSerializeTXN, if_neg htop]
      exact keeps_serializeOne (by simp)
    exact hkeeps.others x (by simpa using hne)
  · rfl

theorem foldl_addEntry_byTxn (walSegmentSize : Nat) (rb : ReorderBuffer δ) {ys : List Nat}
    (hx : x ∉ ys) (htop : top ∉ ys) (es : List (IterEntry δ)) :
    (ys.foldl (addEntry walSegmentSize top) (rb, es)).1.byTxn x = rb.byTxn x := by
  induction ys generalizing rb es with
  | nil => rfl
  | cons y ys ih =>
    simp only [List.mem_cons, not_or] at hx htop
    have hstep := addEntry_byTxn walSegmentSize rb hx.1 (Ne.symm htop.1) es
    exact (ih _ hx.2 htop.2 _).trans hstep

theorem Pending.addEntry (h : Pending walSegmentSize rb queuedBy x) (hne : x ≠ y) (top : Nat)
    (es : List (IterEntry δ)) :
    Pending walSegmentSize (Reorder.addEntry walSegmentSize top (rb, es) y).1 queuedBy x := by
  rw [addEntry_fst]
  split
  · have hserialized : Pending walSegmentSize (reorderBufferSerializeTXN walSegmentSize top rb y)
        queuedBy x := h.serialize y
    have hkeeps : Keeps [y] (reorderBufferSerializeTXN walSegmentSize top rb y)
        (reorderBufferRestoreChanges walSegmentSize (reorderBufferSerializeTXN walSegmentSize top rb y) y none 0).1 :=
      keeps_restoreChanges (by simp) none 0
    exact hserialized.congr (hkeeps.others x (by simpa using hne))
  · exact h

theorem ReorderBuffer.Holds.inMemory_init {lsn : Nat} {assigned : List Nat}
    (h : rb.Holds walSegmentSize top lsn queuedBy assigned) (hx : x ∈ rb.subtxns)
    (hne : queuedBy x ≠ [])
    (hfits : (queuedBy x).length ≤ maxChangesInMemory ∨
      ∀ y txn, y = top ∨ y = x → rb.byTxn y = some txn → txn.isSerialized = false) :
    (reorderBufferIterTXNInit walSegmentSize top rb).rb.InMemory x := by
  obtain ⟨pre, post, hsplit⟩ := List.append_of_mem hx
  obtain ⟨htop, hnodup⟩ := List.nodup_cons.mp h.nodup
  rw [hsplit] at htop hnodup
  have hxtop : x ≠ top := fun heq => htop (by simp [heq])
  have hpre : x ∉ pre ∧ top ∉ pre := by
    refine ⟨fun hmem => ?_, fun hmem => htop (by simp [hmem])⟩
    exact (List.nodup_append.mp hnodup).2.2 x hmem x (by simp) rfl
  have hpost : x ∉ post ∧ top ∉ post :=
    ⟨(List.nodup_cons.mp (List.nodup_append.mp hnodup).2.1).1, fun hmem => htop (by simp [hmem])⟩
  have hpending : Pending walSegmentSize rb queuedBy x :=
    ⟨fun txn htxn => (h.known x txn htxn).1, h.unknown x⟩
  have hrb : (reorderBufferIterTXNInit walSegmentSize top rb).rb =
      ((top :: rb.subtxns).foldl (addEntry walSegmentSize top) (rb, [])).1 := rfl
  rw [hrb, hsplit, List.foldl_cons, List.foldl_append, List.foldl_cons]
  -- before its turn comes it may have been spilled, with the top-level transaction only
  obtain ⟨rb₁, es₁, h₁⟩ : ∃ rb₁ es₁, Reorder.addEntry walSegmentSize top (rb, []) top = (rb₁, es₁) :=
    ⟨_, _, rfl⟩
  have hpending₁ : Pending walSegmentSize rb₁ queuedBy x := by
    have := hpending.addEntry hxtop top []
    rwa [h₁] at this
  have hfits₁ : (queuedBy x).length ≤ maxChangesInMemory ∨
      ∀ txn, rb₁.byTxn x = some txn → txn.isSerialized = false := by
    rcases hfits with hsmall | hnone
    · exact .inl hsmall
    · refine .inr fun txn htxn => hnone x txn (.inr rfl) ?_
      have hfst := addEntry_fst walSegmentSize top rb [] top
      rw [h₁, if_neg] at hfst
      · rw [← show rb₁ = rb from hfst]
        exact htxn
      · rintro ⟨txn', htxn', -, hser⟩
        rw [hnone top txn' (.inl rfl) htxn'] at hser
        cases hser
  rw [h₁]
  obtain ⟨rb₂, es₂, h₂⟩ : ∃ rb₂ es₂,
      pre.foldl (Reorder.addEntry walSegmentSize top) (rb₁, es₁) = (rb₂, es₂) := ⟨_, _, rfl⟩
  have hsame : rb₂.byTxn x = rb₁.byTxn x := by
    have := foldl_addEntry_byTxn walSegmentSize rb₁ hpre.1 hpre.2 es₁
    rwa [h₂] at this
  rw [h₂]
  have hmem := inMemory_addEntry top (hpending₁.congr hsame) hne es₂ (by rwa [hsame])
  exact hmem.congr (foldl_addEntry_byTxn walSegmentSize _ hpost.1 hpost.2 _)

def iterEnd (walSegmentSize : Nat) : Nat → IterState δ → IterState δ
  | 0, st => st
  | fuel + 1, st =>
    match reorderBufferIterTXNNext walSegmentSize st with
    | none => st
    | some (_, st') => iterEnd walSegmentSize fuel st'

variable {st st' : IterState δ} {change : Change δ} {rest : Nat → List (Change δ)}

theorem next_rb (h : reorderBufferIterTXNNext walSegmentSize st = some (change, st')) :
    0 < st.size ∧ (st'.rb = st.rb ∨ ∃ txn txn', st.rb.byTxn (st.entries (st.nodes 0)).txn = some txn ∧
      txn.nentries ≠ txn.nentriesMem ∧ txn'.firstLsn = txn.firstLsn ∧
      st'.rb = st.rb.set (st.entries (st.nodes 0)).txn txn') := by
  unfold reorderBufferIterTXNNext at h
  split at h
  · cases h
  · next hsize =>
    refine ⟨Nat.pos_of_ne_zero hsize, ?_⟩
    simp only at h
    split at h
    · cases h
    · obtain ⟨-, rfl⟩ := Prod.mk.inj (Option.some.inj h)
      exact .inl rfl
    · split at h
      · cases h
      · next txn htxn =>
        split at h
        · next hcounters =>
          refine .inr ⟨txn, (txn.restore walSegmentSize (st.entries (st.nodes 0)).fd
            (st.entries (st.nodes 0)).segno).1, htxn, hcounters, rfl, ?_⟩
          split at h
          · obtain ⟨-, rfl⟩ := Prod.mk.inj (Option.some.inj h)
            rfl
          · obtain ⟨-, rfl⟩ := Prod.mk.inj (Option.some.inj h)
            rfl
        · obtain ⟨-, rfl⟩ := Prod.mk.inj (Option.some.inj h)
          exact .inl rfl

theorem next_inMemory (h : reorderBufferIterTXNNext walSegmentSize st = some (change, st'))
    (hmem : st.rb.InMemory x) : st'.rb.InMemory x := by
  obtain ⟨-, heq | ⟨txn, txn', htxn, hcounters, -, heq⟩⟩ := next_rb h
  · rwa [heq]
  · rw [heq]
    refine hmem.congr (set_byTxn_of_ne ?_)
    -- what is restored is not in memory as a whole
    rintro rfl
    obtain ⟨txn₁, htxn₁, hequal, -⟩ := hmem.counters
    rw [htxn] at htxn₁
    obtain rfl := Option.some.inj htxn₁
    exact hcounters hequal

theorem Iterating.iterEnd (h : Iterating walSegmentSize st rest) (hrest : ∀ x, x ∉ xs → rest x = []) (fuel : Nat) :
    Keeps xs st.rb (iterEnd walSegmentSize fuel st).rb ∧
      ∀ x, st.rb.InMemory x → (Reorder.iterEnd walSegmentSize fuel st).rb.InMemory x := by
  induction fuel generalizing st rest with
  | zero => exact ⟨.refl xs st.rb, fun _ hmem => hmem⟩
  | succ fuel ih =>
    rcases h.next with ⟨hnone, -⟩ | ⟨xid, change, tail, st', hnext, hxid, -, hst'⟩
    · simp only [Reorder.iterEnd, hnone]
      exact ⟨.refl xs st.rb, fun _ hmem => hmem⟩
    · have hrest' : ∀ x, x ∉ xs → Function.update rest xid tail x = [] := by
        intro x hx
        have hne : x ≠ xid := by
          rintro rfl
          rw [hrest x hx] at hxid
          cases hxid
        rw [Function.update_of_ne hne]
        exact hrest x hx
      obtain ⟨hkeeps, hmemory⟩ := ih hst' hrest'
      simp only [Reorder.iterEnd, hnext]
      refine ⟨Keeps.trans ?_ hkeeps, fun x hmem => hmemory x (next_inMemory hnext hmem)⟩
      obtain ⟨hsize, heq | ⟨txn, txn', htxn, -, hfirst, heq⟩⟩ := next_rb hnext
      · rw [heq]
        exact .refl xs st.rb
      · rw [heq]
        refine keeps_set ?_ htxn hfirst
        -- the transaction at the root has something left
        by_contra hnot
        obtain ⟨hnonempty, -, _, later, -, hroot, -⟩ := h.entry 0 hsize
        rw [hrest _ hnot] at hroot
        simp [hnonempty] at hroot

theorem ReorderBuffer.Holds.iterEnd {lsn : Nat} {assigned : List Nat}
    (h : rb.Holds walSegmentSize top lsn queuedBy assigned) (fuel : Nat) :
    Keeps (top :: rb.subtxns) rb (iterEnd walSegmentSize fuel (reorderBufferIterTXNInit walSegmentSize top rb)).rb ∧
      ∀ x ∈ rb.subtxns, queuedBy x ≠ [] → ((queuedBy x).length ≤ maxChangesInMemory ∨
          ∀ y txn, y = top ∨ y = x → rb.byTxn y = some txn → txn.isSerialized = false) →
        (Reorder.iterEnd walSegmentSize fuel (reorderBufferIterTXNInit walSegmentSize top rb)).rb.InMemory x := by
  obtain ⟨hkeeps, hmemory⟩ := h.iterating.iterEnd (fun x (hx : x ∉ top :: rb.subtxns) => if_neg hx) fuel
  refine ⟨(keeps_init walSegmentSize top rb).trans hkeeps, fun x hx hne hfits => ?_⟩
  exact hmemory x (h.inMemory_init hx hne hfits)

end CdcKafka.Reorder
