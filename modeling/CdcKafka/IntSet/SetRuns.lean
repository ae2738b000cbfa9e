import CdcKafka.IntSet.Membership

/-! The iteration over an integer set: what the iterator has still to deliver. -/

namespace CdcKafka.IntSet

def Chained (s : IntegerSet) : Prop :=
  ∀ k < s.leaves.length, (s.leaf ⟨0, k⟩).next = (if k + 1 < s.leaves.length then some ⟨0, k + 1⟩ else none) ∧
    (s.leaf ⟨0, k⟩).items ≠ []

def leafValues (n : LeafNode) : List UInt64 := n.items.flatMap itemValues

def ready (s : IntegerSet) (it : IterState) : List UInt64 := ((iterArray s it).take it.numValues).drop it.valueno

inductive IterAt (s : IntegerSet) (it : IterState) : List UInt64 → Prop
  | leaf {k : ℕ} {rest : List UInt64} (hk : k < s.leaves.length) (values : it.values = .iterValuesBuf)
      (node : it.node = some ⟨0, k⟩) (bound : it.numValues ≤ it.valuesBuf.length)
      (hrest : rest = ((s.leaf ⟨0, k⟩).items.drop it.itemno).flatMap itemValues ++
        ((s.leaves.drop (k + 1)).flatMap leafValues ++ s.bufferedValues)) : IterAt s it (ready s it ++ rest)
  | treeEnd (values : it.values = .iterValuesBuf) (node : it.node = none)
      (bound : it.numValues ≤ it.valuesBuf.length) : IterAt s it (ready s it ++ s.bufferedValues)
  | buffer (values : it.values = .bufferedValues) (node : it.node = none)
      (bound : it.numValues = s.bufferedValues.length) : IterAt s it (ready s it)

def Delivers (s : IntegerSet) (it : IterState) (rest : List UInt64) (r : Option (Option UInt64 × IterState)) : Prop :=
  ∃ it', r = some (rest.head?, it') ∧ (rest = [] → it'.active = false) ∧
    (rest ≠ [] → it'.active = it.active ∧ IterAt s it' rest.tail)

section

variable {s : IntegerSet} {it : IterState} {rest : List UInt64}

theorem IterAt.bound (h : IterAt s it rest) : it.numValues ≤ (iterArray s it).length := by
  cases h with
  | leaf hk values node bound hrest =>
    rw [iterArray, values]
    exact bound
  | treeEnd values node bound =>
    rw [iterArray, values]
    exact bound
  | buffer values node bound =>
    rw [iterArray, values]
    exact bound.le

theorem ready_eq_nil (h : ¬ it.valueno < it.numValues) : ready s it = [] :=
  List.drop_eq_nil_of_le ((List.length_take_le _ _).trans (Nat.le_of_not_lt h))

theorem ready_eq_cons (hbound : it.numValues ≤ (iterArray s it).length) (h : it.valueno < it.numValues) :
    ready s it = (iterArray s it).getD it.valueno 0 :: ready s { it with valueno := it.valueno + 1 } := by
  have hlen : it.valueno < ((iterArray s it).take it.numValues).length := by rwa [List.length_take_of_le hbound]
  rw [ready, List.drop_eq_getElem_cons hlen, List.getElem_take, List.getD_eq_getElem _ _ (h.trans_le hbound)]
  rfl

theorem iterLoop_ready (h : IterAt s it rest) (hready : it.valueno < it.numValues) (turns : ℕ) :
    Delivers s it rest (iterLoop s (turns + 1) it) := by
  have hcons := ready_eq_cons h.bound hready
  rw [iterLoop, if_pos hready]
  cases h with
  | leaf hk values node bound hrest =>
    rw [hcons]
    refine ⟨_, rfl, fun hnil => absurd hnil (List.cons_ne_nil _ _), fun _ => ⟨rfl, ?_⟩⟩
    exact .leaf hk values node bound hrest
  | treeEnd values node bound =>
    rw [hcons]
    refine ⟨_, rfl, fun hnil => absurd hnil (List.cons_ne_nil _ _), fun _ => ⟨rfl, ?_⟩⟩
    exact .treeEnd values node bound
  | buffer values node bound =>
    rw [hcons]
    refine ⟨_, rfl, fun hnil => absurd hnil (List.cons_ne_nil _ _), fun _ => ⟨rfl, ?_⟩⟩
    exact .buffer values node bound

theorem Delivers.of_turn {it₁ : IterState} {r : Option (Option UInt64 × IterState)} (h : Delivers s it₁ rest r)
    (hactive : it₁.active = it.active) : Delivers s it rest r := by
  obtain ⟨it', hr, hend, hmore⟩ := h
  exact ⟨it', hr, hend, fun hne => ⟨(hmore hne).1.trans hactive, (hmore hne).2⟩⟩

theorem iterLoop_node {p : NodePtr} (hnode : it.node = some p) (hnone : ¬ it.valueno < it.numValues) (turns : ℕ) :
    iterLoop s (turns + 1) it = if it.itemno < (s.leaf p).items.length then
        iterLoop s turns (decodeItem it ((s.leaf p).items.getD it.itemno default))
      else iterLoop s turns { it with node := (s.leaf p).next, itemno := 0 } := by
  rw [iterLoop, if_neg hnone]
  split
  · next node h =>
    obtain rfl : p = node := Option.some.inj (hnode.symm.trans h)
    rfl
  · next h => exact absurd (hnode.symm.trans h) (Option.some_ne_none p)

theorem iterLoop_noNode (hnode : it.node = none) (hnone : ¬ it.valueno < it.numValues) (turns : ℕ) :
    iterLoop s (turns + 1) it = if it.values = .iterValuesBuf then
        iterLoop s turns { it with values := .bufferedValues, numValues := s.bufferedValues.length, valueno := 0 }
      else some (none, { it with active := false }) := by
  rw [iterLoop, if_neg hnone]
  split
  · next node h => exact absurd (h.symm.trans hnode) (Option.some_ne_none node)
  · rfl

theorem iterLoop_item {k : ℕ} (hk : k < s.leaves.length) (hvalues : it.values = .iterValuesBuf)
    (hnode : it.node = some ⟨0, k⟩) (hnone : ¬ it.valueno < it.numValues)
    (hitem : it.itemno < (s.leaf ⟨0, k⟩).items.length)
    (hrest : rest = ((s.leaf ⟨0, k⟩).items.drop it.itemno).flatMap itemValues ++
      ((s.leaves.drop (k + 1)).flatMap leafValues ++ s.bufferedValues)) (turns : ℕ) :
    Delivers s it rest (iterLoop s (turns + 2) it) := by
  rw [iterLoop_node hnode hnone, if_pos hitem]
  generalize hdecoded : decodeItem it ((s.leaf ⟨0, k⟩).items.getD it.itemno default) = it₁
  have hready : ready s it₁ = itemValues ((s.leaf ⟨0, k⟩).items.getD it.itemno default) := by
    have harray : iterArray s it₁ = itemValues ((s.leaf ⟨0, k⟩).items.getD it.itemno default) := by
      rw [iterArray, ← hdecoded, decodeItem]
      dsimp only
      rw [hvalues]
      rfl
    have hnum : it₁.numValues = (iterArray s it₁).length := by
      rw [harray, ← hdecoded]
      rfl
    rw [ready, hnum, List.take_length, harray, ← hdecoded]
    rfl
  have hat : IterAt s it₁ (ready s it₁ ++ (((s.leaf ⟨0, k⟩).items.drop it₁.itemno).flatMap itemValues ++
      ((s.leaves.drop (k + 1)).flatMap leafValues ++ s.bufferedValues))) := by
    refine .leaf hk ?_ ?_ ?_ rfl
    · rw [← hdecoded]; exact hvalues
    · rw [← hdecoded]; exact hnode
    · rw [← hdecoded]; exact le_refl _
  have hsame : ready s it₁ ++ (((s.leaf ⟨0, k⟩).items.drop it₁.itemno).flatMap itemValues ++
      ((s.leaves.drop (k + 1)).flatMap leafValues ++ s.bufferedValues)) = rest := by
    rw [hrest, hready, List.drop_eq_getElem_cons hitem, List.flatMap_cons, List.getD_eq_getElem _ _ hitem,
      List.append_assoc, ← hdecoded]
    rfl
  rw [hsame] at hat
  refine (iterLoop_ready hat ?_ turns).of_turn ?_
  · rw [← hdecoded]
    exact Nat.zero_lt_succ _
  · rw [← hdecoded]
    rfl

theorem iterLoop_treeEnd (hvalues : it.values = .iterValuesBuf) (hnode : it.node = none)
    (hnone : ¬ it.valueno < it.numValues) (turns : ℕ) :
    Delivers s it s.bufferedValues (iterLoop s (turns + 2) it) := by
  rw [iterLoop_noNode hnode hnone, if_pos hvalues]
  generalize hit₁ : ({ it with values := .bufferedValues, numValues := s.bufferedValues.length, valueno := 0 } : IterState) =
    it₁
  have hready : ready s it₁ = s.bufferedValues := by
    rw [← hit₁]
    exact List.take_length
  have hat : IterAt s it₁ (ready s it₁) := by
    refine .buffer ?_ ?_ ?_
    · rw [← hit₁]
    · rw [← hit₁]; exact hnode
    · rw [← hit₁]
  have hactive : it₁.active = it.active := by rw [← hit₁]
  rw [hready] at hat
  by_cases hsome : it₁.valueno < it₁.numValues
  · exact (iterLoop_ready hat hsome turns).of_turn hactive
  · have hempty : s.bufferedValues = [] := hready ▸ ready_eq_nil hsome
    have hnode₁ : it₁.node = none := by rw [← hit₁]; exact hnode
    have hvalues₁ : it₁.values ≠ .iterValuesBuf := by rw [← hit₁]; exact IterSource.noConfusion
    rw [iterLoop_noNode hnode₁ hsome, if_neg hvalues₁, hempty]
    exact ⟨_, rfl, fun _ => rfl, fun hne => absurd rfl hne⟩

theorem iterLoop_delivers (hchained : Chained s) (h : IterAt s it rest) (turns : ℕ) :
    Delivers s it rest (iterLoop s (turns + 4) it) := by
  by_cases hready : it.valueno < it.numValues
  · exact iterLoop_ready h hready (turns + 3)
  cases h with
  | @leaf k rest hk values node bound hrest =>
    rw [ready_eq_nil hready, List.nil_append]
    by_cases hitem : it.itemno < (s.leaf ⟨0, k⟩).items.length
    · exact iterLoop_item hk values node hready hitem hrest (turns + 2)
    · obtain ⟨hnext, -⟩ := hchained k hk
      have hdrop : (s.leaf ⟨0, k⟩).items.drop it.itemno = [] := List.drop_eq_nil_of_le (Nat.le_of_not_lt hitem)
      rw [hdrop, List.flatMap_nil, List.nil_append] at hrest
      rw [iterLoop_node node hready, if_neg hitem, hnext]
      split
      · next hmore =>
        have hpos := List.length_pos_iff.mpr (hchained (k + 1) hmore).2
        refine (@iterLoop_item s { it with node := some ⟨0, k + 1⟩, itemno := 0 } rest (k + 1) hmore values rfl hready hpos
          ?_ (turns + 1)).of_turn rfl
        rw [hrest, List.drop_eq_getElem_cons hmore, List.flatMap_cons, List.append_assoc, List.drop_zero, leafValues,
          IntegerSet.leaf, List.getD_eq_getElem _ _ hmore]
      · next hlast =>
        rw [List.drop_eq_nil_of_le (Nat.le_of_not_lt hlast), List.flatMap_nil, List.nil_append] at hrest
        rw [hrest]
        exact (@iterLoop_treeEnd s { it with node := none, itemno := 0 } values rfl hready (turns + 1)).of_turn rfl
  | treeEnd values node bound =>
    rw [ready_eq_nil hready, List.nil_append]
    exact iterLoop_treeEnd values node hready (turns + 2)
  | buffer values node bound =>
    have hne : it.values ≠ .iterValuesBuf := by rw [values]; exact IterSource.noConfusion
    rw [ready_eq_nil hready, iterLoop_noNode node hready, if_neg hne]
    exact ⟨_, rfl, fun _ => rfl, fun hnil => absurd rfl hnil⟩

end

theorem leafChain_getD {full : List (List LeafItem)} {last : List LeafItem} {k : ℕ} (h : k < full.length) :
    (leafChain full last).getD k default = ⟨some ⟨0, k + 1⟩, full[k]⟩ := by
  rw [leafChain, List.getD_append _ _ _ _ (by rwa [List.length_mapIdx]),
    List.getD_eq_getElem _ _ (by rwa [List.length_mapIdx]), List.getElem_mapIdx]

theorem Stored.chained {s : IntegerSet} {ts : List UInt64} (h : Stored s ts) : Chained s := by
  intro k hk
  cases h with
  | empty leaves internals right left root =>
    rw [leaves] at hk
    exact absurd hk (Nat.not_lt_zero k)
  | @tree full last tree filled =>
    rw [IntegerSet.leaf, tree.leaves, length_leafChain] at *
    dsimp only
    rcases Nat.lt_or_eq_of_le (Nat.le_of_lt_succ hk) with hlt | rfl
    · have hmem : full[k] ∈ full ++ [last] := List.mem_append_left _ (List.getElem_mem hlt)
      rw [leafChain_getD hlt, if_pos (Nat.succ_lt_succ hlt)]
      exact ⟨rfl, filled.ne_nil _ hmem⟩
    · rw [leafChain_getD_last, if_neg (lt_irrefl _)]
      exact ⟨rfl, filled.last_ne⟩

theorem flatMap_leafValues (leaves : List LeafNode) :
    leaves.flatMap leafValues = (leaves.map LeafNode.items).flatten.flatMap itemValues := by
  induction leaves with
  | nil => rfl
  | cons n leaves ih =>
    rw [List.flatMap_cons, List.map_cons, List.flatten_cons, List.flatMap_append, ih, leafValues]

theorem beginIterate_at {s : IntegerSet} {xs : List UInt64} (h : Holds s xs) :
    IterAt (beginIterate s) (beginIterate s).iter xs := by
  obtain ⟨ts, hstored, rfl⟩ := h.stored
  cases hstored with
  | empty leaves internals right left root => exact IterAt.treeEnd rfl left (Nat.zero_le _)
  | @tree full last tree filled =>
    have hpos : 0 < s.leaves.length := by
      rw [tree.leaves, length_leafChain]
      exact Nat.succ_pos _
    have hvalues : s.leaves.flatMap leafValues = treeValues (full ++ [last]) := by
      rw [flatMap_leafValues, treeValues, ← map_items_leafChain, ← tree.leaves]
    have hfirst : (s.leaves.flatMap leafValues) ++ s.bufferedValues =
        ((s.leaf ⟨0, 0⟩).items.drop 0).flatMap itemValues ++
          ((s.leaves.drop (0 + 1)).flatMap leafValues ++ s.bufferedValues) := by
      have hcons : s.leaves = s.leaves[0] :: s.leaves.drop (0 + 1) := List.drop_eq_getElem_cons hpos
      conv_lhs => rw [hcons, List.flatMap_cons]
      rw [List.append_assoc, List.drop_zero, leafValues, IntegerSet.leaf, List.getD_eq_getElem _ _ hpos]
    rw [← hvalues]
    exact IterAt.leaf hpos rfl tree.left (Nat.zero_le _) hfirst

end CdcKafka.IntSet

/-! An integer set under any sequence of calls is the set of the values added to it, with a cursor. -/

namespace CdcKafka.IntSet

open Lib

inductive Call where
  | addMember (x : UInt64)
  | beginIterate
  | iterateNext

def call (s : IntegerSet) : Call → Option (IntegerSet × List (Option UInt64))
  | .addMember x => (addMember s x).toOption.map fun s' => (s', [])
  | .beginIterate => some (beginIterate s, [])
  | .iterateNext => (iterateNext s).map fun r => (r.2, [r.1])

def runCalls (s : IntegerSet) : List Call → Option (IntegerSet × List (Option UInt64))
  | [] => some (s, [])
  | c :: cs => (call s c).bind fun r => (runCalls r.1 cs).map fun r' => (r'.1, r.2 ++ r'.2)

structure OrderedSet where
  values : List UInt64
  pending : Option (List UInt64)

namespace OrderedSet

instance (values : List UInt64) (x : UInt64) : Decidable (∀ v ∈ values, v < x) := List.decidableBAll _ values

def call (m : OrderedSet) : Call → Option (OrderedSet × List (Option UInt64))
  | .addMember x =>
    if m.pending.isNone ∧ ∀ v ∈ m.values, v < x then some (⟨m.values ++ [x], none⟩, []) else none
  | .beginIterate => some (⟨m.values, some m.values⟩, [])
  | .iterateNext =>
    m.pending.map fun rest => (⟨m.values, if rest = [] then none else some rest.tail⟩, [rest.head?])

def run (m : OrderedSet) : List Call → Option (OrderedSet × List (Option UInt64))
  | [] => some (m, [])
  | c :: cs => (m.call c).bind fun r => (run r.1 cs).map fun r' => (r'.1, r.2 ++ r'.2)

def empty : OrderedSet := ⟨[], none⟩

theorem run_append {m m' m'' : OrderedSet} {cs cs' : List Call} {out out' : List (Option UInt64)}
    (h : m.run cs = some (m', out)) (h' : m'.run cs' = some (m'', out')) :
    m.run (cs ++ cs') = some (m'', out ++ out') := by
  induction cs generalizing m out with
  | nil =>
    cases h
    exact h'
  | cons c cs ih =>
    rw [run] at h
    obtain ⟨r, hr, hrun⟩ := Option.bind_eq_some_iff.mp h
    obtain ⟨⟨m₁, out₁⟩, hrest, heq⟩ := Option.map_eq_some_iff.mp hrun
    cases heq
    rw [List.cons_append, run, hr, Option.bind_some, ih hrest, Option.map_some, List.append_assoc]

theorem run_next (values rest : List UInt64) :
    (OrderedSet.mk values (some rest)).run (List.replicate (rest.length + 1) .iterateNext) =
      some (⟨values, none⟩, rest.map some ++ [none]) := by
  induction rest with
  | nil => rfl
  | cons v rest ih =>
    rw [List.length_cons, List.replicate_succ, run, call]
    dsimp only [Option.map_some, Option.bind_some]
    rw [if_neg (List.cons_ne_nil v rest), List.tail_cons, ih]
    rfl

end OrderedSet

structure Means (s : IntegerSet) (m : OrderedSet) : Prop where
  holds : Holds s m.values
  idle : m.pending = none → s.iter.active = false
  iterating : ∀ rest, m.pending = some rest → s.iter.active = true ∧ IterAt s s.iter rest

theorem Holds.setIter {s : IntegerSet} {xs : List UInt64} (h : Holds s xs) (it : IterState) :
    Holds { s with iter := it } xs where
  entries := h.entries
  highest := h.highest
  stored := by
    obtain ⟨ts, hstored, hxs⟩ := h.stored
    exact ⟨ts, hstored.congr ⟨rfl, rfl, rfl, rfl, rfl, rfl⟩, hxs⟩
  buffered := h.buffered
  ascending := h.ascending

theorem IterAt.setIter {s : IntegerSet} {it : IterState} {rest : List UInt64} (h : IterAt s it rest) (it' : IterState) :
    IterAt { s with iter := it' } it rest := by
  cases h with
  | leaf hk values node bound hrest => exact IterAt.leaf (s := { s with iter := it' }) hk values node bound hrest
  | treeEnd values node bound => exact IterAt.treeEnd (s := { s with iter := it' }) values node bound
  | buffer values node bound => exact IterAt.buffer (s := { s with iter := it' }) values node bound

theorem means_create : Means intsetCreate .empty where
  holds := holds_create
  idle _ := rfl
  iterating _ h := by cases h

theorem Means.call {s : IntegerSet} {m m' : OrderedSet} {c : Call} {out : List (Option UInt64)} (h : Means s m)
    (hcall : m.call c = some (m', out)) : ∃ s', IntSet.call s c = some (s', out) ∧ Means s' m' := by
  cases c with
  | addMember x =>
    rw [OrderedSet.call] at hcall
    split at hcall
    · next hmay =>
      obtain ⟨hidle, hx⟩ := hmay
      cases hcall
      obtain ⟨s', hs', hholds, hiter⟩ := addMember_spec h.holds (h.idle (Option.isNone_iff_eq_none.mp hidle)) hx
      refine ⟨s', ?_, hholds, fun _ => ?_, (fun _ hnone => by cases hnone)⟩
      · rw [IntSet.call, hs']
        rfl
      · rw [hiter]
        exact h.idle (Option.isNone_iff_eq_none.mp hidle)
    · cases hcall
  | beginIterate =>
    cases hcall
    refine ⟨_, rfl, h.holds.setIter _, (fun hsome => by cases hsome), fun rest hrest => ⟨rfl, ?_⟩⟩
    cases hrest
    exact beginIterate_at h.holds
  | iterateNext =>
    rw [OrderedSet.call] at hcall
    obtain ⟨rest, hrest, heq⟩ := Option.map_eq_some_iff.mp hcall
    cases heq
    obtain ⟨hactive, hat⟩ := h.iterating rest hrest
    obtain ⟨ts, hstored, -⟩ := h.holds.stored
    obtain ⟨it', hit', hend, hmore⟩ := iterLoop_delivers hstored.chained hat s.leaves.length
    refine ⟨{ s with iter := it' }, ?_, h.holds.setIter it', fun hnone => ?_, fun rest' hrest' => ?_⟩
    · rw [IntSet.call, iterateNext, hit']
      rfl
    · dsimp only at hnone
      split at hnone
      · next hnil => exact hend hnil
      · cases hnone
    · dsimp only at hrest'
      split at hrest'
      · cases hrest'
      · next hne =>
        cases hrest'
        exact ⟨(hmore hne).1.trans hactive, (hmore hne).2.setIter it'⟩

theorem Means.run {s : IntegerSet} {m m' : OrderedSet} {cs : List Call} {out : List (Option UInt64)} (h : Means s m)
    (hrun : m.run cs = some (m', out)) : ∃ s', runCalls s cs = some (s', out) ∧ Means s' m' := by
  induction cs generalizing s m out with
  | nil =>
    cases hrun
    exact ⟨s, rfl, h⟩
  | cons c cs ih =>
    rw [OrderedSet.run] at hrun
    obtain ⟨⟨m₁, out₁⟩, hcall, hrest⟩ := Option.bind_eq_some_iff.mp hrun
    obtain ⟨⟨m₂, out₂⟩, hmore, heq⟩ := Option.map_eq_some_iff.mp hrest
    cases heq
    obtain ⟨s₁, hs₁, h₁⟩ := h.call hcall
    obtain ⟨s₂, hs₂, h₂⟩ := ih h₁ hmore
    refine ⟨s₂, ?_, h₂⟩
    rw [runCalls, hs₁, Option.bind_some, hs₂]
    rfl

/-- At every point of every run the set is the one that was added, and an iteration delivers it and then stops. The number
of entries is counted in 64 bits. -/
theorem integer_set_is_set {calls : List Call} {m : OrderedSet} {out : List (Option UInt64)}
    (h : OrderedSet.empty.run calls = some (m, out)) :
    ∃ s, runCalls intsetCreate calls = some (s, out) ∧ s.numEntries = UInt64.ofNat m.values.length ∧
      (∀ x, isMember s x = true ↔ x ∈ m.values) ∧
      ∃ s', runCalls s (.beginIterate :: List.replicate (m.values.length + 1) .iterateNext) =
        some (s', m.values.map some ++ [none]) := by
  obtain ⟨s, hs, hmeans⟩ := means_create.run h
  have hnext : m.run (.beginIterate :: List.replicate (m.values.length + 1) .iterateNext) =
      some (⟨m.values, none⟩, m.values.map some ++ [none]) := by
    rw [OrderedSet.run, OrderedSet.call]
    dsimp only [Option.bind_some]
    rw [OrderedSet.run_next]
    rfl
  obtain ⟨s', hs', -⟩ := hmeans.run hnext
  exact ⟨s, hs, hmeans.holds.entries, isMember_iff hmeans.holds, s', hs'⟩

theorem run_two : OrderedSet.empty.run [.addMember 3, .addMember 7, .beginIterate, .iterateNext] =
      some (⟨[3, 7], some [7]⟩, [some 3]) := by
  have hthree : (OrderedSet.mk [] none).call (.addMember 3) = some (⟨[3], none⟩, []) := by
    rw [OrderedSet.call]
    exact if_pos ⟨rfl, fun v hv => absurd hv List.not_mem_nil⟩
  have hseven : (OrderedSet.mk [3] none).call (.addMember 7) = some (⟨[3, 7], none⟩, []) := by
    rw [OrderedSet.call]
    refine if_pos ⟨rfl, fun v hv => ?_⟩
    rw [List.mem_singleton.mp hv]
    decide
  rw [OrderedSet.run, OrderedSet.empty, hthree, Option.bind_some, OrderedSet.run, hseven]
  rfl

theorem integer_set_is_set_two :
    ∃ s, runCalls intsetCreate [.addMember 3, .addMember 7, .beginIterate, .iterateNext] = some (s, [some 3]) ∧
      s.numEntries = 2 ∧ (∀ x, isMember s x = true ↔ x ∈ [3, 7]) ∧
      ∃ s', runCalls s (.beginIterate :: List.replicate 3 .iterateNext) = some (s', [some 3, some 7, none]) :=
  @integer_set_is_set [.addMember 3, .addMember 7, .beginIterate, .iterateNext] ⟨[3, 7], some [7]⟩ [some 3] run_two

def addFirst (n : ℕ) : List Call := (List.range n).map fun i => .addMember (UInt64.ofNat i)

theorem run_addFirst {n : ℕ} (hn : n ≤ 2 ^ 64) :
    OrderedSet.empty.run (addFirst n) = some (⟨(List.range n).map UInt64.ofNat, none⟩, []) := by
  induction n with
  | zero => rfl
  | succ n ih =>
    have hlt : ∀ v ∈ (List.range n).map UInt64.ofNat, v < UInt64.ofNat n := by
      refine List.forall_mem_map.mpr fun i hi => UInt64.lt_iff_toNat_lt.mpr ?_
      rw [UInt64.toNat_ofNat', UInt64.toNat_ofNat', Nat.mod_eq_of_lt (by omega : n < 2 ^ 64),
        Nat.mod_eq_of_lt ((List.mem_range.mp hi).trans (by omega))]
      exact List.mem_range.mp hi
    have hstep : (OrderedSet.mk ((List.range n).map UInt64.ofNat) none).run [.addMember (UInt64.ofNat n)] =
        some (⟨(List.range (n + 1)).map UInt64.ofNat, none⟩, []) := by
      rw [OrderedSet.run, OrderedSet.call, if_pos ⟨rfl, hlt⟩, List.range_succ, List.map_append]
      rfl
    have hsplit : addFirst (n + 1) = addFirst n ++ [.addMember (UInt64.ofNat n)] := by
      rw [addFirst, List.range_succ, List.map_append]
      rfl
    rw [hsplit]
    exact OrderedSet.run_append (ih (by omega)) hstep

theorem numEntries_addFirst {n : ℕ} (hn : n ≤ 2 ^ 64) :
    ∃ m s, OrderedSet.empty.run (addFirst n) = some (m, []) ∧ runCalls intsetCreate (addFirst n) = some (s, []) ∧
      m.values.length = n ∧ s.numEntries = UInt64.ofNat n := by
  have hrun := run_addFirst hn
  obtain ⟨s, hs, hmeans⟩ := means_create.run hrun
  have hlen : ((List.range n).map UInt64.ofNat).length = n := by rw [List.length_map, List.length_range]
  refine ⟨_, s, hrun, hs, hlen, ?_⟩
  rw [hmeans.holds.entries, hlen]

/-- After all the integers of 64 bits the number of entries is 0 again. -/
theorem num_entries_wraps : ∃ m s, OrderedSet.empty.run (addFirst (2 ^ 64)) = some (m, []) ∧
    runCalls intsetCreate (addFirst (2 ^ 64)) = some (s, []) ∧ m.values.length = 2 ^ 64 ∧ s.numEntries = 0 := by
  generalize hn : 2 ^ 64 = n
  obtain ⟨m, s, hm, hs, hlen, hentries⟩ := numEntries_addFirst (n := n) (by rw [hn])
  refine ⟨m, s, hm, hs, hlen, ?_⟩
  rw [hentries, ← hn]
  rfl

end CdcKafka.IntSet
