import CdcKafka.Publish.SyncEntry
import CdcKafka.Lib.Wire

/-! What `get_rel_sync_entry` computes for the same publications in another order. -/

namespace CdcKafka.RelSync
open OrderFree Lib

variable {Row : Type} {cat : Catalog Row} {relid : Oid} {pub : Publication} {pubs pubs' : List Publication}

variable (cat relid) in
def ancestorAt (level : Nat) : Oid :=
  if level = 0 then relid else ((cat.partitionAncestors relid)[level - 1]?).getD InvalidOid

structure AtLevel (ancestors : List Oid) (st : Oid × Nat × Nat) : Prop where
  reached : st.2.2 = ancestors.length
  none : st.2.1 = 0 → st.1 = InvalidOid
  found : 0 < st.2.1 → st.2.1 ≤ ancestors.length ∧ ancestors[st.2.1 - 1]? = some st.1

variable (cat) in
theorem atLevel_ancestors (puboid : Oid) (ancestors : List Oid) :
    AtLevel ancestors (ancestors.foldl (ancestorStep cat puboid) (InvalidOid, 0, 0)) := by
  induction ancestors using List.reverseRecOn with
  | nil => exact ⟨rfl, fun _ => rfl, fun h => absurd h (Nat.lt_irrefl 0)⟩
  | append_singleton ancestors ancestor ih =>
    rw [List.foldl_append, List.foldl_cons, List.foldl_nil]
    generalize ancestors.foldl (ancestorStep cat puboid) (InvalidOid, 0, 0) = st at ih ⊢
    have hlen : (ancestors ++ [ancestor]).length = st.2.2 + 1 := by
      rw [List.length_append, List.length_singleton, ih.reached]
    rw [ancestorStep]
    by_cases hin : cat.inPublication ancestor puboid = true
    · rw [if_pos hin]
      refine ⟨hlen.symm, fun h => absurd h (Nat.succ_ne_zero _), fun _ => ⟨hlen.ge, ?_⟩⟩
      rw [Nat.add_sub_cancel, ih.reached, List.getElem?_concat_length]
    · rw [if_neg hin]
      refine ⟨hlen.symm, ih.none, fun hpos => ?_⟩
      obtain ⟨hle, hget⟩ := ih.found hpos
      have hlt : st.2.1 - 1 < ancestors.length := by
        have hpos' : 0 < st.2.1 := hpos
        omega
      refine ⟨hle.trans (by rw [hlen, ih.reached]; exact Nat.le_succ _), ?_⟩
      rw [List.getElem?_append_left hlt, hget]

theorem ancestorAt_topmost (puboid : Oid)
    (h : (getTopMostAncestorInPublication cat puboid (cat.partitionAncestors relid)).1 ≠ InvalidOid) :
    (getTopMostAncestorInPublication cat puboid (cat.partitionAncestors relid)).1 =
      ancestorAt cat relid (getTopMostAncestorInPublication cat puboid (cat.partitionAncestors relid)).2 := by
  have hlevel : AtLevel (cat.partitionAncestors relid) _ :=
    atLevel_ancestors cat puboid (cat.partitionAncestors relid)
  dsimp only [getTopMostAncestorInPublication] at h ⊢
  generalize (cat.partitionAncestors relid).foldl (ancestorStep cat puboid) (InvalidOid, 0, 0) = st at hlevel h ⊢
  have hne : st.2.1 ≠ 0 := fun h0 => h (hlevel.none h0)
  rw [ancestorAt, if_neg hne, (hlevel.found (Nat.pos_of_ne_zero hne)).2, Option.getD_some]

theorem pubRelid_eq {target : Target} (h : publicationTarget cat relid pub = .ok target) :
    target.pubRelid = ancestorAt cat relid target.ancestorLevel := by
  rw [publicationTarget] at h
  split at h
  · split at h
    · split at h
      · cases h
      · next root hroot =>
        obtain rfl := Except.ok.inj h
        have hne : cat.partitionAncestors relid ≠ [] := fun hnil => by rw [hnil] at hroot; cases hroot
        rw [ancestorAt, if_neg (List.length_pos_of_ne_nil hne).ne', ← List.getLast?_eq_getElem?, hroot,
          Option.getD_some]
    · obtain rfl := Except.ok.inj h
      rfl
  · dsimp only at h
    by_cases hpart : cat.relIsPartition relid = true
    · rw [if_pos hpart] at h
      split at h
      · next hvia =>
        obtain rfl := Except.ok.inj h
        exact ancestorAt_topmost pub.oid (bne_iff_ne.mp (Bool.and_eq_true_iff.mp hvia).1)
      · obtain rfl := Except.ok.inj h
        rfl
    · rw [if_neg hpart, bne_self_eq_false, Bool.false_and, if_neg Bool.false_ne_true] at h
      obtain rfl := Except.ok.inj h
      rfl

variable (cat relid) in
def sent (pub : Publication) : Bool :=
  match publicationTarget cat relid pub with
  | .ok target => target.publish && (!cat.relIsPartitioned relid || pub.pubviaroot)
  | .error _ => false

variable (cat relid) in
def levelOf (pub : Publication) : Nat :=
  match publicationTarget cat relid pub with
  | .ok target => target.ancestorLevel
  | .error _ => 0

variable (cat relid) in
def sentStep (st : LoopState) (pub : Publication) : LoopState :=
  st.publish pub (ancestorAt cat relid (levelOf cat relid pub)) (levelOf cat relid pub)

theorem publicationStep_ok {target : Target} (h : publicationTarget cat relid pub = .ok target) (st : LoopState) :
    publicationStep cat relid st pub = .ok (if sent cat relid pub then sentStep cat relid st pub else st) := by
  rw [publicationStep, h, ok_bind, pubRelid_eq h, sent, sentStep, levelOf, h]
  dsimp only
  split <;> rfl

theorem publicationStep_error {e : EntryError} (h : publicationTarget cat relid pub = .error e) (st : LoopState) :
    publicationStep cat relid st pub = .error e := by
  rw [publicationStep, h]
  rfl

def noActions : PublicationActions := ⟨false, false, false, false⟩

structure Collected (cat : Catalog Row) (relid : Oid) (pubs : List Publication) (st : LoopState) : Prop where
  actions : st.pubactions = pubs.foldl (fun actions pub => actions.or pub.pubactions) noActions
  top : (st.publishAncestorLevel, st.relPublications) = pubs.foldl (keepTop (levelOf cat relid)) (0, [])
  relid : st.publishAsRelid = ancestorAt cat relid st.publishAncestorLevel

theorem Collected.publish {st : LoopState} (h : Collected cat relid pubs st) (pub : Publication) :
    Collected cat relid (pubs ++ [pub]) (sentStep cat relid st pub) := by
  have htop : (pubs ++ [pub]).foldl (keepTop (levelOf cat relid)) (0, []) =
      keepTop (levelOf cat relid) (st.publishAncestorLevel, st.relPublications) pub := by
    rw [List.foldl_append, ← h.top, List.foldl_cons, List.foldl_nil]
  have hactions : (pubs ++ [pub]).foldl (fun actions pub => actions.or pub.pubactions) noActions =
      st.pubactions.or pub.pubactions := by
    rw [List.foldl_append, ← h.actions, List.foldl_cons, List.foldl_nil]
  rw [keepTop] at htop
  rw [sentStep, LoopState.publish]
  dsimp only at htop ⊢
  by_cases hbelow : st.publishAncestorLevel > levelOf cat relid pub
  · rw [if_pos hbelow] at htop ⊢
    exact ⟨hactions.symm, htop.symm, h.relid⟩
  · rw [if_neg hbelow] at htop ⊢
    by_cases habove : st.publishAncestorLevel < levelOf cat relid pub
    · rw [if_pos habove] at htop ⊢
      exact ⟨hactions.symm, htop.symm, rfl⟩
    · rw [if_neg habove] at htop ⊢
      exact ⟨hactions.symm, htop.symm, h.relid⟩

theorem collected_foldl (pubs : List Publication) :
    Collected cat relid pubs (pubs.foldl (sentStep cat relid) ⟨noActions, relid, 0, []⟩) := by
  induction pubs using List.reverseRecOn with
  | nil => exact ⟨rfl, rfl, rfl⟩
  | append_singleton pubs pub ih =>
    rw [List.foldl_append, List.foldl_cons, List.foldl_nil]
    exact ih.publish pub

theorem or_right_comm (a b c : PublicationActions) : (a.or b).or c = (a.or c).or b := by
  simp only [PublicationActions.or, Bool.or_right_comm]

theorem Collected.perm {st st' : LoopState} (h : Collected cat relid pubs st) (h' : Collected cat relid pubs' st')
    (hperm : pubs.Perm pubs') :
    st.pubactions = st'.pubactions ∧ st.publishAsRelid = st'.publishAsRelid ∧
      st.relPublications.Perm st'.relPublications := by
  have htop := h.top
  have htop' := h'.top
  rw [foldl_keepTop] at htop htop'
  obtain ⟨hlevel, hrel⟩ := Prod.mk.inj htop
  obtain ⟨hlevel', hrel'⟩ := Prod.mk.inj htop'
  have hkey : topKey (levelOf cat relid) pubs = topKey (levelOf cat relid) pubs' := topKey_perm hperm
  refine ⟨?_, ?_, ?_⟩
  · have : RightCommutative fun (actions : PublicationActions) (pub : Publication) => actions.or pub.pubactions :=
      ⟨fun actions a b => or_right_comm actions a.pubactions b.pubactions⟩
    rw [h.actions, h'.actions]
    exact hperm.foldl_eq noActions
  · rw [h.relid, h'.relid, hlevel, hlevel', hkey]
  · rw [hrel, hrel', hkey]
    exact hperm.filter _

theorem foldlM_publicationStep_error {e : EntryError} (hmem : pub ∈ pubs) (h : publicationTarget cat relid pub = .error e) :
    ∃ e, pubs.foldlM (publicationStep cat relid) ⟨noActions, relid, 0, []⟩ = .error e :=
  foldlM_error hmem (fun st => ⟨e, publicationStep_error h st⟩) _

theorem foldlM_publicationStep_ok (h : ∀ pub ∈ pubs, ∃ target, publicationTarget cat relid pub = .ok target) :
    ∃ st, pubs.foldlM (publicationStep cat relid) ⟨noActions, relid, 0, []⟩ = .ok st ∧
      Collected cat relid (pubs.filter (sent cat relid)) st := by
  have hstep : ∀ pub ∈ pubs, ∀ st, publicationStep cat relid st pub =
      .ok (if sent cat relid pub then sentStep cat relid st pub else st) := by
    intro pub hmem st
    obtain ⟨target, htarget⟩ := h pub hmem
    exact publicationStep_ok htarget st
  refine ⟨_, foldlM_eq_foldl hstep _, ?_⟩
  rw [← List.foldl_filter]
  exact collected_foldl _

variable {action : PubAction}

variable (cat relid action) in
def unfiltered (pub : Publication) : Bool :=
  pub.pubactions.publishes action && (publicationFilter cat relid pub).isNone

variable (cat relid action) in
def filterFor (pub : Publication) : Option (List (Condition Row)) :=
  if pub.pubactions.publishes action then publicationFilter cat relid pub else none

def freed (result : Option (FilterLists Row)) (action : PubAction) : List (List (Condition Row)) :=
  match result with
  | none => []
  | some st => if st.noFilter action then [] else st.rfnodes action

theorem freed_collectFilters (pubs : List Publication) (st : FilterLists Row) :
    freed (collectFilters cat relid pubs st) action =
      if st.noFilter action || pubs.any (unfiltered cat relid action) then []
      else st.rfnodes action ++ pubs.filterMap (filterFor cat relid action) := by
  induction pubs generalizing st with
  | nil => rw [collectFilters, freed, List.any_nil, Bool.or_false, List.filterMap_nil, List.append_nil]
  | cons pub pubs ih =>
    rw [collectFilters, List.any_cons, List.filterMap_cons]
    cases hfilter : publicationFilter cat relid pub with
    | none =>
      have hun : unfiltered cat relid action pub = pub.pubactions.publishes action := by
        rw [unfiltered, hfilter, Option.isNone_none, Bool.and_true]
      have hnone : filterFor cat relid action pub = none := by rw [filterFor, hfilter, ite_self]
      rw [hun, hnone]
      dsimp only
      split
      · next hquick =>
        -- every action is published without a filter
        simp only [Bool.and_eq_true] at hquick
        have hall : (st.noFilter action || pub.pubactions.publishes action) = true := by
          cases action with
          | insert => exact hquick.1.1
          | update => exact hquick.1.2
          | delete => exact hquick.2
        rw [← Bool.or_assoc, hall, Bool.true_or, if_pos rfl]
        rfl
      · rw [ih, Bool.or_assoc]
    | some filter =>
      have hun : unfiltered cat relid action pub = false := by
        rw [unfiltered, hfilter, Option.isNone_some, Bool.and_false]
      rw [hun, Bool.false_or]
      dsimp only
      rw [ih]
      refine ite_congr rfl (fun _ => rfl) fun hkept => ?_
      have hno : st.noFilter action = false := by
        rw [Bool.not_eq_true, Bool.or_eq_false_iff] at hkept
        exact hkept.1
      dsimp only
      rw [hno, Bool.not_false, Bool.and_true, filterFor, hfilter]
      cases pub.pubactions.publishes action with
      | false => rfl
      | true => exact List.append_assoc _ _ _

theorem rfnodesOf_eq (pubs : List Publication) : rfnodesOf cat relid pubs action =
      if pubs.any (unfiltered cat relid action) then [] else pubs.filterMap (filterFor cat relid action) := by
  have hfreed : rfnodesOf cat relid pubs action =
      freed (collectFilters cat relid pubs ⟨fun _ => [], fun _ => false⟩) action := rfl
  rw [hfreed, freed_collectFilters, Bool.false_or, List.nil_append]

theorem rfnodesOf_perm (h : pubs.Perm pubs') :
    (rfnodesOf cat relid pubs action).Perm (rfnodesOf cat relid pubs' action) := by
  rw [rfnodesOf_eq, rfnodesOf_eq, h.any_eq]
  split
  · exact List.Perm.refl []
  · exact h.filterMap _

def Rejects (o : Outcome) : Prop := ∃ value, o = .ok value ∧ value ≠ some true

def Condition.Rejects (row : Row) : Condition Row → Prop
  | .raises => False
  | .const value => value ≠ some true
  | .expr eval => RelSync.Rejects (eval row)

def Condition.Total : Condition Row → Prop
  | .raises => False
  | .const _ => True
  | .expr eval => ∀ row, ∃ value, eval row = .ok value

variable {row : Row} {args : List (Row → Outcome)} {conditions : List (Condition Row)}

theorem rejects_nullConst : Rejects (nullConst row) := ⟨none, rfl, nofun⟩

theorem rejects_execBoolOr (args : List (Row → Outcome)) (anynull : Bool) :
    Rejects (execBoolOr row args anynull) ↔ ∀ arg ∈ args, Rejects (arg row) := by
  induction args generalizing anynull with
  | nil =>
    rw [execBoolOr]
    refine ⟨fun _ _ hmem => absurd hmem List.not_mem_nil, fun _ => ⟨_, rfl, ?_⟩⟩
    cases anynull <;> simp
  | cons arg args ih =>
    rw [execBoolOr, List.forall_mem_cons]
    cases hvalue : arg row with
    | error e =>
      refine ⟨fun ⟨_, h, _⟩ => ?_, fun ⟨⟨_, h, _⟩, _⟩ => ?_⟩
      · cases h
      · cases h
    | ok value =>
      match value with
      | none => exact (ih true).trans (and_iff_right ⟨none, rfl, nofun⟩).symm
      | some false => exact (ih anynull).trans (and_iff_right ⟨some false, rfl, by simp⟩).symm
      | some true =>
        refine ⟨fun ⟨v, h, hne⟩ => ?_, fun ⟨⟨v, h, hne⟩, _⟩ => ?_⟩
        · exact absurd (Except.ok.inj h).symm hne
        · exact absurd (Except.ok.inj h).symm hne

theorem execBoolOr_total (args : List (Row → Outcome)) (h : ∀ arg ∈ args, ∃ value, arg row = .ok value) (anynull : Bool) :
    ∃ value, execBoolOr row args anynull = .ok value := by
  induction args generalizing anynull with
  | nil => exact ⟨_, rfl⟩
  | cons arg args ih =>
    rw [List.forall_mem_cons] at h
    obtain ⟨⟨value, hvalue⟩, hrest⟩ := h
    rw [execBoolOr, hvalue]
    match value with
    | none => exact ih hrest true
    | some false => exact ih hrest anynull
    | some true => exact ⟨_, rfl⟩

theorem execOrClause_some (newargs : List (Row → Outcome)) (haveNull : Bool) :
    execOrClause (some (newargs, haveNull)) row = match if haveNull then newargs ++ [nullConst] else newargs with
      | [] => .ok (some false)
      | [arg] => arg row
      | args => execBoolOr row args false := rfl

theorem rejects_execOrClause (newargs : List (Row → Outcome)) (haveNull : Bool) :
    Rejects (execOrClause (some (newargs, haveNull)) row) ↔ ∀ arg ∈ newargs, Rejects (arg row) := by
  have hall : (∀ arg ∈ if haveNull then newargs ++ [nullConst] else newargs, Rejects (arg row)) ↔
      ∀ arg ∈ newargs, Rejects (arg row) := by
    cases haveNull with
    | false => exact Iff.rfl
    | true =>
      rw [if_pos rfl, List.forall_mem_append, List.forall_mem_singleton]
      exact and_iff_left rejects_nullConst
  rw [← hall, execOrClause_some]
  generalize (if haveNull then newargs ++ [nullConst] else newargs) = args
  match args with
  | [] => exact ⟨fun _ _ hmem => absurd hmem List.not_mem_nil, fun _ => ⟨some false, rfl, by simp⟩⟩
  | [arg] =>
    rw [List.forall_mem_singleton]
  | arg :: arg' :: args => exact rejects_execBoolOr _ false

theorem execOrClause_total (newargs : List (Row → Outcome)) (haveNull : Bool)
    (h : ∀ arg ∈ newargs, ∃ value, arg row = .ok value) :
    ∃ value, execOrClause (some (newargs, haveNull)) row = .ok value := by
  have hall : ∀ arg ∈ if haveNull then newargs ++ [nullConst] else newargs, ∃ value, arg row = .ok value := by
    cases haveNull with
    | false => exact h
    | true =>
      rw [if_pos rfl, List.forall_mem_append, List.forall_mem_singleton]
      exact ⟨h, none, rfl⟩
  rw [execOrClause_some]
  generalize (if haveNull then newargs ++ [nullConst] else newargs) = args at hall
  match args with
  | [] => exact ⟨_, rfl⟩
  | [arg] => exact hall arg List.mem_cons_self
  | arg :: arg' :: args => exact execBoolOr_total _ hall false

theorem simplifyOrArguments_some {newargs left : List (Row → Outcome)} {haveNull leftNull : Bool}
    (h : simplifyOrArguments conditions newargs haveNull = .ok (some (left, leftNull))) :
    (∀ arg ∈ left, Rejects (arg row)) ↔ (∀ arg ∈ newargs, Rejects (arg row)) ∧ ∀ c ∈ conditions, c.Rejects row := by
  fun_induction simplifyOrArguments conditions newargs haveNull with
  | case1 newargs haveNull =>
    obtain ⟨rfl, -⟩ := Prod.mk.inj (Option.some.inj (Except.ok.inj h))
    exact (and_iff_left fun _ hmem => absurd hmem List.not_mem_nil).symm
  | case2 | case4 => cases h
  | case3 newargs haveNull args ih =>
    rw [ih h, List.forall_mem_cons]
    exact and_congr_right fun _ => (and_iff_right nofun).symm
  | case5 newargs haveNull args ih =>
    rw [ih h, List.forall_mem_cons]
    exact and_congr_right fun _ => (and_iff_right (show some false ≠ some true by simp)).symm
  | case6 newargs haveNull eval args ih =>
    rw [ih h, List.forall_mem_append, List.forall_mem_singleton, List.forall_mem_cons, and_assoc]
    exact Iff.rfl

theorem simplifyOrArguments_none {newargs : List (Row → Outcome)} {haveNull : Bool}
    (h : simplifyOrArguments conditions newargs haveNull = .ok none) : .const (some true) ∈ conditions := by
  fun_induction simplifyOrArguments conditions newargs haveNull with
  | case1 => cases h
  | case2 => cases h
  | case4 => exact List.mem_cons_self
  | case3 newargs haveNull args ih => exact List.mem_cons_of_mem _ (ih h)
  | case5 newargs haveNull args ih => exact List.mem_cons_of_mem _ (ih h)
  | case6 newargs haveNull eval args ih => exact List.mem_cons_of_mem _ (ih h)

theorem simplifyOrArguments_error {newargs : List (Row → Outcome)} {haveNull : Bool} {e : EntryError}
    (h : simplifyOrArguments conditions newargs haveNull = .error e) : e = .rowFilter ∧ .raises ∈ conditions := by
  fun_induction simplifyOrArguments conditions newargs haveNull with
  | case1 => cases h
  | case2 => exact ⟨(Except.error.inj h).symm, List.mem_cons_self⟩
  | case4 => cases h
  | case3 newargs haveNull args ih => exact (ih h).imp_right (List.mem_cons_of_mem _)
  | case5 newargs haveNull args ih => exact (ih h).imp_right (List.mem_cons_of_mem _)
  | case6 newargs haveNull eval args ih => exact (ih h).imp_right (List.mem_cons_of_mem _)

theorem simplifyOrArguments_raises {newargs : List (Row → Outcome)} {haveNull : Bool}
    {clause : Option (List (Row → Outcome) × Bool)} (hmem : .raises ∈ conditions)
    (h : simplifyOrArguments conditions newargs haveNull = .ok clause) : clause = none := by
  fun_induction simplifyOrArguments conditions newargs haveNull with
  | case1 => exact absurd hmem List.not_mem_nil
  | case2 => cases h
  | case4 => exact (Except.ok.inj h).symm
  | case3 newargs haveNull args ih => exact ih ((List.mem_cons.mp hmem).resolve_left nofun) h
  | case5 newargs haveNull args ih => exact ih ((List.mem_cons.mp hmem).resolve_left nofun) h
  | case6 newargs haveNull eval args ih => exact ih ((List.mem_cons.mp hmem).resolve_left nofun) h

theorem simplifyOrArguments_total {newargs left : List (Row → Outcome)} {haveNull leftNull : Bool}
    (hconditions : ∀ c ∈ conditions, c.Total) (hargs : ∀ arg ∈ newargs, ∀ row, ∃ value, arg row = .ok value)
    (h : simplifyOrArguments conditions newargs haveNull = .ok (some (left, leftNull))) :
    ∀ arg ∈ left, ∀ row, ∃ value, arg row = .ok value := by
  fun_induction simplifyOrArguments conditions newargs haveNull with
  | case1 newargs haveNull =>
    obtain ⟨rfl, -⟩ := Prod.mk.inj (Option.some.inj (Except.ok.inj h))
    exact hargs
  | case2 => cases h
  | case4 => cases h
  | case3 newargs haveNull args ih => exact ih (List.forall_mem_cons.mp hconditions).2 hargs h
  | case5 newargs haveNull args ih => exact ih (List.forall_mem_cons.mp hconditions).2 hargs h
  | case6 newargs haveNull eval args ih =>
    obtain ⟨heval, hrest⟩ := List.forall_mem_cons.mp hconditions
    exact ih hrest (List.forall_mem_append.mpr ⟨hargs, List.forall_mem_singleton.mpr heval⟩) h

variable {state : Option (Row → Outcome)} {rfnodes rfnodes' : List (List (Condition Row))}

theorem exec_eq_false (eval : Row → Outcome) : pgoutputRowFilterExecExpr eval row = .ok false ↔ Rejects (eval row) := by
  rw [pgoutputRowFilterExecExpr]
  cases hvalue : eval row with
  | error e =>
    refine ⟨fun h => ?_, fun ⟨_, h, _⟩ => ?_⟩
    · cases h
    · cases h
  | ok value =>
    match value with
    | none => exact ⟨fun _ => ⟨none, rfl, nofun⟩, fun _ => rfl⟩
    | some false => exact ⟨fun _ => ⟨some false, rfl, by simp⟩, fun _ => rfl⟩
    | some true =>
      refine ⟨fun h => ?_, fun ⟨_, h, hne⟩ => ?_⟩
      · cases h
      · exact absurd (Except.ok.inj h).symm hne

theorem prepareAction_nil : prepareAction ([] : List (List (Condition Row))) = .ok none := rfl

theorem prepareAction_eq (h : rfnodes ≠ []) : prepareAction rfnodes =
      (simplifyOrArguments rfnodes.flatten [] false).map fun clause => some (execOrClause clause) := by
  rw [prepareAction, List.isEmpty_eq_false_iff.mpr h, if_neg Bool.false_ne_true, execPrepareExpr]
  cases simplifyOrArguments rfnodes.flatten [] false <;> rfl

theorem prepareAction_rejects (h : prepareAction rfnodes = .ok state) :
    accepts state row = .ok false ↔ rfnodes ≠ [] ∧ ∀ c ∈ rfnodes.flatten, c.Rejects row := by
  by_cases hnil : rfnodes = []
  · rw [hnil, prepareAction_nil] at h
    obtain rfl := Except.ok.inj h
    refine ⟨fun hfalse => ?_, fun hne => absurd hnil hne.1⟩
    cases hfalse
  · rw [prepareAction_eq hnil] at h
    cases hclause : simplifyOrArguments rfnodes.flatten [] false with
    | error e =>
      rw [hclause] at h
      cases h
    | ok clause =>
      rw [hclause] at h
      obtain rfl := Except.ok.inj h
      refine (exec_eq_false _).trans ?_
      match clause with
      | none =>
        have hmem := simplifyOrArguments_none hclause
        refine ⟨fun ⟨_, htrue, hne⟩ => ?_, fun ⟨_, hall⟩ => ?_⟩
        · exact absurd (Except.ok.inj htrue).symm hne
        · exact absurd rfl (hall _ hmem)
      | some (left, leftNull) =>
        rw [rejects_execOrClause, simplifyOrArguments_some hclause, and_iff_right hnil]
        exact and_iff_right fun _ hmem => absurd hmem List.not_mem_nil

theorem prepareAction_error {e : EntryError} (h : prepareAction rfnodes = .error e) :
    e = .rowFilter ∧ .raises ∈ rfnodes.flatten := by
  by_cases hnil : rfnodes = []
  · rw [hnil, prepareAction_nil] at h
    cases h
  · rw [prepareAction_eq hnil] at h
    cases hclause : simplifyOrArguments rfnodes.flatten [] false with
    | error e' =>
      rw [hclause] at h
      obtain rfl := Except.error.inj h
      exact simplifyOrArguments_error hclause
    | ok clause =>
      rw [hclause] at h
      cases h

theorem prepareAction_raises (hmem : .raises ∈ rfnodes.flatten) (h : prepareAction rfnodes = .ok state) (row : Row) :
    accepts state row = .ok true := by
  have hnil : rfnodes ≠ [] := fun hnil => by
    rw [hnil] at hmem
    exact absurd hmem List.not_mem_nil
  rw [prepareAction_eq hnil] at h
  cases hclause : simplifyOrArguments rfnodes.flatten [] false with
  | error e =>
    rw [hclause] at h
    cases h
  | ok clause =>
    rw [hclause] at h
    obtain rfl := Except.ok.inj h
    rw [simplifyOrArguments_raises hmem hclause]
    rfl

theorem prepareAction_total (htotal : ∀ c ∈ rfnodes.flatten, c.Total) :
    ∃ state, prepareAction rfnodes = .ok state ∧ ∀ row, ∃ b, accepts state row = .ok b := by
  by_cases hnil : rfnodes = []
  · exact ⟨none, by rw [hnil, prepareAction_nil], fun row => ⟨true, rfl⟩⟩
  · rw [prepareAction_eq hnil]
    cases hclause : simplifyOrArguments rfnodes.flatten [] false with
    | error e => exact absurd (htotal _ (simplifyOrArguments_error hclause).2) id
    | ok clause =>
      refine ⟨_, rfl, fun row => ?_⟩
      have hvalue : ∃ value, execOrClause clause row = .ok value := by
        match clause with
        | none => exact ⟨_, rfl⟩
        | some (left, leftNull) =>
          have hleft := simplifyOrArguments_total htotal (fun _ hmem => absurd hmem List.not_mem_nil) hclause
          exact execOrClause_total left leftNull fun arg hmem => hleft arg hmem row
      obtain ⟨value, hvalue⟩ := hvalue
      refine ⟨value.getD false, ?_⟩
      rw [accepts, pgoutputRowFilterExecExpr, hvalue]
      rfl

theorem filterInit_ok {f : PubAction → Option (Row → Outcome)} (h : pgoutputRowFilterInit cat relid pubs = .ok f)
    (action : PubAction) : prepareAction (rfnodesOf cat relid pubs action) = .ok (f action) := by
  rw [pgoutputRowFilterInit] at h
  obtain ⟨insert, hinsert, h⟩ := bind_eq_ok.mp h
  obtain ⟨update, hupdate, h⟩ := bind_eq_ok.mp h
  obtain ⟨delete, hdelete, h⟩ := bind_eq_ok.mp h
  obtain rfl := Except.ok.inj h
  cases action with
  | insert => exact hinsert
  | update => exact hupdate
  | delete => exact hdelete

theorem filterInit_error {e : EntryError} (h : pgoutputRowFilterInit cat relid pubs = .error e) :
    e = .rowFilter ∧ ∃ action, .raises ∈ (rfnodesOf cat relid pubs action).flatten := by
  rw [pgoutputRowFilterInit] at h
  cases hinsert : prepareAction (rfnodesOf cat relid pubs .insert) with
  | error e' =>
    rw [hinsert] at h
    obtain rfl := Except.error.inj h
    exact (prepareAction_error hinsert).imp_right fun hmem => ⟨.insert, hmem⟩
  | ok insert =>
    rw [hinsert, ok_bind] at h
    cases hupdate : prepareAction (rfnodesOf cat relid pubs .update) with
    | error e' =>
      rw [hupdate] at h
      obtain rfl := Except.error.inj h
      exact (prepareAction_error hupdate).imp_right fun hmem => ⟨.update, hmem⟩
    | ok update =>
      rw [hupdate, ok_bind] at h
      cases hdelete : prepareAction (rfnodesOf cat relid pubs .delete) with
      | error e' =>
        rw [hdelete] at h
        obtain rfl := Except.error.inj h
        exact (prepareAction_error hdelete).imp_right fun hmem => ⟨.delete, hmem⟩
      | ok delete =>
        rw [hdelete] at h
        cases h

theorem filterInit_perm {f f' : PubAction → Option (Row → Outcome)} (hperm : pubs.Perm pubs')
    (h : pgoutputRowFilterInit cat relid pubs = .ok f) (h' : pgoutputRowFilterInit cat relid pubs' = .ok f')
    (action : PubAction) (row : Row) : accepts (f action) row = .ok false ↔ accepts (f' action) row = .ok false := by
  have hnodes : (rfnodesOf cat relid pubs action).Perm (rfnodesOf cat relid pubs' action) := rfnodesOf_perm hperm
  rw [prepareAction_rejects (filterInit_ok h action), prepareAction_rejects (filterInit_ok h' action)]
  refine and_congr (not_congr ⟨fun hnil => ?_, fun hnil => ?_⟩) (forall_congr' fun c => ?_)
  · exact List.nil_perm.mp (hnil ▸ hnodes)
  · exact List.perm_nil.mp (hnil ▸ hnodes)
  · rw [hnodes.flatten.mem_iff]

theorem filterInit_perm_error {e : EntryError} {f' : PubAction → Option (Row → Outcome)} (hperm : pubs.Perm pubs')
    (h : pgoutputRowFilterInit cat relid pubs = .error e) (h' : pgoutputRowFilterInit cat relid pubs' = .ok f') :
    e = .rowFilter ∧ ∃ action, ∀ row, accepts (f' action) row = .ok true := by
  obtain ⟨he, action, hmem⟩ := filterInit_error h
  refine ⟨he, action, prepareAction_raises ?_ (filterInit_ok h' action)⟩
  exact (rfnodesOf_perm hperm).flatten.mem_iff.mp hmem

variable {gencols : PublishGencolsType}

variable (cat relid) in
def gencolTypes (pubs : List Publication) : List PublishGencolsType :=
  (pubs.filter fun pub => (checkAndFetchColumnList cat relid pub).isNone).map Publication.pubgencolsType

theorem foldlM_gencolStep (pubs : List Publication) (first : Option PublishGencolsType) :
    pubs.foldlM (gencolStep cat relid) first = agreed .differentGencols first (gencolTypes cat relid pubs) := by
  induction pubs generalizing first with
  | nil =>
    rw [gencolTypes, List.filter_nil, List.map_nil, agreed]
    rfl
  | cons pub pubs ih =>
    rw [List.foldlM_cons, gencolStep.eq_def, gencolTypes]
    cases hlist : checkAndFetchColumnList cat relid pub with
    | some list =>
      rw [Option.isSome_some, if_pos rfl, ok_bind, ih, List.filter_cons_of_neg (by rw [hlist]; simp), gencolTypes]
    | none =>
      rw [Option.isSome_none, if_neg Bool.false_ne_true, List.filter_cons_of_pos (by rw [hlist]; rfl), List.map_cons]
      cases first with
      | none => exact ih _
      | some type =>
        rw [agreed]
        dsimp only
        split
        · exact ih _
        · rfl

theorem checkAndInitGencol_perm (h : pubs.Perm pubs') :
    checkAndInitGencol cat relid pubs = checkAndInitGencol cat relid pubs' := by
  have htypes : (gencolTypes cat relid pubs).Perm (gencolTypes cat relid pubs') := (h.filter _).map _
  rw [checkAndInitGencol, checkAndInitGencol, foldlM_gencolStep, foldlM_gencolStep, agreed_perm htypes]

variable (cat relid gencols) in
def columnsOf (several : Bool) (pub : Publication) : Finset Int :=
  let cols := ((checkAndFetchColumnList cat relid pub).getD []).toFinset
  if cols = ∅ then if several then pubFormColsMap (cat.tupleDesc relid) gencols else ∅ else cols

def RelcolsCached (cat : Catalog Row) (relid : Oid) (gencols : PublishGencolsType) (several : Bool) (relcols : Finset Int) :
    Prop :=
  relcols = ∅ ∨ several = true ∧ relcols = pubFormColsMap (cat.tupleDesc relid) gencols

def ColumnState.result (st : ColumnState) : Option (Finset Int) × Bool := (st.columns, st.foundPubCollist)

theorem foldlM_columnListStep {several : Bool} (pubs : List Publication) (st : ColumnState)
    (hcached : RelcolsCached cat relid gencols several st.relcols) :
    (pubs.foldlM (columnListStep cat relid several gencols) st).map ColumnState.result =
      (agreed .differentColumnLists st.columns (pubs.map (columnsOf cat relid gencols several))).map fun columns =>
        (columns, st.foundPubCollist || pubs.any fun pub => (checkAndFetchColumnList cat relid pub).isSome) := by
  induction pubs generalizing st with
  | nil =>
    rw [List.map_nil, agreed, List.any_nil, Bool.or_false]
    rfl
  | cons pub pubs ih =>
    rw [List.foldlM_cons, List.map_cons, List.any_cons, ← Bool.or_assoc, columnListStep.eq_def]
    dsimp only
    generalize hcols : ((checkAndFetchColumnList cat relid pub).getD []).toFinset = cols
    generalize hrelcols : (if cols = ∅ ∧ st.relcols = ∅ ∧ several = true then
      pubFormColsMap (cat.tupleDesc relid) gencols else st.relcols) = relcols
    have hcached' : RelcolsCached cat relid gencols several relcols := by
      rw [← hrelcols]
      split
      · next hfirst => exact Or.inr ⟨hfirst.2.2, rfl⟩
      · exact hcached
    have heff : (if cols = ∅ then relcols else cols) = columnsOf cat relid gencols several pub := by
      rw [columnsOf, hcols]
      refine ite_congr rfl (fun hempty => ?_) fun _ => rfl
      rw [← hrelcols]
      obtain hnone | ⟨hseveral, hform⟩ := hcached
      · rw [hnone]
        cases several with
        | false => rw [if_neg (by simp), if_neg Bool.false_ne_true]
        | true => rw [if_pos ⟨hempty, rfl, rfl⟩, if_pos rfl]
      · rw [hseveral, hform, if_pos rfl, ite_self]
    rw [heff]
    cases hst : st.columns with
    | none =>
      rw [ok_bind, ih _ hcached', agreed]
    | some columns =>
      rw [agreed]
      dsimp only
      split
      · rw [ok_bind, ih _ hcached']
      · rfl

theorem pgoutputColumnListInit_eq (pubs : List Publication) : pgoutputColumnListInit cat relid pubs gencols =
      (agreed .differentColumnLists none (pubs.map (columnsOf cat relid gencols (decide (pubs.length > 1))))).map
        fun columns =>
          if pubs.any fun pub => (checkAndFetchColumnList cat relid pub).isSome then columns.getD ∅ else ∅ := by
  have hresult : pgoutputColumnListInit cat relid pubs gencols =
      ((pubs.foldlM (columnListStep cat relid (decide (pubs.length > 1)) gencols) ⟨none, false, ∅⟩).map
        ColumnState.result).map fun result => if result.2 then result.1.getD ∅ else ∅ := by
    rw [pgoutputColumnListInit]
    cases pubs.foldlM (columnListStep cat relid (decide (pubs.length > 1)) gencols) ⟨none, false, ∅⟩ <;> rfl
  rw [hresult, foldlM_columnListStep pubs _ (Or.inl rfl), Bool.false_or]
  cases agreed EntryError.differentColumnLists none
    (pubs.map (columnsOf cat relid gencols (decide (pubs.length > 1)))) <;> rfl

theorem pgoutputColumnListInit_perm (h : pubs.Perm pubs') :
    pgoutputColumnListInit cat relid pubs gencols = pgoutputColumnListInit cat relid pubs' gencols := by
  rw [pgoutputColumnListInit_eq, pgoutputColumnListInit_eq, h.length_eq, h.any_eq, agreed_perm (h.map _)]

structure SameTarget (e e' : RelationSyncEntry Row) : Prop where
  publishAsRelid : e.publishAsRelid = e'.publishAsRelid
  pubactions : e.pubactions = e'.pubactions
  includeGencolsType : e.includeGencolsType = e'.includeGencolsType
  columns : e.columns = e'.columns

def Independent : Except EntryError (RelationSyncEntry Row) → Except EntryError (RelationSyncEntry Row) → Prop
  | .ok e, .ok e' =>
    SameTarget e e' ∧ ∀ action row, accepts (e.exprstate action) row = .ok true ↔ accepts (e'.exprstate action) row = .ok true
  | .error _, .error _ => True
  | .ok _, .error _ => False
  | .error _, .ok _ => False

def IndependentUpToErrors :
    Except EntryError (RelationSyncEntry Row) → Except EntryError (RelationSyncEntry Row) → Prop
  | .ok e, .ok e' =>
    SameTarget e e' ∧
      ∀ action row, accepts (e.exprstate action) row = .ok false ↔ accepts (e'.exprstate action) row = .ok false
  | .error _, .error _ => True
  | .ok e, .error error => error = .rowFilter ∧ ∃ action, ∀ row, accepts (e.exprstate action) row = .ok true
  | .error error, .ok e => error = .rowFilter ∧ ∃ action, ∀ row, accepts (e.exprstate action) row = .ok true

def Catalog.FiltersTotal (cat : Catalog Row) : Prop :=
  ∀ relid puboid rel, cat.publicationRel relid puboid = some rel →
    ∀ filter, rel.prqual = some filter → ∀ c ∈ filter, c.Total

theorem total_of_mem_rfnodesOf (h : cat.FiltersTotal) {c : Condition Row}
    (hmem : c ∈ (rfnodesOf cat relid pubs action).flatten) : c.Total := by
  rw [rfnodesOf_eq] at hmem
  split at hmem
  · exact absurd hmem List.not_mem_nil
  · obtain ⟨filter, hfilter, hc⟩ := List.mem_flatten.mp hmem
    obtain ⟨pub, -, hpub⟩ := List.mem_filterMap.mp hfilter
    rw [filterFor, publicationFilter] at hpub
    split at hpub
    · split at hpub
      · obtain ⟨rel, hrel, hqual⟩ := Option.bind_eq_some_iff.mp hpub
        exact h relid pub.oid rel hrel filter hqual c hc
      · cases hpub
    · cases hpub

theorem filterInit_total (h : cat.FiltersTotal) (relid : Oid) (pubs : List Publication) :
    ∃ f, pgoutputRowFilterInit cat relid pubs = .ok f ∧ ∀ action row, ∃ b, accepts (f action) row = .ok b := by
  have hprepared : ∀ action, ∃ state, prepareAction (rfnodesOf cat relid pubs action) = .ok state ∧
      ∀ row, ∃ b, accepts state row = .ok b := fun action =>
    prepareAction_total fun c hc => total_of_mem_rfnodesOf h hc
  obtain ⟨insert, hinsert, _⟩ := hprepared .insert
  obtain ⟨update, hupdate, _⟩ := hprepared .update
  obtain ⟨delete, hdelete, _⟩ := hprepared .delete
  have hinit : pgoutputRowFilterInit cat relid pubs = .ok (byAction insert update delete) := by
    rw [pgoutputRowFilterInit, hinsert, ok_bind, hupdate, ok_bind, hdelete, ok_bind]
    rfl
  refine ⟨_, hinit, fun action => ?_⟩
  obtain ⟨state, hstate, haccepts⟩ := hprepared action
  obtain rfl := Except.ok.inj (hstate.symm.trans (filterInit_ok hinit action))
  exact haccepts

theorem accepts_iff {state state' : Option (Row → Outcome)} {row : Row} (h : ∃ b, accepts state row = .ok b)
    (h' : ∃ b, accepts state' row = .ok b) (hfalse : accepts state row = .ok false ↔ accepts state' row = .ok false) :
    accepts state row = .ok true ↔ accepts state' row = .ok true := by
  obtain ⟨b, hb⟩ := h
  obtain ⟨b', hb'⟩ := h'
  rw [hb, hb'] at hfalse ⊢
  cases b <;> cases b' <;> simp at hfalse ⊢

theorem entryOf_perm {st st' : LoopState} (hactions : st.pubactions = st'.pubactions)
    (hrelid : st.publishAsRelid = st'.publishAsRelid) (hperm : st.relPublications.Perm st'.relPublications) :
    IndependentUpToErrors (entryOf cat st) (entryOf cat st') ∧
      (cat.FiltersTotal → Independent (entryOf cat st) (entryOf cat st')) := by
  rw [entryOf, entryOf, ← hactions, ← hrelid]
  split
  swap
  · exact ⟨⟨⟨rfl, rfl, rfl, rfl⟩, fun _ _ => Iff.rfl⟩, fun _ => ⟨⟨rfl, rfl, rfl, rfl⟩, fun _ _ => Iff.rfl⟩⟩
  rw [← checkAndInitGencol_perm hperm]
  simp only [← pgoutputColumnListInit_perm hperm]
  -- columns that do not fit together are an error for both lists
  cases checkAndInitGencol cat st.publishAsRelid st.relPublications with
  | error e =>
    cases pgoutputRowFilterInit cat st.publishAsRelid st.relPublications <;>
      cases pgoutputRowFilterInit cat st.publishAsRelid st'.relPublications <;> exact ⟨trivial, fun _ => trivial⟩
  | ok gencols =>
    simp only [ok_bind]
    cases pgoutputColumnListInit cat st.publishAsRelid st.relPublications gencols with
    | error e =>
      cases pgoutputRowFilterInit cat st.publishAsRelid st.relPublications <;>
        cases pgoutputRowFilterInit cat st.publishAsRelid st'.relPublications <;> exact ⟨trivial, fun _ => trivial⟩
    | ok columns =>
      cases hf : pgoutputRowFilterInit cat st.publishAsRelid st.relPublications with
      | error e =>
        cases hf' : pgoutputRowFilterInit cat st.publishAsRelid st'.relPublications with
        | error e' => exact ⟨trivial, fun _ => trivial⟩
        | ok f' =>
          refine ⟨filterInit_perm_error hperm hf hf', fun htotal => ?_⟩
          obtain ⟨f, hok, -⟩ := filterInit_total htotal st.publishAsRelid st.relPublications
          rw [hf] at hok
          cases hok
      | ok f =>
        cases hf' : pgoutputRowFilterInit cat st.publishAsRelid st'.relPublications with
        | error e' =>
          refine ⟨filterInit_perm_error hperm.symm hf' hf, fun htotal => ?_⟩
          obtain ⟨f', hok, -⟩ := filterInit_total htotal st.publishAsRelid st'.relPublications
          rw [hf'] at hok
          cases hok
        | ok f' =>
          have hfalse := filterInit_perm hperm hf hf'
          refine ⟨⟨⟨rfl, rfl, rfl, rfl⟩, hfalse⟩, fun htotal => ⟨⟨rfl, rfl, rfl, rfl⟩, fun action row => ?_⟩⟩
          obtain ⟨g, hg, hok⟩ := filterInit_total htotal st.publishAsRelid st.relPublications
          obtain ⟨g', hg', hok'⟩ := filterInit_total htotal st.publishAsRelid st'.relPublications
          obtain rfl := Except.ok.inj (hg.symm.trans hf)
          obtain rfl := Except.ok.inj (hg'.symm.trans hf')
          exact accepts_iff (hok action row) (hok' action row) (hfalse action row)

/-- The order of the publications decides at most which errors of row filters are reached. -/
theorem getRelSyncEntry_perm (h : pubs.Perm pubs') :
    IndependentUpToErrors (getRelSyncEntry cat pubs relid) (getRelSyncEntry cat pubs' relid) ∧
      (cat.FiltersTotal → Independent (getRelSyncEntry cat pubs relid) (getRelSyncEntry cat pubs' relid)) := by
  by_cases hfails : ∃ pub ∈ pubs, ∃ e, publicationTarget cat relid pub = .error e
  · obtain ⟨pub, hmem, e, he⟩ := hfails
    obtain ⟨e₁, h₁⟩ := foldlM_publicationStep_error hmem he
    obtain ⟨e₂, h₂⟩ := foldlM_publicationStep_error (h.mem_iff.mp hmem) he
    rw [noActions] at h₁ h₂
    rw [getRelSyncEntry, getRelSyncEntry, h₁, h₂]
    exact ⟨trivial, fun _ => trivial⟩
  · have hok : ∀ pub ∈ pubs, ∃ target, publicationTarget cat relid pub = .ok target := by
      intro pub hmem
      cases htarget : publicationTarget cat relid pub with
      | error e => exact absurd ⟨pub, hmem, e, htarget⟩ hfails
      | ok target => exact ⟨target, rfl⟩
    obtain ⟨st, hst, hcollected⟩ := foldlM_publicationStep_ok hok
    obtain ⟨st', hst', hcollected'⟩ := foldlM_publicationStep_ok fun pub hmem => hok pub (h.mem_iff.mpr hmem)
    obtain ⟨hactions, hrelid, hrel⟩ := hcollected.perm hcollected' (h.filter _)
    rw [noActions] at hst hst'
    rw [getRelSyncEntry, getRelSyncEntry, hst, hst']
    exact entryOf_perm hactions hrelid hrel

def rowActions : PublicationActions := ⟨true, true, true, false⟩

def zeroPublication : Publication := ⟨10, false, false, rowActions, .none⟩

def divisionPublication : Publication := ⟨11, false, false, rowActions, .none⟩

def zeroFilter : Condition Int := .expr fun b => .ok (some (decide (b = 0)))

def divisionFilter : Condition Int := .expr fun b => if b = 0 then .error () else .ok (some (decide (1 / b > 0)))

def divisionCatalog : Catalog Int where
  publicationRel relid puboid :=
    if relid = 16384 ∧ puboid = 10 then some ⟨some [zeroFilter], none⟩
    else if relid = 16384 ∧ puboid = 11 then some ⟨some [divisionFilter], none⟩
    else none
  publicationNamespace _ _ := false
  relNamespace _ := 2200
  relIsPartitioned _ := false
  relIsPartition _ := false
  partitionAncestors _ := []
  tupleDesc _ := [⟨1, false, none⟩]

/-- With the division first, a row where `b` is 0 is an error; with it second, the row is accepted. -/
theorem order_reaches_division : [zeroPublication, divisionPublication].Perm [divisionPublication, zeroPublication] ∧
      ¬ Independent (getRelSyncEntry divisionCatalog [zeroPublication, divisionPublication] 16384)
        (getRelSyncEntry divisionCatalog [divisionPublication, zeroPublication] 16384) := by
  refine ⟨List.Perm.swap _ _ _, fun h => ?_⟩
  have haccepts := (h.2 .insert 0).mp rfl
  cases haccepts

def partitionCatalog : Catalog Int where
  publicationRel relid puboid :=
    if relid = 16384 ∧ puboid = 10 then some ⟨some [zeroFilter], none⟩
    else if relid = 16386 ∧ puboid = 11 then some ⟨none, none⟩
    else none
  publicationNamespace _ _ := false
  relNamespace _ := 2200
  relIsPartitioned relid := decide (relid ≠ 16386)
  relIsPartition relid := decide (relid ≠ 16384)
  partitionAncestors relid := if relid = 16386 then [16385, 16384] else []
  tupleDesc _ := [⟨1, false, none⟩]

def rootPublication : Publication := { zeroPublication with pubviaroot := true }

theorem partitionEntry_independent :
    IndependentUpToErrors (getRelSyncEntry divisionCatalog [zeroPublication, divisionPublication] 16384)
        (getRelSyncEntry divisionCatalog [divisionPublication, zeroPublication] 16384) ∧
      Independent (getRelSyncEntry partitionCatalog [rootPublication, divisionPublication] 16386)
        (getRelSyncEntry partitionCatalog [divisionPublication, rootPublication] 16386) := by
  refine ⟨(getRelSyncEntry_perm (List.Perm.swap _ _ _)).1, (getRelSyncEntry_perm (List.Perm.swap _ _ _)).2 ?_⟩
  intro relid puboid rel hrel filter hfilter c hc
  rw [partitionCatalog] at hrel
  dsimp only at hrel
  split at hrel
  · obtain rfl := Option.some.inj hrel
    obtain rfl := Option.some.inj hfilter
    obtain rfl := List.mem_singleton.mp hc
    exact fun row => ⟨_, rfl⟩
  · split at hrel
    · obtain rfl := Option.some.inj hrel
      cases hfilter
    · cases hrel

end CdcKafka.RelSync
