import Mathlib.Data.Fintype.Pi
import Mathlib.Data.List.Perm.Basic

/-! What is decoded for the rows of a published table, what the row filter makes of it, and what
a subscriber does with the operations it is sent. -/

namespace CdcKafka.Publish

variable {n : Nat} {V : Type} [DecidableEq V]

inductive Cell (V : Type)
  | null
  | inline (v : V)
  | external (v : V)
deriving DecidableEq

def Cell.value : Cell V → Option V
  | .null => none
  | .inline v => some v
  | .external v => some v

def Cell.isExternal : Cell V → Bool
  | .external _ => true
  | _ => false

abbrev StoredRow (n : Nat) (V : Type) := Fin n → Cell V

abbrev Row (n : Nat) (V : Type) := Fin n → Option V

def StoredRow.values (r : StoredRow n V) : Row n V := fun i => (r i).value

inductive Assign (V : Type)
  | keep
  | null
  | value (v : V) (toasted : Bool)

def Assign.cell (old : Cell V) : Assign V → Cell V
  | .keep => old
  | .null => .null
  | .value v toasted => if toasted then .external v else .inline v

/-- `heap_attr_equals` compares what is stored, before the new value is moved out of line. -/
def Assign.modified (old : Cell V) : Assign V → Bool
  | .keep => false
  | .null => old ≠ .null
  | .value v _ => old ≠ .inline v

inductive Dml (n : Nat) (V : Type)
  | insert (row : StoredRow n V)
  | update (old : StoredRow n V) (sets : Fin n → Assign V)
  | delete (old : StoredRow n V)

def updated (old : StoredRow n V) (sets : Fin n → Assign V) : StoredRow n V := fun i => (sets i).cell (old i)

inductive Datum (V : Type)
  | null
  | inline (v : V)
  | onDisk
deriving DecidableEq

abbrev Slot (n : Nat) (V : Type) := Fin n → Datum V

def Cell.flatten : Cell V → Datum V
  | .null => .null
  | .inline v => .inline v
  | .external v => .inline v

inductive ReplicaIdentity (n : Nat)
  | full
  | key (cols : Fin n → Bool) (nonempty : ∃ i, cols i = true)

def ReplicaIdentity.isIdentity : ReplicaIdentity n → Fin n → Bool
  | .full, _ => true
  | .key cols _, i => cols i

def keyRequired (ri : ReplicaIdentity n) (old : StoredRow n V) (sets : Fin n → Assign V) : Bool :=
  decide (∃ i, ri.isIdentity i = true ∧ ((sets i).modified (old i) = true ∨ (old i).isExternal = true))

def extractReplicaIdentity (ri : ReplicaIdentity n) (tp : StoredRow n V) (required : Bool) : Option (Slot n V) :=
  match ri with
  | .full => some fun i => (tp i).flatten
  | .key cols _ => if required then some fun i => if cols i then (tp i).flatten else .null else none

def Assign.logged (old : Cell V) : Assign V → Datum V
  | .keep => if old.isExternal then .onDisk else old.flatten
  | .null => .null
  | .value v _ => .inline v

inductive ReorderBufferChangeType
  | insert
  | update
  | delete
deriving DecidableEq

structure Change (n : Nat) (V : Type) where
  action : ReorderBufferChangeType
  oldtuple : Option (Slot n V)
  newtuple : Option (Slot n V)

def Dml.decoded (ri : ReplicaIdentity n) : Dml n V → Change n V
  | .insert row => ⟨.insert, none, some fun i => (row i).flatten⟩
  | .update old sets =>
    ⟨.update, extractReplicaIdentity ri old (keyRequired ri old sets), some fun i => (sets i).logged (old i)⟩
  | .delete old => ⟨.delete, extractReplicaIdentity ri old true, none⟩

structure RowFilter (ri : ReplicaIdentity n) (V : Type) where
  expr : Row n V → Option Bool
  reads_identity : ∀ a b : Row n V, (∀ i, ri.isIdentity i = true → a i = b i) → expr a = expr b

variable {ri : ReplicaIdentity n}

def Datum.value (behind : Option V) : Datum V → Option V
  | .null => none
  | .inline v => some v
  | .onDisk => behind

def pgoutputRowFilterExecExpr (filter : RowFilter ri V) (behind : Option V) (slot : Slot n V) : Bool :=
  (filter.expr fun i => (slot i).value behind).getD false

def copyFromOld (old new : Slot n V) : Slot n V := fun i =>
  if new i = .null ∨ old i = .null then new i
  else if new i = .onDisk ∧ old i ≠ .onDisk then old i
  else new i

def pgoutputRowFilter (filter : RowFilter ri V) (behind : Option V) (action : ReorderBufferChangeType)
    (oldSlot newSlot : Option (Slot n V)) : Option (ReorderBufferChangeType × Option (Slot n V)) :=
  match oldSlot, newSlot with
  | some old, some new =>
    let tmpNew := copyFromOld old new
    let oldMatched := pgoutputRowFilterExecExpr filter behind old
    let newMatched := pgoutputRowFilterExecExpr filter behind tmpNew
    if !oldMatched && !newMatched then none
    else if !oldMatched && newMatched then some (.insert, some tmpNew)
    else if oldMatched && !newMatched then some (.delete, some new)
    else some (action, some new)
  | none, some slot => if pgoutputRowFilterExecExpr filter behind slot then some (action, some slot) else none
  | some slot, none => if pgoutputRowFilterExecExpr filter behind slot then some (action, none) else none
  | none, none => none

inductive Column (V : Type)
  | null
  | unchanged
  | value (v : V)

abbrev TupleData (n : Nat) (V : Type) := Fin n → Column V

def Datum.column : Datum V → Column V
  | .null => .null
  | .inline v => .value v
  | .onDisk => .unchanged

def logicalrepWriteTuple (slot : Slot n V) : TupleData n V := fun i => (slot i).column

inductive Message (n : Nat) (V : Type)
  | insert (newtup : TupleData n V)
  | update (oldtup : Option (TupleData n V)) (newtup : TupleData n V)
  | delete (oldtup : TupleData n V)

def pgoutputChange (filter : RowFilter ri V) (behind : Option V) (change : Change n V) : Option (Message n V) :=
  if change.action = .delete ∧ change.oldtuple = none then none
  else
    match pgoutputRowFilter filter behind change.action change.oldtuple change.newtuple with
    | none => none
    | some (.insert, newSlot) => newSlot.map fun new => .insert (logicalrepWriteTuple new)
    | some (.update, newSlot) =>
      newSlot.map fun new => .update (change.oldtuple.map logicalrepWriteTuple) (logicalrepWriteTuple new)
    | some (.delete, _) => change.oldtuple.map fun old => .delete (logicalrepWriteTuple old)

def Column.stored : Column V → Option V
  | .value v => some v
  | _ => none

def Column.modifies (old : Option V) : Column V → Option V
  | .value v => some v
  | .null => none
  | .unchanged => old

def found (ri : ReplicaIdentity n) (search : TupleData n V) (row : Row n V) : Bool :=
  decide (∀ i, ri.isIdentity i = true → row i = (search i).stored)

def replaceFirst {α : Type} (p : α → Bool) (f : α → α) : List α → List α
  | [] => []
  | a :: l => if p a then f a :: l else a :: replaceFirst p f l

def applyMessage (ri : ReplicaIdentity n) (copy : List (Row n V)) : Message n V → List (Row n V)
  | .insert newtup => (fun i => (newtup i).stored) :: copy
  | .update oldtup newtup =>
    replaceFirst (found ri (oldtup.getD newtup)) (fun row i => (newtup i).modifies (row i)) copy
  | .delete oldtup => copy.eraseP (found ri oldtup)

def Dml.apply (table : List (StoredRow n V)) : Dml n V → List (StoredRow n V)
  | .insert row => row :: table
  | .update old sets => updated old sets :: table.erase old
  | .delete old => table.erase old

def KeyUnique (ri : ReplicaIdentity n) (table : List (StoredRow n V)) : Prop :=
  match ri with
  | .full => True
  | .key cols _ => table.Pairwise fun a b => ∃ i, cols i = true ∧ (a i).value ≠ (b i).value

def Dml.Valid (ri : ReplicaIdentity n) (table : List (StoredRow n V)) (op : Dml n V) : Prop :=
  KeyUnique ri (op.apply table) ∧ match op with
    | .insert _ => True
    | .update old _ => old ∈ table
    | .delete old => old ∈ table

def ValidRun (ri : ReplicaIdentity n) : List (StoredRow n V) → List (Dml n V) → Prop
  | _, [] => True
  | table, op :: ops => op.Valid ri table ∧ ValidRun ri (op.apply table) ops

def tableAfter (table : List (StoredRow n V)) (ops : List (Dml n V)) : List (StoredRow n V) := ops.foldl Dml.apply table

def send (filter : RowFilter ri V) (behind : Option V) (copy : List (Row n V)) (op : Dml n V) : List (Row n V) :=
  match pgoutputChange filter behind (op.decoded ri) with
  | none => copy
  | some message => applyMessage ri copy message

def copyAfter (filter : RowFilter ri V) (behind : Option V) (copy : List (Row n V)) (ops : List (Dml n V)) :
    List (Row n V) := ops.foldl (send filter behind) copy

def RowFilter.satisfied (filter : RowFilter ri V) (row : Row n V) : Bool := (filter.expr row).getD false

def filtered (filter : RowFilter ri V) (table : List (StoredRow n V)) : List (Row n V) :=
  (table.filter fun r => filter.satisfied r.values).map StoredRow.values

end CdcKafka.Publish

/-! The copy of a subscriber against the filtered table. -/

namespace CdcKafka.Publish

variable {n : Nat} {V : Type} {ri : ReplicaIdentity n} {filter : RowFilter ri V} {behind : Option V}
  {old row : StoredRow n V} {sets : Fin n → Assign V} {table : List (StoredRow n V)} {copy : List (Row n V)}

theorem value_flatten (c : Cell V) : c.flatten.value behind = c.value := by cases c <;> rfl

theorem stored_flatten (c : Cell V) : c.flatten.column.stored = c.value := by cases c <;> rfl

theorem value_of_not_modified [DecidableEq V] {c : Cell V} {a : Assign V} (h : a.modified c = false) :
    (a.cell c).value = c.value := by
  cases a with
  | keep => rfl
  | null =>
    have hc : c = .null := by simpa [Assign.modified] using h
    rw [hc]
    rfl
  | value v toasted =>
    have hc : c = .inline v := by simpa [Assign.modified] using h
    rw [hc]
    cases toasted <;> rfl

theorem logged_eq (behind : Option V) {c : Cell V} {a : Assign V} (h : a = .keep → c.isExternal = false) :
    ((a.logged c).value behind = (a.cell c).value) ∧ ((a.logged c).column.stored = (a.cell c).value) := by
  cases a with
  | keep =>
    rw [Assign.logged, h rfl, if_neg Bool.false_ne_true]
    exact ⟨value_flatten c, stored_flatten c⟩
  | null => exact ⟨rfl, rfl⟩
  | value v toasted => cases toasted <;> exact ⟨rfl, rfl⟩

theorem logged_kept {c : Cell V} (h : c.isExternal = true) : (Assign.keep.logged c) = .onDisk := by
  rw [Assign.logged, h, if_pos rfl]

theorem logged_ne_onDisk {c : Cell V} {a : Assign V} (h : a = .keep → c.isExternal = false) : a.logged c ≠ .onDisk := by
  intro heq
  cases a with
  | keep =>
    rw [Assign.logged, h rfl, if_neg Bool.false_ne_true] at heq
    cases c <;> cases heq
  | null => cases heq
  | value v toasted => cases heq

theorem modifies_logged (c : Cell V) (a : Assign V) : (a.logged c).column.modifies c.value = (a.cell c).value := by
  cases a with
  | keep => cases c <;> rfl
  | null => rfl
  | value v toasted => cases toasted <;> rfl

theorem satisfied_congr {a b : Row n V} (h : ∀ i, ri.isIdentity i = true → a i = b i) :
    filter.satisfied a = filter.satisfied b := by
  rw [RowFilter.satisfied, RowFilter.satisfied, filter.reads_identity a b h]

theorem execExpr_eq {slot : Slot n V} {a : Row n V} (h : ∀ i, ri.isIdentity i = true → (slot i).value behind = a i) :
    pgoutputRowFilterExecExpr filter behind slot = filter.satisfied a := satisfied_congr h

theorem extract_identity {required : Bool} {slot : Slot n V}
    (h : extractReplicaIdentity ri old required = some slot) (i : Fin n) (hi : ri.isIdentity i = true) :
    slot i = (old i).flatten := by
  cases ri with
  | full =>
    obtain rfl := Option.some.inj h
    rfl
  | key cols hne =>
    have hcol : cols i = true := hi
    cases required with
    | false => cases h
    | true =>
      obtain rfl := Option.some.inj h
      show (if cols i then (old i).flatten else .null) = _
      rw [hcol, if_pos rfl]

theorem untouched_of_extract_none [DecidableEq V] (h : extractReplicaIdentity ri old (keyRequired ri old sets) = none) (i : Fin n)
    (hi : ri.isIdentity i = true) : (sets i).modified (old i) = false ∧ (old i).isExternal = false := by
  have hrequired : keyRequired ri old sets = false := by
    cases ri with
    | full => cases h
    | key cols hne =>
      cases hreq : keyRequired (.key cols hne) old sets with
      | false => rfl
      | true =>
        rw [hreq] at h
        cases h
  have hnone := of_decide_eq_false hrequired
  constructor
  · cases hm : (sets i).modified (old i) with
    | false => rfl
    | true => exact absurd ⟨i, hi, Or.inl hm⟩ hnone
  · cases he : (old i).isExternal with
    | false => rfl
    | true => exact absurd ⟨i, hi, Or.inr he⟩ hnone

theorem copyFromOld_eq [DecidableEq V] (behind : Option V) {slot : Slot n V} (i : Fin n) (hi : slot i = (old i).flatten) :
    ((copyFromOld slot fun i => (sets i).logged (old i)) i).value behind = (updated old sets i).value ∧
      ((copyFromOld slot fun i => (sets i).logged (old i)) i).column.stored = (updated old sets i).value := by
  unfold copyFromOld updated
  by_cases hkept : sets i = .keep ∧ (old i).isExternal = true
  · obtain ⟨hkeep, hext⟩ := hkept
    simp only [hkeep, logged_kept hext, hi]
    cases hc : old i with
    | null => rw [hc] at hext; cases hext
    | inline v => rw [hc] at hext; cases hext
    | external v => exact ⟨rfl, rfl⟩
  · have hnot : sets i = .keep → (old i).isExternal = false := by
      intro hkeep
      cases hext : (old i).isExternal with
      | false => rfl
      | true => exact absurd ⟨hkeep, hext⟩ hkept
    -- what was logged is not a pointer, so it stays
    have hne := logged_ne_onDisk hnot
    have hsame : (if (sets i).logged (old i) = .null ∨ slot i = .null then (sets i).logged (old i)
        else if (sets i).logged (old i) = .onDisk ∧ slot i ≠ .onDisk then slot i
        else (sets i).logged (old i)) = (sets i).logged (old i) := by
      split
      · rfl
      · rw [if_neg fun h => hne h.1]
    rw [hsame]
    exact logged_eq behind hnot

theorem replaceFirst_perm {α : Type} [DecidableEq α] {p : α → Bool} {f : α → α} {l : List α} {a : α} (ha : a ∈ l)
    (hp : p a = true) (hunique : ∀ c ∈ l, p c = true → c = a) : (replaceFirst p f l).Perm (f a :: l.erase a) := by
  induction l with
  | nil => exact (List.not_mem_nil ha).elim
  | cons c l ih =>
    rw [replaceFirst]
    split
    · rename_i hc
      obtain rfl := hunique c List.mem_cons_self hc
      rw [List.erase_cons_head]
    · rename_i hc
      have hne : c ≠ a := fun heq => hc (heq ▸ hp)
      have hmem : a ∈ l := (List.mem_cons.mp ha).resolve_left fun heq => hne heq.symm
      rw [List.erase_cons_tail (by simpa using hne)]
      have hrest := ih hmem fun c' hc' => hunique c' (List.mem_cons_of_mem c hc')
      exact (hrest.cons c).trans (List.Perm.swap _ _ _)

theorem eraseP_eq_erase {α : Type} [DecidableEq α] {p : α → Bool} {l : List α} {a : α} (hp : p a = true)
    (hunique : ∀ c ∈ l, p c = true → c = a) : l.eraseP p = l.erase a := by
  rw [List.erase_eq_eraseP]
  induction l with
  | nil => rfl
  | cons c l ih =>
    have hrest := ih fun c' hc' => hunique c' (List.mem_cons_of_mem c hc')
    by_cases hc : c = a
    · subst hc
      simp [hp]
    · have hpc : p c = false := by
        cases hpc : p c with
        | false => rfl
        | true => exact absurd (hunique c List.mem_cons_self hpc) hc
      have hbeq : (a == c) = false := by simpa using fun heq : a = c => hc heq.symm
      rw [List.eraseP_cons_of_neg (by simp [hpc]), List.eraseP_cons_of_neg (by simp [hbeq]), hrest]

theorem filtered_erase [DecidableEq V] (filter : RowFilter ri V) (hold : old ∈ table) : (filtered filter table).Perm
      (if filter.satisfied old.values then old.values :: filtered filter (table.erase old)
        else filtered filter (table.erase old)) := by
  have hperm := ((List.perm_cons_erase hold).filter fun r => filter.satisfied (StoredRow.values r)).map StoredRow.values
  rw [List.filter_cons] at hperm
  cases hsat : filter.satisfied old.values with
  | false =>
    rw [hsat, if_neg Bool.false_ne_true] at hperm
    rw [if_neg Bool.false_ne_true]
    exact hperm
  | true =>
    rw [hsat, if_pos rfl] at hperm
    rw [if_pos rfl]
    exact hperm

theorem filtered_cons (row : StoredRow n V) : filtered filter (row :: table) =
      if filter.satisfied row.values then row.values :: filtered filter table else filtered filter table := by
  unfold filtered
  rw [List.filter_cons]
  split <;> rfl

theorem eq_of_identity (hunique : KeyUnique ri table) (hold : old ∈ table) (h : copy.Perm (filtered filter table))
    {c : Row n V} (hc : c ∈ copy) (hid : ∀ i, ri.isIdentity i = true → c i = (old i).value) : c = old.values := by
  obtain ⟨r, hr, rfl⟩ := List.mem_map.mp (h.mem_iff.mp hc)
  have hrmem : r ∈ table := (List.mem_filter.mp hr).1
  cases ri with
  | full =>
    funext i
    exact hid i rfl
  | key cols hne =>
    by_contra hdiff
    have hne' : r ≠ old := fun heq => hdiff (heq ▸ rfl)
    have hpair : table.Pairwise fun a b => ∃ i, cols i = true ∧ (a i).value ≠ (b i).value := hunique
    have : Std.Symm fun a b : StoredRow n V => ∃ i, cols i = true ∧ (a i).value ≠ (b i).value :=
      ⟨fun a b ⟨i, hi, hab⟩ => ⟨i, hi, hab.symm⟩⟩
    obtain ⟨i, hi, hvalue⟩ := hpair.forall hrmem hold hne'
    exact hvalue (hid i hi)

theorem mem_copy (hold : old ∈ table) (hsat : filter.satisfied old.values = true)
    (h : copy.Perm (filtered filter table)) : old.values ∈ copy := by
  rw [h.mem_iff]
  apply List.mem_map_of_mem
  rw [List.mem_filter]
  exact ⟨hold, hsat⟩

theorem copy_erase [DecidableEq V] (hold : old ∈ table) (hsat : filter.satisfied old.values = true)
    (h : copy.Perm (filtered filter table)) : (copy.erase old.values).Perm (filtered filter (table.erase old)) := by
  have hperm := h.trans (filtered_erase filter hold)
  rw [hsat, if_pos rfl] at hperm
  have herase := hperm.erase old.values
  rw [List.erase_cons_head] at herase
  exact herase

theorem copy_keep [DecidableEq V] (hold : old ∈ table) (hsat : filter.satisfied old.values = false)
    (h : copy.Perm (filtered filter table)) : copy.Perm (filtered filter (table.erase old)) := by
  have hperm := h.trans (filtered_erase filter hold)
  rw [hsat, if_neg Bool.false_ne_true] at hperm
  exact hperm

def Dml.Complete (filter : RowFilter ri V) : Dml n V → Prop
  | .update old sets => filter.satisfied old.values = false → filter.satisfied (updated old sets).values = true →
      ∀ i, sets i = .keep → (old i).isExternal = true → ri.isIdentity i = true
  | _ => True

variable [DecidableEq V]

theorem send_insert (h : copy.Perm (filtered filter table)) (row : StoredRow n V) :
    (send filter behind copy (.insert row)).Perm (filtered filter (row :: table)) := by
  have hexec : pgoutputRowFilterExecExpr filter behind (fun i => (row i).flatten) = filter.satisfied row.values :=
    execExpr_eq fun i _ => value_flatten (row i)
  rw [filtered_cons]
  simp only [send, Dml.decoded, pgoutputChange, pgoutputRowFilter, hexec]
  cases filter.satisfied row.values with
  | false => exact h
  | true =>
    have hrow : (fun i => ((logicalrepWriteTuple fun i => (row i).flatten) i).stored) = row.values := by
      funext i
      exact stored_flatten (row i)
    simp only [reduceCtorEq, false_and, if_false, if_true, Option.map_some, applyMessage, hrow]
    exact h.cons _

theorem found_iff {search : TupleData n V} (hsearch : ∀ i, ri.isIdentity i = true → (search i).stored = (old i).value)
    (c : Row n V) : found ri search c = true ↔ ∀ i, ri.isIdentity i = true → c i = (old i).value := by
  unfold found
  rw [decide_eq_true_iff]
  constructor
  · intro hc i hi
    rw [hc i hi, hsearch i hi]
  · intro hc i hi
    rw [hc i hi, hsearch i hi]

theorem delete_perm (hunique : KeyUnique ri table) (hold : old ∈ table) (hsat : filter.satisfied old.values = true)
    (h : copy.Perm (filtered filter table)) {oldtup : TupleData n V}
    (hsearch : ∀ i, ri.isIdentity i = true → (oldtup i).stored = (old i).value) :
    (applyMessage ri copy (.delete oldtup)).Perm (filtered filter (table.erase old)) := by
  have hself : found ri oldtup old.values = true := (found_iff hsearch _).mpr fun i _ => rfl
  show (copy.eraseP (found ri oldtup)).Perm _
  rw [eraseP_eq_erase hself fun c hc hfound => eq_of_identity hunique hold h hc ((found_iff hsearch c).mp hfound)]
  exact copy_erase hold hsat h

theorem update_perm (hunique : KeyUnique ri table) (hold : old ∈ table) (hsat : filter.satisfied old.values = true)
    (hnew : filter.satisfied (updated old sets).values = true) (h : copy.Perm (filtered filter table))
    {oldtup : Option (TupleData n V)}
    (hsearch : ∀ i, ri.isIdentity i = true →
      ((oldtup.getD (logicalrepWriteTuple fun i => (sets i).logged (old i))) i).stored = (old i).value) :
    (applyMessage ri copy (.update oldtup (logicalrepWriteTuple fun i => (sets i).logged (old i)))).Perm
      (filtered filter (updated old sets :: table.erase old)) := by
  have hself : found ri (oldtup.getD (logicalrepWriteTuple fun i => (sets i).logged (old i))) old.values = true :=
    (found_iff hsearch _).mpr fun i _ => rfl
  have hrow : (fun i => ((logicalrepWriteTuple fun i => (sets i).logged (old i)) i).modifies (old.values i)) =
      (updated old sets).values := by
    funext i
    exact modifies_logged (old i) (sets i)
  have hperm := replaceFirst_perm
    (f := fun row i => ((logicalrepWriteTuple fun i => (sets i).logged (old i)) i).modifies (row i))
    (mem_copy hold hsat h) hself
    fun c hc hfound => eq_of_identity hunique hold h hc ((found_iff hsearch c).mp hfound)
  rw [hrow] at hperm
  rw [filtered_cons, hnew, if_pos rfl]
  exact hperm.trans ((copy_erase hold hsat h).cons _)

theorem send_delete (hunique : KeyUnique ri table) (hold : old ∈ table) (h : copy.Perm (filtered filter table)) :
    (send filter behind copy (.delete old)).Perm (filtered filter (table.erase old)) := by
  have hsome : ∃ slot, extractReplicaIdentity ri old true = some slot := by
    cases ri with
    | full => exact ⟨_, rfl⟩
    | key cols hne => exact ⟨_, rfl⟩
  obtain ⟨slot, hslot⟩ := hsome
  have hid := extract_identity hslot
  have hexec : pgoutputRowFilterExecExpr filter behind slot = filter.satisfied old.values := by
    apply execExpr_eq
    intro i hi
    rw [hid i hi]
    exact value_flatten (old i)
  simp only [send, Dml.decoded, pgoutputChange, pgoutputRowFilter, hslot, hexec]
  cases hsat : filter.satisfied old.values with
  | false =>
    simp only [reduceCtorEq, and_false, if_false, Bool.false_eq_true]
    exact copy_keep hold hsat h
  | true =>
    simp only [reduceCtorEq, and_false, if_false, if_true, Option.map_some]
    apply delete_perm hunique hold hsat h
    intro i hi
    show (slot i).column.stored = _
    rw [hid i hi]
    exact stored_flatten (old i)

theorem copyFromOld_lost {slot : Slot n V} {required : Bool} (hslot : extractReplicaIdentity ri old required = some slot)
    (i : Fin n) (hkeep : sets i = .keep) (hext : (old i).isExternal = true) (hi : ri.isIdentity i = false) :
    ((copyFromOld slot fun i => (sets i).logged (old i)) i).column.stored ≠ (updated old sets i).value := by
  have hnull : slot i = .null := by
    cases ri with
    | full => cases hi
    | key cols hne =>
      have hcol : cols i = false := hi
      cases required with
      | false => cases hslot
      | true =>
        obtain rfl := Option.some.inj hslot
        show (if cols i then (old i).flatten else .null) = _
        rw [hcol, if_neg Bool.false_ne_true]
  have hcopy : (copyFromOld slot fun i => (sets i).logged (old i)) i = .onDisk := by
    show (if (sets i).logged (old i) = .null ∨ slot i = .null then (sets i).logged (old i) else _) = _
    rw [if_pos (Or.inr hnull), hkeep, logged_kept hext]
  rw [hcopy, updated, hkeep]
  cases hc : old i with
  | null => rw [hc] at hext; cases hext
  | inline v => rw [hc] at hext; cases hext
  | external v => exact nofun

theorem inserted_eq_iff {slot : Slot n V} {required : Bool} (hslot : extractReplicaIdentity ri old required = some slot) :
    (fun i => ((copyFromOld slot fun i => (sets i).logged (old i)) i).column.stored) = (updated old sets).values ↔
      ∀ i, sets i = .keep → (old i).isExternal = true → ri.isIdentity i = true := by
  constructor
  · intro heq i hkeep hext
    cases hi : ri.isIdentity i with
    | true => rfl
    | false => exact absurd (congrFun heq i) (copyFromOld_lost hslot i hkeep hext hi)
  · intro hall
    funext i
    cases hi : ri.isIdentity i with
    | true => exact (copyFromOld_eq none i (extract_identity hslot i hi)).2
    | false =>
      have hnot : sets i = .keep → (old i).isExternal = false := by
        intro hkeep
        cases hext : (old i).isExternal with
        | false => rfl
        | true =>
          rw [hall i hkeep hext] at hi
          cases hi
      have hlogged := logged_eq none hnot
      have hcopy : (copyFromOld slot fun i => (sets i).logged (old i)) i = (sets i).logged (old i) := by
        unfold copyFromOld
        split
        · rfl
        · rw [if_neg fun hdisk => logged_ne_onDisk hnot hdisk.1]
      rw [hcopy]
      exact hlogged.2

theorem perm_cons_left_iff {α : Type} [DecidableEq α] {a b : α} {l m : List α} (h : l.Perm m) :
    (a :: l).Perm (b :: m) ↔ a = b := by
  constructor
  · intro hperm
    have hcount := ((h.cons a).symm.trans hperm).count_eq a
    rw [List.count_cons_self, List.count_cons] at hcount
    by_contra hne
    have hbeq : (b == a) = false := by simpa using fun heq : b = a => hne heq.symm
    rw [hbeq] at hcount
    simp at hcount
  · rintro rfl
    exact h.cons a

theorem send_update_unlogged (hunique : KeyUnique ri table) (hold : old ∈ table) (h : copy.Perm (filtered filter table))
    (hslot : extractReplicaIdentity ri old (keyRequired ri old sets) = none) :
    (send filter behind copy (.update old sets)).Perm (filtered filter (updated old sets :: table.erase old)) ∧
      filter.satisfied old.values = filter.satisfied (updated old sets).values := by
  have huntouched := untouched_of_extract_none hslot
  have hlogged : ∀ i, ri.isIdentity i = true → ∀ b, ((sets i).logged (old i)).value b = (updated old sets i).value ∧
      ((sets i).logged (old i)).column.stored = (updated old sets i).value :=
    fun i hi b => logged_eq b fun _ => (huntouched i hi).2
  have hvalue : ∀ i, ri.isIdentity i = true → (updated old sets i).value = (old i).value :=
    fun i hi => value_of_not_modified (huntouched i hi).1
  have hsame : filter.satisfied old.values = filter.satisfied (updated old sets).values :=
    satisfied_congr fun i hi => (hvalue i hi).symm
  have hexec : pgoutputRowFilterExecExpr filter behind (fun i => (sets i).logged (old i)) =
      filter.satisfied old.values := by
    rw [hsame]
    exact execExpr_eq fun i hi => (hlogged i hi behind).1
  refine ⟨?_, hsame⟩
  simp only [send, Dml.decoded, pgoutputChange, pgoutputRowFilter, hslot, hexec]
  cases hsat : filter.satisfied old.values with
  | false =>
    rw [hsat] at hsame
    simp only [reduceCtorEq, false_and, if_false, Bool.false_eq_true]
    rw [filtered_cons, ← hsame, if_neg Bool.false_ne_true]
    exact copy_keep hold hsat h
  | true =>
    rw [hsat] at hsame
    simp only [reduceCtorEq, false_and, if_false, if_true, Option.map_some, Option.map_none]
    apply update_perm hunique hold hsat hsame.symm h
    intro i hi
    exact (hlogged i hi none).2.trans (hvalue i hi)

theorem send_update_logged (hunique : KeyUnique ri table) (hold : old ∈ table) (h : copy.Perm (filtered filter table))
    {slot : Slot n V} (hslot : extractReplicaIdentity ri old (keyRequired ri old sets) = some slot) :
    (send filter behind copy (.update old sets)).Perm (filtered filter (updated old sets :: table.erase old)) ↔
      Dml.Complete filter (.update old sets) := by
  have hid := extract_identity hslot
  have hold' : pgoutputRowFilterExecExpr filter behind slot = filter.satisfied old.values := by
    apply execExpr_eq
    intro i hi
    rw [hid i hi]
    exact value_flatten (old i)
  have hnew' : pgoutputRowFilterExecExpr filter behind (copyFromOld slot fun i => (sets i).logged (old i)) =
      filter.satisfied (updated old sets).values :=
    execExpr_eq fun i hi => (copyFromOld_eq behind i (hid i hi)).1
  have hsearch : ∀ i, ri.isIdentity i = true → (logicalrepWriteTuple slot i).stored = (old i).value := by
    intro i hi
    show (slot i).column.stored = _
    rw [hid i hi]
    exact stored_flatten (old i)
  simp only [send, Dml.decoded, pgoutputChange, pgoutputRowFilter, hslot, hold', hnew', Dml.Complete]
  -- the four outcomes of the two evaluations
  cases hsat : filter.satisfied old.values with
  | false =>
    have hkeep := copy_keep hold hsat h
    cases hnew : filter.satisfied (updated old sets).values with
    | false =>
      simp only [filtered_cons, hnew, reduceCtorEq, false_and, if_false, Bool.not_false, Bool.and_self, if_true,
        Bool.false_eq_true, false_implies, implies_true, iff_true]
      exact hkeep
    | true =>
      simp only [filtered_cons, hnew, reduceCtorEq, false_and, if_false, Bool.not_false, Bool.not_true, Bool.and_false,
        Bool.and_self, if_true, Bool.false_eq_true, true_implies, Option.map_some, applyMessage]
      rw [perm_cons_left_iff hkeep]
      exact inserted_eq_iff hslot
  | true =>
    cases hnew : filter.satisfied (updated old sets).values with
    | false =>
      simp only [filtered_cons, hnew, reduceCtorEq, false_and, if_false, Bool.not_false, Bool.not_true,
        Bool.false_and, Bool.and_self, if_true, Bool.false_eq_true, Bool.true_eq_false, false_implies, iff_true,
        Option.map_some]
      exact delete_perm hunique hold hsat h hsearch
    | true =>
      simp only [reduceCtorEq, false_and, if_false, Bool.not_true, Bool.and_false, Bool.false_and,
        Bool.false_eq_true, Bool.true_eq_false, false_implies, iff_true, Option.map_some]
      exact update_perm hunique hold hsat hnew h hsearch

theorem send_perm_iff (behind : Option V) {op : Dml n V} (hunique : KeyUnique ri table) (hvalid : op.Valid ri table)
    (h : copy.Perm (filtered filter table)) :
    (send filter behind copy op).Perm (filtered filter (op.apply table)) ↔ op.Complete filter := by
  cases op with
  | insert row => exact iff_of_true (send_insert h row) trivial
  | delete old => exact iff_of_true (send_delete hunique hvalid.2 h) trivial
  | update old sets =>
    cases hslot : extractReplicaIdentity ri old (keyRequired ri old sets) with
    | some slot => exact send_update_logged hunique hvalid.2 h hslot
    | none =>
      obtain ⟨hperm, hsame⟩ := send_update_unlogged hunique hvalid.2 h hslot
      refine iff_of_true hperm fun hfalse htrue => ?_
      rw [hsame, htrue] at hfalse
      cases hfalse

theorem keyUnique_after {ops : List (Dml n V)} (hunique : KeyUnique ri table) (hvalid : ValidRun ri table ops) :
    KeyUnique ri (tableAfter table ops) := by
  induction ops generalizing table with
  | nil => exact hunique
  | cons op ops ih => exact ih hvalid.1.1 hvalid.2

theorem validRun_append {done rest : List (Dml n V)} :
    ValidRun ri table (done ++ rest) ↔ ValidRun ri table done ∧ ValidRun ri (tableAfter table done) rest := by
  induction done generalizing table with
  | nil => exact ⟨fun h => ⟨trivial, h⟩, fun h => h.2⟩
  | cons op done ih =>
    constructor
    · rintro ⟨hop, hrest⟩
      obtain ⟨hdone, hrest⟩ := ih.mp hrest
      exact ⟨⟨hop, hdone⟩, hrest⟩
    · rintro ⟨⟨hop, hdone⟩, hrest⟩
      exact ⟨hop, ih.mpr ⟨hdone, hrest⟩⟩

theorem copy_perm_of_complete {ops : List (Dml n V)} (hunique : KeyUnique ri table) (hvalid : ValidRun ri table ops)
    (h : copy.Perm (filtered filter table)) (hcomplete : ∀ op ∈ ops, op.Complete filter) :
    (copyAfter filter behind copy ops).Perm (filtered filter (tableAfter table ops)) := by
  induction ops generalizing table copy with
  | nil => exact h
  | cons op ops ih =>
    have hstep := (send_perm_iff behind hunique hvalid.1 h).mpr (hcomplete op List.mem_cons_self)
    exact ih hvalid.1.1 hvalid.2 hstep fun op' hop' => hcomplete op' (List.mem_cons_of_mem op hop')

/-- The copy is the filtered table after each operation exactly when every operation is complete. -/
theorem copy_eq_filtered_iff (filter : RowFilter ri V) (behind : Option V) {ops : List (Dml n V)}
    (hunique : KeyUnique ri table) (hvalid : ValidRun ri table ops) (hstart : copy.Perm (filtered filter table)) :
    (∀ done rest, ops = done ++ rest →
      (copyAfter filter behind copy done).Perm (filtered filter (tableAfter table done))) ↔
      ∀ op ∈ ops, op.Complete filter := by
  constructor
  · intro hall op hop
    obtain ⟨done, rest, rfl⟩ := List.append_of_mem hop
    obtain ⟨hdone, hrest⟩ := validRun_append.mp hvalid
    have hbefore := hall done (op :: rest) rfl
    have hafter := hall (done ++ [op]) rest (by simp)
    rw [copyAfter, tableAfter, List.foldl_append, List.foldl_append] at hafter
    exact (send_perm_iff behind (keyUnique_after hunique hdone) hrest.1 hbefore).mp hafter
  · intro hcomplete done rest heq
    subst heq
    exact copy_perm_of_complete hunique (validRun_append.mp hvalid).1 hstart
      fun op hop => hcomplete op (List.mem_append_left rest hop)

def keyed : ReplicaIdentity 2 := .key (fun i => i == 0) ⟨0, rfl⟩

def keyIsOne : RowFilter keyed Nat where
  expr row := (row 0).map fun v => v == 1
  reads_identity a b h := by rw [h 0 rfl]

def document (key : Nat) : StoredRow 2 Nat := fun i => if i = 0 then .inline key else .external 9

def rekey (key : Nat) : Dml 2 Nat := .update (document key) fun i => if i = 0 then .value (key + 1) false else .keep

theorem copy_eq_filtered_iff_rekey : (∀ done rest, [rekey 1] = done ++ rest →
      (copyAfter keyIsOne none [(document 1).values] done).Perm
        (filtered keyIsOne (tableAfter [document 1] done))) ↔ ∀ op ∈ [rekey 1], op.Complete keyIsOne := by
  apply copy_eq_filtered_iff keyIsOne none
  · exact List.pairwise_singleton _ _
  · exact ⟨⟨List.pairwise_singleton _ _, List.mem_cons_self⟩, trivial⟩
  · exact List.Perm.refl _

/-- A row comes under the filter without its document. -/
theorem rekey_loses_document : ¬ ∀ (n : Nat) (ri : ReplicaIdentity n) (filter : RowFilter ri Nat) (behind : Option Nat)
      (table : List (StoredRow n Nat)) (ops : List (Dml n Nat)), KeyUnique ri table → ValidRun ri table ops →
      (copyAfter filter behind (filtered filter table) ops).Perm (filtered filter (tableAfter table ops)) := by
  intro hall
  have hperm := hall 2 keyed keyIsOne none [document 0] [rekey 0] (List.pairwise_singleton _ _)
    ⟨⟨List.pairwise_singleton _ _, List.mem_cons_self⟩, trivial⟩
  have hmem : (document 1).values ∈ copyAfter keyIsOne none (filtered keyIsOne [document 0]) [rekey 0] := by
    rw [hperm.mem_iff]
    decide +kernel
  revert hmem
  decide +kernel

end CdcKafka.Publish
