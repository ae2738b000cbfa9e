import CdcKafka.Json.CJson
import Mathlib.Data.List.Forall2

/-! The Kafka documents of row changes: `INSERT_TO_JSON`, `UPDATE_TO_JSON` and
`DELETE_TO_JSON` of the apply worker, over the tuples that `logicalrep_read_tuple`
produces, and which changes their documents tell apart. -/

namespace CdcKafka.Event
open CdcKafka.Lib CdcKafka.Json

inductive Column
  | null
  | unchanged
  | text (value : Bytes)
  | binary (value : Bytes)
deriving DecidableEq

def Column.data : Column → Option Bytes
  | .null => none
  | .unchanged => none
  | .text b => some b
  | .binary b => some b

abbrev TupleData := List Column

structure RemoteRel where
  nspname : CStr
  relname : CStr
  attnames : List CStr
deriving DecidableEq

inductive RowChange
  | insert (rel : RemoteRel) (newtup : TupleData)
  | update (rel : RemoteRel) (oldtup : Option TupleData) (newtup : TupleData)
  | delete (rel : RemoteRel) (oldtup : TupleData)
deriving DecidableEq

def columnToJson (c : Column) : CJson :=
  match c.data with
  | none => .null
  | some b => .string (CStr.ofBytes b)

def arrayOfTuple (tup : TupleData) : CJson := .array (tup.map columnToJson)

/-- `attnames[i]` for each column of the tuple; no answer where the loop would
read past the relation's columns. -/
def attnamesToJson (rel : RemoteRel) (ncols : Nat) : Option CJson :=
  if ncols ≤ rel.attnames.length then
    some (.array ((rel.attnames.take ncols).map CJson.string))
  else none

def tableName (rel : RemoteRel) : CStr := CStr.joinDot 128 rel.nspname rel.relname

def opName : CStr := CStr.lit ['o', 'p']
def dbName : CStr := CStr.lit ['d', 'b']
def tableKey : CStr := CStr.lit ['t', 'a', 'b', 'l', 'e']
def attnamesKey : CStr := CStr.lit ['a', 't', 't', 'n', 'a', 'm', 'e', 's']
def beforeKey : CStr := CStr.lit ['b', 'e', 'f', 'o', 'r', 'e']
def afterKey : CStr := CStr.lit ['a', 'f', 't', 'e', 'r']

def eventHead (op : Char) (db table : CStr) (attnames : CJson) : List (CStr × CJson) :=
  [(opName, .string (CStr.lit [op])), (dbName, .string db), (tableKey, .string table), (attnamesKey, attnames)]

def insertToJson (db : CStr) (rel : RemoteRel) (newtup : TupleData) : Option CJson := do
  let attnames ← attnamesToJson rel newtup.length
  some (.object (eventHead 'I' db (tableName rel) attnames ++ [(afterKey, arrayOfTuple newtup)]))

def updateToJson (db : CStr) (rel : RemoteRel) (oldtup : Option TupleData) (newtup : TupleData) :
    Option CJson := do
  let attnames ← attnamesToJson rel newtup.length
  some (.object (eventHead 'U' db (tableName rel) attnames ++
    [(beforeKey, arrayOfTuple (oldtup.getD [])), (afterKey, arrayOfTuple newtup)]))

def deleteToJson (db : CStr) (rel : RemoteRel) (oldtup : TupleData) : Option CJson := do
  let attnames ← attnamesToJson rel oldtup.length
  some (.object (eventHead 'D' db (tableName rel) attnames ++ [(beforeKey, arrayOfTuple oldtup)]))

def RowChange.toJson (db : CStr) : RowChange → Option CJson
  | .insert rel newtup => insertToJson db rel newtup
  | .update rel oldtup newtup => updateToJson db rel oldtup newtup
  | .delete rel oldtup => deleteToJson db rel oldtup

def RowChange.document (db : CStr) (c : RowChange) : Option Bytes := (c.toJson db).map print

def Column.Alike (c c' : Column) : Prop :=
  match c.data, c'.data with
  | none, none => True
  | some b, some b' => b.takeWhile (· ≠ 0) = b'.takeWhile (· ≠ 0)
  | _, _ => False

/-- Relations that are printed alike over `ncols` columns: the dot between the
two names is not told from a dot inside one, the joined name is cut at 127
bytes, and only the first `ncols` column names are printed. -/
def RemoteRel.Alike (ncols : Nat) (r r' : RemoteRel) : Prop :=
  (r.nspname.bytes ++ ascii ['.'] ++ r.relname.bytes).take 127 =
    (r'.nspname.bytes ++ ascii ['.'] ++ r'.relname.bytes).take 127 ∧
  r.attnames.take ncols = r'.attnames.take ncols

def RowChange.Alike : RowChange → RowChange → Prop
  | .insert r n, .insert r' n' => r.Alike n.length r' ∧ List.Forall₂ Column.Alike n n'
  | .update r o n, .update r' o' n' => r.Alike n.length r' ∧
      List.Forall₂ Column.Alike (o.getD []) (o'.getD []) ∧ List.Forall₂ Column.Alike n n'
  | .delete r o, .delete r' o' => r.Alike o.length r' ∧ List.Forall₂ Column.Alike o o'
  | _, _ => False

def RowChange.Fits : RowChange → Prop
  | .insert r n => n.length ≤ r.attnames.length
  | .update r _ n => n.length ≤ r.attnames.length
  | .delete r o => o.length ≤ r.attnames.length

def RowChange.Confusable (a b : RowChange) : Prop := a.Fits ∧ b.Fits ∧ a.Alike b ∧ a ≠ b

theorem columnToJson_eq_iff (c c' : Column) : columnToJson c = columnToJson c' ↔ c.Alike c' := by
  unfold columnToJson Column.Alike
  cases c.data <;> cases c'.data <;> simp [CStr.ofBytes]

theorem arrayOfTuple_eq_iff (t t' : TupleData) : arrayOfTuple t = arrayOfTuple t' ↔ List.Forall₂ Column.Alike t t' := by
  rw [arrayOfTuple, arrayOfTuple, CJson.array.injEq]
  induction t generalizing t' with
  | nil =>
    cases t' with
    | nil => simp
    | cons c' t' => exact ⟨fun h => by simp at h, fun h => by cases h⟩
  | cons c t ih =>
    cases t' with
    | nil => exact ⟨fun h => by simp at h, fun h => by cases h⟩
    | cons c' t' =>
      rw [List.map_cons, List.map_cons, List.cons.injEq, List.forall₂_cons, ih, columnToJson_eq_iff]

theorem string_injective : Function.Injective CJson.string := fun _ _ h => by simpa using h

theorem eventHead_eq_iff {op : Char} {db : CStr} {r r' : RemoteRel} {n n' : Nat}
    (hn : n ≤ r.attnames.length) (hn' : n' ≤ r'.attnames.length)
    (xs ys : List (CStr × CJson)) :
    CJson.object (eventHead op db (tableName r) (.array ((r.attnames.take n).map CJson.string)) ++ xs) =
      CJson.object (eventHead op db (tableName r') (.array ((r'.attnames.take n').map CJson.string)) ++ ys) ↔
    n = n' ∧ r.Alike n r' ∧ xs = ys := by
  have htab : tableName r = tableName r' ↔ (r.nspname.bytes ++ ascii ['.'] ++ r.relname.bytes).take 127 =
        (r'.nspname.bytes ++ ascii ['.'] ++ r'.relname.bytes).take 127 := by
    simp [tableName, CStr.joinDot]
  have hmap : (r.attnames.take n).map CJson.string = (r'.attnames.take n').map CJson.string ↔
      r.attnames.take n = r'.attnames.take n' :=
    (List.map_injective_iff.mpr string_injective).eq_iff
  simp only [eventHead, List.cons_append, List.nil_append, CJson.object.injEq, List.cons.injEq,
    Prod.mk.injEq, true_and, CJson.string.injEq, CJson.array.injEq, htab, hmap, RemoteRel.Alike]
  constructor
  · rintro ⟨ht, ha, hx⟩
    have hlen : n = n' := by
      have h := congrArg List.length ha
      rwa [List.length_take_of_le hn, List.length_take_of_le hn'] at h
    subst hlen
    exact ⟨rfl, ⟨ht, ha⟩, hx⟩
  · rintro ⟨rfl, ⟨ht, ha⟩, hx⟩
    exact ⟨ht, ha, hx⟩

theorem eventHead_op_ne {op op' : Char} (h : CStr.lit [op] ≠ CStr.lit [op']) {db t t' : CStr}
    {a a' : CJson} {xs ys : List (CStr × CJson)} :
    CJson.object (eventHead op db t a ++ xs) ≠ CJson.object (eventHead op' db t' a' ++ ys) := by
  intro he
  simp only [eventHead, List.cons_append, CJson.object.injEq, List.cons.injEq, Prod.mk.injEq,
    CJson.string.injEq, true_and] at he
  exact h he.1

theorem attnamesToJson_eq_some {rel : RemoteRel} {n : Nat} {j : CJson} : attnamesToJson rel n = some j ↔
      n ≤ rel.attnames.length ∧ j = .array ((rel.attnames.take n).map CJson.string) := by
  unfold attnamesToJson
  split_ifs with h
  · simp [h, eq_comm]
  · simp [h]

def RowChange.images : RowChange → List (CStr × CJson)
  | .insert _ n => [(afterKey, arrayOfTuple n)]
  | .update _ o n => [(beforeKey, arrayOfTuple (o.getD [])), (afterKey, arrayOfTuple n)]
  | .delete _ o => [(beforeKey, arrayOfTuple o)]

def RowChange.op : RowChange → Char
  | .insert .. => 'I'
  | .update .. => 'U'
  | .delete .. => 'D'

def RowChange.rel : RowChange → RemoteRel
  | .insert r _ => r
  | .update r _ _ => r
  | .delete r _ => r

def RowChange.ncols : RowChange → Nat
  | .insert _ n => n.length
  | .update _ _ n => n.length
  | .delete _ o => o.length

theorem toJson_eq_some {db : CStr} {c : RowChange} {j : CJson} :
    c.toJson db = some j ↔ c.ncols ≤ c.rel.attnames.length ∧ j = .object (eventHead c.op db (tableName c.rel)
        (.array ((c.rel.attnames.take c.ncols).map CJson.string)) ++ c.images) := by
  cases c <;> simp only [RowChange.toJson, insertToJson, updateToJson, deleteToJson, Option.bind_eq_bind,
      Option.bind_eq_some_iff, attnamesToJson_eq_some, RowChange.ncols, RowChange.rel,
      RowChange.op, RowChange.images, Option.some.injEq]
  all_goals
    constructor
    · rintro ⟨a, ⟨hle, rfl⟩, rfl⟩
      exact ⟨hle, rfl⟩
    · rintro ⟨hle, rfl⟩
      exact ⟨_, ⟨hle, rfl⟩, rfl⟩

theorem fits_iff (c : RowChange) : c.Fits ↔ c.ncols ≤ c.rel.attnames.length := by
  cases c <;> exact Iff.rfl

theorem alike_iff {a b : RowChange} (hop : a.op = b.op) (hn : a.ncols = b.ncols) :
    a.Alike b ↔ a.rel.Alike a.ncols b.rel ∧ a.images = b.images := by
  cases a <;> cases b <;> simp only [RowChange.op, Char.reduceEq] at hop <;>
    simp [RowChange.Alike, RowChange.rel, RowChange.ncols, RowChange.images, arrayOfTuple_eq_iff]

theorem alike_op {a b : RowChange} (h : a.Alike b) : a.op = b.op ∧ a.ncols = b.ncols := by
  cases a <;> cases b <;> simp only [RowChange.Alike] at h
  · exact ⟨rfl, h.2.length_eq⟩
  · exact ⟨rfl, h.2.2.length_eq⟩
  · exact ⟨rfl, h.2.length_eq⟩

theorem opLit_injective {a b : RowChange} (h : CStr.lit [a.op] = CStr.lit [b.op]) : a.op = b.op := by
  cases a <;> cases b <;> simp only [RowChange.op] at h ⊢
  all_goals exact absurd h (by decide)

theorem document_eq_iff (db : CStr) (a b : RowChange) : (∃ doc, a.document db = some doc ∧ b.document db = some doc) ↔
      a.Fits ∧ b.Fits ∧ a.Alike b := by
  simp only [RowChange.document, Option.map_eq_some_iff, toJson_eq_some, fits_iff]
  constructor
  · rintro ⟨doc, ⟨j, ⟨ha, rfl⟩, rfl⟩, ⟨j', ⟨hb, rfl⟩, hdoc⟩⟩
    have hj := print_injective hdoc
    by_cases hop : a.op = b.op
    · rw [hop] at hj
      obtain ⟨hn, hrel, himg⟩ := (eventHead_eq_iff hb ha _ _).mp hj
      have halike : b.Alike a := (alike_iff hop.symm hn).mpr ⟨hrel, himg⟩
      have hrel' : a.rel.Alike a.ncols b.rel := by
        rw [← hn]
        exact ⟨hrel.1.symm, hrel.2.symm⟩
      exact ⟨ha, hb, (alike_iff hop hn.symm).mpr ⟨hrel', himg.symm⟩⟩
    · exact absurd hj.symm (eventHead_op_ne fun h => hop (opLit_injective h))
  · rintro ⟨ha, hb, h⟩
    obtain ⟨hop, hn⟩ := alike_op h
    obtain ⟨hrel, himg⟩ := (alike_iff hop hn).mp h
    refine ⟨_, ⟨_, ⟨ha, rfl⟩, rfl⟩, ⟨_, ⟨hb, rfl⟩, ?_⟩⟩
    rw [← hop]
    exact congrArg print ((eventHead_eq_iff ha hb _ _).mpr ⟨hn, hrel, himg⟩).symm

def Conveys (db : CStr) (a b : RowChange) : Prop :=
  ∀ doc, a.document db = some doc → b.document db = some doc → a = b

/-- Exactly the confusable pairs are lost. -/
theorem conveys_iff_not_confusable (db : CStr) (a b : RowChange) : Conveys db a b ↔ ¬ a.Confusable b := by
  constructor
  · rintro h ⟨ha, hb, halike, hne⟩
    obtain ⟨doc, hda, hdb⟩ := (document_eq_iff db a b).mpr ⟨ha, hb, halike⟩
    exact hne (h doc hda hdb)
  · intro h doc hda hdb
    by_contra hne
    obtain ⟨ha, hb, halike⟩ := (document_eq_iff db a b).mp ⟨doc, hda, hdb⟩
    exact h ⟨ha, hb, halike, hne⟩

def toastRel : RemoteRel where
  nspname := CStr.lit ['p', 'u', 'b', 'l', 'i', 'c']
  relname := CStr.lit ['t']
  attnames := [CStr.lit ['i', 'd'], CStr.lit ['v']]

/-- An update that keeps `v` and one that sets it to null are sent as one document. -/
theorem unchanged_null_not_conveyed : ¬ ∀ a b : RowChange, Conveys (CStr.lit ['d']) a b := by
  intro h
  have hh := h (.update toastRel none [.text (ascii ['1']), .unchanged])
    (.update toastRel none [.text (ascii ['1']), .null])
  rw [conveys_iff_not_confusable] at hh
  exact hh ⟨le_refl 2, le_refl 2, ⟨⟨rfl, rfl⟩, .nil, .cons rfl (.cons trivial .nil)⟩, by decide⟩

end CdcKafka.Event
