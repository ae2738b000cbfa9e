import Mathlib.Data.List.TakeWhile

/-! Hash tables that grow by one bucket at a time, scanned bucket after bucket. -/

namespace CdcKafka.Lib

structure LinearHeader where
  maxBucket : Nat
  lowMask : Nat
  highMask : Nat
deriving DecidableEq

def LinearHeader.bucket (hctl : LinearHeader) (hash : Nat) : Nat :=
  let bucket := hash &&& hctl.highMask
  if hctl.maxBucket < bucket then bucket &&& hctl.lowMask else bucket

structure LinearHash (α : Type) where
  hctl : LinearHeader
  buckets : List (List α)
deriving DecidableEq

namespace LinearHash

variable {α : Type}

def create (nbuckets : Nat) : LinearHash α where
  hctl := { maxBucket := nbuckets - 1, lowMask := nbuckets - 1, highMask := 2 * nbuckets - 1 }
  buckets := List.replicate nbuckets []

def entries (t : LinearHash α) : List α := t.buckets.flatten

section Keys

variable (hash : α → Nat)

def expand (t : LinearHash α) : LinearHash α :=
  let newBucket := t.hctl.maxBucket + 1
  let oldBucket := newBucket &&& t.hctl.lowMask
  let hctl : LinearHeader :=
    if t.hctl.highMask < newBucket then
      { maxBucket := newBucket, lowMask := t.hctl.highMask, highMask := newBucket ||| t.hctl.highMask }
    else { t.hctl with maxBucket := newBucket }
  let chain := t.buckets.getD oldBucket []
  { hctl
    buckets := (t.buckets.set oldBucket (chain.filter fun a => hctl.bucket (hash a) = oldBucket)) ++
      [chain.filter fun a => hctl.bucket (hash a) ≠ oldBucket] }

variable (isKey : α → Bool) (keyHash : Nat)

def find? (t : LinearHash α) : Option α :=
  (t.buckets.getD (t.hctl.bucket keyHash) []).find? isKey

def modify (t : LinearHash α) (f : α → α) : LinearHash α :=
  { t with
    buckets := t.buckets.modify (t.hctl.bucket keyHash) fun chain =>
      match chain.findIdx? isKey with
      | some i => chain.modify i f
      | none => chain }

def enter (t : LinearHash α) (a : α) : LinearHash α :=
  let t := if t.hctl.maxBucket < t.entries.length then t.expand hash else t
  match t.find? isKey keyHash with
  | some _ => t.modify isKey keyHash fun _ => a
  | none =>
    { t with buckets := t.buckets.modify (t.hctl.bucket keyHash) fun chain => chain ++ [a] }

end Keys

def updateFirst (p : α → Bool) (f : α → α) : List α → List α
  | [] => []
  | a :: l => if p a then f a :: l else a :: updateFirst p f l

def scanUpdateFirst (p : α → Bool) (f : α → α) : List (List α) → List (List α)
  | [] => []
  | chain :: rest =>
    if chain.any p then updateFirst p f chain :: rest else chain :: scanUpdateFirst p f rest

theorem updateFirst_append_of_any {p : α → Bool} {f : α → α} {l l' : List α} (h : l.any p) :
    updateFirst p f (l ++ l') = updateFirst p f l ++ l' := by
  induction l with
  | nil => simp at h
  | cons a l ih =>
    simp only [List.cons_append, updateFirst]
    split
    · rfl
    · next ha =>
      have hl : l.any p := by simpa [ha] using h
      rw [ih hl]
      rfl

theorem updateFirst_append_of_not_any {p : α → Bool} {f : α → α} {l l' : List α}
    (h : ¬ l.any p) : updateFirst p f (l ++ l') = l ++ updateFirst p f l' := by
  induction l with
  | nil => rfl
  | cons a l ih =>
    have ha : ¬ p a := fun ha => h (by simp [ha])
    have hl : ¬ l.any p := fun hl => h (by simp [hl])
    simp only [List.cons_append, updateFirst, if_neg ha, ih hl]

theorem flatten_scanUpdateFirst (p : α → Bool) (f : α → α) (buckets : List (List α)) :
    (scanUpdateFirst p f buckets).flatten = updateFirst p f buckets.flatten := by
  induction buckets with
  | nil => rfl
  | cons chain rest ih =>
    simp only [scanUpdateFirst]
    split
    · next h => rw [List.flatten_cons, List.flatten_cons, updateFirst_append_of_any h]
    · next h =>
      rw [List.flatten_cons, List.flatten_cons, updateFirst_append_of_not_any h, ih]

theorem updateFirst_eq (p : α → Bool) (f : α → α) (l : List α) : updateFirst p f l =
      l.takeWhile (fun a => !p a) ++ (l.dropWhile fun a => !p a).head?.toList.map f ++
        (l.dropWhile fun a => !p a).tail := by
  induction l with
  | nil => rfl
  | cons a l ih =>
    by_cases ha : p a
    · simp [updateFirst, ha]
    · simp [updateFirst, ha, ih]

end LinearHash
end CdcKafka.Lib
