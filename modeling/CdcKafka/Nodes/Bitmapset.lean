import CdcKafka.Lib.BitWords
import Mathlib.Data.Finset.Basic
import Mathlib.Order.Interval.Finset.Nat

/-! `nodes/bitmapset.c`: sets of non-negative numbers as arrays of words. -/

namespace CdcKafka.Nodes
open Lib Lib.BitWords

abbrev Bitmapword := BitVec 64

abbrev Bitmapset := Option (List Bitmapword)

def wordnum (x : Nat) : Nat := x / 64

def bitnum (x : Nat) : Nat := x % 64

def memberBit (x : Nat) : Bitmapword := (1 : Bitmapword) <<< bitnum x

def allOnes : Bitmapword := ~~~0

def lowMask (bit : Nat) : Bitmapword := ((1 : Bitmapword) <<< bit) - 1

def negativeMember : String := "negative bitmapset member not allowed"

/-- The value that an `int` takes: it wraps around. -/
def toInt (n : Int) : Int := n.bmod (2 ^ 32)

def intMax : Nat := 2147483647

def bmsCopy (a : Bitmapset) : Bitmapset := a

def enlarge (words : List Bitmapword) (nwords : Nat) : List Bitmapword :=
  words ++ List.replicate (nwords - words.length) 0

def equalLoop : List Bitmapword → List Bitmapword → Bool
  | a :: as, b :: bs => if a ≠ b then false else equalLoop as bs
  | _, _ => true

def bmsEqual : Bitmapset → Bitmapset → Bool
  | none, none => true
  | none, some _ => false
  | some _, none => false
  | some a, some b => if a.length ≠ b.length then false else equalLoop a b

def compareLoop : List Bitmapword → List Bitmapword → Int
  | a :: as, b :: bs =>
    let higher := compareLoop as bs
    if higher ≠ 0 then higher else if a ≠ b then if a > b then 1 else -1 else 0
  | _, _ => 0

def bmsCompare : Bitmapset → Bitmapset → Int
  | none, none => 0
  | none, some _ => -1
  | some _, none => 1
  | some a, some b => if a.length ≠ b.length then if a.length > b.length then 1 else -1 else compareLoop a b

def anyLoop (op : Bitmapword → Bitmapword → Bitmapword) : List Bitmapword → List Bitmapword → Bool
  | a :: as, b :: bs => if op a b ≠ 0 then true else anyLoop op as bs
  | _, _ => false

def differenceLoop : List Bitmapword → List Bitmapword → Bool := anyLoop fun a b => a &&& ~~~b

def bmsIsSubset : Bitmapset → Bitmapset → Bool
  | none, _ => true
  | some _, none => false
  | some a, some b => if a.length > b.length then false else !differenceLoop a b

def bmsNonemptyDifference : Bitmapset → Bitmapset → Bool
  | none, _ => false
  | some _, none => true
  | some a, some b => if a.length > b.length then true else differenceLoop a b

def overlapLoop : List Bitmapword → List Bitmapword → Bool := anyLoop (· &&& ·)

def bmsOverlap : Bitmapset → Bitmapset → Bool
  | some a, some b => overlapLoop a b
  | _, _ => false

inductive BmsComparison
  | equal
  | subset1
  | subset2
  | different
  deriving DecidableEq

def subsetLoop : BmsComparison → List Bitmapword → List Bitmapword → Option BmsComparison
  | result, a :: as, b :: bs =>
    if a &&& ~~~b ≠ 0 ∧ result = .subset1 then none
    else
      let result := if a &&& ~~~b ≠ 0 then .subset2 else result
      if b &&& ~~~a ≠ 0 ∧ result = .subset2 then none
      else subsetLoop (if b &&& ~~~a ≠ 0 then .subset1 else result) as bs
  | result, _, _ => some result

def bmsSubsetCompare : Bitmapset → Bitmapset → BmsComparison
  | none, none => .equal
  | none, some _ => .subset1
  | some _, none => .subset2
  | some a, some b =>
    match subsetLoop .equal a b with
    | none => .different
    | some result =>
      if a.length > b.length then if result = .subset1 then .different else .subset2
      else if a.length < b.length then if result = .subset2 then .different else .subset1
      else result

def bmsMakeSingleton (x : Int) : Except String Bitmapset :=
  if x < 0 then .error negativeMember
  else .ok (some ((List.replicate (wordnum x.toNat + 1) 0).set (wordnum x.toNat) (memberBit x.toNat)))

def bmsIsMember (x : Int) (a : Bitmapset) : Except String Bool :=
  if x < 0 then .error negativeMember
  else
    match a with
    | none => .ok false
    | some words => .ok (decide (words.getD (wordnum x.toNat) 0 &&& memberBit x.toNat ≠ 0))

def bmsMemberIndex (a : Bitmapset) (x : Int) : Except String Int := do
  if ¬(← bmsIsMember x a) then return -1
  let words := a.getD []
  let result := (words.take (wordnum x.toNat)).foldl (fun result w => if w ≠ 0 then result + w.cpop.toNat else result) 0
  return (result + (words.getD (wordnum x.toNat) 0 &&& lowMask (bitnum x.toNat)).cpop.toNat : Nat)

def bmsAddMember (a : Bitmapset) (x : Int) : Except String Bitmapset :=
  if x < 0 then .error negativeMember
  else
    match a with
    | none => bmsMakeSingleton x
    | some words =>
      let words := if wordnum x.toNat ≥ words.length then enlarge words (wordnum x.toNat + 1) else words
      .ok (some (words.modify (wordnum x.toNat) (· ||| memberBit x.toNat)))

def trimLoop (words : List Bitmapword) : Nat → Bitmapset
  | 0 => none
  | i + 1 => if words.getD i 0 ≠ 0 then some (words.take (i + 1)) else trimLoop words i

def bmsDelMember (a : Bitmapset) (x : Int) : Except String Bitmapset :=
  if x < 0 then .error negativeMember
  else
    match a with
    | none => .ok none
    | some words =>
      if wordnum x.toNat ≥ words.length then .ok (some words)
      else
        let words := words.modify (wordnum x.toNat) (· &&& ~~~memberBit x.toNat)
        if words.getD (wordnum x.toNat) 0 = 0 ∧ wordnum x.toNat = words.length - 1 then
          .ok (trimLoop words (wordnum x.toNat))
        else .ok (some words)

def fillLoop (words : List Bitmapword) (wordnum : Nat) : Nat → List Bitmapword
  | 0 => words
  | n + 1 => fillLoop (words.set wordnum allOnes) (wordnum + 1) n

def setRange (words : List Bitmapword) (lower upper : Nat) : List Bitmapword :=
  let lwordnum := wordnum lower
  let uwordnum := wordnum upper
  let ushiftbits := 64 - (bitnum upper + 1)
  if lwordnum = uwordnum then words.modify lwordnum (· ||| ~~~lowMask (bitnum lower) &&& allOnes >>> ushiftbits)
  else
    let words := words.modify lwordnum (· ||| ~~~lowMask (bitnum lower))
    let words := fillLoop words (lwordnum + 1) (uwordnum - (lwordnum + 1))
    words.modify uwordnum (· ||| allOnes >>> ushiftbits)

def bmsAddRange (a : Bitmapset) (lower upper : Int) : Except String Bitmapset :=
  if upper < lower then .ok a
  else if lower < 0 then .error negativeMember
  else
    let uwordnum := wordnum upper.toNat
    let words :=
      match a with
      | none => List.replicate (uwordnum + 1) 0
      | some words => if uwordnum ≥ words.length then enlarge words (uwordnum + 1) else words
    .ok (some (setRange words lower.toNat upper.toNat))

def maskLoop (op : Bitmapword → Bitmapword → Bitmapword) :
    Nat → Int → List Bitmapword → List Bitmapword → List Bitmapword × Int
  | i, lastnonzero, r :: rs, o :: os =>
    let (words, last) := maskLoop op (i + 1) (if op r o ≠ 0 then i else lastnonzero) rs os
    (op r o :: words, last)
  | _, lastnonzero, rs, _ => (rs, lastnonzero)

def upTo (words : List Bitmapword) (lastnonzero : Int) : Bitmapset :=
  if lastnonzero = -1 then none else some (words.take (lastnonzero + 1).toNat)

def masked (op : Bitmapword → Bitmapword → Bitmapword) (result other : List Bitmapword) : Bitmapset :=
  upTo (maskLoop op 0 (-1) result other).1 (maskLoop op 0 (-1) result other).2

def bmsUnion : Bitmapset → Bitmapset → Bitmapset
  | none, b => bmsCopy b
  | a, none => bmsCopy a
  | some a, some b => if a.length ≤ b.length then some (update (· ||| ·) b a) else some (update (· ||| ·) a b)

def bmsIntersect : Bitmapset → Bitmapset → Bitmapset
  | some a, some b => if a.length ≤ b.length then masked (· &&& ·) a b else masked (· &&& ·) b a
  | _, _ => none

def bmsDifference : Bitmapset → Bitmapset → Bitmapset
  | none, _ => none
  | a, none => bmsCopy a
  | some a, some b =>
    if !bmsNonemptyDifference (some a) (some b) then none
    else if a.length > b.length then some (update (fun r o => r &&& ~~~o) a b)
    else
      let (words, lastnonzero) := maskLoop (fun r o => r &&& ~~~o) 0 (-1) a b
      some (words.take (lastnonzero + 1).toNat)

def bmsAddMembers : Bitmapset → Bitmapset → Bitmapset
  | none, b => bmsCopy b
  | a, none => a
  | some a, some b => if a.length < b.length then some (update (· ||| ·) b a) else some (update (· ||| ·) a b)

def bmsReplaceMembers : Bitmapset → Bitmapset → Bitmapset
  | none, b => bmsCopy b
  | some _, none => none
  | some a, some b =>
    -- what the new words hold does not matter
    let words := if a.length < b.length then enlarge a b.length else a
    some ((update (fun _ o => o) words b).take b.length)

def bmsIntMembers : Bitmapset → Bitmapset → Bitmapset
  | some a, some b => masked (· &&& ·) a b
  | _, _ => none

def bmsDelMembers : Bitmapset → Bitmapset → Bitmapset
  | none, _ => none
  | a, none => a
  | some a, some b =>
    if a.length > b.length then some (update (fun r o => r &&& ~~~o) a b) else masked (fun r o => r &&& ~~~o) a b

def bmsJoin : Bitmapset → Bitmapset → Bitmapset
  | none, b => b
  | a, none => a
  | some a, some b => if a.length < b.length then some (update (· ||| ·) b a) else some (update (· ||| ·) a b)

def nextLoop : Bitmapword → Nat → List Bitmapword → Int
  | _, _, [] => -2
  | mask, wordnum, w :: words =>
    if w &&& mask ≠ 0 then wordnum * 64 + (w &&& mask).ctz.toNat else nextLoop allOnes (wordnum + 1) words

def bmsNextMember (a : Bitmapset) (prevbit : Int) : Option Int :=
  match a with
  | none => some (-2)
  | some words =>
    let prevbit := toInt (prevbit + 1)
    if prevbit < 0 then none
    else
      let prevbit := prevbit.toNat
      some (nextLoop (allOnes <<< bitnum prevbit) (wordnum prevbit) (words.drop (wordnum prevbit)))

def prevLoop (words : List Bitmapword) : Bitmapword → Nat → Option Int
  | _, 0 => some (-2)
  | mask, n + 1 =>
    words[n]?.bind fun w =>
      if w &&& mask ≠ 0 then some (n * 64 + (63 - (w &&& mask).clz.toNat)) else prevLoop words allOnes n

def bmsPrevMember (a : Bitmapset) (prevbit : Int) : Option Int :=
  match a with
  | none => some (-2)
  | some words =>
    if prevbit = 0 then some (-2)
    else
      let prevbit := if prevbit = -1 then toInt (toInt (words.length * 64) - 1) else prevbit - 1
      if prevbit < 0 then none
      else
        let prevbit := prevbit.toNat
        prevLoop words (allOnes >>> (64 - (bitnum prevbit + 1))) (wordnum prevbit + 1)

def iterate (next : Int → Option Int) : Nat → Int → Option (List Int)
  | 0, _ => none
  | fuel + 1, x => (next x).bind fun x => if x ≥ 0 then (iterate next fuel x).map (x :: ·) else some []

def nwordsMax : Nat := 33554432

def IsValidSet : Bitmapset → Prop
  | none => True
  | some words => words.getLastD 0 ≠ 0 ∧ words.length ≤ nwordsMax

def members (a : Bitmapset) : Finset Nat :=
  (Finset.range (64 * (a.getD []).length)).filter fun x => (value (a.getD [])).testBit x = true

structure Is (r : Bitmapset) (s : Finset Nat) : Prop where
  valid : IsValidSet r
  members_eq : members r = s
  null : r = none ↔ s = ∅

variable {a b r r' : Bitmapset} {words other : List Bitmapword} {s t : Finset Nat} {x : Nat}

theorem mem_members : x ∈ members a ↔ (value (a.getD [])).testBit x = true := by
  rw [members, Finset.mem_filter, Finset.mem_range]
  exact and_iff_right_of_imp lt_of_testBit

theorem mem_some : x ∈ members (some words) ↔ (value words).testBit x = true := mem_members

@[simp] theorem members_none : members none = ∅ := rfl

theorem testBit_words : (value words).testBit x = (words.getD (wordnum x) 0).getLsbD (bitnum x) :=
  testBit_value (Nat.succ_pos 63)

theorem isValidSet_some :
    IsValidSet (some words) ↔ (∃ x ∈ members (some words), 64 * words.length ≤ x + 64) ∧ words.length ≤ nwordsMax := by
  rw [IsValidSet, getLastD_ne_zero (Nat.succ_pos 63)]
  simp only [mem_some]

theorem is_none : Is none ∅ := ⟨trivial, rfl, iff_of_true rfl rfl⟩

theorem is_some (hlen : words.length ≤ nwordsMax) (hs : ∀ x, (value words).testBit x = true ↔ x ∈ s)
    (htop : ∃ x ∈ s, 64 * words.length ≤ x + 64) : Is (some words) s := by
  have hmem : members (some words) = s := Finset.ext fun x => mem_some.trans (hs x)
  obtain ⟨x, hx, hle⟩ := htop
  refine ⟨isValidSet_some.mpr ⟨⟨x, hmem ▸ hx, hle⟩, hlen⟩, hmem, iff_of_false (fun h => by cases h) fun h => ?_⟩
  rw [h] at hx
  exact Finset.notMem_empty x hx

theorem IsValidSet.is (h : IsValidSet a) : Is a (members a) := by
  cases a with
  | none => exact is_none
  | some words =>
    obtain ⟨htop, hlen⟩ := isValidSet_some.mp h
    exact is_some hlen (fun x => mem_some.symm) htop

theorem length_le (ha : IsValidSet (some words)) (hs : members (some words) ⊆ members (some other)) :
    words.length ≤ other.length := by
  obtain ⟨⟨x, hx, hle⟩, -⟩ := isValidSet_some.mp ha
  have hlt := lt_of_testBit (mem_some.mp (hs hx))
  omega

theorem Is.eq (h : Is r s) (h' : Is r' s) : r = r' := by
  cases r with
  | none => exact (h'.null.mpr (h.null.mp rfl)).symm
  | some words =>
    cases r' with
    | none => exact h.null.mpr (h'.null.mp rfl)
    | some other =>
      have hmem := h.members_eq.trans h'.members_eq.symm
      have hlen := (length_le h.valid hmem.subset).antisymm (length_le h'.valid hmem.superset)
      refine congrArg some (value_injective hlen (Nat.eq_of_testBit_eq fun x => ?_))
      rw [Bool.eq_iff_iff, ← mem_some, ← mem_some, hmem]

theorem IsValidSet.eq (ha : IsValidSet a) (hb : IsValidSet b) : members a = members b ↔ a = b :=
  ⟨fun h => ha.is.eq (h ▸ hb.is), fun h => h ▸ rfl⟩

theorem getLsbD_memberBit {i : Nat} (hi : i < 64) : (memberBit x).getLsbD i = decide (i = bitnum x) := by
  have hb : bitnum x < 64 := Nat.mod_lt x (Nat.succ_pos 63)
  rw [memberBit, BitVec.getLsbD_shiftLeft, BitVec.ofNat_eq_ofNat, BitVec.getLsbD_one]
  simp only [hi, decide_true, Bool.true_and]
  by_cases heq : i = bitnum x
  · simp [heq]
  · simp [heq]
    omega

theorem getLsbD_lowMask {k i : Nat} (hk : k < 64) : (lowMask k).getLsbD i = decide (i < k) := by
  have hpow : (2 : Nat) ^ k < 2 ^ 64 := Nat.pow_lt_pow_right (Nat.lt_succ_self 1) hk
  have hone : ((1 : Bitmapword) <<< k).toNat = 2 ^ k := by
    rw [BitVec.toNat_shiftLeft, Nat.shiftLeft_eq, BitVec.ofNat_eq_ofNat, BitVec.toNat_ofNat, Nat.one_mod_two_pow_eq_one.mpr (Nat.succ_pos 63), Nat.one_mul, Nat.mod_eq_of_lt hpow]
  have hle : (1 : Bitmapword) ≤ (1 : Bitmapword) <<< k := by
    rw [BitVec.le_def, hone]
    exact Nat.one_le_two_pow
  rw [lowMask, BitVec.getLsbD, BitVec.toNat_sub_of_le hle, hone]
  exact Nat.testBit_two_pow_sub_one k i

theorem or_bits (x y : Bitmapword) (i : Nat) (_ : i < 64) : (x ||| y).getLsbD i = (x.getLsbD i || y.getLsbD i) :=
  BitVec.getLsbD_or

theorem and_bits (x y : Bitmapword) (i : Nat) (_ : i < 64) : (x &&& y).getLsbD i = (x.getLsbD i && y.getLsbD i) :=
  BitVec.getLsbD_and

theorem minus_bits (x y : Bitmapword) (i : Nat) (hi : i < 64) :
    (x &&& ~~~y).getLsbD i = (x.getLsbD i && !y.getLsbD i) := by
  rw [BitVec.getLsbD_and, BitVec.getLsbD_not, decide_eq_true hi, Bool.true_and]

theorem update_or_is (ha : IsValidSet (some words)) (hlen : other.length ≤ words.length) :
    Is (some (update (· ||| ·) words other)) (members (some words) ∪ members (some other)) := by
  obtain ⟨⟨x, hx, hle⟩, hmax⟩ := isValidSet_some.mp ha
  refine is_some (length_update.trans_le hmax) (fun y => ?_) ⟨x, Finset.mem_union_left _ hx, ?_⟩
  · rw [testBit_update or_bits Bool.or_false hlen, Bool.or_eq_true, Finset.mem_union, mem_some, mem_some]
  · rwa [length_update]

theorem update_minus_is (ha : IsValidSet (some words)) (hlen : other.length < words.length) :
    Is (some (update (fun r o => r &&& ~~~o) words other)) (members (some words) \ members (some other)) := by
  obtain ⟨⟨x, hx, hle⟩, hmax⟩ := isValidSet_some.mp ha
  refine is_some (length_update.trans_le hmax) (fun y => ?_) ⟨x, Finset.mem_sdiff.mpr ⟨hx, fun hmem => ?_⟩, ?_⟩
  · rw [testBit_update minus_bits (f := fun x y => x && !y) Bool.and_true hlen.le, Bool.and_eq_true, Finset.mem_sdiff,
      mem_some, mem_some, Bool.not_eq_true', Bool.not_eq_true]
  · have hlt := lt_of_testBit (mem_some.mp hmem)
    omega
  · rwa [length_update]

theorem bmsUnion_is (ha : IsValidSet a) (hb : IsValidSet b) : Is (bmsUnion a b) (members a ∪ members b) := by
  cases a with
  | none =>
    rw [members_none, Finset.empty_union]
    exact hb.is
  | some words =>
    cases b with
    | none =>
      rw [members_none, Finset.union_empty]
      exact ha.is
    | some other =>
      rw [bmsUnion]
      split
      · next hlen =>
        rw [Finset.union_comm]
        exact update_or_is hb hlen
      · next hlen => exact update_or_is ha (Nat.le_of_not_le hlen)

theorem maskLoop_spec {op : Bitmapword → Bitmapword → Bitmapword} {i : Nat} {last : Int} {rs os : List Bitmapword} :
    (value (rs.zipWith op os) = 0 ∧ (maskLoop op i last rs os).2 = last) ∨
    ∃ k : Nat, (maskLoop op i last rs os).2 = i + k ∧ k < rs.length ∧
      value ((maskLoop op i last rs os).1.take (k + 1)) = value (rs.zipWith op os) ∧
      ((maskLoop op i last rs os).1.take (k + 1)).length = k + 1 ∧
      ((maskLoop op i last rs os).1.take (k + 1)).getLastD 0 ≠ 0 := by
  induction rs generalizing os i last with
  | nil => exact .inl ⟨by rw [List.zipWith_nil_left, value], rfl⟩
  | cons r rs ih =>
    cases os with
    | nil => exact .inl ⟨by rw [List.zipWith_nil_right, value], rfl⟩
    | cons o os =>
      rw [maskLoop, List.zipWith_cons_cons]
      dsimp only
      obtain ⟨hzero, hlast⟩ | ⟨k, hlast, hk, hvalue, hlen, hne⟩ := @ih (i + 1) (if op r o ≠ 0 then i else last) os
      · by_cases hop : op r o = 0
        · refine .inl ⟨value_cons_eq_zero.mpr ⟨hop, hzero⟩, ?_⟩
          rw [hlast, if_neg (not_not.mpr hop)]
        · refine .inr ⟨0, ?_, Nat.succ_pos _, ?_, rfl, hop⟩
          · rw [hlast, if_pos hop]
            exact (Int.add_zero _).symm
          · rw [List.take_succ_cons, List.take_zero, value, value, value, hzero]
      · refine .inr ⟨k + 1, ?_, Nat.succ_lt_succ hk, ?_, ?_, ?_⟩
        · rw [hlast]
          omega
        · rw [List.take_succ_cons, value, value, hvalue]
        · rw [List.take_succ_cons, List.length_cons, hlen]
        · rw [List.take_succ_cons, List.getLastD_cons]
          rwa [List.getLastD_eq_getLast?, List.getLast?_eq_some_getLast (List.ne_nil_of_length_eq_add_one hlen)] at hne ⊢

theorem maskLoop_is {op : Bitmapword → Bitmapword → Bitmapword} (hlen : words.length ≤ nwordsMax)
    (hs : ∀ x, (value (words.zipWith op other)).testBit x = true ↔ x ∈ s) :
    ((maskLoop op 0 (-1) words other).2 = -1 ∧ s = ∅) ∨
    (maskLoop op 0 (-1) words other).2 ≠ -1 ∧
      Is (some ((maskLoop op 0 (-1) words other).1.take ((maskLoop op 0 (-1) words other).2 + 1).toNat)) s := by
  obtain ⟨hzero, hlast⟩ | ⟨k, hlast, hk, hvalue, htake, hne⟩ :=
    @maskLoop_spec op 0 (-1) words other
  · refine .inl ⟨hlast, Finset.eq_empty_of_forall_notMem fun x hx => ?_⟩
    rw [← hs, hzero, Nat.zero_testBit] at hx
    cases hx
  · have hnat : ((0 : Nat) + (k : Int) + 1).toNat = k + 1 := by omega
    refine .inr ⟨by omega, ?_⟩
    rw [hlast, hnat]
    obtain ⟨x, hx, hle⟩ := (getLastD_ne_zero (Nat.succ_pos 63)).mp hne
    rw [hvalue, hs] at hx
    exact is_some (htake.trans_le (by omega)) (fun x => by rw [hvalue, hs]) ⟨x, hx, hle⟩

theorem masked_is {op : Bitmapword → Bitmapword → Bitmapword} (hlen : words.length ≤ nwordsMax)
    (hs : ∀ x, (value (words.zipWith op other)).testBit x = true ↔ x ∈ s) : Is (masked op words other) s := by
  rw [masked, upTo]
  obtain ⟨hlast, rfl⟩ | ⟨hlast, his⟩ := maskLoop_is hlen hs
  · rw [if_pos hlast]
    exact is_none
  · rwa [if_neg hlast]

theorem masked_and_is (ha : IsValidSet (some words)) :
    Is (masked (· &&& ·) words other) (members (some words) ∩ members (some other)) :=
  masked_is (isValidSet_some.mp ha).2 fun x => by
    rw [testBit_zipWith and_bits Bool.false_and (.inr Bool.and_false), Bool.and_eq_true, Finset.mem_inter, mem_some, mem_some]

theorem testBit_minus (hlen : words.length ≤ other.length) :
    (value (words.zipWith (fun r o => r &&& ~~~o) other)).testBit x = true ↔
      x ∈ members (some words) \ members (some other) := by
  rw [testBit_zipWith minus_bits (f := fun x y => x && !y) (fun b => Bool.false_and _) (.inl hlen), Bool.and_eq_true,
    Finset.mem_sdiff, mem_some, mem_some, Bool.not_eq_true', Bool.not_eq_true]

theorem bmsIntersect_is (ha : IsValidSet a) (hb : IsValidSet b) : Is (bmsIntersect a b) (members a ∩ members b) := by
  cases a with
  | none =>
    rw [members_none, Finset.empty_inter]
    exact is_none
  | some words =>
    cases b with
    | none =>
      rw [members_none, Finset.inter_empty]
      exact is_none
    | some other =>
      rw [bmsIntersect]
      split
      · exact masked_and_is ha
      · rw [Finset.inter_comm]
        exact masked_and_is hb

theorem bmsIntMembers_is (ha : IsValidSet a) : Is (bmsIntMembers a b) (members a ∩ members b) := by
  cases a with
  | none =>
    rw [members_none, Finset.empty_inter]
    exact is_none
  | some words =>
    cases b with
    | none =>
      rw [members_none, Finset.inter_empty]
      exact is_none
    | some other => exact masked_and_is ha

theorem bmsAddMembers_is (ha : IsValidSet a) (hb : IsValidSet b) : Is (bmsAddMembers a b) (members a ∪ members b) := by
  cases a with
  | none =>
    rw [members_none, Finset.empty_union]
    exact hb.is
  | some words =>
    cases b with
    | none =>
      rw [members_none, Finset.union_empty]
      exact ha.is
    | some other =>
      rw [bmsAddMembers]
      split
      · next hlen =>
        rw [Finset.union_comm]
        exact update_or_is hb hlen.le
      · next hlen => exact update_or_is ha (Nat.le_of_not_lt hlen)

theorem bmsJoin_eq : bmsJoin a b = bmsAddMembers a b := by
  cases a with
  | none => rfl
  | some words =>
    cases b with
    | none => rfl
    | some other => rfl

theorem bmsReplaceMembers_eq : bmsReplaceMembers a b = b := by
  cases a with
  | none => rfl
  | some words =>
    cases b with
    | none => rfl
    | some other =>
      have hcopy : ∀ ws os : List Bitmapword, os.length ≤ ws.length → (update (fun _ o => o) ws os).take os.length = os := by
        intro ws os hlen
        induction os generalizing ws with
        | nil => rfl
        | cons o os ih =>
          cases ws with
          | nil => cases hlen
          | cons w ws => rw [update, List.length_cons, List.take_succ_cons, ih ws (Nat.le_of_succ_le_succ hlen)]
      rw [bmsReplaceMembers]
      refine congrArg some (hcopy _ other ?_)
      split
      · rw [enlarge, List.length_append, List.length_replicate]
        omega
      · omega

theorem anyLoop_iff {op : Bitmapword → Bitmapword → Bitmapword} :
    anyLoop op words other = true ↔ value (words.zipWith op other) ≠ 0 := by
  induction words generalizing other with
  | nil => exact iff_of_false Bool.false_ne_true fun h => h rfl
  | cons w ws ih =>
    cases other with
    | nil => exact iff_of_false Bool.false_ne_true fun h => h rfl
    | cons o os =>
      rw [anyLoop, List.zipWith_cons_cons, ne_eq (value _), value_cons_eq_zero]
      split
      · next hne => exact iff_of_true rfl fun h => hne h.1
      · next hzero => rw [ih, and_iff_right (not_not.mp hzero)]

theorem value_ne_zero {n : Nat} (hs : ∀ x, n.testBit x = true ↔ x ∈ s) : n ≠ 0 ↔ s.Nonempty := by
  constructor
  · intro hn
    obtain ⟨x, hx⟩ := Nat.exists_testBit_of_ne_zero hn
    exact ⟨x, (hs x).mp hx⟩
  · rintro ⟨x, hx⟩ rfl
    rw [← hs, Nat.zero_testBit] at hx
    cases hx

theorem differenceLoop_iff (hlen : words.length ≤ other.length) :
    differenceLoop words other = true ↔ ¬members (some words) ⊆ members (some other) := by
  rw [differenceLoop, anyLoop_iff, value_ne_zero (fun _ => testBit_minus hlen), ← Finset.sdiff_nonempty]

theorem bmsNonemptyDifference_iff (ha : IsValidSet a) : bmsNonemptyDifference a b = true ↔ ¬members a ⊆ members b := by
  cases a with
  | none => exact iff_of_false Bool.false_ne_true fun h => h (Finset.empty_subset _)
  | some words =>
    cases b with
    | none => exact iff_of_true rfl fun h => nomatch ha.is.null.mpr (Finset.subset_empty.mp h)
    | some other =>
      rw [bmsNonemptyDifference]
      split
      · next hlen => exact iff_of_true rfl fun h => absurd (length_le ha h) (Nat.not_le.mpr hlen)
      · next hlen => exact differenceLoop_iff (Nat.le_of_not_gt hlen)

theorem bmsIsSubset_eq : bmsIsSubset a b = !bmsNonemptyDifference a b := by
  cases a with
  | none => rfl
  | some words =>
    cases b with
    | none => rfl
    | some other =>
      rw [bmsIsSubset, bmsNonemptyDifference]
      split <;> rfl

theorem bmsOverlap_iff : bmsOverlap a b = true ↔ (members a ∩ members b).Nonempty := by
  cases a with
  | none => exact iff_of_false Bool.false_ne_true fun h => by simp at h
  | some words =>
    cases b with
    | none => exact iff_of_false Bool.false_ne_true fun h => by simp at h
    | some other =>
      rw [bmsOverlap, overlapLoop, anyLoop_iff]
      refine value_ne_zero fun x => ?_
      rw [testBit_zipWith and_bits Bool.false_and (.inr Bool.and_false), Bool.and_eq_true, Finset.mem_inter, mem_some,
        mem_some]

theorem bmsDelMembers_is (ha : IsValidSet a) : Is (bmsDelMembers a b) (members a \ members b) := by
  cases a with
  | none =>
    rw [members_none, Finset.empty_sdiff]
    exact is_none
  | some words =>
    cases b with
    | none =>
      rw [members_none, Finset.sdiff_empty]
      exact ha.is
    | some other =>
      rw [bmsDelMembers]
      split
      · next hlen => exact update_minus_is ha hlen
      · next hlen => exact masked_is (isValidSet_some.mp ha).2 fun _ => testBit_minus (Nat.le_of_not_gt hlen)

theorem bmsDifference_is (ha : IsValidSet a) : Is (bmsDifference a b) (members a \ members b) := by
  cases a with
  | none =>
    rw [members_none, Finset.empty_sdiff]
    exact is_none
  | some words =>
    cases b with
    | none =>
      rw [members_none, Finset.sdiff_empty]
      exact ha.is
    | some other =>
      rw [bmsDifference]
      split
      · next hempty =>
        rw [Bool.not_eq_true', Bool.eq_false_iff, ne_eq, bmsNonemptyDifference_iff ha, not_not] at hempty
        rw [Finset.sdiff_eq_empty_iff_subset.mpr hempty]
        exact is_none
      · next hsome =>
        rw [Bool.not_eq_true', Bool.not_eq_false, bmsNonemptyDifference_iff ha] at hsome
        split
        · next hlen => exact update_minus_is ha hlen
        · next hlen =>
          obtain ⟨-, hempty⟩ | ⟨-, his⟩ := maskLoop_is (isValidSet_some.mp ha).2
            (fun _ => testBit_minus (Nat.le_of_not_gt hlen))
          · exact absurd (Finset.sdiff_eq_empty_iff_subset.mp hempty) hsome
          · exact his

theorem equalLoop_iff (hlen : words.length = other.length) : equalLoop words other = true ↔ words = other := by
  induction words generalizing other with
  | nil => exact iff_of_true rfl (List.length_eq_zero_iff.mp hlen.symm).symm
  | cons w ws ih =>
    cases other with
    | nil => cases hlen
    | cons o os =>
      rw [equalLoop, List.cons.injEq]
      split
      · next hne => exact iff_of_false Bool.false_ne_true fun h => hne h.1
      · next heq => rw [ih (Nat.succ_injective hlen), and_iff_right (not_not.mp heq)]

theorem bmsEqual_iff (ha : IsValidSet a) (hb : IsValidSet b) : bmsEqual a b = true ↔ members a = members b := by
  rw [ha.eq hb]
  cases a with
  | none =>
    cases b with
    | none => exact iff_of_true rfl rfl
    | some other => exact iff_of_false Bool.false_ne_true nofun
  | some words =>
    cases b with
    | none => exact iff_of_false Bool.false_ne_true nofun
    | some other =>
      rw [bmsEqual, Option.some.injEq]
      split
      · next hne => exact iff_of_false Bool.false_ne_true fun h => hne (congrArg List.length h)
      · next heq => exact equalLoop_iff (not_not.mp heq)

def Below (s t : Finset Nat) : Prop := ∃ x ∈ t, x ∉ s ∧ ∀ y, x < y → (y ∈ s ↔ y ∈ t)

theorem below_iff : Below (members a) (members b) ↔ value (a.getD []) < value (b.getD []) := by
  rw [lt_iff_testBit, Below]
  simp only [mem_members, Bool.not_eq_true, ← Bool.eq_iff_iff]

theorem compareLoop_spec (hlen : words.length = other.length) :
    (compareLoop words other = 0 ∧ value words = value other) ∨ (compareLoop words other = -1 ∧ value words < value other) ∨
    (compareLoop words other = 1 ∧ value other < value words) := by
  induction words generalizing other with
  | nil => exact .inl ⟨rfl, congrArg value (List.length_eq_zero_iff.mp hlen.symm).symm⟩
  | cons w ws ih =>
    cases other with
    | nil => cases hlen
    | cons o os =>
      have hw := w.isLt
      have ho := o.isLt
      rw [compareLoop, value, value]
      obtain ⟨hloop, hvalue⟩ | ⟨hloop, hvalue⟩ | ⟨hloop, hvalue⟩ := ih (Nat.succ_injective hlen)
      · rw [hloop, hvalue, if_neg (not_not.mpr rfl)]
        by_cases heq : w = o
        · rw [if_neg (not_not.mpr heq), heq]
          exact .inl ⟨rfl, rfl⟩
        · rw [if_pos heq]
          split
          · next hgt => exact .inr (.inr ⟨rfl, Nat.add_lt_add_left hgt _⟩)
          · next hle =>
            have hlt : w.toNat < o.toNat := lt_of_le_of_ne (Nat.le_of_not_gt hle) fun h => heq (BitVec.eq_of_toNat_eq h)
            exact .inr (.inl ⟨rfl, Nat.add_lt_add_left hlt _⟩)
      · rw [hloop]
        exact .inr (.inl ⟨rfl, by omega⟩)
      · rw [hloop]
        exact .inr (.inr ⟨rfl, by omega⟩)

theorem value_lt_of_length (hb : IsValidSet (some other)) (hlen : words.length < other.length) :
    value words < value other := by
  obtain ⟨⟨x, hx, hle⟩, -⟩ := isValidSet_some.mp hb
  calc value words < 2 ^ (64 * words.length) := value_lt
    _ ≤ 2 ^ x := Nat.pow_le_pow_right Nat.two_pos (by omega)
    _ ≤ value other := Nat.ge_two_pow_of_testBit (mem_some.mp hx)

theorem value_pos (ha : IsValidSet (some words)) : 0 < value words :=
  Nat.pos_of_ne_zero ((value_ne_zero fun _ => mem_some.symm).mpr
    (Finset.nonempty_iff_ne_empty.mpr fun h => nomatch ha.is.null.mpr h))

theorem bmsCompare_spec (ha : IsValidSet a) (hb : IsValidSet b) :
    (bmsCompare a b = 0 ∧ members a = members b) ∨ (bmsCompare a b = -1 ∧ Below (members a) (members b)) ∨
    (bmsCompare a b = 1 ∧ Below (members b) (members a)) := by
  rw [below_iff, below_iff, ha.eq hb]
  cases a with
  | none =>
    cases b with
    | none => exact .inl ⟨rfl, rfl⟩
    | some other => exact .inr (.inl ⟨rfl, value_pos hb⟩)
  | some words =>
    cases b with
    | none => exact .inr (.inr ⟨rfl, value_pos ha⟩)
    | some other =>
      rw [bmsCompare, Option.some.injEq]
      split
      · next hne =>
        split
        · next hgt => exact .inr (.inr ⟨rfl, value_lt_of_length ha hgt⟩)
        · next hle => exact .inr (.inl ⟨rfl, value_lt_of_length hb (lt_of_le_of_ne (Nat.le_of_not_gt hle) hne)⟩)
      · next heq =>
        have hlen := not_not.mp heq
        exact (compareLoop_spec hlen).imp_left fun h => ⟨h.1, value_injective hlen h.2⟩

def BmsComparison.of (p q : Bool) : BmsComparison :=
  if p then if q then .equal else .subset1 else if q then .subset2 else .different

theorem subsetLoop_spec {p q : Bool} (hpq : (p || q) = true) : subsetLoop (.of p q) words other =
      if (p && !differenceLoop words other) || (q && !differenceLoop other words) then
        some (.of (p && !differenceLoop words other) (q && !differenceLoop other words))
      else none := by
  induction words generalizing other p q with
  | nil => cases other <;> simp [subsetLoop, differenceLoop, anyLoop, hpq]
  | cons w ws ih =>
    cases other with
    | nil => simp [subsetLoop, differenceLoop, anyLoop, hpq]
    | cons o os =>
      have hequal := @ih os true true rfl
      have hsubset1 := @ih os true false rfl
      have hsubset2 := @ih os false true rfl
      simp only [BmsComparison.of, differenceLoop] at hequal hsubset1 hsubset2
      rw [subsetLoop]
      simp only [differenceLoop, anyLoop]
      -- the state before the words, and in which of them there are other bits
      by_cases hw : w &&& ~~~o = 0 <;> by_cases ho : o &&& ~~~w = 0 <;> cases p <;> cases q <;>
        simp_all [BmsComparison.of]

theorem bmsSubsetCompare_eq : bmsSubsetCompare a b = .of (bmsIsSubset a b) (bmsIsSubset b a) := by
  cases a with
  | none => cases b <;> rfl
  | some words =>
    cases b with
    | none => rfl
    | some other =>
      have hloop := @subsetLoop_spec words other true true rfl
      rw [bmsSubsetCompare, bmsIsSubset, bmsIsSubset]
      change subsetLoop .equal words other = _ at hloop
      rw [hloop]
      obtain hlt | heq | hgt := Nat.lt_trichotomy words.length other.length
      · cases differenceLoop words other <;> cases differenceLoop other words <;>
          simp [BmsComparison.of, hlt, hlt.not_gt]
      · cases differenceLoop words other <;> cases differenceLoop other words <;> simp [BmsComparison.of, heq]
      · cases differenceLoop words other <;> cases differenceLoop other words <;>
          simp [BmsComparison.of, hgt, hgt.not_gt]

end CdcKafka.Nodes
