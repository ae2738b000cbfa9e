import CdcKafka.Lib.CharReader
import CdcKafka.Lib.Wire

/-! The encodings of a server and how `wchar.c` verifies strings in them. -/

namespace CdcKafka.Copy

open CdcKafka.Lib

def isHighbitSet (c : UInt8) : Bool := 0x80 ≤ c

def isEucRangeValid (c : UInt8) : Bool := 0xa1 ≤ c && c ≤ 0xfe

def ss2 : UInt8 := 0x8e

def ss3 : UInt8 := 0x8f

def verifychar (mblen : UInt8 → Nat) (isValid : Bytes → Bool) : Bytes → Option Nat
  | [] => none
  | c :: s =>
    if s.length + 1 < mblen c then none
    else if isValid ((c :: s).take (mblen c)) then some (mblen c)
    else none

def pgEucMblen (c : UInt8) : Nat := if c = ss2 then 2 else if c = ss3 then 3 else if isHighbitSet c then 2 else 1

def pgEuccnMblen (c : UInt8) : Nat := if isHighbitSet c then 2 else 1

def pgEuctwMblen (c : UInt8) : Nat := if c = ss2 then 4 else if c = ss3 then 3 else if isHighbitSet c then 2 else 1

def pgMuleMblen (c : UInt8) : Nat :=
  if 0x81 ≤ c ∧ c ≤ 0x8d then 2
  else if c = 0x9a ∨ c = 0x9b then 3
  else if 0x90 ≤ c ∧ c ≤ 0x99 then 3
  else if c = 0x9c ∨ c = 0x9d then 4
  else 1

def pgUtfMblen (c : UInt8) : Nat :=
  if c &&& 0x80 = 0 then 1
  else if c &&& 0xe0 = 0xc0 then 2
  else if c &&& 0xf0 = 0xe0 then 3
  else if c &&& 0xf8 = 0xf0 then 4
  else 1

def pgUtf8Islegal (source : Bytes) : Bool :=
  let trail (a : UInt8) : Bool := 0x80 ≤ a && a ≤ 0xbf
  let second (c a : UInt8) : Bool :=
    if c = 0xe0 then 0xa0 ≤ a && a ≤ 0xbf
    else if c = 0xed then 0x80 ≤ a && a ≤ 0x9f
    else if c = 0xf0 then 0x90 ≤ a && a ≤ 0xbf
    else if c = 0xf4 then 0x80 ≤ a && a ≤ 0x8f
    else trail a
  let first (c : UInt8) : Bool := !(0x80 ≤ c && c < 0xc2) && c ≤ 0xf4
  match source with
  | [c] => first c
  | [c, a] => second c a && first c
  | [c, a, b] => trail b && second c a && first c
  | [c, a, b, d] => trail d && trail b && second c a && first c
  | _ => false

def pgAsciiVerifychar : Bytes → Option Nat := verifychar (fun _ => 1) fun _ => true

def pgEucjpVerifychar : Bytes → Option Nat :=
  verifychar pgEucMblen fun
    | [_] => true
    | [c1, c2] => if c1 = ss2 then 0xa1 ≤ c2 && c2 ≤ 0xdf else isEucRangeValid c1 && isEucRangeValid c2
    | [_, c2, c3] => isEucRangeValid c2 && isEucRangeValid c3
    | _ => false

def pgEuckrVerifychar : Bytes → Option Nat :=
  verifychar pgEuccnMblen fun
    | [_] => true
    | [c1, c2] => isEucRangeValid c1 && isEucRangeValid c2
    | _ => false

def pgEuctwVerifychar : Bytes → Option Nat :=
  verifychar pgEuctwMblen fun
    | [_] => true
    | [_, c2] => isEucRangeValid c2
    | [_, c2, c3, c4] => 0xa1 ≤ c2 && c2 ≤ 0xa7 && isEucRangeValid c3 && isEucRangeValid c4
    -- behind SS3
    | _ => false

def pgMuleVerifychar : Bytes → Option Nat := verifychar pgMuleMblen fun s => s.tail.all isHighbitSet

def pgUtf8Verifychar : Bytes → Option Nat := verifychar pgUtfMblen pgUtf8Islegal

def nextChar (verifychar : Bytes → Option Nat) : Bytes → Option Nat
  | [] => none
  | c :: s => if !isHighbitSet c then if c = 0 then none else some 1 else verifychar (c :: s)

inductive ServerEncoding
  | sqlAscii
  | eucJp
  | eucCn
  | eucKr
  | eucTw
  | eucJis2004
  | utf8
  | muleInternal
  /-- `PG_LATIN1` and the others of a byte for a character, whose entries of the table are the same. -/
  | latin1
deriving DecidableEq

namespace ServerEncoding

def mbverifychar : ServerEncoding → Bytes → Option Nat
  | sqlAscii => pgAsciiVerifychar
  | eucJp => pgEucjpVerifychar
  | eucCn => pgEuckrVerifychar
  | eucKr => pgEuckrVerifychar
  | eucTw => pgEuctwVerifychar
  | eucJis2004 => pgEucjpVerifychar
  | utf8 => pgUtf8Verifychar
  | muleInternal => pgMuleVerifychar
  | latin1 => pgAsciiVerifychar

def maxLength : ServerEncoding → Nat
  | sqlAscii => 1
  | eucJp => 3
  | eucCn => 2
  | eucKr => 3
  | eucTw => 4
  | eucJis2004 => 3
  | utf8 => 4
  | muleInternal => 4
  | latin1 => 1

theorem exists_verifychar (e : ServerEncoding) :
    ∃ mblen isValid, e.mbverifychar = verifychar mblen isValid ∧ ∀ c, 0 < mblen c ∧ mblen c ≤ e.maxLength := by
  have heuc (c : UInt8) : 0 < pgEucMblen c ∧ pgEucMblen c ≤ 3 := by
    rw [pgEucMblen]
    split_ifs <;> omega
  have heuccn (c : UInt8) : 0 < pgEuccnMblen c ∧ pgEuccnMblen c ≤ 2 := by
    rw [pgEuccnMblen]
    split_ifs <;> omega
  have heuctw (c : UInt8) : 0 < pgEuctwMblen c ∧ pgEuctwMblen c ≤ 4 := by
    rw [pgEuctwMblen]
    split_ifs <;> omega
  have hmule (c : UInt8) : 0 < pgMuleMblen c ∧ pgMuleMblen c ≤ 4 := by
    rw [pgMuleMblen]
    split_ifs <;> omega
  have hutf (c : UInt8) : 0 < pgUtfMblen c ∧ pgUtfMblen c ≤ 4 := by
    rw [pgUtfMblen]
    split_ifs <;> omega
  cases e with
  | sqlAscii =>
    unfold mbverifychar pgAsciiVerifychar
    exact ⟨_, _, rfl, fun _ => ⟨Nat.one_pos, Nat.le_refl 1⟩⟩
  | eucJp =>
    unfold mbverifychar pgEucjpVerifychar
    exact ⟨_, _, rfl, heuc⟩
  | eucCn =>
    unfold mbverifychar pgEuckrVerifychar
    exact ⟨_, _, rfl, heuccn⟩
  | eucKr =>
    unfold mbverifychar pgEuckrVerifychar
    exact ⟨_, _, rfl, fun c => ⟨(heuccn c).1, Nat.le_succ_of_le (heuccn c).2⟩⟩
  | eucTw =>
    unfold mbverifychar pgEuctwVerifychar
    exact ⟨_, _, rfl, heuctw⟩
  | eucJis2004 =>
    unfold mbverifychar pgEucjpVerifychar
    exact ⟨_, _, rfl, heuc⟩
  | utf8 =>
    unfold mbverifychar pgUtf8Verifychar
    exact ⟨_, _, rfl, hutf⟩
  | muleInternal =>
    unfold mbverifychar pgMuleVerifychar
    exact ⟨_, _, rfl, hmule⟩
  | latin1 =>
    unfold mbverifychar pgAsciiVerifychar
    exact ⟨_, _, rfl, fun _ => ⟨Nat.one_pos, Nat.le_refl 1⟩⟩

end ServerEncoding

theorem verifychar_eq_some {mblen : UInt8 → Nat} {isValid : Bytes → Bool} {b : Bytes} {n : Nat} :
    verifychar mblen isValid b = some n ↔
      ∃ c, b.head? = some c ∧ mblen c = n ∧ n ≤ b.length ∧ isValid (b.take n) = true := by
  cases b with
  | nil => exact ⟨nofun, fun ⟨_, h, _⟩ => nomatch h⟩
  | cons c s =>
    rw [verifychar]
    constructor
    · intro h
      split at h
      · cases h
      · next hlen =>
        split at h
        · next hvalid =>
          obtain rfl := Option.some.inj h
          exact ⟨c, rfl, rfl, Nat.le_of_not_lt hlen, hvalid⟩
        · cases h
    · rintro ⟨_, hc, rfl, hlen, hvalid⟩
      obtain rfl := Option.some.inj hc
      have hnot : ¬s.length + 1 < mblen c := Nat.not_lt.mpr hlen
      rw [if_neg hnot, if_pos hvalid]

theorem nextChar_eq_some {verify : Bytes → Option Nat} {b : Bytes} {n : Nat} : nextChar verify b = some n ↔
      ∃ c, b.head? = some c ∧ if isHighbitSet c then verify b = some n else c ≠ 0 ∧ n = 1 := by
  cases b with
  | nil => simp [nextChar]
  | cons c s =>
    have hhead : (∃ c', (c :: s).head? = some c' ∧
        if isHighbitSet c' then verify (c :: s) = some n else c' ≠ 0 ∧ n = 1) ↔
          if isHighbitSet c then verify (c :: s) = some n else c ≠ 0 ∧ n = 1 := by
      refine ⟨?_, fun h => ⟨c, rfl, h⟩⟩
      rintro ⟨c', hc, h⟩
      exact Option.some.inj hc ▸ h
    rw [hhead, nextChar]
    cases isHighbitSet c with
    | true => exact Iff.rfl
    | false =>
      by_cases hzero : c = 0
      · exact ⟨fun h => absurd ((if_pos hzero).symm.trans h) (by simp), fun h => absurd hzero h.1⟩
      · have hone : (if c = 0 then none else some 1) = some n ↔ n = 1 := by
          rw [if_neg hzero, Option.some.injEq, eq_comm]
        exact hone.trans ⟨fun h => ⟨hzero, h⟩, fun h => h.2⟩

theorem head?_eq_of_take_eq {b c : Bytes} {n : Nat} (hn : 0 < n) (h : c.take n = b.take n) : c.head? = b.head? := by
  have hhead := congrArg List.head? h
  rwa [List.head?_take, List.head?_take, if_neg (Nat.ne_of_gt hn), if_neg (Nat.ne_of_gt hn)] at hhead

theorem ServerEncoding.le_maxLength {e : ServerEncoding} {b : Bytes} {n : Nat}
    (h : nextChar e.mbverifychar b = some n) : 0 < n ∧ n ≤ b.length ∧ n ≤ e.maxLength := by
  obtain ⟨mblen, isValid, heq, hbound⟩ := e.exists_verifychar
  obtain ⟨c, hc, hnext⟩ := nextChar_eq_some.mp h
  split at hnext
  · rw [heq] at hnext
    obtain ⟨c', -, rfl, hle, -⟩ := verifychar_eq_some.mp hnext
    exact ⟨(hbound c').1, hle, (hbound c').2⟩
  · obtain ⟨-, rfl⟩ := hnext
    refine ⟨Nat.one_pos, ?_, Nat.le_trans (hbound c).1 (hbound c).2⟩
    cases b with
    | nil => cases hc
    | cons => exact Nat.le_add_left 1 _

def ServerEncoding.reader (e : ServerEncoding) : CharReader UInt8 where
  next := nextChar e.mbverifychar
  next_pos h := (le_maxLength h).1
  next_le h := (le_maxLength h).2.1
  next_congr := by
    intro b b' n h hle htake
    have hpos := (le_maxLength h).1
    obtain ⟨c, hc, hnext⟩ := nextChar_eq_some.mp h
    refine nextChar_eq_some.mpr ⟨c, (head?_eq_of_take_eq hpos htake).trans hc, ?_⟩
    split at hnext
    · next hhigh =>
      rw [if_pos hhigh]
      obtain ⟨mblen, isValid, heq, -⟩ := e.exists_verifychar
      rw [heq] at hnext ⊢
      obtain ⟨c', hc', hlen, -, hvalid⟩ := verifychar_eq_some.mp hnext
      exact verifychar_eq_some.mpr ⟨c', (head?_eq_of_take_eq hpos htake).trans hc', hlen, hle, htake ▸ hvalid⟩
    · next hlow =>
      rw [if_neg hlow]
      exact hnext

/-- `pg_encoding_verifymbstr`. The strides of `pg_utf8_verifystr` are over whole characters as well. -/
def pgEncodingVerifymbstr (e : ServerEncoding) (s : Bytes) : Nat := e.reader.whole s

end CdcKafka.Copy
