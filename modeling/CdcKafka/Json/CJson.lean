import CdcKafka.Lib.CString
import CdcKafka.Lib.SelfDelimiting
import Mathlib.Tactic.IntervalCases

/-! The cJSON trees the workers build and the formatted text `cJSON_Print`
makes of them. The text determines the tree. -/

namespace CdcKafka.Json
open CdcKafka.Lib

inductive CJson
  | null
  | string (valuestring : CStr)
  | array (child : List CJson)
  | object (child : List (CStr × CJson))

def quote : UInt8 := 34
def backslash : UInt8 := 92

/-- The `flag` test of the first scan. `char` is signed, so bytes from 128 on are negative. -/
def flagged (b : UInt8) : Bool := (0 < b && b < 32) || b == quote || b == backslash

def hexDigit (n : Nat) : UInt8 := UInt8.ofNat (if n < 10 then 48 + n else 87 + n)

def escapeByte (b : UInt8) : Bytes :=
  if 31 < b ∧ b ≠ quote ∧ b ≠ backslash then [b]
  else if b = backslash then [backslash, backslash]
  else if b = quote then [backslash, quote]
  else if b = 8 then [backslash, 98]
  else if b = 12 then [backslash, 102]
  else if b = 10 then [backslash, 110]
  else if b = 13 then [backslash, 114]
  else if b = 9 then [backslash, 116]
  else [backslash, 117, 48, 48, hexDigit (b.toNat / 16), hexDigit (b.toNat % 16)]

def printStringPtr (str : CStr) : Bytes :=
  if str.bytes.any flagged then quote :: (str.bytes.flatMap escapeByte ++ [quote])
  else quote :: (str.bytes ++ [quote])

theorem escapeByte_of_not_flagged {b : UInt8} (h0 : b ≠ 0) (h : flagged b = false) : escapeByte b = [b] := by
  have hq : b ≠ quote := by
    rintro rfl
    exact absurd h (by decide)
  have hs : b ≠ backslash := by
    rintro rfl
    exact absurd h (by decide)
  have h31 : 31 < b := by
    simp only [flagged, Bool.or_eq_false_iff, Bool.and_eq_false_iff, decide_eq_false_iff_not] at h
    rw [UInt8.lt_iff_toNat_lt] at h ⊢
    rw [UInt8.lt_iff_toNat_lt] at h
    have hz : b.toNat ≠ 0 := fun hz => h0 (UInt8.toNat.inj hz)
    have : (0 : UInt8).toNat = 0 := rfl
    have : (31 : UInt8).toNat = 31 := rfl
    have : (32 : UInt8).toNat = 32 := rfl
    omega
  rw [escapeByte, if_pos ⟨h31, hq, hs⟩]

theorem printStringPtr_eq (str : CStr) : printStringPtr str = quote :: (str.bytes.flatMap escapeByte ++ [quote]) := by
  unfold printStringPtr
  split_ifs with h
  · rfl
  · have hid : str.bytes.flatMap escapeByte = str.bytes.flatMap fun b => [b] := by
      apply List.flatMap_congr
      intro b hb
      exact escapeByte_of_not_flagged (str.nonzero b hb) (by simpa using fun hf => h (List.any_eq_true.mpr ⟨b, hb, hf⟩))
    rw [hid, List.flatMap_singleton']

def hexValue (b : UInt8) : Nat := if b < 58 then b.toNat - 48 else b.toNat - 87

def unescapeByte : Bytes → Option (UInt8 × Bytes)
  | [] => none
  | [b] => some (b, [])
  | b :: c :: r =>
    if b ≠ backslash then some (b, c :: r)
    else if c = 98 then some (8, r)
    else if c = 102 then some (12, r)
    else if c = 110 then some (10, r)
    else if c = 114 then some (13, r)
    else if c = 116 then some (9, r)
    else if c ≠ 117 then some (c, r)
    else match r with
      | _ :: _ :: h :: l :: r => some (UInt8.ofNat (16 * hexValue h + hexValue l), r)
      | _ => none

theorem unescapeByte_control (n : Nat) (hn : n < 32) (r : Bytes) :
    unescapeByte (escapeByte (UInt8.ofNat n) ++ r) = some (UInt8.ofNat n, r) := by
  interval_cases n <;> rfl

theorem unescapeByte_escapeByte (b : UInt8) (r : Bytes) : unescapeByte (escapeByte b ++ r) = some (b, r) := by
  by_cases hb : b.toNat < 32
  · have h := unescapeByte_control b.toNat hb r
    rwa [UInt8.ofNat_toNat] at h
  · by_cases hs : b = backslash
    · subst hs
      rfl
    · by_cases hq : b = quote
      · subst hq
        rfl
      · have h31 : 31 < b := by
          rw [UInt8.lt_iff_toNat_lt]
          have : (31 : UInt8).toNat = 31 := rfl
          omega
        rw [escapeByte, if_pos ⟨h31, hq, hs⟩]
        cases r <;> simp [unescapeByte, hs]

theorem escapeByte_head (b : UInt8) : ∃ c t, escapeByte b = c :: t ∧ c ≠ quote := by
  unfold escapeByte
  split_ifs with h
  · exact ⟨b, [], rfl, h.2.1⟩
  all_goals exact ⟨backslash, _, rfl, by decide⟩

theorem selfDelim_printStringPtr : SelfDelim printStringPtr := by
  have hbody := selfDelim_flatMap_close (selfDelim_of_decode _ unescapeByte_escapeByte) escapeByte_head
  intro s t r r' h
  rw [printStringPtr_eq, printStringPtr_eq, List.cons_append, List.cons_append] at h
  obtain ⟨hb, hr⟩ := hbody s.bytes t.bytes r r' (List.cons.inj h).2
  exact ⟨CStr.ext hb, hr⟩

def nullText : Bytes := ascii ['n', 'u', 'l', 'l']
def tab : UInt8 := 9

mutual

def printValue (depth : Nat) : CJson → Bytes
  | .null => nullText
  | .string v => printStringPtr v
  | .array child => ascii ['['] ++ printItems (depth + 1) child
  | .object [] => ascii ['{', '\n'] ++ List.replicate (depth - 1) tab ++ ascii ['}']
  | .object (c :: cs) => ascii ['{', '\n'] ++ printMembers (depth + 1) (c :: cs)

def printItems (depth : Nat) : List CJson → Bytes
  | [] => ascii [']']
  | [c] => printValue depth c ++ ascii [']']
  | c :: c' :: cs => printValue depth c ++ ascii [',', ' '] ++ printItems depth (c' :: cs)

def printMembers (depth : Nat) : List (CStr × CJson) → Bytes
  | [] => ascii ['\n'] ++ List.replicate (depth - 1) tab ++ ascii ['}']
  | [(n, c)] => List.replicate depth tab ++ printStringPtr n ++ ascii [':', '\t'] ++
      printValue depth c ++ (ascii ['\n'] ++ List.replicate (depth - 1) tab ++ ascii ['}'])
  | (n, c) :: c' :: cs => List.replicate depth tab ++ printStringPtr n ++ ascii [':', '\t'] ++
      printValue depth c ++ ascii [',', '\n'] ++ printMembers depth (c' :: cs)

end

def print (item : CJson) : Bytes := printValue 0 item

def startByte : CJson → UInt8
  | .null => 110
  | .string _ => 34
  | .array _ => 91
  | .object _ => 123

theorem printValue_head (d : Nat) (c : CJson) : ∃ t, printValue d c = startByte c :: t := by
  rcases c with _ | v | child | child
  · exact ⟨_, rfl⟩
  · exact ⟨_, by rw [printValue, printStringPtr_eq, startByte, quote]⟩
  · exact ⟨_, by rw [printValue]; rfl⟩
  · cases child <;> exact ⟨_, by rw [printValue]; rfl⟩

theorem startByte_eq {d : Nat} {a b : CJson} {r s : Bytes}
    (h : printValue d a ++ r = printValue d b ++ s) : startByte a = startByte b := by
  obtain ⟨t, ht⟩ := printValue_head d a
  obtain ⟨u, hu⟩ := printValue_head d b
  rw [ht, hu] at h
  exact (List.cons.inj h).1

theorem printItems_eq (d : Nat) (xs : List CJson) :
    printItems d xs = sepClose (ascii [',', ' ']) (ascii [']']) (printValue d) xs := by
  induction xs with
  | nil => rw [printItems, sepClose]
  | cons x xs ih =>
    cases xs with
    | nil => rw [printItems, sepClose]
    | cons y ys => rw [printItems, sepClose, ih]

def member (d : Nat) (p : CStr × CJson) : Bytes :=
  List.replicate d tab ++ printStringPtr p.1 ++ ascii [':', '\t'] ++ printValue d p.2

def objectEnd (d : Nat) : Bytes := ascii ['\n'] ++ List.replicate (d - 1) tab ++ ascii ['}']

theorem printMembers_eq (d : Nat) (xs : List (CStr × CJson)) :
    printMembers d xs = sepClose (ascii [',', '\n']) (objectEnd d) (member d) xs := by
  induction xs with
  | nil => rw [printMembers, sepClose, objectEnd]
  | cons x xs ih =>
    obtain ⟨n, c⟩ := x
    cases xs with
    | nil => rw [printMembers, sepClose, member, objectEnd]
    | cons y ys => rw [printMembers, sepClose, ih, member]

theorem delimAt_member {d : Nat} {p : CStr × CJson} (h : DelimAt (printValue d) p.2) : DelimAt (member d) p := by
  rintro ⟨n, c⟩ r s hp
  simp only [member, List.append_assoc] at hp
  obtain ⟨hn, hrest⟩ := selfDelim_printStringPtr p.1 n _ _ (List.append_cancel_left hp)
  obtain ⟨hc, hr⟩ := h c r s (List.append_cancel_left hrest)
  exact ⟨Prod.ext hn hc, hr⟩

theorem delimAt_items {d : Nat} {xs : List CJson} (h : ∀ a ∈ xs, DelimAt (printValue d) a) :
    DelimAt (printItems d) xs := by
  have he : printItems d = sepClose (ascii [',', ' ']) (ascii [']']) (printValue d) :=
    funext (printItems_eq d)
  rw [he]
  refine delimAt_sepClose (c := 44) (d := 93) rfl rfl (by decide) (fun a => ?_) xs h
  obtain ⟨t, ht⟩ := printValue_head d a
  exact ⟨_, t, ht, by cases a <;> simp [startByte]⟩

theorem delimAt_members {d : Nat} {xs : List (CStr × CJson)}
    (h : ∀ p ∈ xs, DelimAt (printValue (d + 1)) p.2) : DelimAt (printMembers (d + 1)) xs := by
  have he : printMembers (d + 1) = sepClose (ascii [',', '\n']) (objectEnd (d + 1)) (member (d + 1)) :=
    funext (printMembers_eq (d + 1))
  rw [he]
  refine delimAt_sepClose (c := 44) (d := 10) rfl rfl (by decide) (fun p => ?_) xs fun p hp => delimAt_member (h p hp)
  exact ⟨tab, _, by rw [member, List.replicate_succ]; rfl, by decide⟩

theorem objectEmpty_ne (d : Nat) (p : CStr × CJson) (ps : List (CStr × CJson)) (r s : Bytes) :
    List.replicate (d - 1) tab ++ ascii ['}'] ++ r ≠ printMembers (d + 1) (p :: ps) ++ s := by
  intro h
  have hstart : ∃ t, printMembers (d + 1) (p :: ps) = List.replicate (d + 1) tab ++ t := by
    obtain ⟨n, c⟩ := p
    cases ps with
    | nil => exact ⟨_, by rw [printMembers, List.append_assoc, List.append_assoc, List.append_assoc]⟩
    | cons q qs =>
      exact ⟨_, by rw [printMembers, List.append_assoc, List.append_assoc, List.append_assoc, List.append_assoc]⟩
  obtain ⟨t, ht⟩ := hstart
  have hsplit : List.replicate (d + 1) tab = List.replicate (d - 1) tab ++ tab :: List.replicate (d - (d - 1)) tab := by
    rw [← List.replicate_succ, List.replicate_append_replicate]
    congr 1
    omega
  rw [ht, hsplit, List.append_assoc, List.append_assoc, List.append_assoc] at h
  have hb := List.append_cancel_left h
  exact absurd (List.cons.inj hb).1 (by decide)

mutual

theorem delimAt_printValue (d : Nat) : (a : CJson) → DelimAt (printValue d) a
  | .null => by
    intro b r s h
    have hs := startByte_eq h
    cases b with
    | null => exact ⟨rfl, List.append_cancel_left h⟩
    | string _ => exact absurd hs (by simp [startByte])
    | array _ => exact absurd hs (by simp [startByte])
    | object _ => exact absurd hs (by simp [startByte])
  | .string v => by
    intro b r s h
    have hs := startByte_eq h
    cases b with
    | string w =>
      obtain ⟨rfl, hr⟩ := selfDelim_printStringPtr v w r s (by simpa only [printValue] using h)
      exact ⟨rfl, hr⟩
    | null => exact absurd hs (by simp [startByte])
    | array _ => exact absurd hs (by simp [startByte])
    | object _ => exact absurd hs (by simp [startByte])
  | .array xs => by
    intro b r s h
    have hs := startByte_eq h
    cases b with
    | array ys =>
      simp only [printValue, List.append_assoc] at h
      obtain ⟨rfl, hr⟩ := delimAt_items (delimAt_children (d + 1) xs) ys r s (List.append_cancel_left h)
      exact ⟨rfl, hr⟩
    | null => exact absurd hs (by simp [startByte])
    | string _ => exact absurd hs (by simp [startByte])
    | object _ => exact absurd hs (by simp [startByte])
  | .object xs => by
    intro b r s h
    have hs := startByte_eq h
    cases b with
    | object ys =>
      have hm := delimAt_members (d := d) (delimAt_memberValues (d + 1) xs)
      cases xs with
      | nil =>
        cases ys with
        | nil => exact ⟨rfl, List.append_cancel_left h⟩
        | cons y ys =>
          simp only [printValue, List.append_assoc] at h
          exact absurd (List.append_cancel_left h) (by simpa only [List.append_assoc] using objectEmpty_ne d y ys r s)
      | cons x xs =>
        cases ys with
        | nil =>
          simp only [printValue, List.append_assoc] at h
          exact absurd (List.append_cancel_left h).symm
            (by simpa only [List.append_assoc] using objectEmpty_ne d x xs s r)
        | cons y ys =>
          simp only [printValue, List.append_assoc] at h
          obtain ⟨he, hr⟩ := hm (y :: ys) r s (List.append_cancel_left h)
          exact ⟨by rw [he], hr⟩
    | null => exact absurd hs (by simp [startByte])
    | string _ => exact absurd hs (by simp [startByte])
    | array _ => exact absurd hs (by simp [startByte])

theorem delimAt_children (d : Nat) : (xs : List CJson) → ∀ a ∈ xs, DelimAt (printValue d) a
  | [] => by simp
  | x :: xs => by
    intro a ha
    rcases List.mem_cons.mp ha with hx | ha
    · exact hx ▸ delimAt_printValue d x
    · exact delimAt_children d xs a ha

theorem delimAt_memberValues (d : Nat) : (xs : List (CStr × CJson)) → ∀ p ∈ xs, DelimAt (printValue d) p.2
  | [] => by simp
  | (n, c) :: xs => by
    intro p hp
    rcases List.mem_cons.mp hp with rfl | hp
    · exact delimAt_printValue d c
    · exact delimAt_memberValues d xs p hp

end

theorem print_injective : Function.Injective print := by
  intro a b h
  exact (delimAt_printValue 0 a b [] [] (congrArg (· ++ []) h)).1

end CdcKafka.Json
