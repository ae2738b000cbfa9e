import CdcKafka.Lib.CString
import Mathlib.Tactic.Ring

/-! Readers of byte messages: fixed-width integers in both byte orders, readers that
consume a message from its front, and the rules for reading back what was written. -/

namespace CdcKafka.Lib

theorem bind_eq_ok {ε α β : Type} {x : Except ε α} {f : α → Except ε β} {b : β} :
    x >>= f = .ok b ↔ ∃ a, x = .ok a ∧ f a = .ok b := by
  cases x with
  | error e =>
    refine ⟨fun h => ?_, fun ⟨a, ha, _⟩ => ?_⟩
    · cases h
    · cases ha
  | ok a =>
    show f a = .ok b ↔ _
    simp

theorem pure_eq_ok {ε α : Type} {a b : α} : (pure a : Except ε α) = .ok b ↔ a = b := by
  show Except.ok a = .ok b ↔ a = b
  simp

theorem ok_bind {ε α β : Type} (a : α) (f : α → Except ε β) : (Except.ok a >>= f) = f a := rfl

theorem map_bind {ε α β γ : Type} (x : Except ε α) (f : α → β) (g : β → Except ε γ) :
    x.map f >>= g = x >>= fun a => g (f a) := by
  cases x <;> rfl

def encodeBE : Nat → Nat → Bytes
  | 0, _ => []
  | w + 1, n => encodeBE w (n / 256) ++ [UInt8.ofNat n]

def decodeBE (b : Bytes) : Nat := b.foldl (fun n d => n * 256 + d.toNat) 0

def encodeLE : Nat → Nat → Bytes
  | 0, _ => []
  | w + 1, n => UInt8.ofNat n :: encodeLE w (n / 256)

def decodeLE : Bytes → Nat
  | [] => 0
  | d :: b => d.toNat + 256 * decodeLE b

@[simp] theorem length_encodeBE (w n : Nat) : (encodeBE w n).length = w := by
  induction w generalizing n with
  | zero => rfl
  | succ w ih => simp [encodeBE, ih]

@[simp] theorem length_encodeLE (w n : Nat) : (encodeLE w n).length = w := by
  induction w generalizing n with
  | zero => rfl
  | succ w ih => simp [encodeLE, ih]

theorem length_flatMap_encodeBE (w : Nat) (l : List Nat) : (l.flatMap (encodeBE w)).length = w * l.length := by
  induction l with
  | nil => rfl
  | cons n l ih =>
    rw [List.flatMap_cons, List.length_append, ih, length_encodeBE, List.length_cons]
    ring

theorem toNat_ofNat_add_div (n : Nat) : (UInt8.ofNat n).toNat + 256 * (n / 256) = n := by
  rw [UInt8.toNat_ofNat']
  exact Nat.mod_add_div n 256

theorem decodeBE_encodeBE {w n : Nat} (h : n < 256 ^ w) : decodeBE (encodeBE w n) = n := by
  induction w generalizing n with
  | zero =>
    rw [pow_zero] at h
    obtain rfl : n = 0 := by omega
    rfl
  | succ w ih =>
    have hdiv : n / 256 < 256 ^ w := Nat.div_lt_of_lt_mul (by rwa [← pow_succ'])
    have hdigit := toNat_ofNat_add_div n
    have hrest : decodeBE (encodeBE w (n / 256)) = n / 256 := ih hdiv
    unfold decodeBE at hrest ⊢
    rw [encodeBE, List.foldl_append, hrest, List.foldl_cons, List.foldl_nil]
    omega

theorem decodeLE_encodeLE {w n : Nat} (h : n < 256 ^ w) : decodeLE (encodeLE w n) = n := by
  induction w generalizing n with
  | zero =>
    rw [pow_zero] at h
    obtain rfl : n = 0 := by omega
    rfl
  | succ w ih =>
    have hdiv : n / 256 < 256 ^ w := Nat.div_lt_of_lt_mul (by rwa [← pow_succ'])
    rw [encodeLE, decodeLE, ih hdiv, toNat_ofNat_add_div]

abbrev Reader (ε α : Type) := StateT Bytes (Except ε) α

variable {ε α β : Type}

def readByte (err : ε) : Reader ε UInt8
  | [] => .error err
  | b :: rest => .ok (b, rest)

def readBytes (err : ε) (n : Nat) : Reader ε Bytes := fun s =>
  if n ≤ s.length then .ok (s.take n, s.drop n) else .error err

def readString (err : ε) : Reader ε CStr := fun s =>
  match s.drop (CStr.ofBytes s).bytes.length with
  | [] => .error err
  | _ :: rest => .ok (CStr.ofBytes s, rest)

def readMany (r : Reader ε α) : Nat → Reader ε (List α)
  | 0 => pure []
  | n + 1 => do
    let a ← r
    let as ← readMany r n
    pure (a :: as)

def Reads (r : Reader ε α) (enc : Bytes) (a : α) : Prop :=
  ∀ rest, r (enc ++ rest) = .ok (a, rest)

theorem Reads.pure (a : α) : Reads (pure a : Reader ε α) [] a := fun _ => rfl

theorem Reads.bind {r : Reader ε α} {f : α → Reader ε β} {e e' : Bytes} {a : α} {b : β}
    (h : Reads r e a) (h' : Reads (f a) e' b) : Reads (r >>= f) (e ++ e') b := by
  intro rest
  show (r (e ++ e' ++ rest) >>= fun p => f p.1 p.2) = .ok (b, rest)
  rw [List.append_assoc, h]
  exact h' rest

theorem Reads.map {r : Reader ε α} {f : α → β} {e : Bytes} {a : α} (h : Reads r e a) :
    Reads (r >>= fun x => Pure.pure (f x)) e (f a) := by
  rw [← List.append_nil e]
  exact h.bind (Reads.pure (f a))

theorem reads_byte (err : ε) (b : UInt8) : Reads (readByte err) [b] b := fun _ => rfl

theorem reads_bytes (err : ε) (b : Bytes) : Reads (readBytes err b.length) b b := by
  intro rest
  simp [readBytes]

theorem takeWhile_cstr (s : CStr) (rest : Bytes) : (s.bytes ++ 0 :: rest).takeWhile (· ≠ 0) = s.bytes := by
  rw [List.takeWhile_append_of_pos fun b hb => by simpa using s.nonzero b hb]
  simp

theorem reads_string (err : ε) (s : CStr) : Reads (readString err) (s.bytes ++ [0]) s := by
  intro rest
  have hs : CStr.ofBytes (s.bytes ++ [0] ++ rest) = s := by
    apply CStr.ext
    rw [List.append_assoc]
    exact takeWhile_cstr s rest
  unfold readString
  rw [hs]
  simp

theorem reads_many_map {γ : Type} {r : Reader ε α} {enc : γ → Bytes} {val : γ → α} {xs : List γ}
    (h : ∀ x ∈ xs, Reads r (enc x) (val x)) :
    Reads (readMany r xs.length) (xs.flatMap enc) (xs.map val) := by
  induction xs with
  | nil => exact Reads.pure []
  | cons x xs ih =>
    have hx := h x List.mem_cons_self
    have hxs := ih fun y hy => h y (List.mem_cons_of_mem x hy)
    exact hx.bind hxs.map

theorem reads_many {r : Reader ε α} {enc : α → Bytes} {xs : List α} (h : ∀ x ∈ xs, Reads r (enc x) x) :
    Reads (readMany r xs.length) (xs.flatMap enc) xs := by
  have hmap : Reads (readMany r xs.length) (xs.flatMap enc) (xs.map fun x => x) := reads_many_map h
  rwa [List.map_id'] at hmap

end CdcKafka.Lib
