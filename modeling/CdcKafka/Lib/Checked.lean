import CdcKafka.Lib.Wire

/-! Areas of memory whose accesses are checked: loads and stores that stop outside of their
area, scanners that walk an area by a pointer and a count of what remains, and when a scanner
does what a reader of the remaining bytes does. -/

namespace CdcKafka.Lib

variable {ε α β : Type}

inductive Stop (ε : Type)
  | outside
  | failed (e : ε)
deriving DecidableEq

def sizeT (n : Int) : Nat := (n % 2 ^ 64).toNat

def load (area : Bytes) (off n : Nat) : Except (Stop ε) Bytes :=
  if off + n ≤ area.length then .ok ((area.drop off).take n) else .error .outside

def store (size off n : Nat) : Except (Stop ε) Unit :=
  if off + n ≤ size then .ok () else .error .outside

theorem load_ok {area : Bytes} {off n : Nat} (h : off + n ≤ area.length) :
    (load area off n : Except (Stop ε) Bytes) = .ok ((area.drop off).take n) := if_pos h

theorem store_ok {size off n : Nat} (h : off + n ≤ size) :
    (store size off n : Except (Stop ε) Unit) = .ok () := if_pos h

def Inside (x : Except (Stop ε) α) : Prop := x ≠ .error .outside

theorem inside_ok (a : α) : Inside (.ok a : Except (Stop ε) α) := fun h => by cases h

theorem inside_failed (e : ε) : Inside (.error (.failed e) : Except (Stop ε) α) := fun h => by
  cases h

def NeverFails (x : Except (Stop ε) α) : Prop := ∀ e, x ≠ .error (.failed e)

namespace NeverFails

theorem ok (a : α) : NeverFails (.ok a : Except (Stop ε) α) := fun _ h => by cases h

theorem bind {x : Except (Stop ε) α} {f : α → Except (Stop ε) β} (h : NeverFails x) (h' : ∀ a, NeverFails (f a)) :
    NeverFails (x >>= f) := by
  intro e he
  cases x with
  | error e' =>
    cases he
    exact h e rfl
  | ok a => exact h' a e he

theorem load (area : Bytes) (off n : Nat) : NeverFails (CdcKafka.Lib.load area off n : Except (Stop ε) Bytes) := by
  intro e he
  rw [CdcKafka.Lib.load] at he
  split at he <;> cases he

theorem store (size off n : Nat) : NeverFails (CdcKafka.Lib.store size off n : Except (Stop ε) Unit) := by
  intro e he
  rw [CdcKafka.Lib.store] at he
  split at he <;> cases he

theorem outside {x : Except (Stop ε) α} (h : NeverFails x) (hx : ∀ a, x ≠ .ok a) : x = .error .outside := by
  cases x with
  | ok a => exact absurd rfl (hx a)
  | error e =>
    cases e with
    | outside => rfl
    | failed e => exact absurd rfl (h e)

end NeverFails

theorem load_eq_ok {area b : Bytes} {off n : Nat} (h : (load area off n : Except (Stop ε) Bytes) = .ok b) :
    off + n ≤ area.length := by
  rw [load] at h
  split at h
  · next hle => exact hle
  · cases h

theorem store_eq_ok {size off n : Nat} {u : Unit} (h : (store size off n : Except (Stop ε) Unit) = .ok u) :
    off + n ≤ size := by
  rw [store] at h
  split at h
  · next hle => exact hle
  · cases h

def Yields (r : Reader ε α) (P : α → Prop) : Prop := ∀ s a rest, r s = .ok (a, rest) → P a

namespace Yields

variable {P : α → Prop} {Q : β → Prop}

theorem trivial (r : Reader ε α) : Yields r fun _ => True := fun _ _ _ _ => True.intro

theorem pure {a : α} (h : P a) : Yields (Pure.pure a : Reader ε α) P := fun _ _ _ ha => by
  cases ha
  exact h

theorem bind {r : Reader ε α} {f : α → Reader ε β} (h : Yields r P) (h' : ∀ a, P a → Yields (f a) Q) :
    Yields (r >>= f) Q := by
  intro s b rest hb
  obtain ⟨⟨a, mid⟩, hr, hf⟩ := bind_eq_ok.mp hb
  exact h' a (h s a mid hr) mid b rest hf

theorem lift {x : Except ε α} (h : ∀ a, x = .ok a → P a) : Yields (StateT.lift x : Reader ε α) P := by
  intro s a rest ha
  cases x with
  | error e => cases ha
  | ok a' =>
    cases ha
    exact h _ rfl

theorem bytes (err : ε) (n : Nat) : Yields (readBytes err n) fun b => b.length = n := by
  intro s b rest h
  rw [readBytes] at h
  split at h
  · next hn =>
    cases h
    rw [List.length_take, Nat.min_eq_left hn]
  · cases h

theorem remaining {r : Reader ε α} (k : Nat) {a : α} (ha : P a) (h : Yields r P) :
    Yields (fun s => if s.length ≤ k then .ok (a, s) else r s) P := by
  intro s a' rest hs
  dsimp only at hs
  split at hs
  · cases hs
    exact ha
  · exact h s a' rest hs

end Yields

structure Cursor where
  ptr : Nat
  remaining : Nat

/-- The cursor stands in the area, before as many bytes as it says. -/
def Cursor.At (c : Cursor) (area : Bytes) : Prop := c.ptr + c.remaining = area.length

abbrev Scanner (ε α : Type) := StateT Cursor (Except (Stop ε)) α

namespace Scanner

def copy (err : ε) (area : Bytes) (size : Nat) : Scanner ε Bytes := fun c =>
  if c.remaining < size then .error (.failed err)
  else do
    let b ← load area c.ptr size
    .ok (b, ⟨c.ptr + size, c.remaining - size⟩)

def lift (x : Except ε α) : Scanner ε α := fun c =>
  match x with
  | .error e => .error (.failed e)
  | .ok a => .ok (a, c)

def stores (x : Except (Stop ε) Unit) : Scanner ε Unit := fun c => do
  x
  .ok ((), c)

end Scanner

structure Follows (area : Bytes) (m : Scanner ε α) (r : Reader ε α) : Prop where
  error : ∀ c e, c.At area → r (area.drop c.ptr) = .error e → m c = .error (.failed e)
  ok : ∀ c a rest, c.At area → r (area.drop c.ptr) = .ok (a, rest) →
    ∃ c', m c = .ok (a, c') ∧ c'.At area ∧ area.drop c'.ptr = rest ∧ c.ptr ≤ c'.ptr

theorem Cursor.At.length_drop {c : Cursor} {area : Bytes} (h : c.At area) : (area.drop c.ptr).length = c.remaining := by
  rw [List.length_drop, ← h, Nat.add_sub_cancel_left]

namespace Follows

variable {area : Bytes}

theorem pure (a : α) : Follows area (Pure.pure a : Scanner ε α) (Pure.pure a) where
  error := fun c e _ h => by cases h
  ok := fun c a' rest hc h => by
    cases h
    exact ⟨c, rfl, hc, rfl, Nat.le_refl c.ptr⟩

theorem bind_of {m : Scanner ε α} {r : Reader ε α} {f : α → Scanner ε β} {g : α → Reader ε β}
    {P : α → Prop} (h : Follows area m r) (hP : Yields r P) (h' : ∀ a, P a → Follows area (f a) (g a)) :
    Follows area (m >>= f) (r >>= g) where
  error := by
    intro c e hc he
    have he : (r (area.drop c.ptr) >>= fun p => g p.1 p.2) = .error e := he
    show (m c >>= fun p => f p.1 p.2) = .error (.failed e)
    cases hr : r (area.drop c.ptr) with
    | error e' =>
      rw [hr] at he
      cases he
      rw [h.error c e hc hr]
      rfl
    | ok p =>
      obtain ⟨a, rest⟩ := p
      obtain ⟨c', hm, hc', hrest, -⟩ := h.ok c a rest hc hr
      rw [hr, ok_bind, ← hrest] at he
      rw [hm, ok_bind]
      exact (h' a (hP _ a rest hr)).error c' e hc' he
  ok := by
    intro c b rest hc hb
    obtain ⟨⟨a, mid⟩, hr, hg⟩ := bind_eq_ok.mp hb
    obtain ⟨c', hm, hc', hmid, hle⟩ := h.ok c a mid hc hr
    obtain ⟨c'', hf, hc'', hrest, hle'⟩ := (h' a (hP _ a mid hr)).ok c' b rest hc' (by rw [hmid]; exact hg)
    refine ⟨c'', ?_, hc'', hrest, Nat.le_trans hle hle'⟩
    show (m c >>= fun p => f p.1 p.2) = .ok (b, c'')
    rw [hm, ok_bind, hf]

theorem bind {m : Scanner ε α} {r : Reader ε α} {f : α → Scanner ε β} {g : α → Reader ε β}
    (h : Follows area m r) (h' : ∀ a, Follows area (f a) (g a)) :
    Follows area (m >>= f) (r >>= g) := h.bind_of (Yields.trivial r) fun a _ => h' a

theorem lift (x : Except ε α) : Follows area (Scanner.lift x) (StateT.lift x) where
  error := by
    intro c e _ h
    cases x with
    | error e' =>
      cases h
      rfl
    | ok a => cases h
  ok := by
    intro c a rest hc h
    cases x with
    | error e' => cases h
    | ok a' =>
      cases h
      exact ⟨c, rfl, hc, rfl, Nat.le_refl c.ptr⟩

theorem copy (err : ε) (n : Nat) : Follows area (Scanner.copy err area n) (readBytes err n) where
  error := by
    intro c e hc h
    rw [readBytes, hc.length_drop] at h
    by_cases hn : n ≤ c.remaining
    · rw [if_pos hn] at h
      cases h
    · rw [if_neg hn] at h
      cases h
      exact if_pos (Nat.lt_of_not_le hn)
  ok := by
    intro c a rest hc h
    rw [readBytes, hc.length_drop] at h
    by_cases hn : n ≤ c.remaining
    · rw [if_pos hn] at h
      cases h
      have hload : c.ptr + n ≤ area.length := by
        rw [← hc]
        exact Nat.add_le_add_left hn c.ptr
      refine ⟨⟨c.ptr + n, c.remaining - n⟩, ?_, ?_, List.drop_drop.symm, Nat.le_add_right c.ptr n⟩
      · rw [Scanner.copy, if_neg (Nat.not_lt.mpr hn), load_ok hload, ok_bind]
      · show c.ptr + n + (c.remaining - n) = area.length
        rw [← hc]
        omega
    · rw [if_neg hn] at h
      cases h

theorem stores {x : Except (Stop ε) Unit} (hx : x = .ok ()) {m : Scanner ε α} {r : Reader ε α}
    (h : Follows area m r) : Follows area (Scanner.stores x >>= fun _ => m) r := by
  subst hx
  exact h

theorem remaining (k : Nat) (a : α) {m : Scanner ε α} {r : Reader ε α} (h : Follows area m r) :
    Follows area (fun c => if c.remaining ≤ k then .ok (a, c) else m c)
      (fun s => if s.length ≤ k then .ok (a, s) else r s) where
  error := by
    intro c e hc he
    rw [hc.length_drop] at he
    split at he
    · cases he
    · next hk =>
      rw [if_neg hk]
      exact h.error c e hc he
  ok := by
    intro c b rest hc hb
    rw [hc.length_drop] at hb
    split at hb
    · next hk =>
      cases hb
      exact ⟨c, if_pos hk, hc, rfl, Nat.le_refl c.ptr⟩
    · next hk =>
      obtain ⟨c', hm, hc', hrest⟩ := h.ok c b rest hc hb
      exact ⟨c', by rw [if_neg hk, hm], hc', hrest⟩

end Follows

end CdcKafka.Lib
