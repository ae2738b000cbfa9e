import CdcKafka.Lib.Wire

/-! C structs of a fixed size in the byte order of a little-endian machine, the arrays of them
that follow a count, and the parts of a record that a flag announces. -/

namespace CdcKafka.Lib

structure CLayout (α : Type) where
  size : Nat
  bytes : α → Bytes
  ofBytes : Bytes → α
  length_bytes : ∀ a, (bytes a).length = size
  ofBytes_bytes : ∀ a, ofBytes (bytes a) = a

namespace CLayout

variable {α β ε : Type}

def u16 : CLayout UInt16 where
  size := 2
  bytes := fun n => encodeLE 2 n.toNat
  ofBytes := fun b => UInt16.ofNat (decodeLE b)
  length_bytes := fun _ => length_encodeLE 2 _
  ofBytes_bytes := fun n => by rw [decodeLE_encodeLE n.toNat_lt, UInt16.ofNat_toNat]

def u32 : CLayout UInt32 where
  size := 4
  bytes := fun n => encodeLE 4 n.toNat
  ofBytes := fun b => UInt32.ofNat (decodeLE b)
  length_bytes := fun _ => length_encodeLE 4 _
  ofBytes_bytes := fun n => by rw [decodeLE_encodeLE n.toNat_lt, UInt32.ofNat_toNat]

def u64 : CLayout UInt64 where
  size := 8
  bytes := fun n => encodeLE 8 n.toNat
  ofBytes := fun b => UInt64.ofNat (decodeLE b)
  length_bytes := fun _ => length_encodeLE 8 _
  ofBytes_bytes := fun n => by rw [decodeLE_encodeLE n.toNat_lt, UInt64.ofNat_toNat]

def map (l : CLayout α) (f : α → β) (g : β → α) (hfg : ∀ b, f (g b) = b) : CLayout β where
  size := l.size
  bytes := fun b => l.bytes (g b)
  ofBytes := fun b => f (l.ofBytes b)
  length_bytes := fun b => l.length_bytes (g b)
  ofBytes_bytes := fun b => by rw [l.ofBytes_bytes, hfg]

def i32 : CLayout Int32 := u32.map UInt32.toInt32 Int32.toUInt32 Int32.toInt32_toUInt32

def i64 : CLayout Int64 := u64.map UInt64.toInt64 Int64.toUInt64 Int64.toInt64_toUInt64

def pair (l : CLayout α) (m : CLayout β) : CLayout (α × β) where
  size := l.size + m.size
  bytes := fun p => l.bytes p.1 ++ m.bytes p.2
  ofBytes := fun b => (l.ofBytes (b.take l.size), m.ofBytes (b.drop l.size))
  length_bytes := fun p => by rw [List.length_append, l.length_bytes, m.length_bytes]
  ofBytes_bytes := fun p => by
    rw [List.take_append_of_le_length (l.length_bytes p.1).ge, List.take_of_length_le (l.length_bytes p.1).le,
      List.drop_append_of_le_length (l.length_bytes p.1).ge,
      List.drop_of_length_le (l.length_bytes p.1).le, List.nil_append, l.ofBytes_bytes,
      m.ofBytes_bytes]

theorem length_zeros (n : Nat) : (List.replicate n (0 : UInt8)).length = n := List.length_replicate

/-- `n` bytes that are not looked into. -/
def raw (n : Nat) : CLayout { b : Bytes // b.length = n } where
  size := n
  bytes := fun b => b.1
  ofBytes := fun b =>
    if h : b.length = n then ⟨b, h⟩ else ⟨List.replicate n 0, length_zeros n⟩
  length_bytes := fun b => b.2
  ofBytes_bytes := fun b => by rw [dif_pos b.2]

def bool : CLayout Bool where
  size := 1
  bytes := fun b => [if b then 1 else 0]
  ofBytes := fun b => b.headD 0 != 0
  length_bytes := fun _ => rfl
  ofBytes_bytes := fun b => by cases b <;> rfl

def padded (l : CLayout α) (n : Nat) : CLayout α where
  size := l.size + n
  bytes := fun a => l.bytes a ++ List.replicate n 0
  ofBytes := fun b => l.ofBytes (b.take l.size)
  length_bytes := fun a => by rw [List.length_append, l.length_bytes, List.length_replicate]
  ofBytes_bytes := fun a => by
    rw [List.take_append_of_le_length (l.length_bytes a).ge,
      List.take_of_length_le (l.length_bytes a).le, l.ofBytes_bytes]

def read (l : CLayout α) (err : ε) : Reader ε α := do
  let b ← readBytes err l.size
  pure (l.ofBytes b)

theorem reads (l : CLayout α) (err : ε) (a : α) : Reads (l.read err) (l.bytes a) a := by
  have hbytes := reads_bytes err (l.bytes a)
  rw [l.length_bytes] at hbytes
  have hread := hbytes.map (f := l.ofBytes)
  rwa [l.ofBytes_bytes] at hread

def intBound : Nat := 2 ^ 31

def readCounted (l : CLayout α) (err : ε) : Reader ε (Nat × List α) := do
  let n ← u32.read err
  if n.toNat < intBound then do
    let elems ← readMany (l.read err) n.toNat
    pure (n.toNat, elems)
  else throw err

def countedBytes (l : CLayout α) (elems : List α) : Bytes :=
  encodeLE 4 elems.length ++ elems.flatMap l.bytes

theorem reads_counted (l : CLayout α) (err : ε) {elems : List α} (h : elems.length < intBound) :
    Reads (l.readCounted err) (l.countedBytes elems) (elems.length, elems) := by
  have hlt : elems.length < 2 ^ 32 := Nat.lt_trans h (by decide)
  have hnat : (UInt32.ofNat elems.length).toNat = elems.length :=
    UInt32.toNat_ofNat_of_lt' hlt
  have hcount : Reads (u32.read err) (encodeLE 4 elems.length) (UInt32.ofNat elems.length) := by
    have hbytes : u32.bytes (UInt32.ofNat elems.length) = encodeLE 4 elems.length :=
      congrArg (encodeLE 4) hnat
    rw [← hbytes]
    exact u32.reads err _
  refine hcount.bind ?_
  rw [hnat, if_pos h]
  have helems : Reads (readMany (l.read err) elems.length) (elems.flatMap l.bytes) elems :=
    reads_many fun x _ => l.reads err x
  exact helems.map

theorem length_flatMap_bytes (l : CLayout α) (elems : List α) :
    (elems.flatMap l.bytes).length = elems.length * l.size := by
  induction elems with
  | nil => simp
  | cons a elems ih =>
    rw [List.flatMap_cons, List.length_append, ih, l.length_bytes, List.length_cons]
    ring

end CLayout

section Parts

variable {ε α : Type}

def readPart (present : Bool) (r : Reader ε α) (absent : α) : Reader ε α :=
  if present then r else pure absent

theorem reads_part (present : Bool) (absent : α) {r : Reader ε α} {enc : Bytes} {a : α}
    (h : present = true → Reads r enc a) :
    Reads (readPart present r absent) (if present then enc else [])
      (if present then a else absent) := by
  cases present with
  | false => exact Reads.pure absent
  | true => exact h rfl

end Parts

end CdcKafka.Lib
