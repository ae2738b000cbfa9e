import Mathlib.Data.List.TakeDrop

/-! A byte string that is delivered in pieces by a read function which may return fewer bytes than it is
asked for, though none only at the end. -/

namespace CdcKafka.Lib

structure ByteSource where
  rest : List UInt8
  calls : Nat

namespace ByteSource

-- By `splits`, the size of each piece is free.
variable (splits : Nat → Nat)

def read (s : ByteSource) (length : Nat) : List UInt8 × ByteSource :=
  let n := min length (splits s.calls + 1)
  (s.rest.take n, ⟨s.rest.drop n, s.calls + 1⟩)

variable {splits} {s : ByteSource} {length : Nat}

theorem read_append : (s.read splits length).1 ++ (s.read splits length).2.rest = s.rest := List.take_append_drop _ _

theorem length_read_le : (s.read splits length).1.length ≤ length := by
  rw [read, List.length_take]
  omega

theorem read_eq_nil_iff (hpos : 0 < length) : (s.read splits length).1.length = 0 ↔ s.rest = [] := by
  rw [read, List.length_take, ← List.length_eq_zero_iff]
  omega

end ByteSource

end CdcKafka.Lib
