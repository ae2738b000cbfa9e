import Mathlib.Data.List.TakeWhile

/-! Byte buffers and the C strings read from them. -/

namespace CdcKafka.Lib

abbrev Bytes := List UInt8

def ascii (cs : List Char) : Bytes := cs.map fun c => UInt8.ofNat c.toNat

structure CStr where
  bytes : Bytes
  nonzero : ∀ b ∈ bytes, b ≠ 0
deriving DecidableEq

namespace CStr

theorem ext {s t : CStr} (h : s.bytes = t.bytes) : s = t := by
  cases s
  cases t
  simpa using h

def ofBytes (b : Bytes) : CStr where
  bytes := b.takeWhile (· ≠ 0)
  nonzero := fun c hc => by simpa using List.mem_takeWhile_imp hc

theorem ofBytes_bytes (s : CStr) : ofBytes s.bytes = s := by
  apply ext
  exact List.takeWhile_eq_self_iff.mpr fun b hb => by simpa using s.nonzero b hb

/-- A literal of the source. -/
def lit (cs : List Char) : CStr := ofBytes (ascii cs)

def joinDot (size : Nat) (a b : CStr) : CStr where
  bytes := (a.bytes ++ ascii ['.'] ++ b.bytes).take (size - 1)
  nonzero := fun c hc => by
    rcases List.mem_append.mp (List.mem_of_mem_take hc) with h | h
    · rcases List.mem_append.mp h with h | h
      · exact a.nonzero c h
      · obtain rfl := List.mem_singleton.mp h
        decide
    · exact b.nonzero c h

end CStr

end CdcKafka.Lib
