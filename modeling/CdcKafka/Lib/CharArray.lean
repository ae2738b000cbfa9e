import CdcKafka.Lib.CString

/-! Arrays of characters of a fixed size, which are written from their start. -/

namespace CdcKafka.Lib

structure CharArray (size : Nat) where
  bytes : Bytes
  length_eq : bytes.length = size

namespace CharArray

variable {size n : Nat} {a a' : CharArray size} {b : Bytes}

def zero (size : Nat) : CharArray size := ⟨List.replicate size 0, List.length_replicate⟩

def write (a : CharArray size) (b : Bytes) : Option (CharArray size) :=
  if h : b.length ≤ size then
    some ⟨b ++ a.bytes.drop b.length, by rw [List.length_append, List.length_drop, a.length_eq]; omega⟩
  else none

def memset (a : CharArray size) (n : Nat) : Option (CharArray size) :=
  if n ≤ size then a.write (List.replicate n 0) else none

def strncpy (a : CharArray size) (src : Bytes) (n : Nat) : Option (CharArray size) :=
  if n ≤ size then a.write (src.take n ++ List.replicate (n - src.length) 0) else none

def Terminated (a : CharArray size) : Prop := 0 ∈ a.bytes

def string (a : CharArray size) : CStr := CStr.ofBytes a.bytes

theorem write_eq_some (h : a.write b = some a') : b.length ≤ size ∧ a'.bytes = b ++ a.bytes.drop b.length := by
  rw [write] at h
  split at h
  · next hle =>
    obtain rfl := Option.some.inj h
    exact ⟨hle, rfl⟩
  · cases h

theorem exists_write (a : CharArray size) (h : b.length ≤ size) :
    ∃ a', a.write b = some a' ∧ a'.bytes = b ++ a.bytes.drop b.length := by
  rw [write, dif_pos h]
  exact ⟨_, rfl, rfl⟩

theorem length_padded (src : Bytes) (n : Nat) : (src.take n ++ List.replicate (n - src.length) 0).length = n := by
  rw [List.length_append, List.length_take, List.length_replicate]
  omega

theorem memset_eq_some (h : a.memset n = some a') : n ≤ size ∧ a'.bytes = List.replicate n 0 ++ a.bytes.drop n := by
  rw [memset] at h
  split at h
  · have hwrite := write_eq_some h
    rwa [List.length_replicate] at hwrite
  · cases h

theorem exists_memset (a : CharArray size) (h : n ≤ size) :
    ∃ a', a.memset n = some a' ∧ a'.bytes = List.replicate n 0 ++ a.bytes.drop n := by
  obtain ⟨a', hwrite, hbytes⟩ := a.exists_write (b := List.replicate n 0) (by rwa [List.length_replicate])
  rw [List.length_replicate] at hbytes
  exact ⟨a', by rw [memset, if_pos h, hwrite], hbytes⟩

theorem strncpy_eq_some {src : Bytes} (h : a.strncpy src n = some a') :
    n ≤ size ∧ a'.bytes = src.take n ++ List.replicate (n - src.length) 0 ++ a.bytes.drop n := by
  rw [strncpy] at h
  split at h
  · have hwrite := write_eq_some h
    rwa [length_padded] at hwrite
  · cases h

theorem exists_strncpy (a : CharArray size) (src : Bytes) (h : n ≤ size) : ∃ a', a.strncpy src n = some a' ∧
      a'.bytes = src.take n ++ List.replicate (n - src.length) 0 ++ a.bytes.drop n := by
  obtain ⟨a', hwrite, hbytes⟩ := a.exists_write (b := src.take n ++ List.replicate (n - src.length) 0)
    (by rwa [length_padded])
  rw [length_padded] at hbytes
  exact ⟨a', by rw [strncpy, if_pos h, hwrite], hbytes⟩

end CharArray

end CdcKafka.Lib
