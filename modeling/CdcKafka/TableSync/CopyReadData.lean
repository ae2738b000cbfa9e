import CdcKafka.Lib.CString
import CdcKafka.Lib.Ring

/-! `copy_read_data` of `tablesync.c`, called again and again on one connection. -/

namespace CdcKafka.TableSync.ReadData

open CdcKafka.Lib

structure CopyBuf where
  data : Bytes
  cursor : Nat

def CopyBuf.leftover (b : CopyBuf) : Bytes := b.data.drop b.cursor

/-- `copybuf` and what `walrcv_receive` will return: nothing there yet, which is an empty entry, or a
message; the end of the data behind the last one. -/
structure Conn where
  copybuf : CopyBuf
  polls : List Bytes

def Conn.pending (c : Conn) : Bytes := c.copybuf.leftover ++ c.polls.flatten

structure Reading where
  memory : Nat → UInt8
  outbuf : Nat
  maxread : Nat
  bytesread : Nat
  copybuf : CopyBuf

def Reading.copy (s : Reading) : Reading :=
  let avail := min (s.copybuf.data.length - s.copybuf.cursor) s.maxread
  { s with
    memory := Lib.put s.memory s.outbuf (s.copybuf.leftover.take avail)
    maxread := s.maxread - avail
    bytesread := s.bytesread + avail
    copybuf := { s.copybuf with cursor := s.copybuf.cursor + avail } }

def Reading.process (s : Reading) (buf : Bytes) : Reading :=
  let t := Reading.copy { s with copybuf := ⟨buf, 0⟩ }
  { t with outbuf := s.outbuf + (t.bytesread - s.bytesread) }

def receive (minread : Nat) (s : Reading) : List Bytes → Reading × List Bytes
  | [] => (s, [])
  | buf :: polls =>
    if s.maxread = 0 ∨ minread ≤ s.bytesread then (s, buf :: polls)
    else if buf = [] then receive minread s polls
    else receive minread (s.process buf) polls

structure ReadCall where
  minread : Nat
  maxread : Nat
  pos : 1 ≤ minread
  le : minread ≤ maxread

structure ReadResult where
  conn : Conn
  bytesread : Nat
  memory : Nat → UInt8

def copyReadData (c : Conn) (call : ReadCall) (memory : Nat → UInt8) : ReadResult :=
  let s := Reading.copy ⟨memory, 0, call.maxread, 0, c.copybuf⟩
  let r := receive call.minread s c.polls
  ⟨⟨r.1.copybuf, r.2⟩, r.1.bytesread, r.1.memory⟩

def ReadResult.reported (r : ReadResult) : Bytes := Lib.get r.memory 0 r.bytesread

def run (c : Conn) : List (ReadCall × (Nat → UInt8)) → Conn × Bytes
  | [] => (c, [])
  | (call, memory) :: calls =>
    let r := copyReadData c call memory
    let rest := run r.conn calls
    (rest.1, r.reported ++ rest.2)

def Reading.Satisfied (s : Reading) (minread : Nat) : Prop := s.maxread = 0 ∨ minread ≤ s.bytesread

theorem copy_eq (s : Reading) : s.copy = let avail := min s.copybuf.leftover.length s.maxread
      ⟨Lib.put s.memory s.outbuf (s.copybuf.leftover.take avail), s.outbuf, s.maxread - avail, s.bytesread + avail,
        ⟨s.copybuf.data, s.copybuf.cursor + avail⟩⟩ := by
  rw [CopyBuf.leftover, List.length_drop]
  rfl

structure Taken (minread : Nat) (s : Reading) (polls : List Bytes) (fresh : Bytes) (c : Conn) : Prop where
  loop : ∀ memory, receive minread { s with memory := memory } polls =
    (⟨Lib.put memory s.outbuf fresh, s.outbuf + fresh.length, s.maxread - fresh.length, s.bytesread + fresh.length,
      c.copybuf⟩, c.polls)
  stream : s.copybuf.leftover ++ polls.flatten = fresh ++ c.pending
  fits : fresh.length ≤ s.maxread
  enough : minread ≤ s.bytesread + fresh.length ∨ fresh.length = s.maxread ∨ c.pending = []

theorem process_eq (s : Reading) (buf : Bytes) : s.process buf = let avail := min buf.length s.maxread
      ⟨Lib.put s.memory s.outbuf (buf.take avail), s.outbuf + avail, s.maxread - avail, s.bytesread + avail,
        ⟨buf, avail⟩⟩ := by
  rw [Reading.process, copy_eq]
  simp only [CopyBuf.leftover, List.drop_zero, Nat.add_sub_cancel_left, Nat.zero_add]

theorem taken_nothing {minread : Nat} {s : Reading} {polls : List Bytes}
    (hloop : ∀ memory, receive minread { s with memory := memory } polls = ({ s with memory := memory }, polls))
    (henough : s.Satisfied minread ∨ s.copybuf.leftover = [] ∧ polls = []) :
    Taken minread s polls [] ⟨s.copybuf, polls⟩ where
  loop := by
    intro memory
    rw [hloop, put_nil]
    rfl
  stream := rfl
  fits := Nat.zero_le _
  enough := by
    rcases henough with (hfull | henough) | ⟨hnone, rfl⟩
    · exact .inr (.inl hfull.symm)
    · exact .inl henough
    · exact .inr (.inr (by rw [Conn.pending, hnone]; rfl))

theorem taken_message {minread : Nat} {s : Reading} {buf : Bytes} {polls : List Bytes}
    (hsatisfied : ¬ s.Satisfied minread) (hnone : s.copybuf.leftover = []) (hbuf : buf ≠ [])
    (hrest : (s.process buf).Satisfied minread ∨ (s.process buf).copybuf.leftover = [] →
      ∃ fresh c, Taken minread (s.process buf) polls fresh c) :
    ∃ fresh c, Taken minread s (buf :: polls) fresh c := by
  have hprocess := process_eq s buf
  dsimp only at hprocess
  obtain ⟨avail, havail⟩ : ∃ avail, avail = min buf.length s.maxread := ⟨_, rfl⟩
  rw [← havail] at hprocess
  have hlength : (buf.take avail).length = avail := by
    rw [List.length_take]
    omega
  have hleftover : (s.process buf).copybuf.leftover = buf.drop avail := by
    rw [hprocess]
    rfl
  have hdrained : (s.process buf).Satisfied minread ∨ (s.process buf).copybuf.leftover = [] := by
    by_cases hroom : s.maxread - avail = 0
    · exact .inl (.inl (by rw [hprocess]; exact hroom))
    · exact .inr (by rw [hleftover]; exact List.drop_eq_nil_of_le (by omega))
  obtain ⟨fresh, c, hloop, hstream, hfits, henough⟩ := hrest hdrained
  rw [hprocess] at hfits henough
  dsimp only at hfits henough
  have htotal : (buf.take avail ++ fresh).length = avail + fresh.length := by rw [List.length_append, hlength]
  refine ⟨buf.take avail ++ fresh, c, fun memory => ?_, ?_, ?_, ?_⟩
  · have hstep : receive minread { s with memory := memory } (buf :: polls) =
        receive minread (Reading.process { s with memory := memory } buf) polls :=
      (if_neg hsatisfied).trans (if_neg hbuf)
    have hnext := process_eq { s with memory := memory } buf
    dsimp only at hnext
    rw [← havail] at hnext
    have hbehind := hloop (Lib.put memory s.outbuf (buf.take avail))
    rw [hprocess] at hbehind
    have hput := put_put memory s.outbuf (buf.take avail) fresh
    rw [hlength] at hput
    rw [hstep, hnext, hbehind, hput, htotal, Nat.add_assoc, Nat.add_assoc, Nat.sub_sub]
  · rw [hnone, List.nil_append, List.flatten_cons, List.append_assoc, ← hstream, hleftover, ← List.append_assoc,
      List.take_append_drop]
  · omega
  · rcases henough with henough | hfull | hended
    · exact .inl (by omega)
    · exact .inr (.inl (by omega))
    · exact .inr (.inr hended)

theorem exists_taken (minread : Nat) (s : Reading) (polls : List Bytes)
    (hdrained : s.Satisfied minread ∨ s.copybuf.leftover = []) : ∃ fresh c, Taken minread s polls fresh c := by
  induction polls generalizing s with
  | nil => exact ⟨_, _, taken_nothing (fun _ => rfl) (hdrained.imp_right fun hnone => ⟨hnone, rfl⟩)⟩
  | cons buf polls ih =>
    by_cases hsatisfied : s.Satisfied minread
    · exact ⟨_, _, taken_nothing (fun _ => if_pos hsatisfied) (.inl hsatisfied)⟩
    · have hnone := hdrained.resolve_left hsatisfied
      by_cases hbuf : buf = []
      · obtain ⟨fresh, c, htaken⟩ := ih s hdrained
        refine ⟨fresh, c, fun memory => ?_, ?_, htaken.fits, htaken.enough⟩
        · rw [← htaken.loop memory]
          exact (if_neg hsatisfied).trans (if_pos hbuf)
        · rw [hbuf, List.flatten_cons, List.nil_append]
          exact htaken.stream
      · exact taken_message hsatisfied hnone hbuf (ih (s.process buf))

/-- The call copies from one source only: nothing is left of the last message, or enough is, or no
message is to come. -/
def Separate (c : Conn) (call : ReadCall) : Prop :=
  c.copybuf.leftover = [] ∨ call.minread ≤ c.copybuf.leftover.length ∨ c.polls.flatten = []

structure Copied (c : Conn) (call : ReadCall) (first fresh : Bytes) (c' : Conn) : Prop where
  result : ∀ memory, copyReadData c call memory =
    ⟨c', first.length + fresh.length, Lib.put (Lib.put memory 0 first) 0 fresh⟩
  stream : c.pending = first ++ fresh ++ c'.pending
  fits : first.length + fresh.length ≤ call.maxread
  enough : call.minread ≤ first.length + fresh.length ∨ c'.pending = []
  separate : Separate c call ↔ first = [] ∨ fresh = []

section Call

variable {c c' : Conn} {call : ReadCall} {first fresh : Bytes} (h : Copied c call first fresh c')
include h

theorem Copied.conn_eq (memory : Nat → UInt8) : (copyReadData c call memory).conn = c' := by
  rw [h.result]

end Call

def Conn.after (c : Conn) (call : ReadCall) : Conn := (copyReadData c call fun _ => 0).conn

theorem Copied.after_eq {c c' : Conn} {call : ReadCall} {first fresh : Bytes} (h : Copied c call first fresh c')
    (memory : Nat → UInt8) : (copyReadData c call memory).conn = c.after call := by
  rw [Conn.after, h.conn_eq, h.conn_eq]

def Between (c : Conn) : List (ReadCall × (Nat → UInt8)) → Prop
  | [] => True
  | (call, memory) :: calls =>
    ((copyReadData c call memory).bytesread ≤ call.maxread ∧
      (call.minread ≤ (copyReadData c call memory).bytesread ∨ (copyReadData c call memory).conn.pending = [])) ∧
    Between (copyReadData c call memory).conn calls

end CdcKafka.TableSync.ReadData
