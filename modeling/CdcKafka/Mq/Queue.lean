import CdcKafka.Lib.Ring
import CdcKafka.Lib.Wire
import Mathlib.Data.Nat.Log

/-! `storage/ipc/shm_mq.c`: the single-reader, single-writer message queue between two
backends. Each side is a machine whose step is one access to shared memory (a load or store of
a counter or flag, or one `memcpy` into or out of the ring) with the local code up to the
next access; the two machines interleave freely.

A latch wait is a pass through the loop around it, since any wait may return early. The byte
counters are `Nat`: a 64-bit counter of bytes does not wrap in the life of a queue. -/

namespace CdcKafka.Mq

open CdcKafka.Lib

def maxAllocSize : Nat := 0x3fffffff

/-- What is fixed for a queue: `MAXIMUM_ALIGNOF` and `sizeof(Size)` of the platform and the
queue's `mq_ring_size`. -/
structure Layout where
  maximumAlignof : Nat
  sizeofSize : Nat
  ringSize : Nat
  align_pos : 0 < maximumAlignof
  ring_pos : 0 < ringSize
  ring_aligned : maximumAlignof ∣ ringSize
  size_wide : maxAllocSize < 256 ^ sizeofSize

variable (L : Layout)

def Layout.maxAlign (n : Nat) : Nat := alignUp L.maximumAlignof n

def Layout.maxAlignDown (n : Nat) : Nat := n / L.maximumAlignof * L.maximumAlignof

inductive MqResult where
  | success
  | wouldBlock
  | detached
  /-- `ereport(ERROR)` for a message over `MaxAllocSize`. -/
  | error
  deriving DecidableEq, Repr

structure ShmMq where
  bytesRead : Nat
  bytesWritten : Nat
  /-- `mq_receiver` and `mq_sender` have been set. -/
  receiverSet : Bool
  senderSet : Bool
  detached : Bool
  ring : Nat → UInt8

structure Call where
  iov : List Bytes
  nowait : Bool
  forceFlush : Bool

def Call.nbytes (c : Call) : Nat := (c.iov.map List.length).sum

/-- Where `shm_mq_send_bytes` returns to: the length word, or the payload loop with the
vectors and offset it goes on with. -/
inductive SendPart where
  | word
  | payload (rest : List Bytes) (offset : Nat)
  deriving DecidableEq, Repr

/-- The next shared access of the sender. Those inside `shm_mq_send_bytes` carry its `data`
and `sent`. -/
inductive SendPc where
  | idle
  | readBytesRead (part : SendPart) (data : Bytes) (sent : Nat)
  | readBytesWritten (part : SendPart) (data : Bytes) (sent rb : Nat)
  | checkDetached (part : SendPart) (data : Bytes) (sent wb available : Nat)
  | counterpartyGone (part : SendPart) (data : Bytes) (sent : Nat)
  | getReceiver (part : SendPart) (data : Bytes) (sent : Nat)
  | waitReceiver (part : SendPart) (data : Bytes) (sent : Nat)
  | waitDetached (part : SendPart) (data : Bytes) (sent : Nat) (found : Bool)
  | publishFull (part : SendPart) (data : Bytes) (sent : Nat)
  | copy (part : SendPart) (data : Bytes) (sent wb available : Nat)
  | finished
  | findReceiver
  | flush
  | closing
  | closed
  deriving DecidableEq, Repr

structure Sender where
  sendPending : Nat
  partialBytes : Nat
  lengthWordComplete : Bool
  counterpartyAttached : Bool
  call : Call
  pc : SendPc
  result : MqResult
  /-- After `SHM_MQ_WOULD_BLOCK`: the message the caller has to retry with. -/
  owed : Option (List Bytes)
  /-- The messages written to their end, oldest first. -/
  sent : List Bytes

/-- The inner `for (;;)` of `shm_mq_sendv`: bytes for `tmpbuf` until it is full or the
vectors end. -/
def gather (A : Nat) : List Bytes → Nat → Bytes → Bytes × List Bytes × Nat
  | [], offset, tmpbuf => (tmpbuf, [], offset)
  | v :: vs, offset, tmpbuf =>
    let piece := (v.drop offset).take (A - tmpbuf.length)
    if (tmpbuf ++ piece).length = A then (tmpbuf ++ piece, v :: vs, offset + piece.length)
    else gather A vs (offset + piece.length - v.length) (tmpbuf ++ piece)

/-- The payload loop of `shm_mq_sendv` up to its next `shm_mq_send_bytes`: the bytes to send,
and the vectors and offset once they are sent. `more` is the loop's condition. -/
def nextChunk (more : Bool) : List Bytes → Nat → Option (Bytes × List Bytes × Nat)
  | [], _ => none
  | v :: vs, offset =>
    if v.length ≤ offset then
      if vs = [] then none else if more then nextChunk more vs (offset - v.length) else none
    else if vs ≠ [] ∧ v.length < offset + L.maximumAlignof then
      some (gather L.maximumAlignof (v :: vs) offset [])
    else
      let chunksize := if vs ≠ [] then L.maxAlignDown (v.length - offset) else v.length - offset
      some ((v.drop offset).take chunksize, v :: vs, offset + chunksize)

def Sender.finish (s : Sender) : Sender :=
  { s with
    partialBytes := 0
    lengthWordComplete := false
    owed := none
    sent := s.sent ++ [s.call.iov.flatten]
    pc := .finished }

def Sender.sendPayload (s : Sender) (rest : List Bytes) (offset : Nat) : Sender :=
  match nextChunk L (s.partialBytes < s.call.nbytes) rest offset with
  | some (data, rest', offset') => { s with pc := .readBytesRead (.payload rest' offset') data 0 }
  | none => s.finish

def Sender.enterSendv (s : Sender) : Sender :=
  if s.lengthWordComplete then s.sendPayload L s.call.iov s.partialBytes
  else
    let word := encodeLE L.sizeofSize s.call.nbytes
    { s with pc := .readBytesRead .word (word.drop s.partialBytes) 0 }

def Sender.returnDetached (s : Sender) : Sender :=
  { s with
    partialBytes := 0
    lengthWordComplete := false
    owed := none
    result := .detached
    pc := .idle }

/-- `mqh_partial_bytes += bytes_written`, and the length word counts as complete once all of
it is written. -/
def Sender.advance (s : Sender) (part : SendPart) (written : Nat) : Sender :=
  match part with
  | .word =>
    if L.sizeofSize ≤ s.partialBytes + written then
      { s with partialBytes := 0, lengthWordComplete := true }
    else { s with partialBytes := s.partialBytes + written }
  | .payload .. => { s with partialBytes := s.partialBytes + written }

def Sender.wouldBlock (s : Sender) (part : SendPart) (written : Nat) : Sender :=
  let s := s.advance L part written
  { s with result := .wouldBlock, owed := some s.call.iov, pc := .idle }

def Sender.bytesDone (s : Sender) (part : SendPart) (written : Nat) : Sender :=
  let s := s.advance L part written
  match part with
  | .word => s.enterSendv L
  | .payload rest offset =>
    if s.partialBytes < s.call.nbytes then s.sendPayload L rest offset else s.finish

def Sender.checkFlush (s : Sender) : Sender :=
  if s.call.forceFlush ∨ L.ringSize / 4 < s.sendPending then { s with pc := .flush }
  else { s with result := .success, pc := .idle }

def publish (mq : ShmMq) (s : Sender) : ShmMq × Sender :=
  ({ mq with bytesWritten := mq.bytesWritten + s.sendPending }, { s with sendPending := 0 })

def sendv (mq : ShmMq) (s : Sender) (c : Call) : Sender :=
  if s.pc = .idle ∧ mq.senderSet = true ∧ c.iov ≠ [] ∧ (s.owed = none ∨ s.owed = some c.iov) then
    if maxAllocSize < c.nbytes then { s with result := .error }
    else { s with call := c }.enterSendv L
  else s

def shmMqDetach (mq : ShmMq) (s : Sender) : ShmMq × Sender :=
  if s.pc = .idle then
    let (mq, s) := publish mq s
    (mq, { s with pc := .closing })
  else (mq, s)

/-- One step of the sender. `died` is what the background worker's status, where there is a
handle, says when it is asked. -/
def sendStep (died : Bool) (mq : ShmMq) (s : Sender) : ShmMq × Sender :=
  match s.pc with
  | .idle => (mq, s)
  | .readBytesRead part data sent =>
    (mq, { s with pc := .readBytesWritten part data sent mq.bytesRead })
  | .readBytesWritten part data sent rb =>
    let wb := mq.bytesWritten + s.sendPending
    let used := wb - rb
    let available := min (L.ringSize - used) (data.length - sent)
    (mq, { s with pc := .checkDetached part data sent wb available })
  | .checkDetached part data sent wb available =>
    if mq.detached then (mq, s.returnDetached)
    else if available = 0 then
      if s.counterpartyAttached then (mq, { s with pc := .publishFull part data sent })
      else if s.call.nowait then (mq, { s with pc := .counterpartyGone part data sent })
      else (mq, { s with pc := .waitReceiver part data sent })
    else (mq, { s with pc := .copy part data sent wb available })
  | .counterpartyGone part data sent =>
    if mq.detached || died then ({ mq with detached := true }, s.returnDetached)
    else (mq, { s with pc := .getReceiver part data sent })
  | .getReceiver part data sent =>
    if mq.receiverSet then
      (mq, { s with counterpartyAttached := true, pc := .readBytesRead part data sent })
    else (mq, s.wouldBlock L part sent)
  | .waitReceiver part data sent =>
    (mq, { s with pc := .waitDetached part data sent mq.receiverSet })
  | .waitDetached part data sent found =>
    if mq.detached then (mq, s.returnDetached)
    else if found then
      (mq, { s with counterpartyAttached := true, pc := .readBytesRead part data sent })
    else if died then ({ mq with detached := true }, s.returnDetached)
    else (mq, { s with pc := .waitReceiver part data sent })
  | .publishFull part data sent =>
    let (mq, s) := publish mq s
    if s.call.nowait then (mq, s.wouldBlock L part sent)
    else (mq, { s with pc := .readBytesRead part data sent })
  | .copy part data sent wb available =>
    let offset := wb % L.ringSize
    let sendnow := min available (L.ringSize - offset)
    let mq := { mq with ring := put mq.ring offset ((data.drop sent).take sendnow) }
    let s := { s with sendPending := s.sendPending + L.maxAlign sendnow }
    if sent + sendnow < data.length then
      (mq, { s with pc := .readBytesRead part data (sent + sendnow) })
    else (mq, s.bytesDone L part (sent + sendnow))
  | .finished =>
    if mq.detached then (mq, { s with result := .detached, pc := .idle })
    else if s.counterpartyAttached then (mq, s.checkFlush L)
    else (mq, { s with pc := .findReceiver })
  | .findReceiver => (mq, { s with counterpartyAttached := mq.receiverSet }.checkFlush L)
  | .flush =>
    let (mq, s) := publish mq s
    (mq, { s with result := .success, pc := .idle })
  | .closing => ({ mq with detached := true }, { s with pc := .closed })
  | .closed => (mq, s)

/-- Where `shm_mq_receive_bytes` returns to: the length word, the attempt at the whole
payload, or the copying loop. -/
inductive RecvPart where
  | word
  | whole
  | more
  deriving DecidableEq, Repr

inductive RecvPc where
  | idle
  | counterpartyGone
  | getSender (gone : Bool)
  | waitSender
  | waitDetached (found : Bool)
  | waitFailed
  | publishRead
  | readBytesWritten (part : RecvPart) (needed : Nat)
  | readBytesRead (part : RecvPart) (needed written : Nat)
  | checkDetached (part : RecvPart) (needed written : Nat)
  | recheckWritten (part : RecvPart) (needed written : Nat)
  | publishConsumed (part : RecvPart) (needed : Nat)
  | peekWord (rb offset : Nat)
  | copyWord (rb offset : Nat)
  | copyPayload (rb offset : Nat)
  /-- The caller holds a pointer into the ring and may read through it until it calls again. -/
  | returned (offset nbytes : Nat)
  deriving DecidableEq, Repr

structure Receiver where
  buffer : Nat → UInt8
  /-- `0` while `mqh_buffer` is `NULL`. -/
  buflen : Nat
  consumePending : Nat
  partialBytes : Nat
  expectedBytes : Nat
  lengthWordComplete : Bool
  counterpartyAttached : Bool
  nowait : Bool
  pc : RecvPc
  result : MqResult
  /-- The messages handed to the caller, oldest first. -/
  received : List Bytes

def Receiver.copied (r : Receiver) : Receiver :=
  if r.expectedBytes ≤ r.partialBytes then
    { r with
      received := r.received ++ [get r.buffer 0 r.expectedBytes]
      lengthWordComplete := false
      partialBytes := 0
      result := .success
      pc := .idle }
  else { r with pc := .readBytesWritten .more (r.expectedBytes - r.partialBytes) }

/-- `shm_mq_receive` once the length word is there: `nbytes = mqh_expected_bytes`. The copying
loop is entered again with nothing to copy. -/
def Receiver.enterPayload (r : Receiver) : Receiver :=
  if maxAllocSize < r.expectedBytes then { r with result := .error, pc := .idle }
  else if r.partialBytes = 0 then { r with pc := .readBytesWritten .whole r.expectedBytes }
  else r.copied

def Receiver.enterReceive (r : Receiver) : Receiver :=
  if r.lengthWordComplete then r.enterPayload
  else { r with pc := .readBytesWritten .word (L.sizeofSize - r.partialBytes) }

def Receiver.attached (r : Receiver) : Receiver :=
  let r := { r with counterpartyAttached := true }
  if L.ringSize / 4 < r.consumePending then { r with pc := .publishRead } else r.enterReceive L

def growBuffer (buflen nbytes : Nat) : Nat :=
  if buflen < nbytes then min (2 ^ Nat.clog 2 nbytes) maxAllocSize else buflen

def Receiver.bytesReady (r : Receiver) (part : RecvPart) (needed rb offset : Nat) : Receiver :=
  match part with
  | .word =>
    if r.partialBytes = 0 ∧ L.sizeofSize ≤ rb then { r with pc := .peekWord rb offset }
    else { r with pc := .copyWord rb offset }
  | .whole =>
    if r.expectedBytes ≤ rb then
      { r with
        lengthWordComplete := false
        consumePending := r.consumePending + L.maxAlign r.expectedBytes
        result := .success
        pc := .returned offset r.expectedBytes }
    else
      { r with
        buflen := growBuffer r.buflen r.expectedBytes
        pc := .copyPayload rb offset }
  | .more => { r with pc := .copyPayload (min rb needed) offset }

def consume (mq : ShmMq) (r : Receiver) : ShmMq × Receiver :=
  ({ mq with bytesRead := mq.bytesRead + r.consumePending }, { r with consumePending := 0 })

def receive (mq : ShmMq) (r : Receiver) (nowait : Bool) : Receiver :=
  if r.pc = .idle ∧ mq.receiverSet = true then
    let r := { r with nowait := nowait }
    if r.counterpartyAttached then r.attached L
    else if nowait then { r with pc := .counterpartyGone }
    else { r with pc := .waitSender }
  else r

def Receiver.starved (r : Receiver) (part : RecvPart) (needed : Nat) : Receiver :=
  if r.nowait then { r with result := .wouldBlock, pc := .idle }
  else { r with pc := .readBytesWritten part needed }

def recvStep (died : Bool) (mq : ShmMq) (r : Receiver) : ShmMq × Receiver :=
  match r.pc with
  | .idle => (mq, r)
  | .counterpartyGone =>
    ({ mq with detached := mq.detached || died }, { r with pc := .getSender (mq.detached || died) })
  | .getSender gone =>
    if mq.senderSet then (mq, r.attached L)
    else if gone then (mq, { r with result := .detached, pc := .idle })
    else (mq, { r with result := .wouldBlock, pc := .idle })
  | .waitSender => (mq, { r with pc := .waitDetached mq.senderSet })
  | .waitDetached found =>
    if mq.detached then (mq, { r with pc := .waitFailed })
    else if found then (mq, r.attached L)
    else if died then (mq, { r with pc := .waitFailed })
    else (mq, { r with pc := .waitSender })
  | .waitFailed =>
    if mq.senderSet then (mq, r.attached L)
    else ({ mq with detached := true }, { r with result := .detached, pc := .idle })
  | .publishRead =>
    let (mq, r) := consume mq r
    (mq, r.enterReceive L)
  | .readBytesWritten part needed =>
    (mq, { r with pc := .readBytesRead part needed mq.bytesWritten })
  | .readBytesRead part needed written =>
    let read := mq.bytesRead + r.consumePending
    let used := written - read
    let offset := read % L.ringSize
    if needed ≤ used ∨ L.ringSize ≤ offset + used then
      (mq, r.bytesReady L part needed (min used (L.ringSize - offset)) offset)
    else (mq, { r with pc := .checkDetached part needed written })
  | .checkDetached part needed written =>
    if mq.detached then (mq, { r with pc := .recheckWritten part needed written })
    else if 0 < r.consumePending then (mq, { r with pc := .publishConsumed part needed })
    else (mq, r.starved part needed)
  | .recheckWritten part needed written =>
    if written ≠ mq.bytesWritten then (mq, { r with pc := .readBytesWritten part needed })
    else (mq, { r with result := .detached, pc := .idle })
  | .publishConsumed part needed =>
    let (mq, r) := consume mq r
    (mq, r.starved part needed)
  | .peekWord rb offset =>
    let nbytes := decodeLE (get mq.ring offset L.sizeofSize)
    let needed := L.maxAlign L.sizeofSize + L.maxAlign nbytes
    if needed ≤ rb then
      (mq, { r with
        consumePending := r.consumePending + needed
        result := .success
        pc := .returned (offset + L.maxAlign L.sizeofSize) nbytes })
    else
      (mq, { r with
        expectedBytes := nbytes
        lengthWordComplete := true
        consumePending := r.consumePending + L.maxAlign L.sizeofSize }.enterPayload)
  | .copyWord rb offset =>
    let lengthbytes :=
      if L.sizeofSize < r.partialBytes + rb then L.sizeofSize - r.partialBytes else rb
    let r := { r with
      buffer := put r.buffer r.partialBytes (get mq.ring offset lengthbytes)
      buflen := if r.buflen = 0 then 8192 else r.buflen
      partialBytes := r.partialBytes + lengthbytes
      consumePending := r.consumePending + L.maxAlign lengthbytes }
    if L.sizeofSize ≤ r.partialBytes then
      (mq, { r with
        expectedBytes := decodeLE (get r.buffer 0 L.sizeofSize)
        lengthWordComplete := true
        partialBytes := 0 }.enterPayload)
    else (mq, { r with pc := .readBytesWritten .word (L.sizeofSize - r.partialBytes) })
  | .copyPayload rb offset =>
    (mq, { r with
      buffer := put r.buffer r.partialBytes (get mq.ring offset rb)
      partialBytes := r.partialBytes + rb
      consumePending := r.consumePending + L.maxAlign rb }.copied)
  | .returned offset nbytes =>
    (mq, { r with received := r.received ++ [get mq.ring offset nbytes], pc := .idle })

structure State where
  mq : ShmMq
  sender : Sender
  receiver : Receiver

inductive Event where
  | setSender
  | setReceiver
  | sendv (c : Call)
  | sender (died : Bool)
  | shmMqDetach
  | receive (nowait : Bool)
  | receiver (died : Bool)
  /-- Either side goes away: `shm_mq_detach_internal`. -/
  | detachInternal

def step (s : State) : Event → State
  | .setSender => { s with mq := { s.mq with senderSet := true } }
  | .setReceiver => { s with mq := { s.mq with receiverSet := true } }
  | .sendv c => { s with sender := sendv L s.mq s.sender c }
  | .sender died =>
    let (mq, sender) := sendStep L died s.mq s.sender
    { s with mq, sender }
  | .shmMqDetach =>
    let (mq, sender) := shmMqDetach s.mq s.sender
    { s with mq, sender }
  | .receive nowait => { s with receiver := receive L s.mq s.receiver nowait }
  | .receiver died =>
    let (mq, receiver) := recvStep L died s.mq s.receiver
    { s with mq, receiver }
  | .detachInternal => { s with mq := { s.mq with detached := true } }

/-- A queue just created, with both handles as `shm_mq_attach` makes them. What is in the
ring and the buffer is whatever was in that memory. -/
def create (ring buffer : Nat → UInt8) : State where
  mq := { bytesRead := 0, bytesWritten := 0, receiverSet := false, senderSet := false,
          detached := false, ring := ring }
  sender := { sendPending := 0, partialBytes := 0, lengthWordComplete := false,
              counterpartyAttached := false, call := ⟨[], false, false⟩, pc := .idle,
              result := .success, owed := none, sent := [] }
  receiver := { buffer := buffer, buflen := 0, consumePending := 0, partialBytes := 0,
                expectedBytes := 0, lengthWordComplete := false, counterpartyAttached := false,
                nowait := false, pc := .idle, result := .success, received := [] }

def run (s : State) (es : List Event) : State := es.foldl (step L) s

end CdcKafka.Mq
