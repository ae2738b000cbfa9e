import CdcKafka.Mq.Sending

/-! The receiving side, and what holds of every run of a queue: the messages received are a
prefix of the messages sent, and the counters stay within one ring of each other. -/

namespace CdcKafka.Mq

open CdcKafka.Lib

variable (L : Layout) (msgs : List Bytes)

/-- The receiver has taken `got` and `partialBytes` bytes of the current segment of the next
message, which stand in its buffer. -/
structure Taken (R : Nat) (got : List Bytes) (complete : Bool) (partialBytes expected : Nat)
    (buffer : Nat → UInt8) : Prop where
  got_begun : got <+: msgs
  dvd : L.maximumAlignof ∣ partialBytes
  position : R = segStart L got complete + partialBytes
  next : complete = false ∧ partialBytes = 0 ∨ ∃ m, got ++ [m] <+: msgs ∧
    get buffer 0 partialBytes = (segData L m complete).take partialBytes ∧
    (complete = true → expected = m.length) ∧
    (partialBytes = 0 ∨ partialBytes < (segData L m complete).length)

def Asks (complete : Bool) (partialBytes expected : Nat) : RecvPart → Nat → Prop
  | .word, _ => complete = false
  | .whole, needed => complete = true ∧ partialBytes = 0 ∧ needed = expected
  | .more, needed => complete = true ∧ partialBytes + needed = expected

structure Readable (R bytesWritten rb offset : Nat) : Prop where
  offset_eq : offset = R % L.ringSize
  inside : offset + rb ≤ L.ringSize
  written : R + L.maxAlign rb ≤ bytesWritten

def At (mq : ShmMq) (r : Receiver) : Prop :=
  let taken := Taken L msgs (mq.bytesRead + r.consumePending) r.received r.lengthWordComplete
    r.partialBytes r.expectedBytes r.buffer
  let asks := Asks r.lengthWordComplete r.partialBytes r.expectedBytes
  let readable := Readable L (mq.bytesRead + r.consumePending) mq.bytesWritten
  match r.pc with
  | .idle | .counterpartyGone | .getSender _ | .waitSender | .waitDetached _ | .waitFailed
  | .publishRead => taken
  | .readBytesWritten part needed | .checkDetached part needed _ | .recheckWritten part needed _
  | .publishConsumed part needed => taken ∧ asks part needed
  | .readBytesRead part needed written =>
    taken ∧ asks part needed ∧ mq.bytesRead + r.consumePending ≤ written ∧
      written ≤ mq.bytesWritten ∧ L.maximumAlignof ∣ written
  | .peekWord rb offset =>
    taken ∧ r.lengthWordComplete = false ∧ r.partialBytes = 0 ∧ L.sizeofSize ≤ rb ∧
      readable rb offset ∧ L.maximumAlignof ∣ rb
  | .copyWord rb offset =>
    taken ∧ r.lengthWordComplete = false ∧ readable rb offset ∧ L.maximumAlignof ∣ rb
  | .copyPayload rb offset =>
    taken ∧ r.lengthWordComplete = true ∧ r.partialBytes + rb ≤ r.expectedBytes ∧
      readable rb offset ∧ (L.maximumAlignof ∣ rb ∨ r.partialBytes + rb = r.expectedBytes)
  | .returned offset nbytes =>
    ∃ m, r.received ++ [m] <+: msgs ∧ nbytes = m.length ∧
      Taken L msgs (mq.bytesRead + r.consumePending) (r.received ++ [m]) r.lengthWordComplete
        r.partialBytes r.expectedBytes r.buffer ∧
      r.lengthWordComplete = false ∧ r.partialBytes = 0 ∧
      Window L.ringSize (payloadAt L r.received) offset nbytes ∧
      mq.bytesRead ≤ payloadAt L r.received

structure RecvInv (mq : ShmMq) (r : Receiver) : Prop where
  dvd : L.maximumAlignof ∣ r.consumePending
  read_le : mq.bytesRead + r.consumePending ≤ mq.bytesWritten
  place : At L msgs mq r

variable {L msgs}

theorem Taken.mono {msgs' : List Bytes} {R p e : Nat} {got : List Bytes} {c : Bool}
    {buffer : Nat → UInt8} (h : Taken L msgs R got c p e buffer) (hpre : msgs <+: msgs') :
    Taken L msgs' R got c p e buffer where
  got_begun := h.got_begun.trans hpre
  dvd := h.dvd
  position := h.position
  next := by
    rcases h.next with hnone | ⟨m, hm, hrest⟩
    · exact .inl hnone
    · exact .inr ⟨m, hm.trans hpre, hrest⟩

theorem Readable.mono {R bw bw' rb offset : Nat} (h : Readable L R bw rb offset)
    (hle : bw ≤ bw') : Readable L R bw' rb offset :=
  ⟨h.offset_eq, h.inside, h.written.trans hle⟩

theorem RecvInv.mono {msgs' : List Bytes} {mq mq' : ShmMq} {r : Receiver}
    (h : RecvInv L msgs mq r) (hpre : msgs <+: msgs') (hr : mq'.bytesRead = mq.bytesRead)
    (hw : mq.bytesWritten ≤ mq'.bytesWritten) : RecvInv L msgs' mq' r where
  dvd := h.dvd
  read_le := by
    rw [hr]
    exact h.read_le.trans hw
  place := by
    have hplace := h.place
    unfold At at hplace ⊢
    simp only [hr]
    split at hplace
    case h_8 | h_9 | h_10 | h_11 => exact ⟨hplace.1.mono hpre, hplace.2⟩
    case h_12 =>
      obtain ⟨ht, ha, hle, hwr, hd⟩ := hplace
      exact ⟨ht.mono hpre, ha, hle, hwr.trans hw, hd⟩
    case h_13 =>
      obtain ⟨ht, hc, hp, hs, hread, hd⟩ := hplace
      exact ⟨ht.mono hpre, hc, hp, hs, hread.mono hw, hd⟩
    case h_14 =>
      obtain ⟨ht, hc, hread, hd⟩ := hplace
      exact ⟨ht.mono hpre, hc, hread.mono hw, hd⟩
    case h_15 =>
      obtain ⟨ht, hc, hle, hread, hd⟩ := hplace
      exact ⟨ht.mono hpre, hc, hle, hread.mono hw, hd⟩
    case h_16 =>
      obtain ⟨m, hm, hn, ht, hrest⟩ := hplace
      exact ⟨m, hm.trans hpre, hn, ht.mono hpre, hrest⟩
    all_goals exact hplace.mono hpre

theorem at_copied {mq : ShmMq} {r : Receiver} {m : Bytes}
    (hm : r.received ++ [m] <+: msgs) (hc : r.lengthWordComplete = true)
    (hlen : r.expectedBytes = m.length) (hle : r.partialBytes ≤ m.length)
    (hdvd : L.maximumAlignof ∣ r.partialBytes ∨ r.partialBytes = m.length)
    (hbuf : get r.buffer 0 r.partialBytes = m.take r.partialBytes)
    (hR : mq.bytesRead + r.consumePending =
      payloadAt L r.received + L.maxAlign r.partialBytes) : At L msgs mq r.copied := by
  unfold Receiver.copied
  split
  · next hall =>
    have hpart : r.partialBytes = m.length := by omega
    have hwhole : get r.buffer 0 r.expectedBytes = m := by
      rw [hlen, ← hpart, hbuf, hpart, List.take_length]
    refine ⟨?_, dvd_zero _, ?_, .inl ⟨rfl, rfl⟩⟩
    · rw [hwhole]
      exact hm
    · rw [hwhole]
      show mq.bytesRead + r.consumePending = total L (r.received ++ [m]) + 0
      rw [hR, hpart, total_snoc, Nat.add_zero]
  · next hmore =>
    have haligned : L.maximumAlignof ∣ r.partialBytes := by
      rcases hdvd with hdvd | hall
      · exact hdvd
      · omega
    rw [maxAlign_of_dvd haligned] at hR
    have hleft : r.partialBytes + (r.expectedBytes - r.partialBytes) = r.expectedBytes := by omega
    refine ⟨⟨(List.prefix_append _ _).trans hm, haligned, ?_, .inr ⟨m, hm, ?_, fun _ => hlen, ?_⟩⟩, hc, hleft⟩
    · rw [hc]
      exact hR
    · rw [hc]
      exact hbuf
    · refine .inr ?_
      rw [hc]
      show r.partialBytes < m.length
      omega

theorem at_enterPayload {mq : ShmMq} {r : Receiver} (hc : r.lengthWordComplete = true)
    (h : Taken L msgs (mq.bytesRead + r.consumePending) r.received r.lengthWordComplete
      r.partialBytes r.expectedBytes r.buffer) : At L msgs mq r.enterPayload := by
  unfold Receiver.enterPayload
  split
  · exact h
  · split
    · next hzero => exact ⟨h, hc, hzero, rfl⟩
    · next hpos =>
      rcases h.next with ⟨-, hzero⟩ | ⟨m, hm, hbuf, hlen, hlt⟩
      · exact absurd hzero hpos
      · rw [hc] at hbuf hlt
        have hlt' : r.partialBytes < m.length := hlt.resolve_left hpos
        refine at_copied hm hc (hlen hc) hlt'.le (.inl h.dvd) hbuf ?_
        rw [h.position, hc, maxAlign_of_dvd h.dvd]
        rfl

theorem at_enterReceive {mq : ShmMq} {r : Receiver}
    (h : Taken L msgs (mq.bytesRead + r.consumePending) r.received r.lengthWordComplete
      r.partialBytes r.expectedBytes r.buffer) : At L msgs mq (r.enterReceive L) := by
  unfold Receiver.enterReceive
  split
  · next hc => exact at_enterPayload hc h
  · next hc =>
    have hword : r.lengthWordComplete = false := by simpa using hc
    exact ⟨h, hword⟩

theorem at_attached {mq : ShmMq} {r : Receiver}
    (h : Taken L msgs (mq.bytesRead + r.consumePending) r.received r.lengthWordComplete
      r.partialBytes r.expectedBytes r.buffer) : At L msgs mq (r.attached L) := by
  simp only [Receiver.attached]
  split
  · exact h
  · exact at_enterReceive h

theorem at_starved {mq : ShmMq} {r : Receiver} {part : RecvPart} {needed : Nat}
    (h : Taken L msgs (mq.bytesRead + r.consumePending) r.received r.lengthWordComplete
      r.partialBytes r.expectedBytes r.buffer)
    (ha : Asks r.lengthWordComplete r.partialBytes r.expectedBytes part needed) :
    At L msgs mq (r.starved part needed) := by
  unfold Receiver.starved
  split
  · exact h
  · exact ⟨h, ha⟩

@[simp] theorem consumePending_copied (r : Receiver) :
    r.copied.consumePending = r.consumePending := by
  unfold Receiver.copied
  split <;> rfl

@[simp] theorem consumePending_enterPayload (r : Receiver) :
    r.enterPayload.consumePending = r.consumePending := by
  unfold Receiver.enterPayload
  split
  · rfl
  · split
    · rfl
    · exact consumePending_copied r

@[simp] theorem consumePending_enterReceive (r : Receiver) :
    (r.enterReceive L).consumePending = r.consumePending := by
  unfold Receiver.enterReceive
  split
  · exact consumePending_enterPayload r
  · rfl

@[simp] theorem consumePending_attached (r : Receiver) :
    (r.attached L).consumePending = r.consumePending := by
  simp only [Receiver.attached]
  split
  · rfl
  · exact consumePending_enterReceive _

@[simp] theorem consumePending_starved (r : Receiver) (part : RecvPart) (needed : Nat) :
    (r.starved part needed).consumePending = r.consumePending := by
  unfold Receiver.starved
  split <;> rfl

theorem RecvInv.local {mq mq' : ShmMq} {r r' : Receiver} (h : RecvInv L msgs mq r)
    (hr : mq'.bytesRead = mq.bytesRead) (hw : mq'.bytesWritten = mq.bytesWritten)
    (hc : r'.consumePending = r.consumePending) (hplace : At L msgs mq' r') :
    RecvInv L msgs mq' r' where
  dvd := hc ▸ h.dvd
  read_le := by
    rw [hr, hw, hc]
    exact h.read_le
  place := hplace

theorem RecvInv.consume {mq : ShmMq} {r r' : Receiver} (h : RecvInv L msgs mq r)
    (hc : r'.consumePending = 0) (hplace : At L msgs (Mq.consume mq r).1 r') :
    RecvInv L msgs (Mq.consume mq r).1 r' where
  dvd := hc ▸ dvd_zero _
  read_le := by
    rw [hc]
    exact h.read_le
  place := hplace

theorem RecvInv.advance {mq : ShmMq} {r r' : Receiver} {k : Nat} (h : RecvInv L msgs mq r)
    (hdvd : L.maximumAlignof ∣ k) (hle : mq.bytesRead + r.consumePending + k ≤ mq.bytesWritten)
    (hc : r'.consumePending = r.consumePending + k) (hplace : At L msgs mq r') :
    RecvInv L msgs mq r' where
  dvd := hc ▸ (Nat.dvd_add_right h.dvd).mpr hdvd
  read_le := by
    rw [hc, ← Nat.add_assoc]
    exact hle
  place := hplace

theorem RecvInv.receive {mq : ShmMq} {r : Receiver} (h : RecvInv L msgs mq r) (nowait : Bool) :
    RecvInv L msgs mq (receive L mq r nowait) := by
  unfold Mq.receive
  split
  · next hcall =>
    have hplace := h.place
    simp only [At, hcall.1] at hplace
    by_cases ha : r.counterpartyAttached = true
    · simp only [ha, if_true]
      exact h.local rfl rfl (consumePending_attached _) (at_attached hplace)
    · simp only [ha, Bool.false_eq_true, if_false]
      split <;> exact h.local rfl rfl rfl hplace
  · exact h

theorem read_chunk {mq : ShmMq} {s : Sender} {r : Receiver} {got : List Bytes} {m : Bytes}
    {rb offset n : Nat} (hs : SendInv L msgs mq s)
    (hR : mq.bytesRead + r.consumePending = segStart L got r.lengthWordComplete + r.partialBytes)
    (hm : got ++ [m] <+: msgs)
    (hread : Readable L (mq.bytesRead + r.consumePending) mq.bytesWritten rb offset)
    (hn : n ≤ rb) (hfit : r.partialBytes + n ≤ (segData L m r.lengthWordComplete).length) :
    get mq.ring offset n = ((segData L m r.lengthWordComplete).drop r.partialBytes).take n := by
  have hinside := hread.inside
  have hwritten := hread.written
  have hround := le_maxAlign (L := L) rb
  refine hs.ledger.holds.read_segment (segment_at _ hm) ?_ ?_ hfit ?_
  · omega
  · omega
  · rw [← hR, hread.offset_eq]
    refine window_mod ?_
    rw [← hread.offset_eq]
    omega

theorem get_buffer {buffer : Nat → UInt8} {seg d : Bytes} {p n : Nat}
    (hbuf : get buffer 0 p = seg.take p) (hd : d = (seg.drop p).take n)
    (hfit : p + n ≤ seg.length) : get (put buffer p d) 0 (p + n) = seg.take (p + n) := by
  have hlen : d.length = n := by
    rw [hd, List.length_take, List.length_drop]
    omega
  have happend := get_put buffer 0 p d
  rw [Nat.zero_add, hlen, hbuf, hd, ← List.take_add] at happend
  rw [hd]
  exact happend

theorem exists_message {R n p e : Nat} {got : List Bytes} {buffer : Nat → UInt8}
    (h : Taken L msgs R got false p e buffer) (hle : R + n ≤ total L msgs) (hpos : 0 < p + n) :
    ∃ m, got ++ [m] <+: msgs ∧ get buffer 0 p = (lengthWord L m).take p := by
  rcases h.next with ⟨-, hzero⟩ | ⟨m, hm, hbuf, -⟩
  · have hposition : R = total L got + p := h.position
    have hlt : total L got < total L msgs := by omega
    obtain ⟨m, hm⟩ := exists_next h.got_begun hlt
    exact ⟨m, hm, by simp [hzero]⟩
  · exact ⟨m, hm, hbuf⟩

theorem RecvInv.bytesReady {mq : ShmMq} {r : Receiver} {part : RecvPart} {needed rb offset : Nat}
    (h : RecvInv L msgs mq r)
    (ht : Taken L msgs (mq.bytesRead + r.consumePending) r.received r.lengthWordComplete
      r.partialBytes r.expectedBytes r.buffer)
    (ha : Asks r.lengthWordComplete r.partialBytes r.expectedBytes part needed)
    (hread : Readable L (mq.bytesRead + r.consumePending) mq.bytesWritten rb offset)
    (hdvd : L.maximumAlignof ∣ rb) :
    RecvInv L msgs mq (r.bytesReady L part needed rb offset) := by
  have hwritten := hread.written
  have hinside := hread.inside
  cases part with
  | word =>
    simp only [Receiver.bytesReady]
    split
    · next hword => exact h.local rfl rfl rfl ⟨ht, ha, hword.1, hword.2, hread, hdvd⟩
    · exact h.local rfl rfl rfl ⟨ht, ha, hread, hdvd⟩
  | whole =>
    obtain ⟨hc, hzero, -⟩ := ha
    simp only [Receiver.bytesReady]
    split
    · -- the whole payload is in one piece: the caller gets a pointer to it
      next hall =>
      rcases ht.next with ⟨hword, -⟩ | ⟨m, hm, -, hlen, -⟩
      · rw [hc] at hword
        cases hword
      · have hexpected := hlen hc
        have hposition : mq.bytesRead + r.consumePending = payloadAt L r.received := by
          rw [ht.position, hc, hzero]
          rfl
        have hround : L.maxAlign r.expectedBytes ≤ rb := alignUp_le L.align_pos hdvd hall
        have hself := le_maxAlign (L := L) rb
        refine h.advance (dvd_alignUp _ r.expectedBytes) (show _ + L.maxAlign _ ≤ _ by omega) rfl ?_
        refine ⟨m, hm, hexpected, ⟨hm, ?_, ?_, .inl ⟨rfl, hzero⟩⟩, rfl, hzero, ?_, ?_⟩
        · show L.maximumAlignof ∣ r.partialBytes
          rw [hzero]
          exact dvd_zero _
        · show mq.bytesRead + (r.consumePending + L.maxAlign r.expectedBytes) =
            total L (r.received ++ [m]) + r.partialBytes
          rw [total_snoc, ← hposition, hexpected, hzero]
          omega
        · show Window L.ringSize (payloadAt L r.received) offset r.expectedBytes
          rw [← hposition, hread.offset_eq]
          refine window_mod ?_
          rw [← hread.offset_eq]
          omega
        · show mq.bytesRead ≤ payloadAt L r.received
          omega
    · next hshort =>
      have hle : r.partialBytes + rb ≤ r.expectedBytes := by omega
      exact h.local rfl rfl rfl ⟨ht, hc, hle, hread, .inl hdvd⟩
  | more =>
    obtain ⟨hc, hneeded⟩ := ha
    have hmin : min rb needed ≤ rb := Nat.min_le_left _ _
    have hround : L.maxAlign (min rb needed) ≤ L.maxAlign rb := alignUp_mono _ hmin
    have hle : r.partialBytes + min rb needed ≤ r.expectedBytes := by omega
    have hread' : Readable L (mq.bytesRead + r.consumePending) mq.bytesWritten (min rb needed)
        offset := ⟨hread.offset_eq, by omega, by omega⟩
    have hend : L.maximumAlignof ∣ min rb needed ∨ r.partialBytes + min rb needed = r.expectedBytes := by
      rcases Nat.le_total rb needed with hlt | hlt
      · rw [Nat.min_eq_left hlt]
        exact .inl hdvd
      · rw [Nat.min_eq_right hlt]
        exact .inr hneeded
    exact h.local rfl rfl rfl ⟨ht, hc, hle, hread', hend⟩

theorem RecvInv.peekWord {mq : ShmMq} {s : Sender} {r : Receiver} {rb offset : Nat} {died : Bool}
    (hs : SendInv L msgs mq s) (h : RecvInv L msgs mq r) (hpc : r.pc = .peekWord rb offset) :
    RecvInv L msgs (recvStep L died mq r).1 (recvStep L died mq r).2 := by
  have hplace := h.place
  simp only [At, hpc] at hplace
  obtain ⟨ht, hc, hzero, hsize, hread, hdvd⟩ := hplace
  have hS := sizeofSize_pos (L := L)
  have hself := le_maxAlign (L := L) rb
  have hwritten := hread.written
  have hinside := hread.inside
  have hposition : mq.bytesRead + r.consumePending = total L r.received := by
    rw [ht.position, hc, hzero]
    rfl
  have hbound := hs.le_total.1
  rw [hc] at ht
  obtain ⟨m, hm, -⟩ := exists_message (n := rb) ht (by omega) (by omega)
  have hshort : m.length ≤ maxAllocSize :=
    hs.ledger.short m (hm.subset (List.mem_append_right _ (List.mem_singleton_self m)))
  have hword : get mq.ring offset L.sizeofSize = lengthWord L m := by
    have hchunk := read_chunk (r := r) hs (by rw [hc]; exact ht.position) hm hread hsize
      (by rw [hc, hzero, length_segData_false]; omega)
    rw [hc, hzero, List.drop_zero] at hchunk
    rw [hchunk]
    exact List.take_of_length_le (length_lengthWord m).le
  have hlen : decodeLE (get mq.ring offset L.sizeofSize) = m.length := by
    rw [hword, decode_lengthWord hshort]
  have hroundS : L.maxAlign L.sizeofSize ≤ rb := alignUp_le L.align_pos hdvd hsize
  have hdvdS : L.maximumAlignof ∣ L.maxAlign L.sizeofSize := dvd_alignUp _ _
  have hpay : payloadAt L r.received = total L r.received + L.maxAlign L.sizeofSize := rfl
  simp only [recvStep, hpc, hlen]
  split
  · -- the message ends in the same piece
    next hneeded =>
    have hdvd' : L.maximumAlignof ∣ L.maxAlign L.sizeofSize + L.maxAlign m.length :=
      (Nat.dvd_add_right hdvdS).mpr (dvd_alignUp _ _)
    refine h.advance hdvd' (by omega) rfl ?_
    refine ⟨m, hm, rfl, ⟨hm, ?_, ?_, .inl ⟨hc, hzero⟩⟩, hc, hzero, ?_, ?_⟩
    · show L.maximumAlignof ∣ r.partialBytes
      rw [hzero]
      exact dvd_zero _
    · show mq.bytesRead + (r.consumePending + (L.maxAlign L.sizeofSize + L.maxAlign m.length)) =
        segStart L (r.received ++ [m]) r.lengthWordComplete + r.partialBytes
      have htotal := total_snoc (L := L) r.received m
      have hstart : segStart L (r.received ++ [m]) false = total L (r.received ++ [m]) := rfl
      rw [hc, hzero, hstart]
      omega
    · show Window L.ringSize (payloadAt L r.received) (offset + L.maxAlign L.sizeofSize) m.length
      have hfits := le_maxAlign (L := L) m.length
      have hwin : Window L.ringSize (total L r.received) offset rb := by
        rw [← hposition, hread.offset_eq]
        refine window_mod ?_
        rw [← hread.offset_eq]
        exact hinside
      exact (hwin.shift (L.maxAlign L.sizeofSize)).mono (by omega)
    · show mq.bytesRead ≤ payloadAt L r.received
      omega
  · refine h.advance hdvdS (by omega) (by simp) ?_
    refine at_enterPayload rfl ⟨ht.got_begun, ht.dvd, ?_, .inr ⟨m, hm, ?_, fun _ => rfl, .inl hzero⟩⟩
    · show mq.bytesRead + (r.consumePending + L.maxAlign L.sizeofSize) = payloadAt L r.received + r.partialBytes
      omega
    · show get r.buffer 0 r.partialBytes = _
      rw [hzero]
      rfl

theorem RecvInv.copyWord {mq : ShmMq} {s : Sender} {r : Receiver} {rb offset : Nat} {died : Bool}
    (hs : SendInv L msgs mq s) (h : RecvInv L msgs mq r) (hpc : r.pc = .copyWord rb offset) :
    RecvInv L msgs (recvStep L died mq r).1 (recvStep L died mq r).2 := by
  have hplace := h.place
  simp only [At, hpc] at hplace
  obtain ⟨ht, hc, hread, hdvd⟩ := hplace
  have hself := le_maxAlign (L := L) rb
  have hwritten := hread.written
  have hinside := hread.inside
  have hbound := hs.le_total.1
  rw [hc] at ht
  have hposition : mq.bytesRead + r.consumePending = total L r.received + r.partialBytes :=
    ht.position
  have hpartlt : r.partialBytes < L.sizeofSize := by
    rcases ht.next with ⟨-, hzero⟩ | ⟨m, -, -, -, hzero | hlt⟩
    · rw [hzero]
      exact sizeofSize_pos
    · rw [hzero]
      exact sizeofSize_pos
    · rwa [length_segData_false] at hlt
  generalize hk : (if L.sizeofSize < r.partialBytes + rb then L.sizeofSize - r.partialBytes
    else rb) = lengthbytes
  have hkle : lengthbytes ≤ rb ∧ r.partialBytes + lengthbytes ≤ L.sizeofSize ∧
      (r.partialBytes + lengthbytes = L.sizeofSize ∨ lengthbytes = rb) := by
    split at hk <;> omega
  obtain ⟨hle, hfit, hend⟩ := hkle
  have hround : L.maxAlign lengthbytes ≤ rb := alignUp_le L.align_pos hdvd hle
  have hadd : L.maxAlign (r.partialBytes + lengthbytes) =
      r.partialBytes + L.maxAlign lengthbytes := alignUp_add L.align_pos ht.dvd _
  -- what the buffer holds of the length word afterwards, once there is something of it
  have hword : 0 < r.partialBytes + lengthbytes → ∃ m, r.received ++ [m] <+: msgs ∧
      get (put r.buffer r.partialBytes (get mq.ring offset lengthbytes)) 0
        (r.partialBytes + lengthbytes) = (lengthWord L m).take (r.partialBytes + lengthbytes) := by
    intro hpos
    obtain ⟨m, hm, hbuf⟩ := exists_message (n := lengthbytes) ht (by omega) hpos
    refine ⟨m, hm, get_buffer hbuf ?_ (by rwa [length_lengthWord])⟩
    have hchunk := read_chunk (r := r) hs (by rw [hc]; exact ht.position) hm hread hle
      (by rwa [hc, length_segData_false])
    rw [hc] at hchunk
    exact hchunk
  simp only [recvStep, hpc, hk]
  split
  · -- the length word is complete
    next hfull =>
    have hS : r.partialBytes + lengthbytes = L.sizeofSize := by omega
    obtain ⟨m, hm, hbuf⟩ := hword (by omega)
    have hshort : m.length ≤ maxAllocSize :=
      hs.ledger.short m (hm.subset (List.mem_append_right _ (List.mem_singleton_self m)))
    rw [hS, List.take_of_length_le (length_lengthWord m).le] at hbuf
    rw [hS] at hadd
    refine h.advance (dvd_alignUp _ lengthbytes) (show _ + L.maxAlign _ ≤ _ by omega) (by simp; rfl) ?_
    refine at_enterPayload rfl ⟨ht.got_begun, dvd_zero _, ?_, .inr ⟨m, hm, rfl, ?_, .inl rfl⟩⟩
    · show mq.bytesRead + (r.consumePending + L.maxAlign lengthbytes) = total L r.received + L.maxAlign L.sizeofSize + 0
      omega
    · intro _
      show decodeLE (get (put r.buffer r.partialBytes (get mq.ring offset lengthbytes)) 0 L.sizeofSize) = m.length
      rw [hbuf, decode_lengthWord hshort]
  · next hpart =>
    have hall : lengthbytes = rb := by omega
    have hdvdk : L.maximumAlignof ∣ lengthbytes := hall ▸ hdvd
    refine h.advance (dvd_alignUp _ lengthbytes) (show _ + L.maxAlign _ ≤ _ by omega) rfl ?_
    refine ⟨⟨ht.got_begun, (Nat.dvd_add_right ht.dvd).mpr hdvdk, ?_, ?_⟩, hc⟩
    · show mq.bytesRead + (r.consumePending + L.maxAlign lengthbytes) =
        segStart L r.received r.lengthWordComplete + (r.partialBytes + lengthbytes)
      have hstart : segStart L r.received false = total L r.received := rfl
      rw [hc, hstart, maxAlign_of_dvd hdvdk]
      omega
    · by_cases hpos : 0 < r.partialBytes + lengthbytes
      · obtain ⟨m, hm, hbuf⟩ := hword hpos
        refine .inr ⟨m, hm, ?_, ?_, .inr ?_⟩
        · show get _ 0 (r.partialBytes + lengthbytes) = (segData L m r.lengthWordComplete).take _
          rw [hc]
          exact hbuf
        · intro hc'
          rw [hc] at hc'
          cases hc'
        · show r.partialBytes + lengthbytes < (segData L m r.lengthWordComplete).length
          rw [hc, length_segData_false]
          omega
      · have hzero : r.partialBytes + lengthbytes = 0 := by omega
        exact .inl ⟨hc, hzero⟩

theorem RecvInv.copyPayload {mq : ShmMq} {s : Sender} {r : Receiver} {rb offset : Nat}
    {died : Bool} (hs : SendInv L msgs mq s) (h : RecvInv L msgs mq r)
    (hpc : r.pc = .copyPayload rb offset) :
    RecvInv L msgs (recvStep L died mq r).1 (recvStep L died mq r).2 := by
  have hplace := h.place
  simp only [At, hpc] at hplace
  obtain ⟨ht, hc, hle, hread, hend⟩ := hplace
  rcases ht.next with ⟨hword, -⟩ | ⟨m, hm, hbuf, hlen, -⟩
  · rw [hc] at hword
    cases hword
  have hexpected := hlen hc
  have hseg : segData L m r.lengthWordComplete = m := by
    rw [hc]
    rfl
  have hchunk := read_chunk (r := r) hs ht.position hm hread (Nat.le_refl rb) (by rw [hseg]; omega)
  rw [hseg] at hbuf hchunk
  have hnew := get_buffer hbuf hchunk (by omega)
  have hadd : L.maxAlign (r.partialBytes + rb) = r.partialBytes + L.maxAlign rb :=
    alignUp_add L.align_pos ht.dvd _
  have hposition : mq.bytesRead + r.consumePending = payloadAt L r.received + r.partialBytes := by
    rw [ht.position, hc]
    rfl
  simp only [recvStep, hpc]
  refine h.advance (dvd_alignUp _ rb) hread.written (by simp; rfl) ?_
  refine at_copied hm hc hexpected (by rw [← hexpected]; exact hle) ?_ hnew ?_
  · rcases hend with hdvd | hall
    · exact .inl ((Nat.dvd_add_right ht.dvd).mpr hdvd)
    · exact .inr (hexpected ▸ hall)
  · show mq.bytesRead + (r.consumePending + L.maxAlign rb) = payloadAt L r.received + L.maxAlign (r.partialBytes + rb)
    omega

theorem RecvInv.returned {mq : ShmMq} {s : Sender} {r : Receiver} {offset nbytes : Nat}
    {died : Bool} (hs : SendInv L msgs mq s) (h : RecvInv L msgs mq r)
    (hpc : r.pc = .returned offset nbytes) :
    RecvInv L msgs (recvStep L died mq r).1 (recvStep L died mq r).2 := by
  have hplace := h.place
  simp only [At, hpc] at hplace
  obtain ⟨m, hm, rfl, ht, hc, hzero, hwin, hlo⟩ := hplace
  have hend : mq.bytesRead + r.consumePending = total L (r.received ++ [m]) := by
    rw [ht.position, hc, hzero]
    rfl
  have hread_le := h.read_le
  have hfits := le_maxAlign (L := L) m.length
  rw [total_snoc] at hend
  have hmessage : get mq.ring offset m.length = m := by
    have hread := hs.ledger.holds.read_segment (k := 0) (segment_payload hm) (by omega) (by omega)
      (Nat.zero_add _).le (by simpa using hwin)
    rwa [List.drop_zero, List.take_length] at hread
  simp only [recvStep, hpc, hmessage]
  exact h.local rfl rfl rfl ht

theorem RecvInv.step {mq : ShmMq} {s : Sender} {r : Receiver} (hs : SendInv L msgs mq s)
    (h : RecvInv L msgs mq r) (died : Bool) :
    RecvInv L msgs (recvStep L died mq r).1 (recvStep L died mq r).2 := by
  have hplace := h.place
  cases hpc : r.pc with
  | idle =>
    simp only [recvStep, hpc]
    exact h
  | counterpartyGone | waitSender =>
    simp only [At, hpc] at hplace
    simp only [recvStep, hpc]
    exact h.local rfl rfl rfl hplace
  | getSender gone =>
    simp only [At, hpc] at hplace
    simp only [recvStep, hpc]
    split
    · exact h.local rfl rfl (consumePending_attached r) (at_attached hplace)
    · split <;> exact h.local rfl rfl rfl hplace
  | waitDetached found =>
    simp only [At, hpc] at hplace
    simp only [recvStep, hpc]
    split
    · exact h.local rfl rfl rfl hplace
    · split
      · exact h.local rfl rfl (consumePending_attached r) (at_attached hplace)
      · split <;> exact h.local rfl rfl rfl hplace
  | waitFailed =>
    simp only [At, hpc] at hplace
    simp only [recvStep, hpc]
    split
    · exact h.local rfl rfl (consumePending_attached r) (at_attached hplace)
    · exact h.local rfl rfl rfl hplace
  | publishRead =>
    simp only [At, hpc] at hplace
    simp only [recvStep, hpc]
    exact h.consume (consumePending_enterReceive _) (at_enterReceive (r := (Mq.consume mq r).2) hplace)
  | readBytesWritten part needed =>
    simp only [At, hpc] at hplace
    simp only [recvStep, hpc]
    exact h.local rfl rfl rfl ⟨hplace.1, hplace.2, h.read_le, Nat.le_refl _, hs.ledger.dvd_written⟩
  | readBytesRead part needed written =>
    simp only [At, hpc] at hplace
    obtain ⟨ht, ha, hle, hwritten, hdvdw⟩ := hplace
    simp only [recvStep, hpc]
    split
    · have hdvdR : L.maximumAlignof ∣ mq.bytesRead + r.consumePending :=
        (Nat.dvd_add_right hs.ledger.dvd_read).mpr h.dvd
      have hdvdused := Nat.dvd_sub hdvdw hdvdR
      have hdvdoff : L.maximumAlignof ∣ (mq.bytesRead + r.consumePending) % L.ringSize :=
        (Nat.dvd_mod_iff L.ring_aligned).mpr hdvdR
      have hdvdtail := Nat.dvd_sub L.ring_aligned hdvdoff
      have hmod := Nat.mod_lt (mq.bytesRead + r.consumePending) L.ring_pos
      have hdvd : L.maximumAlignof ∣ min (written - (mq.bytesRead + r.consumePending))
          (L.ringSize - (mq.bytesRead + r.consumePending) % L.ringSize) := by
        rcases Nat.le_total (written - (mq.bytesRead + r.consumePending))
          (L.ringSize - (mq.bytesRead + r.consumePending) % L.ringSize) with hmin | hmin
        · rwa [Nat.min_eq_left hmin]
        · rwa [Nat.min_eq_right hmin]
      refine h.bytesReady ht ha ⟨rfl, by omega, ?_⟩ hdvd
      rw [maxAlign_of_dvd hdvd]
      omega
    · exact h.local rfl rfl rfl ⟨ht, ha⟩
  | checkDetached part needed written =>
    simp only [At, hpc] at hplace
    simp only [recvStep, hpc]
    split
    · exact h.local rfl rfl rfl hplace
    · split
      · exact h.local rfl rfl rfl hplace
      · exact h.local rfl rfl (consumePending_starved r part needed) (at_starved hplace.1 hplace.2)
  | recheckWritten part needed written =>
    simp only [At, hpc] at hplace
    simp only [recvStep, hpc]
    split
    · exact h.local rfl rfl rfl hplace
    · exact h.local rfl rfl rfl hplace.1
  | publishConsumed part needed =>
    simp only [At, hpc] at hplace
    simp only [recvStep, hpc]
    exact h.consume (consumePending_starved _ part needed) (at_starved (r := (Mq.consume mq r).2) hplace.1 hplace.2)
  | peekWord rb offset => exact h.peekWord hs hpc
  | copyWord rb offset => exact h.copyWord hs hpc
  | copyPayload rb offset => exact h.copyPayload hs hpc
  | returned offset nbytes => exact h.returned hs hpc

theorem sendStep_counters (died : Bool) (mq : ShmMq) (s : Sender) :
    (sendStep L died mq s).1.bytesRead = mq.bytesRead ∧ mq.bytesWritten ≤ (sendStep L died mq s).1.bytesWritten := by
  cases hpc : s.pc with
  | checkDetached part data n wb available =>
    simp only [sendStep, hpc]
    split_ifs <;> exact ⟨rfl, Nat.le_refl _⟩
  | counterpartyGone part data n | getReceiver part data n | waitDetached part data n found
  | copy part data n wb available | finished =>
    simp only [sendStep, hpc]
    split_ifs <;> exact ⟨rfl, Nat.le_refl _⟩
  | publishFull part data n =>
    simp only [sendStep, hpc, publish]
    cases s.call.nowait <;> exact ⟨rfl, Nat.le_add_right _ _⟩
  | flush => simp [sendStep, hpc, publish]
  | _ => simp [sendStep, hpc]

theorem recvStep_shared (died : Bool) (mq : ShmMq) (r : Receiver) : ((recvStep L died mq r).1.bytesRead = mq.bytesRead ∨
        (recvStep L died mq r).1.bytesRead = mq.bytesRead + r.consumePending) ∧
      (recvStep L died mq r).1.bytesWritten = mq.bytesWritten ∧
      (recvStep L died mq r).1.ring = mq.ring ∧
      (mq.detached = true → (recvStep L died mq r).1.detached = true) := by
  cases hpc : r.pc with
  | counterpartyGone => simp +contextual [recvStep, hpc]
  | waitFailed =>
    simp only [recvStep, hpc]
    split_ifs <;> exact ⟨.inl rfl, rfl, rfl, fun hd => by simp [hd]⟩
  | getSender gone | waitDetached found | readBytesRead part needed written
  | checkDetached part needed written | recheckWritten part needed written | peekWord rb offset =>
    simp only [recvStep, hpc]
    split_ifs <;> exact ⟨.inl rfl, rfl, rfl, id⟩
  | copyWord rb offset =>
    simp only [recvStep, hpc]
    generalize r.partialBytes + (if L.sizeofSize < r.partialBytes + rb then
      L.sizeofSize - r.partialBytes else rb) = count
    split <;> exact ⟨.inl rfl, rfl, rfl, id⟩
  | publishRead | publishConsumed part needed => simp [recvStep, hpc, consume]
  | _ => simp [recvStep, hpc]

structure Inv (L : Layout) (msgs : List Bytes) (s : State) : Prop where
  send : SendInv L msgs s.mq s.sender
  recv : RecvInv L msgs s.mq s.receiver

theorem inv_create (ring buffer : Nat → UInt8) : Inv L [] (create ring buffer) where
  send :=
    { ledger :=
        { short := by simp
          dvd_read := dvd_zero _
          dvd_written := dvd_zero _
          dvd_pending := dvd_zero _
          room := Nat.zero_le _
          holds := fun _ _ hlt => absurd hlt (Nat.not_lt_zero _) }
      place := .inr (.inl ⟨rfl, rfl, rfl, rfl, rfl⟩) }
  recv :=
    { dvd := dvd_zero _
      read_le := Nat.le_refl _
      place := ⟨List.prefix_refl _, dvd_zero _, rfl, .inl ⟨rfl, rfl⟩⟩ }

theorem Inv.step {s : State} (h : Inv L msgs s) (e : Event) : ∃ msgs', Inv L msgs' (step L s e) := by
  cases e with
  | setSender | setReceiver =>
    refine ⟨msgs, ?_, h.recv.mono (List.prefix_refl _) rfl (Nat.le_refl _)⟩
    exact h.send.mono (Nat.le_refl _) h.send.ledger.dvd_read rfl rfl id
  | detachInternal =>
    refine ⟨msgs, ?_, h.recv.mono (List.prefix_refl _) rfl (Nat.le_refl _)⟩
    exact h.send.mono (Nat.le_refl _) h.send.ledger.dvd_read rfl rfl fun _ => rfl
  | sendv c =>
    obtain ⟨msgs', hpre, hsend⟩ := h.send.sendv c
    exact ⟨msgs', hsend, h.recv.mono hpre rfl (Nat.le_refl _)⟩
  | sender died =>
    obtain ⟨hread, hwritten⟩ := sendStep_counters (L := L) died s.mq s.sender
    exact ⟨msgs, h.send.step died, h.recv.mono (List.prefix_refl _) hread hwritten⟩
  | shmMqDetach =>
    have hread : (shmMqDetach s.mq s.sender).1.bytesRead = s.mq.bytesRead := by
      unfold shmMqDetach
      split <;> rfl
    have hwritten : s.mq.bytesWritten ≤ (shmMqDetach s.mq s.sender).1.bytesWritten := by
      unfold shmMqDetach
      split
      · exact Nat.le_add_right _ _
      · exact Nat.le_refl _
    exact ⟨msgs, h.send.shmMqDetach, h.recv.mono (List.prefix_refl _) hread hwritten⟩
  | receive nowait => exact ⟨msgs, h.send, h.recv.receive nowait⟩
  | receiver died =>
    obtain ⟨hread, hwritten, hring, hdetached⟩ := recvStep_shared (L := L) died s.mq s.receiver
    have hgrows : s.mq.bytesRead ≤ (recvStep L died s.mq s.receiver).1.bytesRead := by omega
    have hdvd : L.maximumAlignof ∣ (recvStep L died s.mq s.receiver).1.bytesRead := by
      rcases hread with hsame | hmore
      · exact hsame ▸ h.send.ledger.dvd_read
      · rw [hmore]
        exact (Nat.dvd_add_right h.send.ledger.dvd_read).mpr h.recv.dvd
    exact ⟨msgs, h.send.mono hgrows hdvd hwritten hring hdetached, h.recv.step h.send died⟩

theorem inv_run {s : State} (h : Inv L msgs s) (es : List Event) : ∃ msgs', Inv L msgs' (run L s es) := by
  induction es generalizing s msgs with
  | nil => exact ⟨msgs, h⟩
  | cons e es ih =>
    obtain ⟨msgs', h'⟩ := h.step e
    exact ih h'

theorem RecvInv.received_total {mq : ShmMq} {r : Receiver} (h : RecvInv L msgs mq r) :
    r.received <+: msgs ∧ total L r.received ≤ mq.bytesRead + r.consumePending := by
  have htaken : ∀ {got c p e b}, Taken L msgs (mq.bytesRead + r.consumePending) got c p e b →
      total L got ≤ mq.bytesRead + r.consumePending := by
    intro got c p e b ht
    have hstart : total L got ≤ segStart L got c := by
      cases c with
      | false => exact Nat.le_refl _
      | true => exact Nat.le_add_right _ _
    have hposition := ht.position
    omega
  have hplace := h.place
  unfold At at hplace
  split at hplace
  case h_16 =>
    obtain ⟨m, hm, -, ht, -⟩ := hplace
    have hpre := List.prefix_append r.received [m]
    exact ⟨hpre.trans hm, (total_mono hpre).trans (htaken ht)⟩
  case h_1 | h_2 | h_3 | h_4 | h_5 | h_6 | h_7 => exact ⟨hplace.got_begun, htaken hplace⟩
  all_goals exact ⟨hplace.1.got_begun, htaken hplace.1⟩

theorem Inv.received_prefix {s : State} (h : Inv L msgs s) : s.receiver.received <+: s.sender.sent := by
  obtain ⟨-, hsent, hlast⟩ := h.send.le_total
  obtain ⟨hrecv, htotal⟩ := h.recv.received_total
  have hread := h.recv.read_le
  rcases hlast with hall | ⟨m, hm, hlt⟩
  · rw [hall]
    exact hrecv
  · rcases List.prefix_or_prefix_of_prefix hrecv hm with hpre | hpre
    · rcases List.prefix_concat_iff.mp hpre with heq | hpre
      · rw [heq] at htotal
        omega
      · exact hpre
    · have hover := (total_mono (L := L) hpre)
      omega

/-- Whatever calls the two sides make and however their accesses interleave, the receiver has
got a prefix of what the sender has sent, and the counters differ by at most the ring. -/
theorem received_prefix_of_sent (L : Layout) (ring buffer : Nat → UInt8) (es : List Event) :
    let s := run L (create ring buffer) es
    s.receiver.received <+: s.sender.sent ∧ s.mq.bytesRead ≤ s.mq.bytesWritten + s.sender.sendPending ∧
      s.mq.bytesWritten + s.sender.sendPending ≤ s.mq.bytesRead + L.ringSize := by
  obtain ⟨msgs, h⟩ := inv_run (inv_create (L := L) ring buffer) es
  have hread := h.recv.read_le
  refine ⟨h.received_prefix, ?_, h.send.ledger.room⟩
  omega

end CdcKafka.Mq
