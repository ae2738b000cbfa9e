import CdcKafka.Mq.Frame

/-! What holds of the sending side at every step: its position in the stream, and that the ring holds the
stream from `mq_bytes_read` up to it. -/

namespace CdcKafka.Mq

open CdcKafka.Lib

variable (L : Layout) (msgs : List Bytes)

def segStart (sent : List Bytes) (complete : Bool) : Nat :=
  if complete then payloadAt L sent else total L sent

def segData (m : Bytes) (complete : Bool) : Bytes :=
  if complete then m else lengthWord L m

/-- The counters, and what the ring holds of the stream of `msgs`. -/
structure Ledger (bytesRead bytesWritten pending : Nat) (ring : Nat → UInt8) : Prop where
  short : ∀ m ∈ msgs, m.length ≤ maxAllocSize
  dvd_read : L.maximumAlignof ∣ bytesRead
  dvd_written : L.maximumAlignof ∣ bytesWritten
  dvd_pending : L.maximumAlignof ∣ pending
  room : bytesWritten + pending ≤ bytesRead + L.ringSize
  holds : Holds L.ringSize ring (frames L msgs) bytesRead (bytesWritten + pending)

structure Inside (W : Nat) (sent : List Bytes) (complete : Bool) (partialBytes : Nat) (m : Bytes)
    (n : Nat) : Prop where
  begun : sent ++ [m] = msgs
  position : W = segStart L sent complete + (partialBytes + n)
  dvd_partial : L.maximumAlignof ∣ partialBytes
  dvd : L.maximumAlignof ∣ n
  lt : partialBytes + n < (segData L m complete).length

structure Given (m : Bytes) (complete : Bool) (partialBytes : Nat) (part : SendPart)
    (data : Bytes) : Prop where
  front : data <+: (segData L m complete).drop partialBytes
  aligned : L.maximumAlignof ∣ data.length ∨ data = (segData L m complete).drop partialBytes
  onward : match part with
    | .word => complete = false ∧ data = (lengthWord L m).drop partialBytes
    | .payload rest offset =>
      complete = true ∧ rest.flatten.drop offset = (m.drop partialBytes).drop data.length

structure Within (W : Nat) (sent : List Bytes) (complete : Bool) (partialBytes : Nat)
    (iov : List Bytes) (part : SendPart) (data : Bytes) (n : Nat) : Prop where
  inside : Inside L msgs W sent complete partialBytes iov.flatten n
  given : Given L iov.flatten complete partialBytes part data
  unsent : n < data.length

structure Between (W : Nat) (sent : List Bytes) (complete : Bool) (partialBytes : Nat)
    (owed : Option (List Bytes)) : Prop where
  sent_eq : sent = msgs
  position : W = total L sent
  word : complete = false
  none_partial : partialBytes = 0
  none_owed : owed = none

structure Room (bytesRead W : Nat) (data : Bytes) (n wb available : Nat) : Prop where
  current : wb = W
  available_le : available ≤ data.length - n
  aligned : L.maximumAlignof ∣ available ∨ available = data.length - n
  fits : wb + L.maxAlign available ≤ bytesRead + L.ringSize

def Place (bytesRead W : Nat) (s : Sender) : Prop :=
  match s.pc with
  | .idle | .closing | .closed =>
    Between L msgs W s.sent s.lengthWordComplete s.partialBytes s.owed ∨ ∃ iov, s.owed = some iov ∧
        Inside L msgs W s.sent s.lengthWordComplete s.partialBytes iov.flatten 0
  | .finished | .findReceiver | .flush =>
    Between L msgs W s.sent s.lengthWordComplete s.partialBytes s.owed
  | .readBytesRead part data n | .counterpartyGone part data n | .getReceiver part data n
  | .waitReceiver part data n | .waitDetached part data n _ | .publishFull part data n =>
    Within L msgs W s.sent s.lengthWordComplete s.partialBytes s.call.iov part data n
  | .readBytesWritten part data n rb =>
    Within L msgs W s.sent s.lengthWordComplete s.partialBytes s.call.iov part data n ∧
      rb ≤ bytesRead ∧ L.maximumAlignof ∣ rb
  | .checkDetached part data n wb available | .copy part data n wb available =>
    Within L msgs W s.sent s.lengthWordComplete s.partialBytes s.call.iov part data n ∧
      Room L bytesRead W data n wb available

def SendPc.Quiet : SendPc → Prop
  | .idle | .closing | .closed | .readBytesRead .. | .readBytesWritten .. | .checkDetached .. =>
    True
  | _ => False

def Torn (detached : Bool) (W : Nat) (s : Sender) : Prop :=
  detached = true ∧ s.lengthWordComplete = false ∧ s.partialBytes = 0 ∧ s.owed = none ∧ s.pc.Quiet ∧
    ∃ m, s.sent ++ [m] <+: msgs ∧ W < total L (s.sent ++ [m])

structure SendInv (mq : ShmMq) (s : Sender) : Prop where
  ledger : Ledger L msgs mq.bytesRead mq.bytesWritten s.sendPending mq.ring
  place : Torn L msgs mq.detached (mq.bytesWritten + s.sendPending) s ∨
    Place L msgs mq.bytesRead (mq.bytesWritten + s.sendPending) s

variable {L msgs}

theorem length_segData_false (m : Bytes) : (segData L m false).length = L.sizeofSize :=
  length_lengthWord m

theorem segment_at {sent : List Bytes} {m : Bytes} (complete : Bool) (h : sent ++ [m] <+: msgs) :
    Segment L.maximumAlignof (frames L msgs) (segStart L sent complete) (segData L m complete) := by
  cases complete with
  | false => exact segment_word h
  | true => exact segment_payload h

theorem segStart_lt {sent : List Bytes} {complete : Bool} {m : Bytes} {k : Nat}
    (h : k < (segData L m complete).length) :
    segStart L sent complete + k < total L (sent ++ [m]) := by
  have hpay := le_maxAlign (L := L) m.length
  rw [total_snoc]
  cases complete with
  | false =>
    have hword := le_maxAlign (L := L) L.sizeofSize
    rw [length_segData_false] at h
    simp only [segStart, payloadAt, Bool.false_eq_true, if_false]
    omega
  | true =>
    simp only [segData, segStart, if_true] at h ⊢
    omega

theorem Inside.lt_total {W n p : Nat} {sent : List Bytes} {complete : Bool} {m : Bytes}
    (h : Inside L msgs W sent complete p m n) : W < total L (sent ++ [m]) :=
  h.position ▸ segStart_lt h.lt

theorem SendInv.le_total {mq : ShmMq} {s : Sender} (h : SendInv L msgs mq s) :
    mq.bytesWritten + s.sendPending ≤ total L msgs ∧ s.sent <+: msgs ∧ (s.sent = msgs ∨ ∃ m, s.sent ++ [m] <+: msgs ∧
        mq.bytesWritten + s.sendPending < total L (s.sent ++ [m])) := by
  have hin : ∀ {m p n c}, Inside L msgs (mq.bytesWritten + s.sendPending) s.sent c p m n →
      mq.bytesWritten + s.sendPending ≤ total L msgs ∧ s.sent <+: msgs ∧ (s.sent = msgs ∨ ∃ m, s.sent ++ [m] <+: msgs ∧
          mq.bytesWritten + s.sendPending < total L (s.sent ++ [m])) := by
    intro m p n c hin
    have hlt := hin.lt_total
    have hpre : s.sent ++ [m] <+: msgs := hin.begun ▸ List.prefix_refl _
    exact ⟨(hlt.trans_le (total_mono hpre)).le, (List.prefix_append _ _).trans hpre, .inr ⟨m, hpre, hlt⟩⟩
  have hbetween : ∀ {c p o}, Between L msgs (mq.bytesWritten + s.sendPending) s.sent c p o →
      mq.bytesWritten + s.sendPending ≤ total L msgs ∧ s.sent <+: msgs ∧ (s.sent = msgs ∨ ∃ m, s.sent ++ [m] <+: msgs ∧
          mq.bytesWritten + s.sendPending < total L (s.sent ++ [m])) := by
    intro c p o hb
    refine ⟨?_, hb.sent_eq ▸ List.prefix_refl _, .inl hb.sent_eq⟩
    rw [hb.position, hb.sent_eq]
  rcases h.place with ⟨-, -, -, -, -, m, hpre, hlt⟩ | hplace
  · exact ⟨(hlt.trans_le (total_mono hpre)).le, (List.prefix_append _ _).trans hpre, .inr ⟨m, hpre, hlt⟩⟩
  · unfold Place at hplace
    split at hplace
    case h_1 | h_2 | h_3 =>
      rcases hplace with hb | ⟨iov, -, hi⟩
      · exact hbetween hb
      · exact hin hi
    case h_4 | h_5 | h_6 => exact hbetween hplace
    case h_13 | h_14 | h_15 => exact hin hplace.1.inside
    all_goals exact hin hplace.inside

theorem SendInv.local {mq : ShmMq} {s s' : Sender} (h : SendInv L msgs mq s) (hp : s'.sendPending = s.sendPending)
    (hplace : Place L msgs mq.bytesRead (mq.bytesWritten + s.sendPending) s') :
    SendInv L msgs mq s' where
  ledger := hp ▸ h.ledger
  place := .inr (hp ▸ hplace)

theorem torn_returnDetached {W n p : Nat} {c : Bool} {iov : List Bytes} {part : SendPart}
    {data : Bytes} {s : Sender} (h : Within L msgs W s.sent c p iov part data n) :
    Torn L msgs true W s.returnDetached :=
  ⟨rfl, rfl, rfl, rfl, trivial, iov.flatten, h.inside.begun ▸ List.prefix_refl _, h.inside.lt_total⟩

theorem place_finish {bytesRead W : Nat} {s : Sender}
    (hbegun : s.sent ++ [s.call.iov.flatten] = msgs) (hW : W = total L msgs) :
    Place L msgs bytesRead W s.finish :=
  ⟨hbegun, by rw [hW, ← hbegun]; rfl, rfl, rfl, rfl⟩

theorem nbytes_eq (c : Call) : c.nbytes = c.iov.flatten.length := List.length_flatten.symm

theorem place_sendPayload {bytesRead W offset : Nat} {s : Sender} {rest : List Bytes}
    (hbegun : s.sent ++ [s.call.iov.flatten] = msgs) (hc : s.lengthWordComplete = true)
    (hdvd : L.maximumAlignof ∣ s.partialBytes ∨ s.partialBytes = s.call.iov.flatten.length)
    (hle : s.partialBytes ≤ s.call.iov.flatten.length)
    (hW : W = payloadAt L s.sent + L.maxAlign s.partialBytes)
    (hrest : rest.flatten.drop offset = s.call.iov.flatten.drop s.partialBytes) :
    Place L msgs bytesRead W (s.sendPayload L rest offset) := by
  have hdone : s.partialBytes = s.call.iov.flatten.length → Place L msgs bytesRead W s.finish := by
    intro hall
    refine place_finish hbegun ?_
    rw [hW, hall, ← hbegun, total_snoc]
  unfold Sender.sendPayload
  split
  · next data rest' offset' hchunk =>
    have hof := nextChunk_some hchunk
    rw [hrest] at hof
    have hpos : 0 < data.length := List.length_pos_iff.mpr hof.nonempty
    have hlen := hof.front.length_le
    rw [List.length_drop] at hlen
    have hlt : s.partialBytes < s.call.iov.flatten.length := by omega
    have haligned : L.maximumAlignof ∣ s.partialBytes := by
      rcases hdvd with hdvd | hall
      · exact hdvd
      · omega
    have hseg : segData L s.call.iov.flatten s.lengthWordComplete = s.call.iov.flatten := by
      rw [hc]
      rfl
    refine ⟨⟨hbegun, ?_, haligned, dvd_zero _, ?_⟩, ⟨?_, ?_, ?_⟩, hpos⟩
    · rw [hW, maxAlign_of_dvd haligned, hc]
      rfl
    · rw [hseg]
      exact hlt
    · rw [hseg]
      exact hof.front
    · rw [hseg]
      exact hof.aligned
    · exact ⟨hc, hof.onward⟩
  · next hnone =>
    refine hdone ?_
    by_cases hmore : s.partialBytes < s.call.nbytes
    · rw [decide_eq_true hmore] at hnone
      have hempty := nextChunk_none hnone
      rw [hrest, List.drop_eq_nil_iff] at hempty
      omega
    · rw [nbytes_eq] at hmore
      omega

theorem place_enterWord {bytesRead W : Nat} {s : Sender} (hc : s.lengthWordComplete = false)
    (h : Inside L msgs W s.sent false s.partialBytes s.call.iov.flatten 0) :
    Place L msgs bytesRead W (s.enterSendv L) := by
  have hlt := h.lt
  rw [length_segData_false] at hlt
  unfold Sender.enterSendv
  rw [if_neg (by simp [hc]), nbytes_eq]
  refine ⟨hc ▸ h, ⟨?_, ?_, ?_⟩, ?_⟩
  · exact hc ▸ List.prefix_refl _
  · exact .inr (hc ▸ rfl)
  · exact ⟨hc, rfl⟩
  · simp only [List.length_drop, length_encodeLE]
    omega

theorem SendInv.sendv {mq : ShmMq} {s : Sender} (h : SendInv L msgs mq s) (c : Call) :
    ∃ msgs', msgs <+: msgs' ∧ SendInv L msgs' mq (sendv L mq s c) := by
  unfold Mq.sendv
  split
  · next hcall =>
    obtain ⟨hidle, -, -, howed⟩ := hcall
    split
    · -- too long a message
      refine ⟨msgs, List.prefix_refl _, h.ledger, ?_⟩
      exact h.place
    · next hshort =>
      rcases h.place with ⟨hd, hword, hpart, hnone, -, htail⟩ | hplace
      · refine ⟨msgs, List.prefix_refl _, ?_, .inl ?_⟩
        · simpa [Sender.enterSendv, hword] using h.ledger
        · simp only [Sender.enterSendv, hword, Bool.false_eq_true, if_false]
          exact ⟨hd, rfl, hpart, hnone, trivial, htail⟩
      · simp only [Place, hidle] at hplace
        rcases hplace with hb | ⟨iov, hiov, hin⟩
        · -- a new message
          have hlen : c.iov.flatten.length ≤ maxAllocSize := by
            rw [← nbytes_eq]
            omega
          have hpre : msgs <+: msgs ++ [c.iov.flatten] := List.prefix_append _ _
          have hbound : mq.bytesWritten + s.sendPending ≤ (frames L msgs).length := by
            rw [hb.position, hb.sent_eq]
            rfl
          refine ⟨msgs ++ [c.iov.flatten], hpre, ?_⟩
          have hledger : Ledger L (msgs ++ [c.iov.flatten]) mq.bytesRead mq.bytesWritten s.sendPending mq.ring :=
            { short := by
                intro m hm
                rcases List.mem_append.mp hm with hm | hm
                · exact h.ledger.short m hm
                · rw [List.mem_singleton.mp hm]
                  exact hlen
              dvd_read := h.ledger.dvd_read
              dvd_written := h.ledger.dvd_written
              dvd_pending := h.ledger.dvd_pending
              room := h.ledger.room
              holds := h.ledger.holds.extend (frames_mono hpre) hbound }
          refine ⟨?_, .inr ?_⟩
          · simpa [Sender.enterSendv, hb.word] using hledger
          · have hpending : ({ s with call := c }.enterSendv L).sendPending = s.sendPending := by
              simp [Sender.enterSendv, hb.word]
            rw [hpending]
            refine place_enterWord hb.word ⟨?_, ?_, ?_, dvd_zero _, ?_⟩
            · rw [hb.sent_eq]
            · simpa [hb.none_partial, segStart] using hb.position
            · simp [hb.none_partial]
            · simpa [hb.none_partial, length_segData_false] using sizeofSize_pos
        · -- the retry of a call that would have blocked
          have hsame : c.iov = iov := by
            rcases howed with hno | hsome
            · rw [hno] at hiov
              cases hiov
            · rw [hsome] at hiov
              exact Option.some.inj hiov
          refine ⟨msgs, List.prefix_refl _, ?_⟩
          have hin' : Inside L msgs (mq.bytesWritten + s.sendPending) s.sent
              s.lengthWordComplete s.partialBytes c.iov.flatten 0 := hsame ▸ hin
          by_cases hc : s.lengthWordComplete = true
          · have hpending : ({ s with call := c }.enterSendv L).sendPending = s.sendPending := by
              simp only [Sender.enterSendv, hc, if_true, Sender.sendPayload]
              split <;> rfl
            refine h.local hpending ?_
            simp only [Sender.enterSendv, hc, if_true]
            have hlt := hin'.lt
            rw [hc] at hlt
            refine place_sendPayload hin'.begun rfl (.inl hin'.dvd_partial) ?_ ?_ rfl
            · exact (Nat.le_add_right _ 0).trans hlt.le
            · rw [maxAlign_of_dvd hin'.dvd_partial, hin'.position, hc]
              rfl
          · have hc' : s.lengthWordComplete = false := by simpa using hc
            refine h.local ?_ (place_enterWord hc' (hc' ▸ hin'))
            simp [Sender.enterSendv, hc']
  · exact ⟨msgs, List.prefix_refl _, h⟩

theorem Ledger.publish {bytesRead bytesWritten pending : Nat} {ring : Nat → UInt8}
    (h : Ledger L msgs bytesRead bytesWritten pending ring) :
    Ledger L msgs bytesRead (bytesWritten + pending) 0 ring where
  short := h.short
  dvd_read := h.dvd_read
  dvd_written := (Nat.dvd_add_right h.dvd_written).mpr h.dvd_pending
  dvd_pending := dvd_zero _
  room := h.room
  holds := h.holds

theorem SendInv.publish {mq : ShmMq} {s s' : Sender} (h : SendInv L msgs mq s) (hp : s'.sendPending = 0)
    (hplace : Place L msgs mq.bytesRead (mq.bytesWritten + s.sendPending) s') :
    SendInv L msgs (publish mq s).1 s' where
  ledger := hp ▸ h.ledger.publish
  place := .inr (by rw [hp]; exact hplace)

theorem place_wouldBlock {bytesRead W n : Nat} {s : Sender} {part : SendPart} {data : Bytes}
    (h : Within L msgs W s.sent s.lengthWordComplete s.partialBytes s.call.iov part data n) :
    Place L msgs bytesRead W (s.wouldBlock L part n) := by
  have hin := h.inside
  have hpause : Inside L msgs W s.sent s.lengthWordComplete (s.partialBytes + n) s.call.iov.flatten 0 :=
    { begun := hin.begun
      position := hin.position
      dvd_partial := (Nat.dvd_add_right hin.dvd_partial).mpr hin.dvd
      dvd := dvd_zero _
      lt := hin.lt }
  cases part with
  | word =>
    have hword := h.given.onward.1
    have hlt := hin.lt
    rw [hword, length_segData_false] at hlt
    have hadv : s.advance L .word n = { s with partialBytes := s.partialBytes + n } := by
      simp only [Sender.advance, Nat.not_le.mpr hlt, if_false]
    simp only [Sender.wouldBlock, hadv]
    exact .inr ⟨s.call.iov, rfl, hpause⟩
  | payload rest offset => exact .inr ⟨s.call.iov, rfl, hpause⟩

@[simp] theorem sendPending_wouldBlock (s : Sender) (part : SendPart) (n : Nat) :
    (s.wouldBlock L part n).sendPending = s.sendPending := by
  cases part with
  | word =>
    simp only [Sender.wouldBlock, Sender.advance]
    split <;> rfl
  | payload rest offset => rfl

@[simp] theorem sendPending_sendPayload (s : Sender) (rest : List Bytes) (offset : Nat) :
    (s.sendPayload L rest offset).sendPending = s.sendPending := by
  unfold Sender.sendPayload
  split <;> rfl

theorem bytesDone_payload (s : Sender) (rest : List Bytes) (offset n : Nat) : s.bytesDone L (.payload rest offset) n =
      if s.partialBytes + n < s.call.nbytes then
        { s with partialBytes := s.partialBytes + n }.sendPayload L rest offset
      else { s with partialBytes := s.partialBytes + n }.finish := rfl

@[simp] theorem sendPending_bytesDone (s : Sender) (part : SendPart) (n : Nat) :
    (s.bytesDone L part n).sendPending = s.sendPending := by
  cases part with
  | word =>
    simp only [Sender.bytesDone, Sender.enterSendv, Sender.advance]
    split <;> split <;> first | rfl | rw [sendPending_sendPayload]
  | payload rest offset =>
    rw [bytesDone_payload]
    split
    · rw [sendPending_sendPayload]
    · rfl

theorem place_bytesDone {bytesRead W : Nat} {s : Sender} {part : SendPart} {data : Bytes}
    (hbegun : s.sent ++ [s.call.iov.flatten] = msgs)
    (hdvd : L.maximumAlignof ∣ s.partialBytes)
    (hgiven : Given L s.call.iov.flatten s.lengthWordComplete s.partialBytes part data)
    (hle : s.partialBytes + data.length ≤ (segData L s.call.iov.flatten s.lengthWordComplete).length)
    (hW : W = segStart L s.sent s.lengthWordComplete + L.maxAlign (s.partialBytes + data.length)) :
    Place L msgs bytesRead W (s.bytesDone L part data.length) := by
  cases part with
  | word =>
    obtain ⟨hword, hdata⟩ := hgiven.onward
    rw [hword] at hW hle
    have hlen : L.sizeofSize ≤ s.partialBytes + data.length := by
      rw [hdata, List.length_drop, length_lengthWord]
      omega
    rw [length_segData_false] at hle
    have hadv : s.advance L .word data.length = { s with partialBytes := 0, lengthWordComplete := true } := by
      simp only [Sender.advance, hlen, if_true]
    simp only [Sender.bytesDone, hadv, Sender.enterSendv, if_true]
    refine place_sendPayload hbegun rfl (.inl (dvd_zero _)) (Nat.zero_le _) ?_ rfl
    rw [hW, Nat.le_antisymm hle hlen, maxAlign_zero]
    rfl
  | payload rest offset =>
    obtain ⟨hc, honward⟩ := hgiven.onward
    have hseg : segData L s.call.iov.flatten s.lengthWordComplete = s.call.iov.flatten := by
      rw [hc]
      rfl
    rw [hseg] at hle
    have hnext : L.maximumAlignof ∣ s.partialBytes + data.length ∨
        s.partialBytes + data.length = s.call.iov.flatten.length := by
      rcases hgiven.aligned with haligned | hall
      · exact .inl ((Nat.dvd_add_right hdvd).mpr haligned)
      · have hlen := congrArg List.length hall
        rw [hseg, List.length_drop] at hlen
        by_cases hz : s.call.iov.flatten.length < s.partialBytes
        · exact absurd hle (by omega)
        · exact .inr (by omega)
    have hW' : W = payloadAt L s.sent + L.maxAlign (s.partialBytes + data.length) := by
      rw [hW, hc]
      rfl
    rw [bytesDone_payload]
    split
    · refine place_sendPayload hbegun hc hnext hle hW' ?_
      rw [honward, List.drop_drop]
    · next hfull =>
      rw [nbytes_eq] at hfull
      refine place_finish hbegun ?_
      rw [hW', Nat.le_antisymm hle (Nat.not_lt.mp hfull), ← hbegun, total_snoc]

theorem take_drop_begun {d e : Bytes} (h : d <+: e) {n j : Nat} (hle : n + j ≤ d.length) :
    (d.drop n).take j = (e.drop n).take j := by
  obtain ⟨tail, rfl⟩ := h
  rw [List.drop_append_of_le_length (by omega), List.take_append_of_le_length (by rw [List.length_drop]; omega)]

theorem SendInv.copy {mq : ShmMq} {s : Sender} {part : SendPart} {data : Bytes}
    {n wb available : Nat} {died : Bool} (h : SendInv L msgs mq s)
    (hw : Within L msgs (mq.bytesWritten + s.sendPending) s.sent s.lengthWordComplete
      s.partialBytes s.call.iov part data n)
    (hr : Room L mq.bytesRead (mq.bytesWritten + s.sendPending) data n wb available)
    (hpc : s.pc = .copy part data n wb available) :
    SendInv L msgs (sendStep L died mq s).1 (sendStep L died mq s).2 := by
  have hA := L.align_pos
  have hledger := h.ledger
  obtain rfl := hr.current
  have hin := hw.inside
  have hdvdW : L.maximumAlignof ∣ mq.bytesWritten + s.sendPending :=
    (Nat.dvd_add_right hledger.dvd_written).mpr hledger.dvd_pending
  have hmod := Nat.mod_lt (mq.bytesWritten + s.sendPending) L.ring_pos
  generalize hoff : (mq.bytesWritten + s.sendPending) % L.ringSize = offset at hmod
  have hdvdoff : L.maximumAlignof ∣ offset := by
    rw [← hoff]
    exact (Nat.dvd_mod_iff L.ring_aligned).mpr hdvdW
  generalize hnow : min available (L.ringSize - offset) = sendnow
  have hnowle : sendnow ≤ available := hnow ▸ Nat.min_le_left _ _
  have hav := hr.available_le
  have hunsent := hw.unsent
  have hdata := hw.given.front.length_le
  rw [List.length_drop] at hdata
  have hseglt := hin.lt
  have hgivendvd : L.maximumAlignof ∣ sendnow ∨ n + sendnow = data.length := by
    by_cases hwrap : available ≤ L.ringSize - offset
    · rw [Nat.min_eq_left hwrap] at hnow
      subst hnow
      rcases hr.aligned with hdvd | hall
      · exact .inl hdvd
      · exact .inr (by omega)
    · rw [Nat.min_eq_right (by omega)] at hnow
      exact .inl (hnow ▸ Nat.dvd_sub L.ring_aligned hdvdoff)
  have hend : L.maximumAlignof ∣ sendnow ∨ s.partialBytes + n + sendnow =
      (segData L s.call.iov.flatten s.lengthWordComplete).length := by
    rcases hgivendvd with hdvd | hall
    · exact .inl hdvd
    · rcases hw.given.aligned with hdvd | hwhole
      · rw [← hall] at hdvd
        exact .inl ((Nat.dvd_add_right hin.dvd).mp hdvd)
      · have hlen := congrArg List.length hwhole
        rw [List.length_drop] at hlen
        exact .inr (by omega)
  have hdvdpart : L.maximumAlignof ∣ s.partialBytes + n :=
    (Nat.dvd_add_right hin.dvd_partial).mpr hin.dvd
  have hseg := segment_at (L := L) s.lengthWordComplete
    (hin.begun ▸ List.prefix_refl _ : s.sent ++ [s.call.iov.flatten] <+: msgs)
  have hfits := hr.fits
  have hsmall : L.maxAlign sendnow ≤ L.maxAlign available := alignUp_mono _ hnowle
  have hself := le_maxAlign (L := L) sendnow
  have hpiece : (data.drop n).take sendnow =
      ((segData L s.call.iov.flatten s.lengthWordComplete).drop (s.partialBytes + n)).take sendnow := by
    rw [take_drop_begun hw.given.front (by omega), List.drop_drop]
  have hwin : Window L.ringSize (segStart L s.sent s.lengthWordComplete + (s.partialBytes + n)) offset sendnow := by
    rw [← hin.position, ← hoff]
    refine window_mod ?_
    rw [hoff]
    omega
  have hholds : Holds L.ringSize (put mq.ring offset ((data.drop n).take sendnow)) (frames L msgs) mq.bytesRead
      (mq.bytesWritten + (s.sendPending + L.maxAlign sendnow)) := by
    have hold := hledger.holds
    rw [hin.position] at hold
    have hwrite := hold.write_segment hA hseg hdvdpart (by omega) hend hwin (by rw [← hin.position]; omega)
    rw [← hpiece, ← hin.position] at hwrite
    rw [← Nat.add_assoc]
    exact hwrite
  have hledger' : Ledger L msgs mq.bytesRead mq.bytesWritten (s.sendPending + L.maxAlign sendnow)
      (put mq.ring offset ((data.drop n).take sendnow)) :=
    { short := hledger.short
      dvd_read := hledger.dvd_read
      dvd_written := hledger.dvd_written
      dvd_pending := (Nat.dvd_add_right hledger.dvd_pending).mpr (dvd_alignUp _ _)
      room := by omega
      holds := hholds }
  simp only [sendStep, hpc, hoff, hnow]
  split
  · -- more of the data is left, so the piece was aligned
    next hmore =>
    have hdvdnow : L.maximumAlignof ∣ sendnow := by
      rcases hgivendvd with hdvd | hall
      · exact hdvd
      · omega
    have hlt : s.partialBytes + (n + sendnow) < (segData L s.call.iov.flatten s.lengthWordComplete).length := by omega
    have hposition : mq.bytesWritten + (s.sendPending + L.maxAlign sendnow) =
        segStart L s.sent s.lengthWordComplete + (s.partialBytes + (n + sendnow)) := by
      have hpos := hin.position
      rw [maxAlign_of_dvd hdvdnow]
      omega
    exact ⟨hledger', .inr ⟨⟨hin.begun, hposition, hin.dvd_partial,
      (Nat.dvd_add_right hin.dvd).mpr hdvdnow, hlt⟩, hw.given, hmore⟩⟩
  · next hdone =>
    have hall : n + sendnow = data.length := by omega
    have hround : L.maxAlign (s.partialBytes + data.length) = s.partialBytes + n + L.maxAlign sendnow := by
      rw [← hall, ← Nat.add_assoc]
      exact alignUp_add hA hdvdpart sendnow
    refine ⟨?_, .inr ?_⟩
    · rw [sendPending_bytesDone]
      exact hledger'
    · rw [sendPending_bytesDone, hall]
      refine place_bytesDone hin.begun hin.dvd_partial hw.given ?_ ?_
      · show s.partialBytes + data.length ≤ (segData L s.call.iov.flatten s.lengthWordComplete).length
        omega
      · have hpos := hin.position
        show _ = segStart L s.sent s.lengthWordComplete + L.maxAlign (s.partialBytes + data.length)
        rw [hround]
        show mq.bytesWritten + (s.sendPending + L.maxAlign sendnow) = _
        omega

theorem SendInv.torn_step {mq : ShmMq} {s : Sender} {died : Bool} (h : SendInv L msgs mq s)
    (ht : Torn L msgs mq.detached (mq.bytesWritten + s.sendPending) s) :
    SendInv L msgs (sendStep L died mq s).1 (sendStep L died mq s).2 := by
  obtain ⟨hd, hword, hpart, hnone, hquiet, htail⟩ := ht
  cases hpc : s.pc with
  | idle | closed =>
    simp only [sendStep, hpc]
    exact h
  | closing =>
    simp only [sendStep, hpc]
    exact ⟨h.ledger, .inl ⟨rfl, hword, hpart, hnone, trivial, htail⟩⟩
  | readBytesRead part data n | readBytesWritten part data n rb =>
    simp only [sendStep, hpc]
    exact ⟨h.ledger, .inl ⟨hd, hword, hpart, hnone, trivial, htail⟩⟩
  | checkDetached part data n wb available =>
    simp only [sendStep, hpc, hd, if_true]
    exact ⟨h.ledger, .inl ⟨hd, rfl, rfl, rfl, trivial, htail⟩⟩
  | _ => simp [SendPc.Quiet, hpc] at hquiet

theorem SendInv.detached {mq mq' : ShmMq} {s s' : Sender} (h : SendInv L msgs mq s)
    (hr : mq'.bytesRead = mq.bytesRead) (hw : mq'.bytesWritten = mq.bytesWritten)
    (hring : mq'.ring = mq.ring) (hp : s'.sendPending = s.sendPending)
    (ht : Torn L msgs mq'.detached (mq.bytesWritten + s.sendPending) s') :
    SendInv L msgs mq' s' where
  ledger := by
    rw [hr, hw, hring, hp]
    exact h.ledger
  place := .inl (by rw [hw, hp]; exact ht)

theorem place_checkFlush {bytesRead W : Nat} {s : Sender}
    (h : Between L msgs W s.sent s.lengthWordComplete s.partialBytes s.owed) :
    Place L msgs bytesRead W (s.checkFlush L) := by
  unfold Sender.checkFlush
  split
  · exact h
  · exact .inl h

@[simp] theorem sendPending_checkFlush (s : Sender) :
    (s.checkFlush L).sendPending = s.sendPending := by
  unfold Sender.checkFlush
  split <;> rfl

theorem room_available {mq : ShmMq} {s : Sender} {data : Bytes} {n rb : Nat}
    (h : Ledger L msgs mq.bytesRead mq.bytesWritten s.sendPending mq.ring)
    (hle : rb ≤ mq.bytesRead) (hdvd : L.maximumAlignof ∣ rb) :
    Room L mq.bytesRead (mq.bytesWritten + s.sendPending) data n (mq.bytesWritten + s.sendPending)
      (min (L.ringSize - (mq.bytesWritten + s.sendPending - rb)) (data.length - n)) := by
  have hdvdW : L.maximumAlignof ∣ mq.bytesWritten + s.sendPending :=
    (Nat.dvd_add_right h.dvd_written).mpr h.dvd_pending
  generalize hfree : L.ringSize - (mq.bytesWritten + s.sendPending - rb) = free
  have hdvdfree : L.maximumAlignof ∣ free :=
    hfree ▸ Nat.dvd_sub L.ring_aligned (Nat.dvd_sub hdvdW hdvd)
  refine ⟨rfl, Nat.min_le_right _ _, ?_, ?_⟩
  · rcases Nat.le_total free (data.length - n) with hmin | hmin
    · exact .inl (by rwa [Nat.min_eq_left hmin])
    · exact .inr (Nat.min_eq_right hmin)
  · have hround : L.maxAlign (min free (data.length - n)) ≤ free :=
      alignUp_le L.align_pos hdvdfree (Nat.min_le_left _ _)
    have hroom := h.room
    omega

theorem SendInv.step {mq : ShmMq} {s : Sender} (h : SendInv L msgs mq s) (died : Bool) :
    SendInv L msgs (sendStep L died mq s).1 (sendStep L died mq s).2 := by
  rcases h.place with ht | hplace
  · exact h.torn_step ht
  cases hpc : s.pc with
  | idle | closed =>
    simp only [sendStep, hpc]
    exact h
  | closing =>
    simp only [Place, hpc] at hplace
    simp only [sendStep, hpc]
    exact ⟨h.ledger, .inr hplace⟩
  | readBytesRead part data n =>
    simp only [Place, hpc] at hplace
    simp only [sendStep, hpc]
    exact h.local rfl ⟨hplace, Nat.le_refl _, h.ledger.dvd_read⟩
  | readBytesWritten part data n rb =>
    simp only [Place, hpc] at hplace
    obtain ⟨hw, hle, hdvd⟩ := hplace
    simp only [sendStep, hpc]
    exact h.local rfl ⟨hw, room_available h.ledger hle hdvd⟩
  | checkDetached part data n wb available =>
    simp only [Place, hpc] at hplace
    obtain ⟨hw, hroom⟩ := hplace
    simp only [sendStep, hpc]
    split
    · next hd => exact h.detached rfl rfl rfl rfl (hd ▸ torn_returnDetached hw)
    · split
      · split
        · exact h.local rfl hw
        · split <;> exact h.local rfl hw
      · exact h.local rfl ⟨hw, hroom⟩
  | counterpartyGone part data n =>
    simp only [Place, hpc] at hplace
    simp only [sendStep, hpc]
    split
    · exact h.detached rfl rfl rfl rfl (torn_returnDetached hplace)
    · exact h.local rfl hplace
  | getReceiver part data n =>
    simp only [Place, hpc] at hplace
    simp only [sendStep, hpc]
    split
    · exact h.local rfl hplace
    · exact h.local (sendPending_wouldBlock s part n) (place_wouldBlock hplace)
  | waitReceiver part data n =>
    simp only [Place, hpc] at hplace
    simp only [sendStep, hpc]
    exact h.local rfl hplace
  | waitDetached part data n found =>
    simp only [Place, hpc] at hplace
    simp only [sendStep, hpc]
    split
    · next hd => exact h.detached rfl rfl rfl rfl (hd ▸ torn_returnDetached hplace)
    · split
      · exact h.local rfl hplace
      · split
        · exact h.detached rfl rfl rfl rfl (torn_returnDetached hplace)
        · exact h.local rfl hplace
  | publishFull part data n =>
    simp only [Place, hpc] at hplace
    simp only [sendStep, hpc]
    split
    · exact h.publish (sendPending_wouldBlock _ _ _) (place_wouldBlock (s := (Mq.publish mq s).2) hplace)
    · exact h.publish rfl hplace
  | copy part data n wb available =>
    simp only [Place, hpc] at hplace
    exact h.copy hplace.1 hplace.2 hpc
  | finished =>
    simp only [Place, hpc] at hplace
    simp only [sendStep, hpc]
    split
    · exact h.local rfl (.inl hplace)
    · split
      · exact h.local (sendPending_checkFlush s) (place_checkFlush hplace)
      · exact h.local rfl hplace
  | findReceiver =>
    simp only [Place, hpc] at hplace
    simp only [sendStep, hpc]
    exact h.local (sendPending_checkFlush _) (place_checkFlush hplace)
  | flush =>
    simp only [Place, hpc] at hplace
    simp only [sendStep, hpc]
    exact h.publish rfl (.inl hplace)

theorem SendInv.shmMqDetach {mq : ShmMq} {s : Sender} (h : SendInv L msgs mq s) :
    SendInv L msgs (shmMqDetach mq s).1 (shmMqDetach mq s).2 := by
  unfold Mq.shmMqDetach
  split
  · next hidle =>
    rcases h.place with ⟨hd, hword, hpart, hnone, -, htail⟩ | hplace
    · exact ⟨h.ledger.publish, .inl ⟨hd, hword, hpart, hnone, trivial, htail⟩⟩
    · simp only [Place, hidle] at hplace
      exact h.publish rfl hplace
  · exact h

theorem Place.mono {bytesRead bytesRead' W : Nat} {s : Sender} (h : Place L msgs bytesRead W s)
    (hle : bytesRead ≤ bytesRead') : Place L msgs bytesRead' W s := by
  unfold Place at h ⊢
  split at h
  case h_13 => exact ⟨h.1, h.2.1.trans hle, h.2.2⟩
  case h_14 | h_15 =>
    exact ⟨h.1, h.2.current, h.2.available_le, h.2.aligned, h.2.fits.trans (by omega)⟩
  all_goals exact h

theorem SendInv.mono {mq mq' : ShmMq} {s : Sender} (h : SendInv L msgs mq s)
    (hr : mq.bytesRead ≤ mq'.bytesRead) (hdvd : L.maximumAlignof ∣ mq'.bytesRead)
    (hw : mq'.bytesWritten = mq.bytesWritten) (hring : mq'.ring = mq.ring)
    (hd : mq.detached = true → mq'.detached = true) : SendInv L msgs mq' s where
  ledger := by
    have hroom := h.ledger.room
    rw [hw, hring]
    exact ⟨h.ledger.short, hdvd, h.ledger.dvd_written, h.ledger.dvd_pending, by omega, h.ledger.holds.mono hr⟩
  place := by
    rw [hw]
    rcases h.place with ⟨ht, hrest⟩ | hplace
    · exact .inl ⟨hd ht, hrest⟩
    · exact .inr (hplace.mono hr)

end CdcKafka.Mq
