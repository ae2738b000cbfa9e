import CdcKafka.Mq.Queue

/-! The byte stream the messages of a queue make: each message is its length word and its
payload, both padded to `MAXIMUM_ALIGNOF`. -/

namespace CdcKafka.Mq

open CdcKafka.Lib

variable (L : Layout)

def lengthWord (m : Bytes) : Bytes := encodeLE L.sizeofSize m.length

def frame (m : Bytes) : List (Option UInt8) :=
  padded L.maximumAlignof (lengthWord L m) ++ padded L.maximumAlignof m

def frames (ms : List Bytes) : List (Option UInt8) := ms.flatMap (frame L)

def total (ms : List Bytes) : Nat := (frames L ms).length

def payloadAt (ms : List Bytes) : Nat := total L ms + L.maxAlign L.sizeofSize

variable {L}

@[simp] theorem length_lengthWord (m : Bytes) : (lengthWord L m).length = L.sizeofSize :=
  length_encodeLE _ _

theorem sizeofSize_pos : 0 < L.sizeofSize := by
  by_contra h
  have hzero : L.sizeofSize = 0 := by omega
  have hwide := L.size_wide
  rw [hzero, pow_zero] at hwide
  exact absurd hwide (by decide)

theorem decode_lengthWord {m : Bytes} (h : m.length ≤ maxAllocSize) : decodeLE (lengthWord L m) = m.length :=
  decodeLE_encodeLE (Nat.lt_of_le_of_lt h L.size_wide)

theorem le_maxAlign (n : Nat) : n ≤ L.maxAlign n := le_alignUp L.align_pos n

@[simp] theorem maxAlign_zero : L.maxAlign 0 = 0 := alignUp_zero L.align_pos

theorem maxAlign_of_dvd {n : Nat} (h : L.maximumAlignof ∣ n) : L.maxAlign n = n :=
  alignUp_eq_self L.align_pos h

theorem total_snoc (ms : List Bytes) (m : Bytes) : total L (ms ++ [m]) = payloadAt L ms + L.maxAlign m.length := by
  have hframe : (frame L m).length = L.maxAlign L.sizeofSize + L.maxAlign m.length := by
    rw [frame, List.length_append, length_padded L.align_pos, length_padded L.align_pos, length_lengthWord]
    rfl
  rw [total, frames, List.flatMap_append, List.flatMap_singleton, List.length_append, hframe, payloadAt, Nat.add_assoc]
  rfl

theorem frames_mono {ms msgs : List Bytes} (h : ms <+: msgs) : frames L ms <+: frames L msgs := by
  obtain ⟨rest, rfl⟩ := h
  rw [frames, frames, List.flatMap_append]
  exact List.prefix_append _ _

theorem total_mono {ms msgs : List Bytes} (h : ms <+: msgs) : total L ms ≤ total L msgs :=
  (frames_mono h).length_le

theorem segment_word {ms msgs : List Bytes} {m : Bytes} (h : ms ++ [m] <+: msgs) :
    Segment L.maximumAlignof (frames L msgs) (total L ms) (lengthWord L m) := by
  refine Segment.mono ?_ (frames_mono h)
  rw [frames, List.flatMap_append, List.flatMap_singleton, frame]
  exact segment_padded L.align_pos _ _ _

theorem segment_payload {ms msgs : List Bytes} {m : Bytes} (h : ms ++ [m] <+: msgs) :
    Segment L.maximumAlignof (frames L msgs) (payloadAt L ms) m := by
  refine Segment.mono ?_ (frames_mono h)
  have hlen : payloadAt L ms = (frames L ms ++ padded L.maximumAlignof (lengthWord L m)).length := by
    rw [List.length_append, length_padded L.align_pos, length_lengthWord]
    rfl
  have hsplit : frames L (ms ++ [m]) = (frames L ms ++ padded L.maximumAlignof (lengthWord L m)) ++
        (padded L.maximumAlignof m ++ []) := by
    rw [frames, List.flatMap_append, List.flatMap_singleton, frame, List.append_nil, List.append_assoc]
    rfl
  rw [hlen, hsplit]
  exact segment_padded L.align_pos _ _ _

theorem exists_next {ms msgs : List Bytes} (h : ms <+: msgs) (hlt : total L ms < total L msgs) :
    ∃ m, ms ++ [m] <+: msgs := by
  obtain ⟨rest, rfl⟩ := h
  cases rest with
  | nil => simp at hlt
  | cons m rest => exact ⟨m, ⟨rest, by simp⟩⟩

theorem gather_spec {A : Nat} (vs : List Bytes) (offset : Nat) (tmpbuf : Bytes)
    (hoff : ∀ v ∈ vs.head?, offset ≤ v.length) (htmp : tmpbuf.length < A) :
    (gather A vs offset tmpbuf).1 = tmpbuf ++ (vs.flatten.drop offset).take (A - tmpbuf.length) ∧
      (gather A vs offset tmpbuf).2.1.flatten.drop (gather A vs offset tmpbuf).2.2 =
        (vs.flatten.drop offset).drop (A - tmpbuf.length) := by
  induction vs generalizing offset tmpbuf with
  | nil => simp [gather]
  | cons v vs ih =>
    have hle : offset ≤ v.length := hoff v rfl
    have hflat : (v :: vs).flatten.drop offset = v.drop offset ++ vs.flatten := by
      rw [List.flatten_cons, List.drop_append_of_le_length hle]
    have hpiece : ((v.drop offset).take (A - tmpbuf.length)).length = min (A - tmpbuf.length) (v.length - offset) := by
      rw [List.length_take, List.length_drop]
    rw [gather, hflat]
    split
    · -- the buffer is full inside `v`
      next hfull =>
      rw [List.length_append, hpiece] at hfull
      have hin : A - tmpbuf.length ≤ (v.drop offset).length := by
        rw [List.length_drop]
        omega
      have hlen : ((v.drop offset).take (A - tmpbuf.length)).length = A - tmpbuf.length := by
        rw [hpiece]
        omega
      rw [List.length_drop] at hin
      have hcut : offset + (A - tmpbuf.length) ≤ v.length := by omega
      rw [List.take_append_of_le_length (by rwa [List.length_drop]),
        List.drop_append_of_le_length (by rwa [List.length_drop]), hlen, List.flatten_cons,
        List.drop_append_of_le_length hcut, List.drop_drop]
      exact ⟨rfl, rfl⟩
    · -- `v` is used up
      next hmore =>
      rw [List.length_append, hpiece] at hmore
      have hwhole : (v.drop offset).take (A - tmpbuf.length) = v.drop offset := by
        refine List.take_of_length_le ?_
        rw [List.length_drop]
        omega
      have hzero : offset + (v.drop offset).length - v.length = 0 := by
        rw [List.length_drop]
        omega
      have hroom : (tmpbuf ++ v.drop offset).length < A := by
        rw [List.length_append, List.length_drop]
        omega
      have hrest := ih 0 (tmpbuf ++ v.drop offset) (fun _ _ => Nat.zero_le _) hroom
      rw [hwhole, hzero]
      have hleft : A - (tmpbuf ++ v.drop offset).length = A - tmpbuf.length - (v.drop offset).length := by
        rw [List.length_append]
        omega
      have hover : (v.drop offset).length ≤ A - tmpbuf.length := by
        rw [List.length_drop]
        omega
      rw [hleft, List.drop_zero] at hrest
      rw [List.take_append, List.take_of_length_le hover, List.drop_append,
        List.drop_of_length_le hover, List.nil_append, ← List.append_assoc]
      exact hrest

structure ChunkOf (L : Layout) (left : Bytes) (data : Bytes) (rest : List Bytes) (offset : Nat) : Prop where
  front : data <+: left
  nonempty : data ≠ []
  aligned : L.maximumAlignof ∣ data.length ∨ data = left
  onward : rest.flatten.drop offset = left.drop data.length

theorem nextChunk_some {more : Bool} {vs rest : List Bytes} {offset offset' : Nat} {data : Bytes}
    (h : nextChunk L more vs offset = some (data, rest, offset')) :
    ChunkOf L (vs.flatten.drop offset) data rest offset' := by
  induction vs generalizing offset with
  | nil => cases h
  | cons v vs ih =>
    rw [nextChunk] at h
    split at h
    · next hskip =>
      split at h
      · cases h
      · split at h
        · have hflat : (v :: vs).flatten.drop offset = vs.flatten.drop (offset - v.length) := by
            rw [List.flatten_cons, List.drop_append, List.drop_of_length_le hskip, List.nil_append]
          rw [hflat]
          exact ih h
        · cases h
    · next hin =>
      have hflat : (v :: vs).flatten.drop offset = v.drop offset ++ vs.flatten := by
        rw [List.flatten_cons, List.drop_append_of_le_length (by omega)]
      have hpos := L.align_pos
      split at h
      · -- the bytes are gathered from several vectors
        obtain ⟨hdata, honward⟩ := gather_spec (v :: vs) offset [] (by rintro w ⟨⟩; omega) hpos
        simp only [Option.some.injEq] at h
        rw [h] at hdata honward
        simp only [List.nil_append, List.length_nil, Nat.sub_zero] at hdata honward
        have hleft : 0 < ((v :: vs).flatten.drop offset).length := by
          rw [hflat, List.length_append, List.length_drop]
          omega
        have hlen : data.length = min L.maximumAlignof ((v :: vs).flatten.drop offset).length := by
          rw [hdata, List.length_take]
        refine ⟨?_, ?_, ?_, ?_⟩
        · rw [hdata]
          exact List.take_prefix _ _
        · rw [← List.length_pos_iff, hlen]
          omega
        · by_cases hfull : L.maximumAlignof ≤ ((v :: vs).flatten.drop offset).length
          · rw [Nat.min_eq_left hfull] at hlen
            exact .inl (by rw [hlen])
          · refine .inr ?_
            rw [hdata]
            exact List.take_of_length_le (by omega)
        · rw [honward]
          by_cases hfull : L.maximumAlignof ≤ ((v :: vs).flatten.drop offset).length
          · rw [hlen, Nat.min_eq_left hfull]
          · rw [List.drop_of_length_le (by omega), List.drop_of_length_le (by omega)]
      · next hdirect =>
        simp only [Option.some.injEq, Prod.mk.injEq] at h
        obtain ⟨rfl, rfl, rfl⟩ := h
        have hdown : L.maxAlignDown (v.length - offset) ≤ v.length - offset :=
          Nat.div_mul_le_self _ _
        have hsize : (if vs ≠ [] then L.maxAlignDown (v.length - offset) else v.length - offset)
            ≤ v.length - offset := by
          split <;> omega
        generalize hc : (if vs ≠ [] then L.maxAlignDown (v.length - offset)
          else v.length - offset) = chunksize at hsize
        have hlen : ((v.drop offset).take chunksize).length = chunksize := by
          rw [List.length_take, List.length_drop]
          omega
        have hchunk : 0 < chunksize ∧ (L.maximumAlignof ∣ chunksize ∨ vs = [] ∧ chunksize = v.length - offset) := by
          by_cases hlast : vs = []
          · rw [if_neg (by simp [hlast])] at hc
            exact ⟨by omega, .inr ⟨hlast, hc.symm⟩⟩
          · rw [if_pos hlast] at hc
            have hfit : L.maximumAlignof ≤ v.length - offset := by
              by_contra hsmall
              exact hdirect ⟨hlast, by omega⟩
            refine ⟨?_, .inl (hc ▸ Dvd.intro_left _ rfl)⟩
            rw [← hc]
            exact Nat.mul_pos (Nat.div_pos hfit hpos) hpos
        rw [hflat]
        refine ⟨?_, ?_, ?_, ?_⟩
        · exact (List.take_prefix _ _).trans (List.prefix_append _ _)
        · rw [← List.length_pos_iff, hlen]
          exact hchunk.1
        · rw [hlen]
          rcases hchunk.2 with hdvd | ⟨rfl, rfl⟩
          · exact .inl hdvd
          · exact .inr (by rw [List.take_of_length_le (by rw [List.length_drop])]; simp)
        · rw [hlen, List.flatten_cons, List.drop_append_of_le_length (by omega),
            List.drop_append_of_le_length (by rw [List.length_drop]; omega), List.drop_drop]

theorem nextChunk_none {vs : List Bytes} {offset : Nat}
    (h : nextChunk L true vs offset = none) : vs.flatten.drop offset = [] := by
  induction vs generalizing offset with
  | nil => simp
  | cons v vs ih =>
    rw [nextChunk] at h
    split at h
    · next hskip =>
      have hflat : (v :: vs).flatten.drop offset = vs.flatten.drop (offset - v.length) := by
        rw [List.flatten_cons, List.drop_append, List.drop_of_length_le hskip, List.nil_append]
      rw [hflat]
      split at h
      · next hlast => simp [hlast]
      · exact ih (by simpa using h)
    · split at h <;> cases h

end CdcKafka.Mq
