import CdcKafka.Copy.Read
import CdcKafka.Copy.Wchar

/-! `CopyGetData`, `CopyConvertBuf`, `CopyLoadRawBuf` and `CopyLoadInputBuf` of `copyfromparse.c`, for data
in the encoding of the server: `need_transcoding` is false and `input_buf` is the same as `raw_buf`. -/

namespace CdcKafka.Copy

open CdcKafka.Lib

inductive CopySource
  | file
  | frontend
  | callback
deriving DecidableEq

inductive ReadFailure
  | copy (error : CopyError)
  | assertion
  /-- A loop has not ended within the rounds it was given. -/
  | unfinished
deriving DecidableEq

structure CopyFromBuffers where
  copySrc : CopySource
  /-- What the source still has: the file, the messages of the client or what the callback hands out. -/
  chunks : List Bytes
  /-- `raw_buf` up to `raw_buf_len`. A zero is behind it. -/
  rawBuf : Bytes
  rawBufIndex : Nat
  rawReachedEof : Bool
  inputBufIndex : Nat
  inputBufLen : Nat
  inputReachedEof : Bool
  inputReachedError : Bool
  lineBuf : Bytes
  eolType : EolType

def takeChunk (maxread : Nat) : List Bytes → Bytes × List Bytes
  | [] => ([], [])
  | chunk :: chunks =>
    if chunk = [] then takeChunk maxread chunks else (chunk.take maxread, chunk.drop maxread :: chunks)

def copyGetData (s : CopyFromBuffers) (maxread : Nat) : Bytes × CopyFromBuffers :=
  match s.copySrc with
  | .file =>
    let databuf := s.chunks.flatten.take maxread
    (databuf, { s with chunks := [s.chunks.flatten.drop maxread], rawReachedEof := s.rawReachedEof || databuf.isEmpty })
  | .frontend =>
    if maxread = 0 ∨ s.rawReachedEof then ([], s)
    else
      let r := takeChunk maxread s.chunks
      -- the message behind the last one is CopyDone
      (r.1, { s with chunks := r.2, rawReachedEof := r.1.isEmpty })
  | .callback =>
    let r := takeChunk maxread s.chunks
    (r.1, { s with chunks := r.2 })

def copyConvertBuf (e : ServerEncoding) (s : CopyFromBuffers) : CopyFromBuffers :=
  let unverified := s.rawBuf.drop s.inputBufLen
  if unverified = [] then
    if s.rawReachedEof then { s with inputReachedEof := true } else s
  else
    let nverified := pgEncodingVerifymbstr e unverified
    if nverified = 0 then
      if s.rawReachedEof ∨ e.maxLength ≤ unverified.length then { s with inputReachedError := true } else s
    else { s with inputBufLen := s.inputBufLen + nverified }

def rawBufSize : Nat := 65536

def copyLoadRawBuf (s : CopyFromBuffers) : CopyFromBuffers :=
  let rawBuf := s.rawBuf.drop s.rawBufIndex
  let r := copyGetData s (rawBufSize - rawBuf.length)
  { r.2 with
    rawBuf := rawBuf ++ r.1
    rawBufIndex := 0
    rawReachedEof := r.2.rawReachedEof || r.1.isEmpty
    inputBufLen := s.inputBufLen - s.inputBufIndex
    inputBufIndex := 0 }

def loadRounds (e : ServerEncoding) (nbytes : Nat) : Nat → CopyFromBuffers → Except ReadFailure CopyFromBuffers
  | 0, _ => .error .unfinished
  | rounds + 1, s =>
    let s := copyConvertBuf e s
    if nbytes < s.inputBufLen - s.inputBufIndex then .ok s
    else if s.inputReachedError then .error (.copy .invalidByteSequence)
    else if s.inputReachedEof then .ok s
    else if s.rawReachedEof then .error .assertion
    else loadRounds e nbytes rounds (copyLoadRawBuf s)

def copyLoadInputBuf (e : ServerEncoding) (s : CopyFromBuffers) : Except ReadFailure CopyFromBuffers :=
  loadRounds e (s.inputBufLen - s.inputBufIndex) (s.chunks.flatten.length + 2) { s with rawBufIndex := s.inputBufIndex }

namespace CopyFromBuffers

def stream (s : CopyFromBuffers) : Bytes := s.rawBuf.drop s.inputBufIndex ++ s.chunks.flatten

def inputBufBytes (s : CopyFromBuffers) : Nat := s.inputBufLen - s.inputBufIndex

structure Fed (e : ServerEncoding) (s : CopyFromBuffers) : Prop where
  index_le : s.inputBufIndex ≤ s.inputBufLen
  len_le : s.inputBufLen ≤ s.rawBuf.length
  complete : e.reader.Complete (s.rawBuf.drop s.inputBufLen ++ s.chunks.flatten)
  raw_eof : s.rawReachedEof = true → s.chunks.flatten = []
  input_eof : s.inputReachedEof = true → s.chunks.flatten = [] ∧ s.rawBuf.length = s.inputBufLen
  no_error : s.inputReachedError = false

structure Loads (s s' : CopyFromBuffers) : Prop where
  stream : s'.stream = s.stream
  lineBuf : s'.lineBuf = s.lineBuf
  eolType : s'.eolType = s.eolType
  copySrc : s'.copySrc = s.copySrc

theorem Loads.refl (s : CopyFromBuffers) : Loads s s := ⟨rfl, rfl, rfl, rfl⟩

theorem Loads.trans {s₁ s₂ s₃ : CopyFromBuffers} (h : Loads s₁ s₂) (h' : Loads s₂ s₃) : Loads s₁ s₃ :=
  ⟨h'.stream.trans h.stream, h'.lineBuf.trans h.lineBuf, h'.eolType.trans h.eolType, h'.copySrc.trans h.copySrc⟩

end CopyFromBuffers

open CopyFromBuffers

variable {e : ServerEncoding} {s : CopyFromBuffers} {nbytes rounds maxread : Nat}

theorem takeChunk_append (maxread : Nat) (chunks : List Bytes) :
    (takeChunk maxread chunks).1 ++ (takeChunk maxread chunks).2.flatten = chunks.flatten := by
  induction chunks with
  | nil => rfl
  | cons chunk chunks ih =>
    rw [takeChunk]
    split
    · next hnil =>
      rw [hnil]
      exact ih
    · change chunk.take maxread ++ (chunk.drop maxread ++ chunks.flatten) = chunk ++ chunks.flatten
      rw [← List.append_assoc, List.take_append_drop]

theorem takeChunk_eq_nil (hpos : 0 < maxread) {chunks : List Bytes} (h : (takeChunk maxread chunks).1 = []) :
    chunks.flatten = [] := by
  induction chunks with
  | nil => rfl
  | cons chunk chunks ih =>
    rw [takeChunk] at h
    split at h
    · next hnil =>
      rw [hnil]
      exact ih h
    · next hne =>
      rcases List.take_eq_nil_iff.mp h with hzero | hnil
      · omega
      · exact absurd hnil hne

theorem copyGetData_spec (hpos : 0 < maxread) (heof : s.rawReachedEof = true → s.chunks.flatten = []) :
    ∃ databuf chunks eof, copyGetData s maxread = (databuf, { s with chunks := chunks, rawReachedEof := eof }) ∧
      databuf ++ chunks.flatten = s.chunks.flatten ∧ (databuf = [] → chunks.flatten = []) ∧
      (eof = true → chunks.flatten = []) := by
  have hsame {b rest : Bytes} (hb : b ++ rest = s.chunks.flatten) (hnil : s.chunks.flatten = []) : rest = [] :=
    (List.append_eq_nil_iff.mp (hb.trans hnil)).2
  unfold copyGetData
  split
  · have happend : s.chunks.flatten.take maxread ++ [s.chunks.flatten.drop maxread].flatten = s.chunks.flatten := by
      rw [List.flatten_singleton, List.take_append_drop]
    have hend (hnil : s.chunks.flatten.take maxread = []) : s.chunks.flatten = [] := by
      rcases List.take_eq_nil_iff.mp hnil with hzero | hnil
      · omega
      · exact hnil
    refine ⟨_, _, _, rfl, happend, fun hnil => hsame happend (hend hnil), fun hor => ?_⟩
    rcases Bool.or_eq_true_iff.mp hor with hraw | hnil
    · exact hsame happend (heof hraw)
    · exact hsame happend (hend (List.isEmpty_iff.mp hnil))
  · split
    · next hnone =>
      rcases hnone with hzero | hraw
      · omega
      · exact ⟨[], s.chunks, s.rawReachedEof, rfl, rfl, fun _ => heof hraw, heof⟩
    · have happend := takeChunk_append maxread s.chunks
      exact ⟨_, _, _, rfl, happend, fun hnil => hsame happend (takeChunk_eq_nil hpos hnil),
        fun hnil => hsame happend (takeChunk_eq_nil hpos (List.isEmpty_iff.mp hnil))⟩
  · have happend := takeChunk_append maxread s.chunks
    exact ⟨_, _, s.rawReachedEof, rfl, happend, fun hnil => hsame happend (takeChunk_eq_nil hpos hnil),
      fun hraw => hsame happend (heof hraw)⟩

theorem reader_next_le {b : Bytes} {n : Nat} (h : e.reader.next b = some n) : n ≤ e.maxLength :=
  (ServerEncoding.le_maxLength h).2.2

theorem maxLength_le (e : ServerEncoding) : e.maxLength ≤ 4 := by
  cases e <;> decide

theorem Fed.unverified (h : s.Fed e) (hne : s.rawBuf.drop s.inputBufLen ≠ [])
    (hzero : pgEncodingVerifymbstr e (s.rawBuf.drop s.inputBufLen) = 0) :
    s.rawReachedEof = false ∧ (s.rawBuf.drop s.inputBufLen).length < e.maxLength := by
  obtain ⟨n, hnext, hlt⟩ := h.complete.length_lt hne hzero
  refine ⟨Bool.eq_false_iff.mpr fun hraw => ?_, Nat.lt_of_lt_of_le hlt (reader_next_le hnext)⟩
  have hle := e.reader.next_le hnext
  rw [h.raw_eof hraw, List.append_nil] at hle
  omega

theorem copyConvertBuf_spec (h : s.Fed e) : (copyConvertBuf e s).Fed e ∧ Loads s (copyConvertBuf e s) ∧
      (copyConvertBuf e s).rawBufIndex = s.rawBufIndex ∧
      (copyConvertBuf e s).inputBufIndex = s.inputBufIndex ∧
      (copyConvertBuf e s).chunks = s.chunks ∧ (copyConvertBuf e s).rawReachedEof = s.rawReachedEof ∧
      (s.inputBufBytes < (copyConvertBuf e s).inputBufBytes ∨
        (copyConvertBuf e s).inputBufBytes = s.inputBufBytes ∧ ((copyConvertBuf e s).inputReachedEof = true ∨
          s.rawReachedEof = false ∧ (copyConvertBuf e s).rawBuf.length < (copyConvertBuf e s).inputBufLen + e.maxLength)) := by
  have hlen := h.len_le
  have hmax : 0 < e.maxLength := by
    cases e <;> decide
  unfold copyConvertBuf
  by_cases hnil : s.rawBuf.drop s.inputBufLen = []
  · have hall : s.rawBuf.length = s.inputBufLen := Nat.le_antisymm (List.drop_eq_nil_iff.mp hnil) hlen
    rw [if_pos hnil]
    by_cases hraw : s.rawReachedEof = true
    · have hfed : Fed e { s with inputReachedEof := true } :=
        ⟨h.index_le, hlen, h.complete, h.raw_eof, fun _ => ⟨h.raw_eof hraw, hall⟩, h.no_error⟩
      rw [if_pos hraw]
      exact ⟨hfed, ⟨rfl, rfl, rfl, rfl⟩, rfl, rfl, rfl, rfl, Or.inr ⟨rfl, Or.inl rfl⟩⟩
    · have hshort : s.rawBuf.length < s.inputBufLen + e.maxLength := by omega
      rw [if_neg hraw]
      exact ⟨h, Loads.refl s, rfl, rfl, rfl, rfl, Or.inr ⟨rfl, Or.inr ⟨Bool.eq_false_iff.mpr hraw, hshort⟩⟩⟩
  · rw [if_neg hnil]
    by_cases hzero : pgEncodingVerifymbstr e (s.rawBuf.drop s.inputBufLen) = 0
    · obtain ⟨hraw, hlt⟩ := Fed.unverified h hnil hzero
      have hnot : ¬(s.rawReachedEof = true ∨ e.maxLength ≤ (s.rawBuf.drop s.inputBufLen).length) := by
        rintro (htrue | hle)
        · exact absurd (hraw.symm.trans htrue) nofun
        · omega
      rw [List.length_drop] at hlt
      dsimp only
      rw [if_pos hzero, if_neg hnot]
      exact ⟨h, Loads.refl s, rfl, rfl, rfl, rfl, Or.inr ⟨rfl, Or.inr ⟨hraw, by omega⟩⟩⟩
    · have hle := e.reader.whole_le (s.rawBuf.drop s.inputBufLen)
      have hindex := h.index_le
      have hwhole := h.complete.drop_whole
      dsimp only
      rw [List.length_drop] at hle
      rw [List.drop_drop] at hwhole
      rw [if_neg hzero]
      unfold pgEncodingVerifymbstr at hzero ⊢
      refine ⟨⟨?_, ?_, hwhole, h.raw_eof, fun heof => ?_, h.no_error⟩, ⟨rfl, rfl, rfl, rfl⟩, rfl, rfl, rfl, rfl,
        Or.inl ?_⟩
      · exact Nat.le_add_right_of_le hindex
      · change s.inputBufLen + e.reader.whole (s.rawBuf.drop s.inputBufLen) ≤ s.rawBuf.length
        omega
      · exact absurd (List.drop_eq_nil_iff.mpr (Nat.le_of_eq (h.input_eof heof).2)) hnil
      · change s.inputBufLen - s.inputBufIndex < s.inputBufLen + e.reader.whole (s.rawBuf.drop s.inputBufLen) - s.inputBufIndex
        omega

def rawLoads (s : CopyFromBuffers) : Nat := s.chunks.flatten.length + if s.rawReachedEof then 0 else 1

theorem copyLoadRawBuf_spec (h : s.Fed e) (hraw : s.rawReachedEof = false) (hindex : s.rawBufIndex = s.inputBufIndex)
    (hroom : s.rawBuf.length < s.inputBufIndex + rawBufSize) :
    (copyLoadRawBuf s).Fed e ∧ Loads s (copyLoadRawBuf s) ∧
      (copyLoadRawBuf s).rawBufIndex = (copyLoadRawBuf s).inputBufIndex ∧
      (copyLoadRawBuf s).inputBufBytes = s.inputBufBytes ∧ rawLoads (copyLoadRawBuf s) < rawLoads s := by
  have hle := h.index_le
  have hlen := h.len_le
  have hpos : 0 < rawBufSize - (s.rawBuf.drop s.rawBufIndex).length := by
    rw [List.length_drop, hindex]
    omega
  obtain ⟨databuf, chunks, eof, heq, happend, hnil, heof⟩ := copyGetData_spec hpos h.raw_eof
  have hloaded : copyLoadRawBuf s =
      { s with
        chunks := chunks
        rawBuf := s.rawBuf.drop s.rawBufIndex ++ databuf
        rawBufIndex := 0
        rawReachedEof := eof || databuf.isEmpty
        inputBufLen := s.inputBufLen - s.inputBufIndex
        inputBufIndex := 0 } := by
    simp only [copyLoadRawBuf, heq]
  have hend : (eof || databuf.isEmpty) = true → chunks.flatten = [] := by
    intro hor
    rcases Bool.or_eq_true_iff.mp hor with heof' | hempty
    · exact heof heof'
    · exact hnil (List.isEmpty_iff.mp hempty)
  have hbehind : (s.rawBuf.drop s.rawBufIndex ++ databuf).drop (s.inputBufLen - s.inputBufIndex) ++ chunks.flatten =
      s.rawBuf.drop s.inputBufLen ++ s.chunks.flatten := by
    have hverified : s.inputBufLen - s.inputBufIndex ≤ (s.rawBuf.drop s.rawBufIndex).length := by
      rw [List.length_drop]
      omega
    have hsum : s.rawBufIndex + (s.inputBufLen - s.inputBufIndex) = s.inputBufLen := by omega
    rw [List.drop_append_of_le_length hverified, List.append_assoc, happend, List.drop_drop, hsum]
  have hloads : Loads s (copyLoadRawBuf s) := by
    refine ⟨?_, by rw [hloaded], by rw [hloaded], by rw [hloaded]⟩
    rw [hloaded]
    change (s.rawBuf.drop s.rawBufIndex ++ databuf).drop 0 ++ chunks.flatten = s.stream
    rw [List.drop_zero, List.append_assoc, happend, hindex]
    rfl
  have hfewer : rawLoads (copyLoadRawBuf s) < rawLoads s := by
    have hlength := congrArg List.length happend
    rw [List.length_append] at hlength
    rw [hloaded, rawLoads, rawLoads, hraw]
    by_cases hempty : databuf = []
    · rw [hempty, List.isEmpty_nil, Bool.or_true, if_pos rfl]
      dsimp only
      rw [if_neg nofun]
      omega
    · have hsome : 0 < databuf.length := List.length_pos_iff.mpr hempty
      dsimp only
      rw [if_neg Bool.false_ne_true]
      split <;> omega
  have hfed : (copyLoadRawBuf s).Fed e := by
    rw [hloaded]
    refine ⟨Nat.zero_le _, ?_, ?_, hend, fun heof' => ?_, h.no_error⟩
    · change s.inputBufLen - s.inputBufIndex ≤ (s.rawBuf.drop s.rawBufIndex ++ databuf).length
      rw [List.length_append, List.length_drop]
      omega
    · change e.reader.Complete (List.drop (s.inputBufLen - s.inputBufIndex) (s.rawBuf.drop s.rawBufIndex ++ databuf) ++
        chunks.flatten)
      rw [hbehind]
      exact h.complete
    · obtain ⟨hflat, hall⟩ := h.input_eof heof'
      obtain ⟨hdata, hchunks⟩ := List.append_eq_nil_iff.mp (happend.trans hflat)
      refine ⟨hchunks, ?_⟩
      change (s.rawBuf.drop s.rawBufIndex ++ databuf).length = s.inputBufLen - s.inputBufIndex
      rw [hdata, List.append_nil, List.length_drop]
      omega
  exact ⟨hfed, hloads, by rw [hloaded], by rw [hloaded]; rfl, hfewer⟩

theorem loadRounds_spec (h : s.Fed e) (hindex : s.rawBufIndex = s.inputBufIndex) (hbytes : s.inputBufBytes = nbytes)
    (hsmall : nbytes ≤ 3) (hrounds : rawLoads s < rounds) :
    ∃ s', loadRounds e nbytes rounds s = .ok s' ∧ s'.Fed e ∧ Loads s s' ∧
      (nbytes < s'.inputBufBytes ∨ s'.inputBufBytes = nbytes ∧ s'.inputReachedEof = true) := by
  induction rounds generalizing s with
  | zero => exact absurd hrounds (Nat.not_lt_zero _)
  | succ rounds ih =>
    obtain ⟨hfed, hloads, hrawIndex, hinputIndex, hchunks, hraw, hmore⟩ := copyConvertBuf_spec h
    rw [hbytes] at hmore
    rw [loadRounds]
    change ∃ s', (if nbytes < (copyConvertBuf e s).inputBufBytes then _ else _) = _ ∧ _
    rcases hmore with hmore | ⟨hsame, hend | ⟨hnotEnd, hshort⟩⟩
    · rw [if_pos hmore]
      exact ⟨_, rfl, hfed, hloads, Or.inl hmore⟩
    · rw [if_neg (by omega), if_neg (by rw [hfed.no_error]; nofun), if_pos hend]
      exact ⟨_, rfl, hfed, hloads, Or.inr ⟨hsame, hend⟩⟩
    · rw [if_neg (by omega), if_neg (by rw [hfed.no_error]; nofun)]
      by_cases hend : (copyConvertBuf e s).inputReachedEof = true
      · rw [if_pos hend]
        exact ⟨_, rfl, hfed, hloads, Or.inr ⟨hsame, hend⟩⟩
      · rw [if_neg hend, if_neg (by rw [hraw, hnotEnd]; nofun)]
        -- at most three bytes and a part of a character are kept
        have hkept : (copyConvertBuf e s).inputBufLen - (copyConvertBuf e s).inputBufIndex = nbytes := hsame
        have hroom : (copyConvertBuf e s).rawBuf.length < (copyConvertBuf e s).inputBufIndex + rawBufSize := by
          have hmax := maxLength_le e
          rw [rawBufSize]
          omega
        have hrawIndex' : (copyConvertBuf e s).rawBufIndex = (copyConvertBuf e s).inputBufIndex := by
          rw [hrawIndex, hinputIndex, hindex]
        obtain ⟨hfed', hloads', hindex', hbytes', hfewer⟩ :=
          copyLoadRawBuf_spec hfed (hraw.trans hnotEnd) hrawIndex' hroom
        have hsameLoads : rawLoads (copyConvertBuf e s) = rawLoads s := by
          rw [rawLoads, rawLoads, hchunks, hraw]
        obtain ⟨s', hs', hfed'', hloads'', hgot⟩ := ih hfed' hindex' (hbytes'.trans hsame) (by omega)
        exact ⟨s', hs', hfed'', (hloads.trans hloads').trans hloads'', hgot⟩

theorem copyLoadInputBuf_spec (h : s.Fed e) (hsmall : s.inputBufBytes ≤ 3) :
    ∃ s', copyLoadInputBuf e s = .ok s' ∧ s'.Fed e ∧ Loads s s' ∧
      (s.inputBufBytes < s'.inputBufBytes ∨ s'.inputBufBytes = s.inputBufBytes ∧ s'.inputReachedEof = true) := by
  have hfed : Fed e { s with rawBufIndex := s.inputBufIndex } :=
    ⟨h.index_le, h.len_le, h.complete, h.raw_eof, h.input_eof, h.no_error⟩
  have hrounds : rawLoads { s with rawBufIndex := s.inputBufIndex } < s.chunks.flatten.length + 2 := by
    rw [rawLoads]
    split <;> simp only <;> omega
  obtain ⟨s', hs', hfed', hloads, hgot⟩ := loadRounds_spec hfed rfl rfl hsmall hrounds
  exact ⟨s', hs', hfed', ⟨hloads.stream, hloads.lineBuf, hloads.eolType, hloads.copySrc⟩, hgot⟩

end CdcKafka.Copy
