import CdcKafka.Xlog.RecordInverse

/-! A record as a whole: the loop over its headers, and the data behind them. -/

namespace CdcKafka.Xlog

open CdcKafka.Lib

variable {ins : Insertion} {st st' st'' : DecodeState} {frag frag' : Bytes}

/-- From `st` the loop takes the headers `frag` and goes on with `st'`, when the data behind them
are at least those that were announced. -/
def Runs (st : DecodeState) (frag : Bytes) (st' : DecodeState) : Prop :=
  st.datatotal ≤ st'.datatotal ∧ ∀ ptr n, st'.datatotal ≤ ptr.length → (frag ++ ptr).length ≤ n →
      ∃ m, ptr.length ≤ m ∧ decodeHeaders n st (frag ++ ptr) = decodeHeaders m st' ptr

theorem Runs.refl (st : DecodeState) : Runs st [] st :=
  ⟨Nat.le_refl _, fun _ n _ hfuel => ⟨n, hfuel, rfl⟩⟩

theorem Runs.trans (h : Runs st frag st') (h' : Runs st' frag' st'') : Runs st (frag ++ frag') st'' := by
  refine ⟨Nat.le_trans h.1 h'.1, fun ptr n hroom hfuel => ?_⟩
  rw [List.append_assoc] at hfuel ⊢
  have hroom' : st'.datatotal ≤ (frag' ++ ptr).length := by
    have hle := h'.1
    rw [List.length_append]
    omega
  obtain ⟨m, hm, heq⟩ := h.2 (frag' ++ ptr) n hroom' hfuel
  obtain ⟨m', hm', heq'⟩ := h'.2 ptr m hroom hm
  exact ⟨m', hm', heq.trans heq'⟩

theorem Runs.fragment (hreads : Reads (decodeFragment st) frag (st', false)) (hne : frag ≠ [])
    (hle : st.datatotal ≤ st'.datatotal) : Runs st frag st' := by
  refine ⟨hle, fun ptr n hroom hfuel => ?_⟩
  have hlength : (frag ++ ptr).length = frag.length + ptr.length := List.length_append
  have hpos : 0 < frag.length := List.length_pos_iff.2 hne
  cases n with
  | zero => omega
  | succ n =>
    refine ⟨n, by omega, ?_⟩
    rw [decodeHeaders]
    dsimp only
    rw [if_neg (by omega), hreads ptr]
    rfl

def laidOut (f : Bool → RegisteredBuffer → DecodedBkpBlock) :
    Nat → Option RelFileLocator → List (Option RegisteredBuffer) → List (Option DecodedBkpBlock)
  | _, _, [] => []
  | gap, prev, none :: rest => laidOut f (gap + 1) prev rest
  | gap, prev, some b :: rest =>
    List.replicate gap none ++ some (f (prev = some b.rlocator) b) :: laidOut f 0 (some b.rlocator) rest

def lastRelation : Option RelFileLocator → List (Option RegisteredBuffer) → Option RelFileLocator
  | prev, [] => prev
  | prev, none :: rest => lastRelation prev rest
  | _, some b :: rest => lastRelation (some b.rlocator) rest

def DecodeState.addBlocks (st : DecodeState) (ins : Insertion) (gap : Nat) (prev : Option RelFileLocator)
    (buffers : List (Option RegisteredBuffer)) (len : Nat) : DecodeState where
  record := { st.record with blocks := st.record.blocks ++ laidOut ins.headerOf gap prev buffers }
  datatotal := st.datatotal + len
  rlocator := lastRelation prev buffers

theorem addBlock_addBlocks (st : DecodeState) (ins : Insertion) (gap : Nat) (prev : Option RelFileLocator)
    (b : RegisteredBuffer) (buffers : List (Option RegisteredBuffer)) (n len : Nat) :
    (st.addBlock gap (ins.headerOf (prev = some b.rlocator) b) n).addBlocks ins 0 (some b.rlocator) buffers len =
      st.addBlocks ins gap prev (some b :: buffers) (n + len) := by
  simp only [DecodeState.addBlocks, DecodeState.addBlock, laidOut, lastRelation, List.append_assoc,
    List.singleton_append, Nat.add_assoc]

theorem runs_blocks {id gap : Nat} {prev : Option RelFileLocator} (buffers : List (Option RegisteredBuffer))
    (hids : id + buffers.length ≤ xlrMaxBlockId + 1) (hgap : st.record.blocks.length + gap = id)
    (hprev : st.rlocator = prev)
    (htotal : st.datatotal + (ins.assembleBlocks id prev buffers).2.length < 2 ^ 32) :
    Runs st (ins.assembleBlocks id prev buffers).1
      (st.addBlocks ins gap prev buffers (ins.assembleBlocks id prev buffers).2.length) := by
  induction buffers generalizing st id gap prev with
  | nil =>
    subst hprev
    have hnothing : Runs st [] (st.addBlocks ins gap st.rlocator [] 0) := by
      simp only [DecodeState.addBlocks, laidOut, lastRelation, List.append_nil, Nat.add_zero]
      exact Runs.refl st
    exact hnothing
  | cons entry buffers ih =>
    have hlength : (entry :: buffers).length = buffers.length + 1 := List.length_cons
    cases entry with
    | none => exact ih (by omega) (by omega) hprev htotal
    | some b =>
      rw [Insertion.assembleBlocks] at htotal ⊢
      dsimp only at htotal ⊢
      rw [List.length_append] at htotal ⊢
      rw [← addBlock_addBlocks]
      have hblock : Runs st (ins.blockHeader id (prev = some b.rlocator) b)
          (st.addBlock gap (ins.headerOf (prev = some b.rlocator) b) (ins.blockData b).length) := by
        have hsame : decide (prev = some b.rlocator) = true → st.rlocator = some b.rlocator := fun h =>
          hprev.trans (of_decide_eq_true h)
        exact Runs.fragment (reads_decodeFragment (by omega) hgap hsame (by omega)) (by simp [Insertion.blockHeader])
          (Nat.le_add_right _ _)
      have hcount :
          (st.addBlock gap (ins.headerOf (prev = some b.rlocator) b) (ins.blockData b).length).record.blocks.length
          + 0 = id + 1 := by
        simp only [DecodeState.addBlock, List.length_append, List.length_replicate, List.length_singleton]
        omega
      have hsum : (st.addBlock gap (ins.headerOf (prev = some b.rlocator) b) (ins.blockData b).length).datatotal +
          (ins.assembleBlocks (id + 1) (some b.rlocator) buffers).2.length < 2 ^ 32 := by
        simp only [DecodeState.addBlock]
        omega
      exact hblock.trans (ih (by omega) hcount rfl hsum)

def Insertion.origin (ins : Insertion) : UInt16 := if ins.includesOrigin then ins.sessionOrigin else 0

def Insertion.toplevelXid (ins : Insertion) : UInt32 := if ins.topXidPending then ins.topXid else 0

theorem runs_origin (ins : Insertion) (hnone : st.record.recordOrigin = 0) :
    Runs st (if ins.includesOrigin then xlrBlockIdOrigin :: encodeLE 2 ins.sessionOrigin.toNat else [])
      { st with record := { st.record with recordOrigin := ins.origin } } := by
  rw [Insertion.origin]
  cases ins.includesOrigin with
  | false =>
    rw [if_neg (by simp), if_neg (by simp), ← hnone]
    exact Runs.refl st
  | true =>
    rw [if_pos rfl, if_pos rfl]
    have hfield : Reads (copyField 2) (encodeLE 2 ins.sessionOrigin.toNat) ins.sessionOrigin.toNat :=
      reads_copyField ins.sessionOrigin.toNat_lt
    have hreads : Reads (decodeFragment st) (xlrBlockIdOrigin :: encodeLE 2 ins.sessionOrigin.toNat)
        ({ st with record := { st.record with recordOrigin := ins.sessionOrigin } }, false) := by
      have hset := hfield.map (f := fun origin =>
        (({ st with record := { st.record with recordOrigin := UInt16.ofNat origin } } : DecodeState), false))
      rw [UInt16.ofNat_toNat] at hset
      exact (reads_copyByte xlrBlockIdOrigin).bind hset
    exact Runs.fragment hreads (by simp) (Nat.le_refl _)

theorem runs_toplevelXid (ins : Insertion) (hnone : st.record.toplevelXid = 0) :
    Runs st (if ins.topXidPending then xlrBlockIdToplevelXid :: encodeLE 4 ins.topXid.toNat else [])
      { st with record := { st.record with toplevelXid := ins.toplevelXid } } := by
  rw [Insertion.toplevelXid]
  cases ins.topXidPending with
  | false =>
    rw [if_neg (by simp), if_neg (by simp), ← hnone]
    exact Runs.refl st
  | true =>
    rw [if_pos rfl, if_pos rfl]
    have hfield : Reads (copyField 4) (encodeLE 4 ins.topXid.toNat) ins.topXid.toNat :=
      reads_copyField ins.topXid.toNat_lt
    have hreads : Reads (decodeFragment st) (xlrBlockIdToplevelXid :: encodeLE 4 ins.topXid.toNat)
        ({ st with record := { st.record with toplevelXid := ins.topXid } }, false) := by
      have hset := hfield.map (f := fun xid =>
        (({ st with record := { st.record with toplevelXid := UInt32.ofNat xid } } : DecodeState), false))
      rw [UInt32.ofNat_toNat] at hset
      exact (reads_copyByte xlrBlockIdToplevelXid).bind hset
    exact Runs.fragment hreads (by simp) (Nat.le_refl _)

def mainHeader (len : Nat) : Bytes :=
  if len = 0 then []
  else if 255 < len then xlrBlockIdDataLong :: encodeLE 4 len
  else [xlrBlockIdDataShort, UInt8.ofNat len]

theorem decodeHeaders_main {len n : Nat} (hlen : len < 2 ^ 32) (hzero : st.record.mainDataLen = 0)
    (htotal : st.datatotal + len < 2 ^ 32) {data : Bytes} (hdata : data.length = st.datatotal + len)
    (hfuel : (mainHeader len ++ data).length ≤ n) :
    decodeHeaders n st (mainHeader len ++ data) =
      .ok ({ st with record := { st.record with mainDataLen := len }, datatotal := st.datatotal + len }, data) := by
  have hmod : (st.datatotal + len) % 2 ^ 32 = st.datatotal + len := Nat.mod_eq_of_lt htotal
  -- a header of the main data is taken and ends the loop
  have hlast {frag : Bytes} (hne : frag ≠ []) (hn : (frag ++ data).length ≤ n) (hreads : Reads (decodeFragment st) frag
        ({ st with record := { st.record with mainDataLen := len }, datatotal := st.datatotal + len }, true)) :
      decodeHeaders n st (frag ++ data) =
        .ok ({ st with record := { st.record with mainDataLen := len }, datatotal := st.datatotal + len }, data) := by
    have hpos : 0 < frag.length := List.length_pos_iff.2 hne
    have hlength : (frag ++ data).length = frag.length + data.length := List.length_append
    cases n with
    | zero => omega
    | succ n =>
      rw [decodeHeaders]
      dsimp only
      rw [if_neg (by omega), hreads data]
      rfl
  rw [mainHeader] at hfuel ⊢
  by_cases hnone : len = 0
  · subst hnone
    rw [if_pos rfl, List.nil_append]
    have hstop : decodeHeaders n st data = .ok (st, data) := by
      cases n with
      | zero => rfl
      | succ n =>
        rw [decodeHeaders]
        dsimp only
        rw [if_pos (by omega)]
    have hsame : { st.record with mainDataLen := 0 } = st.record := by rw [← hzero]
    rw [hstop, hsame, Nat.add_zero]
  · rw [if_neg hnone] at hfuel ⊢
    by_cases hlong : 255 < len
    · rw [if_pos hlong] at hfuel ⊢
      have hset : Reads (decodeFragment st) (xlrBlockIdDataLong :: encodeLE 4 len)
          ({ st with record := { st.record with mainDataLen := len }
                     datatotal := (st.datatotal + len) % 2 ^ 32 }, true) :=
        (reads_copyByte xlrBlockIdDataLong).bind (reads_copyField (w := 4) hlen).map
      rw [hmod] at hset
      exact hlast (by simp) hfuel hset
    · rw [if_neg hlong] at hfuel ⊢
      have hbyte : (UInt8.ofNat len).toNat = len := UInt8.toNat_ofNat_of_lt' (show len < 256 by omega)
      have hset : Reads (decodeFragment st) [xlrBlockIdDataShort, UInt8.ofNat len]
          ({ st with record := { st.record with mainDataLen := (UInt8.ofNat len).toNat }
                     datatotal := (st.datatotal + (UInt8.ofNat len).toNat) % 2 ^ 32 }, true) :=
        (reads_copyByte xlrBlockIdDataShort).bind (reads_copyByte (UInt8.ofNat len)).map
      rw [hbyte, hmod] at hset
      exact hlast (by simp) hfuel hset

def Insertion.blockOf (ins : Insertion) (samerel : Bool) (b : RegisteredBuffer) : DecodedBkpBlock :=
  { ins.headerOf samerel b with
    bkpImage := if ins.includeImage b then (ins.image b).bytes else []
    data := if ins.needsData b then b.rdata else [] }

theorem copyBlockData_gap (gap : Nat) (blocks : List (Option DecodedBkpBlock)) (ptr : Bytes) :
    copyBlockData (List.replicate gap none ++ blocks) ptr =
      (List.replicate gap none ++ (copyBlockData blocks ptr).1, (copyBlockData blocks ptr).2) := by
  induction gap with
  | zero => rfl
  | succ gap ih =>
    rw [List.replicate_succ, List.cons_append, copyBlockData, ih]
    rfl

theorem copyBlockData_block (ins : Insertion) (samerel : Bool) (b : RegisteredBuffer)
    (blocks : List (Option DecodedBkpBlock)) (rest : Bytes) :
    copyBlockData (some (ins.headerOf samerel b) :: blocks) (ins.blockData b ++ rest) =
      (some (ins.blockOf samerel b) :: (copyBlockData blocks rest).1, (copyBlockData blocks rest).2) := by
  have himage : (((ins.headerOf samerel b).image).map (·.bimgLen)).getD 0 =
      (if ins.includeImage b then (ins.image b).bytes else []).length := by
    rw [Insertion.headerOf]
    dsimp only
    rw [Insertion.decodedImageOf]
    cases ins.includeImage b <;> rfl
  have hdata : (if (ins.headerOf samerel b).hasData then (ins.headerOf samerel b).dataLen else 0) =
      (if ins.needsData b then b.rdata else []).length := by
    rw [Insertion.headerOf]
    dsimp only
    rw [Insertion.dataLength]
    cases ins.needsData b <;> rfl
  rw [copyBlockData, himage, hdata, Insertion.blockData, Insertion.blockOf]
  rw [List.append_assoc, List.take_left, List.drop_left, List.take_left, ← List.append_assoc, ← List.length_append,
    List.drop_left]

theorem copyBlockData_laidOut (ins : Insertion) (id gap : Nat) (prev : Option RelFileLocator)
    (buffers : List (Option RegisteredBuffer)) (rest : Bytes) :
    copyBlockData (laidOut ins.headerOf gap prev buffers) ((ins.assembleBlocks id prev buffers).2 ++ rest) =
      (laidOut ins.blockOf gap prev buffers, rest) := by
  induction buffers generalizing id gap prev with
  | nil => rfl
  | cons entry buffers ih =>
    cases entry with
    | none => exact ih (id + 1) (gap + 1) prev
    | some b =>
      rw [laidOut, laidOut, Insertion.assembleBlocks]
      dsimp only
      rw [copyBlockData_gap, List.append_assoc, copyBlockData_block, ih]

theorem length_headerBytes (h : XLogRecord) : h.bytes.length = sizeOfXLogRecord := by
  simp [XLogRecord.bytes, sizeOfXLogRecord]

theorem readHeader_bytes {h : XLogRecord} (htot : h.totLen < 2 ^ 32) (rest : Bytes) :
    readHeader (h.bytes ++ rest) = h := by
  have htot' : decodeLE (encodeLE 4 h.totLen) = h.totLen := decodeLE_encodeLE htot
  have hxid : decodeLE (encodeLE 4 h.xid.toNat) = h.xid.toNat := decodeLE_encodeLE h.xid.toNat_lt
  have hprev : decodeLE (encodeLE 8 h.prev.toNat) = h.prev.toNat := decodeLE_encodeLE h.prev.toNat_lt
  have hcrc : decodeLE (encodeLE 4 h.crc.toNat) = h.crc.toNat := decodeLE_encodeLE h.crc.toNat_lt
  -- the fields lie at fixed offsets
  have hfields : readHeader (h.bytes ++ rest) =
      ⟨decodeLE (encodeLE 4 h.totLen), UInt32.ofNat (decodeLE (encodeLE 4 h.xid.toNat)),
        UInt64.ofNat (decodeLE (encodeLE 8 h.prev.toNat)), h.info, h.rmid,
        UInt32.ofNat (decodeLE (encodeLE 4 h.crc.toNat))⟩ := rfl
  rw [hfields, htot', hxid, hprev, hcrc, UInt32.ofNat_toNat, UInt64.ofNat_toNat, UInt32.ofNat_toNat]

def decodedRecord (ins : Insertion) (regs : RegisteredBuffers) (mainrdata : Bytes) (header : XLogRecord) :
    DecodedXLogRecord where
  header := header
  recordOrigin := ins.origin
  toplevelXid := ins.toplevelXid
  mainDataLen := mainrdata.length
  mainData := mainrdata
  blocks := laidOut ins.blockOf 0 none regs.buffers

theorem assembled_of_ok {regs : RegisteredBuffers} {mainrdata : Bytes} {a : Assembled}
    (h : xLogRecordAssemble ins regs mainrdata = .ok a) :
    a.headers = (ins.assembleBlocks 0 none regs.buffers).1 ++ ins.lastHeaders mainrdata ∧
      a.data = (ins.assembleBlocks 0 none regs.buffers).2 ++ mainrdata ∧
      a.header.totLen = sizeOfXLogRecord + a.headers.length + a.data.length ∧ a.header.totLen < 2 ^ 32 := by
  have hmax : xLogRecordMaxSize < 2 ^ 32 := by decide
  rw [xLogRecordAssemble] at h
  split at h
  · cases h
  · dsimp only at h
    split at h
    · cases h
    · next hsize =>
      have ha := Except.ok.inj h
      subst ha
      exact ⟨rfl, rfl, rfl, Nat.lt_of_le_of_lt (Nat.le_of_not_lt hsize) hmax⟩

theorem decodeHeaders_assembled (ins : Insertion) (regs : RegisteredBuffers) (header : XLogRecord)
    {mainrdata data : Bytes}
    (hdata : data.length = (ins.assembleBlocks 0 none regs.buffers).2.length + mainrdata.length)
    (hsmall : data.length < 2 ^ 32) :
    let ptr := (ins.assembleBlocks 0 none regs.buffers).1 ++ ins.lastHeaders mainrdata ++ data
    decodeHeaders ptr.length ⟨⟨header, 0, 0, 0, [], []⟩, 0, none⟩ ptr =
      .ok (⟨⟨header, ins.origin, ins.toplevelXid, mainrdata.length, [], laidOut ins.headerOf 0 none regs.buffers⟩,
        data.length, lastRelation none regs.buffers⟩, data) := by
  intro ptr
  let start : DecodeState := ⟨⟨header, 0, 0, 0, [], []⟩, 0, none⟩
  have hids : 0 + regs.buffers.length ≤ xlrMaxBlockId + 1 := by
    have hle := regs.length_le
    omega
  have hblocks : Runs start (ins.assembleBlocks 0 none regs.buffers).1
      (start.addBlocks ins 0 none regs.buffers (ins.assembleBlocks 0 none regs.buffers).2.length) :=
    runs_blocks regs.buffers hids rfl rfl (by dsimp only [start]; omega)
  have hruns := (hblocks.trans (runs_origin ins rfl)).trans (runs_toplevelXid ins rfl)
  have hptr : ptr = (ins.assembleBlocks 0 none regs.buffers).1 ++
      (if ins.includesOrigin then xlrBlockIdOrigin :: encodeLE 2 ins.sessionOrigin.toNat else []) ++
      (if ins.topXidPending then xlrBlockIdToplevelXid :: encodeLE 4 ins.topXid.toNat else []) ++
      (mainHeader mainrdata.length ++ data) := by
    simp only [ptr, Insertion.lastHeaders, mainHeader, List.append_assoc]
  rw [hptr]
  obtain ⟨m, hm, heq⟩ := hruns.2 (mainHeader mainrdata.length ++ data) _
    (by rw [List.length_append, hdata]; simp only [DecodeState.addBlocks, start]; omega) (Nat.le_refl _)
  rw [heq]
  refine (decodeHeaders_main (by omega) rfl ?_ ?_ hm).trans ?_
  · simp only [DecodeState.addBlocks, start]
    omega
  · simp only [DecodeState.addBlocks, start]
    omega
  · simp only [DecodeState.addBlocks, start, List.nil_append, Nat.zero_add, hdata]

theorem decodeXLogRecord_assembled {regs : RegisteredBuffers} {mainrdata : Bytes} {a : Assembled}
    (h : xLogRecordAssemble ins regs mainrdata = .ok a) :
    decodeXLogRecord a.bytes = .ok (decodedRecord ins regs mainrdata a.header) := by
  obtain ⟨hheaders, hdata, htot, hsmall⟩ := assembled_of_ok h
  have hlength : a.data.length = (ins.assembleBlocks 0 none regs.buffers).2.length + mainrdata.length := by
    rw [hdata, List.length_append]
  have hbytes : a.bytes = a.header.bytes ++ (a.headers ++ a.data) := by rw [Assembled.bytes, List.append_assoc]
  have hheader : readHeader a.bytes = a.header := by
    rw [hbytes]
    exact readHeader_bytes hsmall _
  have hptr : (a.bytes.take a.header.totLen).drop sizeOfXLogRecord = a.headers ++ a.data := by
    have htake : a.bytes.length ≤ a.header.totLen := by
      rw [hbytes, List.length_append, List.length_append, length_headerBytes, htot]
      omega
    rw [List.take_of_length_le htake, hbytes, List.drop_left' (length_headerBytes a.header)]
  have hloop := decodeHeaders_assembled ins regs a.header hlength (by omega)
  dsimp only at hloop
  rw [← hheaders] at hloop
  have hcopied := copyBlockData_laidOut ins 0 0 none regs.buffers mainrdata
  rw [← hdata] at hcopied
  rw [decodeXLogRecord, hheader]
  dsimp only
  rw [hptr, hloop, ok_bind]
  dsimp only
  rw [if_neg (by simp), hcopied]
  dsimp only
  rw [List.take_length]
  rfl

theorem entryAt_replicate_append {α : Type} (gap i : Nat) (l : List (Option α)) :
    entryAt (List.replicate gap none ++ l) (gap + i) = entryAt l i := by
  have hright : gap ≤ gap + i := Nat.le_add_right gap i
  rw [entryAt, entryAt, List.getElem?_append_right (by simp), List.length_replicate, Nat.add_sub_cancel_left]

theorem entryAt_replicate {α : Type} {gap i : Nat} (hi : i < gap) (l : List (Option α)) :
    entryAt (List.replicate gap none ++ l) i = none := by
  rw [entryAt, List.getElem?_append_left (by simpa using hi), List.getElem?_replicate_of_lt hi]
  rfl

theorem entryAt_laidOut_gap (f : Bool → RegisteredBuffer → DecodedBkpBlock) {gap i : Nat} (hi : i < gap)
    (prev : Option RelFileLocator) (buffers : List (Option RegisteredBuffer)) :
    entryAt (laidOut f gap prev buffers) i = none := by
  induction buffers generalizing gap with
  | nil => rfl
  | cons entry buffers ih =>
    cases entry with
    | none => exact ih (by omega)
    | some b => exact entryAt_replicate hi _

theorem entryAt_laidOut (f : Bool → RegisteredBuffer → DecodedBkpBlock) (gap i : Nat)
    (prev : Option RelFileLocator) (buffers : List (Option RegisteredBuffer)) :
    ∃ samerel, entryAt (laidOut f gap prev buffers) (gap + i) = (entryAt buffers i).map (f samerel) := by
  induction buffers generalizing gap prev i with
  | nil => exact ⟨false, rfl⟩
  | cons entry buffers ih =>
    cases entry with
    | none =>
      cases i with
      | zero => exact ⟨false, entryAt_laidOut_gap f (Nat.lt_succ_self gap) prev buffers⟩
      | succ i =>
        obtain ⟨samerel, hentry⟩ := ih (gap + 1) i prev
        rw [Nat.add_right_comm, Nat.add_assoc] at hentry
        exact ⟨samerel, hentry⟩
    | some b =>
      rw [laidOut]
      cases i with
      | zero => exact ⟨decide (prev = some b.rlocator), entryAt_replicate_append gap 0 _⟩
      | succ i =>
        obtain ⟨samerel, hentry⟩ := ih 0 i (some b.rlocator)
        rw [Nat.zero_add] at hentry
        exact ⟨samerel, (entryAt_replicate_append gap (i + 1) _).trans hentry⟩

structure Describes (ins : Insertion) (b : RegisteredBuffer) (blk : DecodedBkpBlock) : Prop where
  rlocator : blk.rlocator = b.rlocator
  forknum : blk.forknum = b.forkno.code
  blkno : blk.blkno = b.block
  willInit : hasFlag blk.flags bkpblockWillInit = (b.flags &&& regbufWillInit == regbufWillInit)
  hasImage : blk.image.isSome = ins.includeImage b
  applyImage : blk.applyImage = ins.needsBackup b
  hasData : blk.hasData = ins.needsData b
  data : blk.data = if ins.needsData b then b.rdata else []

theorem includeImage_of_needsBackup {b : RegisteredBuffer} (h : ins.includeImage b = false) :
    ins.needsBackup b = false := by
  rw [Insertion.includeImage, Bool.or_eq_false_iff] at h
  exact h.1

theorem describes_blockOf (ins : Insertion) (samerel : Bool) (b : RegisteredBuffer) :
    Describes ins b (ins.blockOf samerel b) where
  rlocator := rfl
  forknum := rfl
  blkno := rfl
  willInit := (forkFlags_read ins samerel b).2.1
  hasImage := by
    show (ins.decodedImageOf b).isSome = ins.includeImage b
    rw [Insertion.decodedImageOf]
    cases ins.includeImage b <;> rfl
  applyImage := by
    show (ins.decodedImageOf b).any (fun image => hasFlag image.bimgInfo bkpimageApply) = ins.needsBackup b
    rw [Insertion.decodedImageOf]
    cases himage : ins.includeImage b with
    | false => exact (includeImage_of_needsBackup himage).symm
    | true => exact (imageOf ins b).apply
  hasData := rfl
  data := rfl

theorem restoreBlockImage_blockOf {record : DecodedXLogRecord} {id : Nat} {samerel : Bool} {b : RegisteredBuffer}
    (hblk : entryAt record.blocks id = some (ins.blockOf samerel b)) (hinclude : ins.includeImage b = true) :
    restoreBlockImage record id = .ok (zeroHole b) := by
  have himage := imageOf ins b
  have hdecoded : (ins.blockOf samerel b).image = some (decodedImage (ins.image b)) := by
    show ins.decodedImageOf b = _
    rw [Insertion.decodedImageOf, if_pos hinclude]
  have hbytes : (ins.blockOf samerel b).bkpImage = (ins.image b).bytes := if_pos hinclude
  rw [restoreBlockImage, hblk]
  dsimp only
  rw [hdecoded, hbytes]
  dsimp only
  have hinfo : (decodedImage (ins.image b)).bimgInfo = (ins.image b).info := rfl
  have hhole : (decodedImage (ins.image b)).holeLength = b.hole.2 := congrArg Prod.snd himage.hole
  rw [hinfo, himage.compressed, himage.pglz]
  cases hpacked : (ins.image b).isCompressed with
  | false =>
    rw [if_neg (by simp), himage.raw hpacked, fillHole_skipHole himage]
  | true =>
    have hinverse := pglzDecompress_of_compress (himage.packed hpacked).1 true
    rw [length_skipHole_buffer] at hinverse
    rw [if_pos rfl, if_pos rfl, decompressImage, hhole, if_pos (hole_length_le b), hinverse]
    dsimp only
    rw [fillHole_skipHole himage]

theorem length_image_le (ins : Insertion) (b : RegisteredBuffer) : (ins.image b).bytes.length ≤ blckSz := by
  have himage := imageOf ins b
  cases hpacked : (ins.image b).isCompressed with
  | false =>
    rw [himage.raw hpacked, length_skipHole_buffer]
    exact Nat.sub_le _ _
  | true => exact Nat.le_of_lt (himage.packed hpacked).2

theorem length_blockHeader_le (ins : Insertion) (id : Nat) (samerel : Bool) (b : RegisteredBuffer) :
    (ins.blockHeader id samerel b).length ≤ 27 := by
  have himage : (if ins.includeImage b then (ins.image b).header else []).length ≤ 7 := by
    split
    · rw [BlockImage.header]
      split <;> simp
    · exact Nat.zero_le _
  have hrelation : (if samerel then [] else b.rlocator.bytes).length ≤ 12 := by
    split <;> simp [RelFileLocator.bytes]
  simp only [Insertion.blockHeader, List.length_append, length_encodeLE, List.length_cons, List.length_nil]
  omega

theorem length_blockData_le (ins : Insertion) (b : RegisteredBuffer) : (ins.blockData b).length ≤ blckSz + 65535 := by
  have himage : (if ins.includeImage b then (ins.image b).bytes else []).length ≤ blckSz := by
    split
    · exact length_image_le ins b
    · exact Nat.zero_le _
  have hdata : (if ins.needsData b then b.rdata else []).length ≤ 65535 := by
    split
    · exact b.rdata_le
    · exact Nat.zero_le _
  rw [Insertion.blockData, List.length_append]
  omega

theorem length_assembleBlocks_le (ins : Insertion) (id : Nat) (prev : Option RelFileLocator)
    (buffers : List (Option RegisteredBuffer)) :
    (ins.assembleBlocks id prev buffers).1.length + (ins.assembleBlocks id prev buffers).2.length ≤
      73754 * buffers.length := by
  induction buffers generalizing id prev with
  | nil => exact Nat.zero_le _
  | cons entry buffers ih =>
    rw [List.length_cons]
    cases entry with
    | none =>
      have hrest := ih (id + 1) prev
      rw [Insertion.assembleBlocks]
      omega
    | some b =>
      have hrest := ih (id + 1) (some b.rlocator)
      have hheader := length_blockHeader_le ins id (decide (prev = some b.rlocator)) b
      have hdata := length_blockData_le ins b
      have hsize : blckSz = 8192 := rfl
      rw [Insertion.assembleBlocks]
      dsimp only
      rw [List.length_append, List.length_append]
      omega

theorem assembled_of_length (ins : Insertion) (regs : RegisteredBuffers) (mainrdata : Bytes)
    (h : mainrdata.length ≤ 1000 * 1024 * 1024) : ∃ a, xLogRecordAssemble ins regs mainrdata = .ok a := by
  have hblocks := length_assembleBlocks_le ins 0 none regs.buffers
  have hregs : regs.buffers.length ≤ 33 := regs.length_le
  have hlast : (ins.lastHeaders mainrdata).length ≤ 13 := by
    have hmain : (mainHeader mainrdata.length).length ≤ 5 := by
      rw [mainHeader]
      split
      · exact Nat.zero_le _
      · split <;> simp
    have horigin : (if ins.includesOrigin then xlrBlockIdOrigin :: encodeLE 2 ins.sessionOrigin.toNat else []).length
        ≤ 3 := by
      split <;> simp
    have htop :
        (if ins.topXidPending then xlrBlockIdToplevelXid :: encodeLE 4 ins.topXid.toNat else []).length ≤ 5 := by
      split <;> simp
    rw [Insertion.lastHeaders, List.length_append, List.length_append]
    rw [mainHeader] at hmain
    omega
  have hmax : xLogRecordMaxSize = 1020 * 1024 * 1024 := rfl
  have hfixed : sizeOfXLogRecord = 24 := rfl
  rw [xLogRecordAssemble, if_neg (by omega)]
  dsimp only
  rw [if_neg (by rw [List.length_append, List.length_append]; omega)]
  exact ⟨_, rfl⟩

/-- Every block, its data as far as it is included, the main data, the origin and the top-level
transaction are decoded, and the pages are restored but for their holes. -/
theorem record_round_trip (ins : Insertion) (regs : RegisteredBuffers) (mainrdata : Bytes) (a : Assembled)
    (h : xLogRecordAssemble ins regs mainrdata = .ok a) :
    ∃ d, decodeXLogRecord a.bytes = .ok d ∧ d.header = a.header ∧ d.mainData = mainrdata ∧
      d.recordOrigin = ins.origin ∧ d.toplevelXid = ins.toplevelXid ∧
      ∀ id, match entryAt regs.buffers id with
        | none => entryAt d.blocks id = none
        | some b => ∃ blk, entryAt d.blocks id = some blk ∧ Describes ins b blk ∧
            (ins.includeImage b = true → restoreBlockImage d id = .ok (zeroHole b)) := by
  refine ⟨_, decodeXLogRecord_assembled h, rfl, rfl, rfl, rfl, fun id => ?_⟩
  obtain ⟨samerel, hentry⟩ := entryAt_laidOut ins.blockOf 0 id none regs.buffers
  rw [Nat.zero_add] at hentry
  cases hb : entryAt regs.buffers id with
  | none =>
    rw [hb] at hentry
    exact hentry
  | some b =>
    rw [hb] at hentry
    exact ⟨_, hentry, describes_blockOf ins samerel b, restoreBlockImage_blockOf hentry⟩

def emptyPage : Page where
  bytes := List.replicate 12 0 ++ [24, 0, 0, 32] ++ List.replicate 8176 0
  length_eq := by
    rw [List.length_append, List.length_append, List.length_replicate, List.length_replicate]
    decide

def imagedBuffer : RegisteredBuffer where
  flags := 0x09
  rlocator := ⟨1663, 5, 16384⟩
  forkno := .main
  block := 7
  page := emptyPage
  rdata := [1]
  rdata_le := by decide

def imagedInsertion : Insertion where
  rmid := 10
  info := 0
  consistencyChecking := false
  redoRecPtr := 0
  doPageWrites := true
  walCompression := .none
  includeOrigin := true
  sessionOrigin := 3
  topXidPending := true
  topXid := 700
  currentXid := 701
  crc := fun _ => 0

def imagedRegs : RegisteredBuffers := ⟨[some imagedBuffer], by decide⟩

theorem imaged_round_trip :
    ∃ a d, xLogRecordAssemble imagedInsertion imagedRegs [9] = .ok a ∧ decodeXLogRecord a.bytes = .ok d ∧
      d.mainData = [9] ∧ d.recordOrigin = 3 ∧ d.toplevelXid = 700 ∧
      restoreBlockImage d 0 = .ok (zeroHole imagedBuffer) := by
  obtain ⟨a, ha⟩ := assembled_of_length imagedInsertion imagedRegs [9] (by decide)
  obtain ⟨d, hd, -, hmain, horigin, htop, hblocks⟩ := record_round_trip imagedInsertion imagedRegs [9] a ha
  obtain ⟨blk, -, -, hrestore⟩ := hblocks 0
  exact ⟨a, d, ha, hd, hmain, horigin, htop, hrestore rfl⟩

/-- The data of a buffer whose image is taken are not in the record. -/
theorem imaged_data_left_out :
    ∃ a d blk, xLogRecordAssemble imagedInsertion imagedRegs [] = .ok a ∧ decodeXLogRecord a.bytes = .ok d ∧
      entryAt imagedRegs.buffers 0 = some imagedBuffer ∧ entryAt d.blocks 0 = some blk ∧
      blk.hasData = false ∧ blk.data ≠ imagedBuffer.rdata := by
  obtain ⟨a, ha⟩ := assembled_of_length imagedInsertion imagedRegs [] (by decide)
  refine ⟨a, _, imagedInsertion.blockOf false imagedBuffer, ha, decodeXLogRecord_assembled ha, rfl, rfl, rfl, ?_⟩
  have hempty : (imagedInsertion.blockOf false imagedBuffer).data = [] := rfl
  rw [hempty]
  exact fun h => by cases h

end CdcKafka.Xlog
