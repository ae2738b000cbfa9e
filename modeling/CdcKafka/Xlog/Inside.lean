import CdcKafka.Xlog.Bounds

/-! When `DecodeXLogRecord` and `RestoreBlockImage` stay inside of their areas. -/

namespace CdcKafka.Xlog

open CdcKafka.Lib

variable {layout : Layout} {space : Nat} {record : Bytes} {blocks : List (Option DecodedBkpBlock)} {ptr out len : Nat}

theorem maxAlign_le (n : Nat) : maxAlign n ≤ n + 7 := by
  rw [maxAlign, alignUp]
  omega

theorem statedBlocks_cons (blk : Option DecodedBkpBlock) (blocks : List (Option DecodedBkpBlock)) :
    statedBlocks (blk :: blocks) = (blk.map (·.stated)).getD 0 + statedBlocks blocks := rfl

theorem copyBlockData_rest (blocks : List (Option DecodedBkpBlock)) (b : Bytes) :
    (copyBlockData blocks b).2 = b.drop (statedBlocks blocks) := by
  induction blocks generalizing b with
  | nil => rfl
  | cons blk blocks ih =>
    cases blk with
    | none =>
      rw [copyBlockData, statedBlocks_cons]
      dsimp only [Option.map_none, Option.getD_none]
      rw [ih, Nat.zero_add]
    | some blk =>
      rw [copyBlockData, statedBlocks_cons]
      dsimp only [Option.map_some, Option.getD_some]
      rw [ih, List.drop_drop]
      rfl

theorem statedBlocks_copyBlockData (blocks : List (Option DecodedBkpBlock)) (b : Bytes) :
    statedBlocks (copyBlockData blocks b).1 = statedBlocks blocks := by
  induction blocks generalizing b with
  | nil => rfl
  | cons blk blocks ih =>
    cases blk with
    | none =>
      rw [copyBlockData, statedBlocks_cons, statedBlocks_cons, ih]
    | some blk =>
      rw [copyBlockData, statedBlocks_cons, statedBlocks_cons, ih]
      rfl

namespace Checked

theorem copyData_ok (hptr : ptr + len ≤ record.length) (hout : out + len ≤ space) :
    copyData space record ptr out len = .ok ((record.drop ptr).take len) := by
  rw [copyData, load_ok hptr, ok_bind, store_ok hout, ok_bind]

theorem copyData_eq_ok {b : Bytes} (h : copyData space record ptr out len = .ok b) : ptr + len ≤ record.length := by
  obtain ⟨b', hload, -⟩ := bind_eq_ok.mp h
  exact load_eq_ok hload

theorem neverFails_copyData (ptr out len : Nat) : NeverFails (copyData space record ptr out len) :=
  (NeverFails.load record ptr len).bind fun b => (NeverFails.store space out len).bind fun _ => NeverFails.ok b

def imageLen (blk : DecodedBkpBlock) : Nat := (blk.image.map (·.bimgLen)).getD 0

def dataLen (blk : DecodedBkpBlock) : Nat := if blk.hasData then blk.dataLen else 0

def dataOut (blk : DecodedBkpBlock) (out : Nat) : Nat :=
  if blk.hasData then maxAlign out + blk.dataLen else out

def blocksOut : List (Option DecodedBkpBlock) → Nat → Nat
  | [], out => out
  | none :: blocks, out => blocksOut blocks out
  | some blk :: blocks, out => blocksOut blocks (dataOut blk (out + imageLen blk))

def mainOut (len out : Nat) : Nat := if 0 < len then maxAlign out + len else out

theorem dataOut_le (blk : DecodedBkpBlock) (out : Nat) : dataOut blk out ≤ out + dataLen blk + 7 := by
  have halign := maxAlign_le out
  rw [dataOut, dataLen]
  split <;> omega

theorem mainOut_le (len out : Nat) : mainOut len out ≤ out + len + 7 := by
  have halign := maxAlign_le out
  rw [mainOut]
  split <;> omega

theorem stated_eq (blk : DecodedBkpBlock) : blk.stated = imageLen blk + dataLen blk := rfl

theorem copyImage_ok (blk : DecodedBkpBlock) (hptr : ptr + imageLen blk ≤ record.length)
    (hout : out + imageLen blk ≤ space) : copyImage space record blk ptr out =
      .ok ((record.drop ptr).take (imageLen blk), ptr + imageLen blk, out + imageLen blk) := by
  rw [copyImage]
  rw [imageLen] at hptr hout ⊢
  cases himage : blk.image with
  | none => rfl
  | some image =>
    rw [himage, Option.map_some, Option.getD_some] at hptr hout
    rw [Option.map_some, Option.getD_some]
    dsimp only
    rw [copyData_ok hptr hout, ok_bind]

theorem copyImage_eq_ok {blk : DecodedBkpBlock} {b : Bytes} {ptr' out' : Nat}
    (h : copyImage space record blk ptr out = .ok (b, ptr', out')) (hptr : ptr ≤ record.length) :
    ptr' = ptr + imageLen blk ∧ ptr' ≤ record.length := by
  rw [copyImage] at h
  rw [imageLen]
  cases himage : blk.image with
  | none =>
    rw [himage] at h
    cases h
    exact ⟨rfl, hptr⟩
  | some image =>
    rw [himage] at h
    obtain ⟨b', hcopy, hrest⟩ := bind_eq_ok.mp h
    cases hrest
    exact ⟨rfl, copyData_eq_ok hcopy⟩

theorem neverFails_copyImage (blk : DecodedBkpBlock) (ptr out : Nat) :
    NeverFails (copyImage space record blk ptr out) := by
  rw [copyImage]
  split
  · exact NeverFails.ok _
  · exact (neverFails_copyData ptr out _).bind fun b => NeverFails.ok _

theorem blocksOut_le (blocks : List (Option DecodedBkpBlock)) (out : Nat) :
    blocksOut blocks out ≤ out + statedBlocks blocks + 7 * blocks.length := by
  induction blocks generalizing out with
  | nil => exact Nat.le_refl out
  | cons blk blocks ih =>
    rw [statedBlocks_cons, List.length_cons]
    cases blk with
    | none =>
      rw [blocksOut, Option.map_none, Option.getD_none]
      have hrest := ih out
      omega
    | some blk =>
      rw [blocksOut, Option.map_some, Option.getD_some, stated_eq]
      have hdata := dataOut_le blk (out + imageLen blk)
      have hrest := ih (dataOut blk (out + imageLen blk))
      omega

theorem copyBlkData_ok (blk : DecodedBkpBlock) (hptr : ptr + dataLen blk ≤ record.length)
    (hout : out + dataLen blk + 7 ≤ space) : copyBlkData space record blk ptr out =
      .ok ((record.drop ptr).take (dataLen blk), ptr + dataLen blk, dataOut blk out) := by
  have halign := maxAlign_le out
  rw [copyBlkData, dataOut]
  rw [dataLen] at hptr hout ⊢
  cases hdata : blk.hasData with
  | false => rfl
  | true =>
    rw [hdata] at hptr hout
    rw [if_pos rfl] at hptr hout
    rw [if_pos rfl, if_pos rfl, copyData_ok hptr (by omega), ok_bind]
    rfl

theorem copyBlkData_eq_ok {blk : DecodedBkpBlock} {b : Bytes} {ptr' out' : Nat}
    (h : copyBlkData space record blk ptr out = .ok (b, ptr', out')) (hptr : ptr ≤ record.length) :
    ptr' = ptr + dataLen blk ∧ ptr' ≤ record.length := by
  rw [copyBlkData] at h
  rw [dataLen]
  cases hdata : blk.hasData with
  | false =>
    rw [hdata] at h
    cases h
    exact ⟨rfl, hptr⟩
  | true =>
    rw [hdata] at h
    obtain ⟨b', hcopy, hrest⟩ := bind_eq_ok.mp h
    cases hrest
    exact ⟨rfl, copyData_eq_ok hcopy⟩

theorem neverFails_copyBlkData (blk : DecodedBkpBlock) (ptr out : Nat) :
    NeverFails (copyBlkData space record blk ptr out) := by
  rw [copyBlkData]
  split
  · exact (neverFails_copyData ptr _ _).bind fun b => NeverFails.ok _
  · exact NeverFails.ok _

theorem copyBlocks_ok (blocks : List (Option DecodedBkpBlock)) (hptr : ptr + statedBlocks blocks ≤ record.length)
    (hout : out + statedBlocks blocks + 7 * blocks.length ≤ space) :
    copyBlocks space record blocks ptr out =
      .ok ((copyBlockData blocks (record.drop ptr)).1, ptr + statedBlocks blocks, blocksOut blocks out) := by
  induction blocks generalizing ptr out with
  | nil => rfl
  | cons blk blocks ih =>
    rw [statedBlocks_cons] at hptr hout ⊢
    rw [List.length_cons] at hout
    cases blk with
    | none =>
      rw [Option.map_none, Option.getD_none, Nat.zero_add] at hptr hout ⊢
      have hroom : out + statedBlocks blocks + 7 * blocks.length ≤ space := by omega
      rw [copyBlocks, ih hptr hroom, ok_bind, copyBlockData, blocksOut]
    | some blk =>
      rw [Option.map_some, Option.getD_some, stated_eq] at hptr hout ⊢
      have himagePtr : ptr + imageLen blk ≤ record.length := by omega
      have himageOut : out + imageLen blk ≤ space := by omega
      have hdataPtr : ptr + imageLen blk + dataLen blk ≤ record.length := by omega
      have hdataOut : out + imageLen blk + dataLen blk + 7 ≤ space := by omega
      have hle := dataOut_le blk (out + imageLen blk)
      have hrestPtr : ptr + imageLen blk + dataLen blk + statedBlocks blocks ≤ record.length := by omega
      have hrestOut : dataOut blk (out + imageLen blk) + statedBlocks blocks + 7 * blocks.length ≤ space := by omega
      have hsum : ptr + (imageLen blk + dataLen blk + statedBlocks blocks) =
          ptr + imageLen blk + dataLen blk + statedBlocks blocks := by omega
      have hlist : copyBlockData (some blk :: blocks) (record.drop ptr) =
          (some { blk with bkpImage := (record.drop ptr).take (imageLen blk)
                           data := ((record.drop ptr).drop (imageLen blk)).take (dataLen blk) } ::
            (copyBlockData blocks ((record.drop ptr).drop (imageLen blk + dataLen blk))).1,
            (copyBlockData blocks ((record.drop ptr).drop (imageLen blk + dataLen blk))).2) := rfl
      rw [hlist, hsum, copyBlocks, copyImage_ok blk himagePtr himageOut, ok_bind]
      dsimp only
      rw [copyBlkData_ok blk hdataPtr hdataOut, ok_bind]
      dsimp only
      rw [ih hrestPtr hrestOut, ok_bind, List.drop_drop, List.drop_drop, ← Nat.add_assoc, blocksOut]

theorem copyBlocks_eq_ok {blocks blocks' : List (Option DecodedBkpBlock)} {ptr' out' : Nat}
    (h : copyBlocks space record blocks ptr out = .ok (blocks', ptr', out')) (hptr : ptr ≤ record.length) :
    ptr' = ptr + statedBlocks blocks ∧ ptr' ≤ record.length := by
  induction blocks generalizing ptr out blocks' with
  | nil =>
    cases h
    exact ⟨rfl, hptr⟩
  | cons blk blocks ih =>
    rw [statedBlocks_cons]
    cases blk with
    | none =>
      obtain ⟨⟨rest, ptr₁, out₁⟩, hcopy, hrest⟩ := bind_eq_ok.mp h
      cases hrest
      obtain ⟨hptr', hle⟩ := ih hcopy hptr
      exact ⟨by rw [hptr', Option.map_none, Option.getD_none, Nat.zero_add], hle⟩
    | some blk =>
      obtain ⟨⟨image, ptr₁, out₁⟩, himage, h⟩ := bind_eq_ok.mp h
      obtain ⟨⟨data, ptr₂, out₂⟩, hdata, h⟩ := bind_eq_ok.mp h
      obtain ⟨⟨rest, ptr₃, out₃⟩, hcopy, hrest⟩ := bind_eq_ok.mp h
      cases hrest
      obtain ⟨hptr₁, hle₁⟩ := copyImage_eq_ok himage hptr
      obtain ⟨hptr₂, hle₂⟩ := copyBlkData_eq_ok hdata hle₁
      obtain ⟨hptr₃, hle₃⟩ := ih hcopy hle₂
      refine ⟨?_, hle₃⟩
      rw [Option.map_some, Option.getD_some, stated_eq]
      omega

theorem neverFails_copyBlocks (blocks : List (Option DecodedBkpBlock)) (ptr out : Nat) :
    NeverFails (copyBlocks space record blocks ptr out) := by
  induction blocks generalizing ptr out with
  | nil => exact NeverFails.ok _
  | cons blk blocks ih =>
    cases blk with
    | none => exact (ih ptr out).bind fun p => NeverFails.ok _
    | some blk =>
      apply (neverFails_copyImage blk ptr out).bind
      rintro ⟨image, ptr₁, out₁⟩
      apply (neverFails_copyBlkData blk ptr₁ out₁).bind
      rintro ⟨data, ptr₂, out₂⟩
      exact (ih ptr₂ out₂).bind fun p => NeverFails.ok _

theorem copyMainData_ok (hptr : ptr + len ≤ record.length) (hout : out + len + 7 ≤ space) :
    copyMainData space record len ptr out = .ok ((record.drop ptr).take len, mainOut len out) := by
  have halign := maxAlign_le out
  rw [copyMainData, mainOut]
  split
  · rw [copyData_ok hptr (by omega), ok_bind]
  · next hlen =>
    obtain rfl : len = 0 := Nat.eq_zero_of_not_pos hlen
    rfl

theorem copyMainData_eq_ok {b : Bytes} {out' : Nat} (h : copyMainData space record len ptr out = .ok (b, out'))
    (hptr : ptr ≤ record.length) : ptr + len ≤ record.length := by
  rw [copyMainData] at h
  split at h
  · obtain ⟨b', hcopy, -⟩ := bind_eq_ok.mp h
    exact copyData_eq_ok hcopy
  · omega

theorem neverFails_copyMainData (len ptr out : Nat) : NeverFails (copyMainData space record len ptr out) := by
  rw [copyMainData]
  split
  · exact (neverFails_copyData ptr _ _).bind fun b => NeverFails.ok _
  · exact NeverFails.ok _

end Checked

/-- The bytes of a record that its header agrees with: `xl_tot_len` is their number, and no less
than a header. -/
structure WholeRecord where
  bytes : Bytes
  totLen : (readHeader bytes).totLen = bytes.length
  long : sizeOfXLogRecord ≤ bytes.length

def DecodeState.start (header : XLogRecord) : DecodeState := ⟨⟨header, 0, 0, 0, [], []⟩, 0, none⟩

theorem DecodeState.open_start (header : XLogRecord) : (DecodeState.start header).Open where
  left := ⟨Nat.zero_le _, rfl, fun _ h => by cases h⟩
  right := rfl

def DecodeState.finish (st : DecodeState) (rest : Bytes) : DecodedXLogRecord :=
  { st.record with blocks := (copyBlockData st.record.blocks rest).1
                   mainData := (rest.drop (statedBlocks st.record.blocks)).take st.record.mainDataLen }

theorem DecodeState.stated_finish (st : DecodeState) (rest : Bytes) : (st.finish rest).stated = st.record.stated := by
  rw [DecodedXLogRecord.stated, DecodedXLogRecord.stated]
  show statedBlocks (copyBlockData st.record.blocks rest).1 + st.record.mainDataLen = _
  rw [statedBlocks_copyBlockData]

def DecodedXLogRecord.decodedSize (layout : Layout) (d : DecodedXLogRecord) : Nat :=
  maxAlign (Checked.mainOut d.mainDataLen
    (Checked.blocksOut d.blocks (layout.blocksOffset + layout.blockSize * d.blocks.length)))

theorem blocksOut_copyBlockData (blocks : List (Option DecodedBkpBlock)) (b : Bytes) (out : Nat) :
    Checked.blocksOut (copyBlockData blocks b).1 out = Checked.blocksOut blocks out := by
  induction blocks generalizing b out with
  | nil => rfl
  | cons blk blocks ih =>
    cases blk with
    | none =>
      rw [copyBlockData, Checked.blocksOut, Checked.blocksOut]
      exact ih b out
    | some blk =>
      rw [copyBlockData, Checked.blocksOut, Checked.blocksOut]
      exact ih _ _

theorem length_copyBlockData (blocks : List (Option DecodedBkpBlock)) (b : Bytes) :
    (copyBlockData blocks b).1.length = blocks.length := by
  induction blocks generalizing b with
  | nil => rfl
  | cons blk blocks ih =>
    cases blk with
    | none =>
      rw [copyBlockData, List.length_cons, List.length_cons, ih]
    | some blk =>
      rw [copyBlockData, List.length_cons, List.length_cons, ih]

theorem DecodeState.decodedSize_finish (st : DecodeState) (rest : Bytes) :
    (st.finish rest).decodedSize layout = maxAlign (Checked.mainOut st.record.mainDataLen
      (Checked.blocksOut st.record.blocks (layout.blocksOffset + layout.blockSize * st.record.blocks.length))) := by
  rw [DecodedXLogRecord.decodedSize, DecodeState.finish]
  dsimp only
  rw [blocksOut_copyBlockData, length_copyBlockData]

namespace WholeRecord

variable (r : WholeRecord)

def headers : Except DecodeError (DecodeState × Bytes) :=
  decodeHeaders (r.bytes.length - sizeOfXLogRecord) (DecodeState.start (readHeader r.bytes)) (r.bytes.drop sizeOfXLogRecord)

theorem decodeXLogRecord_eq : decodeXLogRecord r.bytes = (do
    let p ← r.headers
    if p.2.length ≠ p.1.datatotal then .error .invalidLength else .ok (p.1.finish p.2)) := by
  rw [decodeXLogRecord, r.totLen, List.take_length, List.length_drop]
  show (r.headers >>= _) = (r.headers >>= _)
  congr 1
  funext p
  obtain ⟨st, rest⟩ := p
  dsimp only
  split
  · rfl
  · rw [DecodeState.finish, ← copyBlockData_rest]

theorem parsed_of_headers {st : DecodeState} {rest : Bytes} (h : r.headers = .ok (st, rest)) : st.Parsed :=
  yields_decodeHeaders _ (DecodeState.open_start _) _ st rest h

theorem readHeader_take : readHeader (r.bytes.take sizeOfXLogRecord) = readHeader r.bytes := by
  have hslice {i n : Nat} (hn : i + n ≤ sizeOfXLogRecord) :
      ((r.bytes.take sizeOfXLogRecord).drop i).take n = (r.bytes.drop i).take n := by
    rw [List.drop_take, List.take_take, Nat.min_eq_left (by omega)]
  have hhead {i : Nat} (hi : i + 1 ≤ sizeOfXLogRecord) :
      ((r.bytes.take sizeOfXLogRecord).drop i).headD 0 = (r.bytes.drop i).headD 0 := by
    have hone (b : Bytes) : (b.take 1).headD 0 = b.headD 0 := by cases b <;> rfl
    rw [← hone, hslice hi, hone]
  have hfront := hslice (by decide : 0 + 4 ≤ sizeOfXLogRecord)
  rw [List.drop_zero, List.drop_zero] at hfront
  rw [readHeader, readHeader, hfront, hslice (by decide : 4 + 4 ≤ sizeOfXLogRecord),
    hslice (by decide : 8 + 8 ≤ sizeOfXLogRecord), hhead (by decide : 16 + 1 ≤ sizeOfXLogRecord),
    hhead (by decide : 17 + 1 ≤ sizeOfXLogRecord), hslice (by decide : 20 + 4 ≤ sizeOfXLogRecord)]

theorem follows_headers (hroom : Checked.RoomForBlocks layout space) : Follows r.bytes
      (Checked.decodeHeaders layout space r.bytes (r.bytes.length - sizeOfXLogRecord)
        (DecodeState.start (readHeader r.bytes)))
      (decodeHeaders (r.bytes.length - sizeOfXLogRecord) (DecodeState.start (readHeader r.bytes))) :=
  Checked.follows_decodeHeaders hroom _ (DecodeState.open_start _)

def cursor : Cursor := ⟨sizeOfXLogRecord, r.bytes.length - sizeOfXLogRecord⟩

theorem cursor_at : r.cursor.At r.bytes := Nat.add_sub_cancel' r.long

def finishChecked (layout : Layout) (space : Nat) (p : DecodeState × Cursor) :
    Except (Stop DecodeError) (DecodedXLogRecord × Nat) :=
  if p.2.remaining ≠ p.1.datatotal then .error (.failed .invalidLength)
  else do
    let (blocks, ptr, out) ← Checked.copyBlocks space r.bytes p.1.record.blocks p.2.ptr
      (layout.blocksOffset + layout.blockSize * p.1.record.blocks.length)
    let (mainData, out) ← Checked.copyMainData space r.bytes p.1.record.mainDataLen ptr out
    .ok ({ p.1.record with blocks := blocks, mainData := mainData }, maxAlign out)

theorem checked_eq (hspace : layout.blocksOffset ≤ space) : Checked.decodeXLogRecord layout space r.bytes =
    (Checked.decodeHeaders layout space r.bytes (r.bytes.length - sizeOfXLogRecord)
      (DecodeState.start (readHeader r.bytes)) r.cursor >>= r.finishChecked layout space) := by
  have hload :
      (load r.bytes 0 sizeOfXLogRecord : Except (Stop DecodeError) Bytes) = .ok (r.bytes.take sizeOfXLogRecord) :=
    load_ok (by rw [Nat.zero_add]; exact r.long)
  rw [Checked.decodeXLogRecord, hload, ok_bind, store_ok (by omega), ok_bind]
  dsimp only
  rw [r.readHeader_take, r.totLen]
  rfl

variable {r} {st : DecodeState} {rest : Bytes} {c : Cursor}

theorem decodedSize_le (layout : Layout) (hst : st.Parsed) (hlen : sizeOfXLogRecord + st.record.stated ≤ r.bytes.length) :
    maxAlign (Checked.mainOut st.record.mainDataLen
        (Checked.blocksOut st.record.blocks (layout.blocksOffset + layout.blockSize * st.record.blocks.length))) ≤
      decodeXLogRecordRequiredSpace layout r.bytes.length := by
  have hmul : layout.blockSize * st.record.blocks.length ≤ layout.blockSize * (xlrMaxBlockId + 1) :=
    Nat.mul_le_mul_left _ hst.blocks_le
  have hblocks := hst.blocks_le
  have hout := Checked.blocksOut_le st.record.blocks (layout.blocksOffset + layout.blockSize * st.record.blocks.length)
  generalize Checked.blocksOut st.record.blocks (layout.blocksOffset + layout.blockSize * st.record.blocks.length) =
    out at hout ⊢
  have hmain := Checked.mainOut_le st.record.mainDataLen out
  have halign := maxAlign_le (Checked.mainOut st.record.mainDataLen out)
  rw [DecodedXLogRecord.stated] at hlen
  rw [decodeXLogRecordRequiredSpace]
  omega

theorem stated_le_of_at (hc : c.At r.bytes) (hst : st.Parsed) (htotal : c.remaining = st.datatotal)
    (hstated : st.record.stated < 2 ^ 32) : c.ptr + st.record.stated = r.bytes.length := by
  rw [← hc, htotal, hst.datatotal, Nat.mod_eq_of_lt hstated]

theorem finishChecked_ok (hc : c.At r.bytes) (hptr : sizeOfXLogRecord ≤ c.ptr) (hst : st.Parsed)
    (htotal : c.remaining = st.datatotal) (hstated : st.record.stated < 2 ^ 32) :
    r.finishChecked layout (decodeXLogRecordRequiredSpace layout r.bytes.length) (st, c) =
        .ok (st.finish (r.bytes.drop c.ptr), (st.finish (r.bytes.drop c.ptr)).decodedSize layout) ∧
      (st.finish (r.bytes.drop c.ptr)).decodedSize layout ≤ decodeXLogRecordRequiredSpace layout r.bytes.length := by
  have hend := stated_le_of_at hc hst htotal hstated
  have hsize := decodedSize_le (r := r) layout hst (by omega)
  rw [DecodeState.decodedSize_finish]
  refine ⟨?_, hsize⟩
  have hmul : layout.blockSize * st.record.blocks.length ≤ layout.blockSize * (xlrMaxBlockId + 1) :=
    Nat.mul_le_mul_left _ hst.blocks_le
  have hblocks := hst.blocks_le
  have hout := Checked.blocksOut_le st.record.blocks (layout.blocksOffset + layout.blockSize * st.record.blocks.length)
  rw [DecodedXLogRecord.stated] at hend
  have hcopyPtr : c.ptr + statedBlocks st.record.blocks ≤ r.bytes.length := by omega
  have hmainPtr : c.ptr + statedBlocks st.record.blocks + st.record.mainDataLen ≤ r.bytes.length := by omega
  generalize hspace : decodeXLogRecordRequiredSpace layout r.bytes.length = space
  have hspace' := hspace.symm
  rw [decodeXLogRecordRequiredSpace] at hspace'
  have hroom : layout.blocksOffset + layout.blockSize * st.record.blocks.length + statedBlocks st.record.blocks +
      7 * st.record.blocks.length ≤ space := by omega
  rw [finishChecked, if_neg (not_not_intro htotal)]
  dsimp only
  rw [Checked.copyBlocks_ok st.record.blocks hcopyPtr hroom, ok_bind]
  dsimp only
  rw [Checked.copyMainData_ok hmainPtr (by omega), ok_bind, DecodeState.finish, List.drop_drop]

theorem finishChecked_outside (hc : c.At r.bytes) (hst : st.Parsed) (htotal : c.remaining = st.datatotal)
    (hstated : ¬st.record.stated < 2 ^ 32) (space : Nat) : r.finishChecked layout space (st, c) = .error .outside := by
  rw [finishChecked, if_neg (not_not_intro htotal)]
  have hptr : c.ptr ≤ r.bytes.length := by
    rw [← hc]
    exact Nat.le_add_right _ _
  apply NeverFails.outside
  · apply (Checked.neverFails_copyBlocks _ _ _).bind
    rintro ⟨blocks, ptr, out⟩
    exact (Checked.neverFails_copyMainData _ _ _).bind fun p => NeverFails.ok _
  · intro a h
    obtain ⟨⟨blocks, ptr, out⟩, hcopy, h⟩ := bind_eq_ok.mp h
    obtain ⟨⟨mainData, out'⟩, hmain, -⟩ := bind_eq_ok.mp h
    obtain ⟨hptr', hle⟩ := Checked.copyBlocks_eq_ok hcopy hptr
    have hend := Checked.copyMainData_eq_ok hmain hle
    dsimp only at hptr' hend
    have hmod : st.record.stated % 2 ^ 32 < 2 ^ 32 := Nat.mod_lt _ (by decide)
    rw [hst.datatotal] at htotal
    rw [Cursor.At] at hc
    rw [DecodedXLogRecord.stated] at hstated htotal hmod
    omega

theorem checked_error {e : DecodeError} (h : decodeXLogRecord r.bytes = .error e) :
    Checked.decodeXLogRecord layout (decodeXLogRecordRequiredSpace layout r.bytes.length) r.bytes = .error (.failed e) := by
  have hroom := Checked.roomForBlocks_requiredSpace layout r.bytes.length
  have hspace : layout.blocksOffset ≤ decodeXLogRecordRequiredSpace layout r.bytes.length := by
    rw [decodeXLogRecordRequiredSpace]
    omega
  rw [decodeXLogRecord_eq] at h
  rw [r.checked_eq hspace]
  cases hheaders : r.headers with
  | error e' =>
    rw [hheaders] at h
    cases h
    rw [(r.follows_headers hroom).error r.cursor e r.cursor_at hheaders]
    rfl
  | ok p =>
    obtain ⟨st, rest⟩ := p
    rw [hheaders, ok_bind] at h
    obtain ⟨c, hc, hat, hrest, -⟩ := (r.follows_headers hroom).ok r.cursor st rest r.cursor_at hheaders
    rw [hc, ok_bind]
    have hlen := hat.length_drop
    rw [hrest] at hlen
    split at h
    · next hne =>
      cases h
      rw [finishChecked, if_pos (by rw [← hlen]; exact hne)]
    · cases h

theorem checked_ok (layout : Layout) {d : DecodedXLogRecord} (h : decodeXLogRecord r.bytes = .ok d) :
    (d.stated < 2 ^ 32 → Checked.decodeXLogRecord layout (decodeXLogRecordRequiredSpace layout r.bytes.length) r.bytes =
          .ok (d, d.decodedSize layout) ∧
        d.decodedSize layout ≤ decodeXLogRecordRequiredSpace layout r.bytes.length) ∧
    (¬d.stated < 2 ^ 32 →
      Checked.decodeXLogRecord layout (decodeXLogRecordRequiredSpace layout r.bytes.length) r.bytes = .error .outside) := by
  have hroom := Checked.roomForBlocks_requiredSpace layout r.bytes.length
  have hspace : layout.blocksOffset ≤ decodeXLogRecordRequiredSpace layout r.bytes.length := by
    rw [decodeXLogRecordRequiredSpace]
    omega
  rw [decodeXLogRecord_eq] at h
  rw [r.checked_eq hspace]
  obtain ⟨⟨st, rest⟩, hheaders, h⟩ := bind_eq_ok.mp h
  obtain ⟨c, hc, hat, hrest, hptr⟩ := (r.follows_headers hroom).ok r.cursor st rest r.cursor_at hheaders
  have hparsed := parsed_of_headers r hheaders
  have hlen := hat.length_drop
  rw [hrest] at hlen
  rw [hc, ok_bind]
  split at h
  · cases h
  · next heq =>
    cases h
    rw [DecodeState.stated_finish, ← hrest]
    have htotal : c.remaining = st.datatotal := hlen.symm.trans (not_not.mp heq)
    exact ⟨fun hstated => finishChecked_ok hat hptr hparsed htotal hstated,
      fun hstated => finishChecked_outside hat hparsed htotal hstated _⟩

end WholeRecord

end CdcKafka.Xlog
