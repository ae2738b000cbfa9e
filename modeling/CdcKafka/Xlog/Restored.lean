import CdcKafka.Xlog.Inside
import CdcKafka.Xlog.Valid

/-! When the images of an accepted record are restored inside of their areas, and with that
when a record, damaged or not, is decoded and restored inside of them. -/

namespace CdcKafka.Xlog

open CdcKafka.Lib

variable {image : DecodedImage} {b source dest : Bytes} {rawsize bits : Nat} {ctrl : UInt8}

/-- None of the tags that the expansion gets to is cut off by the end of the source; `n` bytes
are in the destination. -/
def tagsWhole (rawsize : Nat) : Bytes → Nat → UInt8 → Nat → Bool
  | [], _, _, _ => true
  | b :: sp, bits, ctrl, n =>
    if rawsize ≤ n then true
    else
      match bits with
      | 0 => tagsWhole rawsize sp 8 b n
      | bits + 1 =>
        if ctrl &&& 1 = 0 then tagsWhole rawsize sp bits (ctrl >>> 1) (n + 1)
        else
          let len := (b &&& 0x0f).toNat + 3
          match sp with
          | [] => false
          | b' :: sp =>
            let off := ((b &&& 0xf0).toNat <<< 4) ||| b'.toNat
            if len = 18 then
              match sp with
              | [] => false
              | ext :: sp =>
                if off = 0 ∨ n < off then true
                else tagsWhole rawsize sp bits (ctrl >>> 1) (n + min (len + ext.toNat) (rawsize - n))
            else if off = 0 ∨ n < off then true
            else tagsWhole rawsize sp bits (ctrl >>> 1) (n + min len (rawsize - n))

theorem length_copyBack_of_ok {off len : Nat} (h : ¬(off = 0 ∨ dest.length < off)) :
    (copyBack off len dest).length = dest.length + len := by
  obtain ⟨hzero, hfar⟩ := not_or.mp h
  exact length_copyBack (Nat.pos_of_ne_zero hzero) (Nat.not_lt.mp hfar)

theorem store_dest {n len : Nat} (hraw : rawsize ≤ blckSz) (hn : ¬rawsize ≤ n) :
    (store blckSz n (min len (rawsize - n)) : Except (Stop RestoreError) Unit) = .ok () := by
  apply store_ok
  omega

theorem decompressItems_checked (hraw : rawsize ≤ blckSz) (source : Bytes) (bits : Nat) (ctrl : UInt8) (dest : Bytes) :
    Checked.decompressItems rawsize source bits ctrl dest =
      if tagsWhole rawsize source bits ctrl dest.length then .ok (decompressItems rawsize source bits ctrl dest)
      else .error .outside := by
  fun_induction Checked.decompressItems rawsize source bits ctrl dest with
  | case1 => rfl
  | case2 b sp bits ctrl dest hfull =>
    cases bits with
    | zero => rw [tagsWhole, decompressItems, if_pos hfull, if_pos hfull, if_pos rfl]
    | succ bits => rw [tagsWhole, decompressItems, if_pos hfull, if_pos hfull, if_pos rfl]
  | case3 b sp ctrl dest hroom ih =>
    rw [tagsWhole, decompressItems, if_neg hroom, if_neg hroom]
    exact ih
  | case4 b sp ctrl dest hroom bits hbit ih =>
    rw [tagsWhole, decompressItems, if_neg hroom, if_neg hroom]
    dsimp only
    rw [if_pos hbit, if_pos hbit, store_ok (by omega), ok_bind, ih, List.length_append, List.length_singleton]
  | case5 b ctrl dest hroom bits hbit =>
    -- the first byte of a tag is the last of the source
    rw [tagsWhole, if_neg hroom]
    dsimp only
    rw [if_neg hbit]
    rfl
  | case6 b ctrl dest hroom bits hbit len b' hlen =>
    -- a tag that is to be extended is the end of the source
    rw [tagsWhole, if_neg hroom]
    dsimp only
    rw [if_neg hbit, if_pos hlen]
    rfl
  | case7 b ctrl dest hroom bits hbit len b' off hlen ext sp hoff =>
    rw [tagsWhole, decompressItems, if_neg hroom, if_neg hroom]
    dsimp only
    rw [if_neg hbit, if_neg hbit, if_pos hlen, if_pos hlen, if_pos hoff, if_pos hoff, if_pos rfl]
  | case8 b ctrl dest hroom bits hbit len b' off hlen ext sp hoff ih =>
    rw [length_copyBack_of_ok hoff] at ih
    rw [tagsWhole, decompressItems, if_neg hroom, if_neg hroom]
    dsimp only
    rw [if_neg hbit, if_neg hbit, if_pos hlen, if_pos hlen, if_neg hoff, if_neg hoff, store_dest hraw hroom, ok_bind]
    exact ih
  | case9 b ctrl dest hroom bits hbit len b' sp off hlen hoff =>
    rw [tagsWhole, decompressItems, if_neg hroom, if_neg hroom]
    dsimp only
    rw [if_neg hbit, if_neg hbit, if_neg hlen, if_neg hlen, if_pos hoff, if_pos hoff, if_pos rfl]
  | case10 b ctrl dest hroom bits hbit len b' sp off hlen hoff ih =>
    rw [length_copyBack_of_ok hoff] at ih
    rw [tagsWhole, decompressItems, if_neg hroom, if_neg hroom]
    dsimp only
    rw [if_neg hbit, if_neg hbit, if_neg hlen, if_neg hlen, if_neg hoff, if_neg hoff, store_dest hraw hroom, ok_bind]
    exact ih

def DecodedImage.HoleFits (image : DecodedImage) : Prop :=
  image.holeLength = 0 ∨ image.holeOffset + image.holeLength ≤ blckSz

theorem sizeT_sub {n : Nat} (h : n ≤ blckSz) : sizeT ((blckSz : Int) - n) = blckSz - n := by
  have hsize : blckSz = 8192 := rfl
  rw [sizeT]
  omega

theorem fillPage_ok {area : Bytes} (hfits : image.HoleFits) (harea : blckSz - image.holeLength ≤ area.length) :
    Checked.fillPage area image = .ok (fillHole image area) := by
  rw [Checked.fillPage, fillHole]
  by_cases hzero : image.holeLength = 0
  · rw [hzero, Nat.sub_zero] at harea
    rw [if_pos hzero, if_pos hzero, load_ok (by omega), ok_bind, store_ok (by omega), ok_bind, List.drop_zero]
  · have hle : image.holeOffset + image.holeLength ≤ blckSz := hfits.resolve_left hzero
    have hlen : sizeT ((blckSz : Int) - (image.holeOffset + image.holeLength)) =
        blckSz - (image.holeOffset + image.holeLength) := sizeT_sub hle
    rw [if_neg hzero, if_neg hzero, load_ok (by omega), ok_bind, store_ok (by omega), ok_bind, store_ok hle, ok_bind]
    dsimp only
    rw [hlen, load_ok (by omega), ok_bind, store_ok (by omega), ok_bind, List.drop_zero]

theorem fillPage_outside (area : Bytes) (hfits : ¬image.HoleFits) : Checked.fillPage area image = .error .outside := by
  obtain ⟨hzero, hfar⟩ := not_or.mp hfits
  rw [Checked.fillPage, if_neg hzero]
  apply NeverFails.outside
  · apply (NeverFails.load area 0 image.holeOffset).bind
    intro before
    apply (NeverFails.store blckSz 0 image.holeOffset).bind
    intro _
    apply (NeverFails.store blckSz image.holeOffset image.holeLength).bind
    intro _
    apply (NeverFails.load area image.holeOffset _).bind
    intro behind
    exact (NeverFails.store blckSz _ _).bind fun _ => NeverFails.ok _
  · intro page h
    obtain ⟨before, -, h⟩ := bind_eq_ok.mp h
    obtain ⟨_, -, h⟩ := bind_eq_ok.mp h
    obtain ⟨_, hhole, -⟩ := bind_eq_ok.mp h
    exact hfar (store_eq_ok hhole)

theorem fillHole_append (hfits : image.HoleFits) (hdest : dest.length = blckSz - image.holeLength) (junk : Bytes) :
    fillHole image (dest ++ junk) = fillHole image dest := by
  rw [fillHole, fillHole]
  split
  · next hzero =>
    rw [hzero, Nat.sub_zero] at hdest
    rw [List.take_append_of_le_length (Nat.le_of_eq hdest.symm)]
  · next hzero =>
    have hle : image.holeOffset + image.holeLength ≤ blckSz := hfits.resolve_left hzero
    have hoff : image.holeOffset ≤ dest.length := by omega
    have hrest : blckSz - (image.holeOffset + image.holeLength) ≤ (dest.drop image.holeOffset).length := by
      rw [List.length_drop]
      omega
    rw [List.take_append_of_le_length hoff, List.drop_append_of_le_length hoff, List.take_append_of_le_length hrest]

def DecodedImage.TagsWhole (image : DecodedImage) (b : Bytes) : Prop :=
  image.holeLength ≤ blckSz → tagsWhole (blckSz - image.holeLength) b 0 0 0 = true

def DecodedImage.Sound (image : DecodedImage) (b : Bytes) : Prop :=
  if bkpimageCompressed image.bimgInfo then
    hasFlag image.bimgInfo bkpimageCompressPglz = true →
      image.TagsWhole b ∧ ((decompressImage image b).isSome → image.HoleFits)
  else image.HoleFits

theorem pglzDecompress_ok (h : image.TagsWhole b) :
    Checked.pglzDecompress b ((blckSz : Int) - image.holeLength) = .ok (decompressImage image b) := by
  rw [Checked.pglzDecompress, decompressImage]
  by_cases hle : image.holeLength ≤ blckSz
  · have hraw : ((blckSz : Int) - image.holeLength).toNat = blckSz - image.holeLength := by omega
    rw [if_neg (by omega), if_pos hle, hraw, decompressItems_checked (Nat.sub_le _ _), List.length_nil, if_pos (h hle),
      ok_bind, pglzDecompress]
    cases decompressItems (blckSz - image.holeLength) b 0 0 [] with
    | none => rfl
    | some p => simp only [true_and]
  · rw [if_pos (by omega), if_neg hle]

theorem pglzDecompress_outside (h : ¬image.TagsWhole b) :
    Checked.pglzDecompress b ((blckSz : Int) - image.holeLength) = .error .outside := by
  obtain ⟨hle, hcut⟩ := Classical.not_imp.mp h
  have hraw : ((blckSz : Int) - image.holeLength).toNat = blckSz - image.holeLength := by omega
  rw [Checked.pglzDecompress, if_neg (by omega), hraw, decompressItems_checked (Nat.sub_le _ _), List.length_nil,
    if_neg hcut]
  rfl

theorem length_of_decompressImage (h : decompressImage image b = some dest) :
    dest.length = blckSz - image.holeLength := by
  rw [decompressImage] at h
  split at h
  · rw [pglzDecompress] at h
    cases hitems : decompressItems (blckSz - image.holeLength) b 0 0 [] with
    | none =>
      rw [hitems] at h
      cases h
    | some p =>
      rw [hitems] at h
      dsimp only at h
      split at h
      · cases h
      · next hcomplete =>
        cases h
        by_contra hlen
        exact hcomplete ⟨rfl, .inl hlen⟩
  · cases h

theorem length_of_plain (hparsed : image.Parsed) (hplain : bkpimageCompressed image.bimgInfo = false) :
    blckSz - image.holeLength ≤ image.bimgLen := by
  have hsize : blckSz = 8192 := rfl
  have hlt := hparsed.bimgLen_lt
  rw [hparsed.holeLength hplain]
  omega

def unchecked {ε α : Type} : Except ε α → Except (Stop ε) α
  | .error e => .error (.failed e)
  | .ok a => .ok a

theorem inside_unchecked {ε α : Type} (x : Except ε α) : Inside (unchecked x) := by
  cases x with
  | error e => exact inside_failed e
  | ok a => exact inside_ok a

variable {d : DecodedXLogRecord} {id : Nat} {blk : DecodedBkpBlock} {tmp : Page}

theorem restoreBlockImage_sound (hblk : entryAt d.blocks id = some blk) (himage : blk.image = some image)
    (hparsed : image.Parsed) (hlen : blk.bkpImage.length = image.bimgLen) (hsound : image.Sound blk.bkpImage) :
    Checked.restoreBlockImage tmp d id = unchecked (restoreBlockImage d id) := by
  rw [Checked.restoreBlockImage, restoreBlockImage, hblk]
  dsimp only
  rw [himage]
  dsimp only
  rw [DecodedImage.Sound] at hsound
  by_cases hpacked : bkpimageCompressed image.bimgInfo = true
  · rw [if_pos hpacked] at hsound
    rw [if_pos hpacked, if_pos hpacked]
    by_cases hpglz : hasFlag image.bimgInfo bkpimageCompressPglz = true
    · obtain ⟨htags, hexpanded⟩ := hsound hpglz
      rw [if_pos hpglz, if_pos hpglz, pglzDecompress_ok htags, ok_bind]
      cases hdest : decompressImage image blk.bkpImage with
      | none => rfl
      | some dest =>
        have hfits : image.HoleFits := hexpanded (by rw [hdest]; rfl)
        have hfull := length_of_decompressImage hdest
        dsimp only
        rw [fillPage_ok hfits (by rw [List.length_append]; omega), fillHole_append hfits hfull]
        rfl
    · rw [if_neg hpglz, if_neg hpglz]
      rfl
  · have hplain : bkpimageCompressed image.bimgInfo = false := Bool.eq_false_of_not_eq_true hpacked
    rw [if_neg hpacked] at hsound
    have harea := length_of_plain hparsed hplain
    rw [if_neg hpacked, if_neg hpacked, fillPage_ok hsound (by rw [hlen]; exact harea)]
    rfl

theorem restoreBlockImage_unsound (hblk : entryAt d.blocks id = some blk) (himage : blk.image = some image)
    (hsound : ¬image.Sound blk.bkpImage) : Checked.restoreBlockImage tmp d id = .error .outside := by
  rw [Checked.restoreBlockImage, hblk]
  dsimp only
  rw [himage]
  dsimp only
  rw [DecodedImage.Sound] at hsound
  by_cases hpacked : bkpimageCompressed image.bimgInfo = true
  · rw [if_pos hpacked] at hsound
    obtain ⟨hpglz, hbad⟩ := Classical.not_imp.mp hsound
    rw [if_pos hpacked, if_pos hpglz]
    by_cases htags : image.TagsWhole blk.bkpImage
    · obtain ⟨hsome, hfits⟩ := Classical.not_imp.mp fun hfits => hbad ⟨htags, hfits⟩
      obtain ⟨dest, hdest⟩ := Option.isSome_iff_exists.mp hsome
      rw [pglzDecompress_ok htags, ok_bind, hdest]
      exact fillPage_outside _ hfits
    · rw [pglzDecompress_outside htags]
      rfl
  · rw [if_neg hpacked] at hsound
    rw [if_neg hpacked]
    exact fillPage_outside _ hsound

theorem mem_copyBlockData {blocks : List (Option DecodedBkpBlock)} {b : Bytes}
    (h : some blk ∈ (copyBlockData blocks b).1) (hlen : statedBlocks blocks ≤ b.length) :
    ∃ blk', some blk' ∈ blocks ∧ blk'.image = blk.image ∧ blk.bkpImage.length = (blk.image.map (·.bimgLen)).getD 0 := by
  induction blocks generalizing b with
  | nil => cases h
  | cons first blocks ih =>
    rw [statedBlocks_cons] at hlen
    cases first with
    | none =>
      rcases List.mem_cons.mp h with hfirst | hrest
      · cases hfirst
      · rw [Option.map_none, Option.getD_none, Nat.zero_add] at hlen
        obtain ⟨blk', hmem, hblk'⟩ := ih hrest hlen
        exact ⟨blk', List.mem_cons_of_mem _ hmem, hblk'⟩
    | some first =>
      rw [Option.map_some, Option.getD_some, Checked.stated_eq] at hlen
      rcases List.mem_cons.mp h with hfirst | hrest
      · cases hfirst
        refine ⟨first, List.mem_cons_self, rfl, ?_⟩
        show (b.take (Checked.imageLen first)).length = Checked.imageLen first
        rw [List.length_take, Nat.min_eq_left (by omega)]
      · have hrestLen : statedBlocks blocks ≤ (b.drop (Checked.imageLen first + Checked.dataLen first)).length := by
          rw [List.length_drop]
          omega
        obtain ⟨blk', hmem, hblk'⟩ := ih hrest hrestLen
        exact ⟨blk', List.mem_cons_of_mem _ hmem, hblk'⟩

theorem mem_of_entryAt {α : Type} {l : List (Option α)} {a : α} (h : entryAt l id = some a) : some a ∈ l := by
  rw [entryAt, Option.join_eq_some_iff] at h
  exact List.mem_of_getElem? h

theorem image_of_decoded {r : WholeRecord} (h : decodeXLogRecord r.bytes = .ok d) (hstated : d.stated < 2 ^ 32)
    (hblk : entryAt d.blocks id = some blk) (himage : blk.image = some image) :
    image.Parsed ∧ blk.bkpImage.length = image.bimgLen := by
  rw [r.decodeXLogRecord_eq] at h
  obtain ⟨⟨st, rest⟩, hheaders, h⟩ := bind_eq_ok.mp h
  have hparsed := r.parsed_of_headers hheaders
  split at h
  · cases h
  · next htotal =>
    cases h
    have hlen : statedBlocks st.record.blocks ≤ rest.length := by
      rw [DecodeState.stated_finish] at hstated
      rw [not_not.mp htotal, hparsed.datatotal, Nat.mod_eq_of_lt hstated, DecodedXLogRecord.stated]
      exact Nat.le_add_right _ _
    obtain ⟨blk', hmem, hsame, hbytes⟩ := mem_copyBlockData (mem_of_entryAt hblk) hlen
    refine ⟨hparsed.images blk' hmem image (hsame.trans himage), ?_⟩
    rw [hbytes, himage]
    rfl

def DecodedXLogRecord.ImagesSound (d : DecodedXLogRecord) : Prop :=
  ∀ id blk image, entryAt d.blocks id = some blk → blk.image = some image → image.Sound blk.bkpImage

/-- The record is decoded in the space required, and then any of its images restored, with no
access outside of the record, that space, the image, the buffer on the stack and the page. -/
structure Bounded (layout : Layout) (tmp : Page) (record : Bytes) : Prop where
  decode : Inside (Checked.decodeXLogRecord layout (decodeXLogRecordRequiredSpace layout record.length) record)
  restore : ∀ d size,
    Checked.decodeXLogRecord layout (decodeXLogRecordRequiredSpace layout record.length) record = .ok (d, size) →
      size ≤ decodeXLogRecordRequiredSpace layout record.length ∧ ∀ id, Inside (Checked.restoreBlockImage tmp d id)

theorem decoded_of_checked {layout : Layout} {r : WholeRecord} {size : Nat}
    (h : Checked.decodeXLogRecord layout (decodeXLogRecordRequiredSpace layout r.bytes.length) r.bytes = .ok (d, size)) :
    decodeXLogRecord r.bytes = .ok d ∧ d.stated < 2 ^ 32 ∧
      size ≤ decodeXLogRecordRequiredSpace layout r.bytes.length := by
  cases hlist : decodeXLogRecord r.bytes with
  | error e =>
    rw [WholeRecord.checked_error hlist] at h
    cases h
  | ok d' =>
    obtain ⟨hfits, hwraps⟩ := WholeRecord.checked_ok layout hlist
    by_cases hstated : d'.stated < 2 ^ 32
    · obtain ⟨hok, hle⟩ := hfits hstated
      rw [hok] at h
      cases h
      exact ⟨rfl, hstated, hle⟩
    · rw [hwraps hstated] at h
      cases h

/-- A record is decoded and restored in bounds exactly when it is refused, or the lengths it
states add up without a wrap and its images are sound. -/
theorem bounded_iff (layout : Layout) (tmp : Page) (r : WholeRecord) : Bounded layout tmp r.bytes ↔
      ∀ d, decodeXLogRecord r.bytes = .ok d → d.stated < 2 ^ 32 ∧ d.ImagesSound := by
  constructor
  · intro hbounded d hlist
    obtain ⟨hfits, hwraps⟩ := WholeRecord.checked_ok layout hlist
    by_cases hstated : d.stated < 2 ^ 32
    · refine ⟨hstated, ?_⟩
      intro id blk image hblk himage
      obtain ⟨hok, -⟩ := hfits hstated
      have hinside := (hbounded.restore d _ hok).2 id
      by_contra hsound
      exact hinside (restoreBlockImage_unsound hblk himage hsound)
    · exact absurd (hwraps hstated) hbounded.decode
  · intro hsound
    refine ⟨?_, ?_⟩
    · cases hlist : decodeXLogRecord r.bytes with
      | error e =>
        rw [WholeRecord.checked_error hlist]
        exact inside_failed e
      | ok d =>
        obtain ⟨hok, -⟩ := (WholeRecord.checked_ok layout hlist).1 (hsound d hlist).1
        rw [hok]
        exact inside_ok _
    · intro d size hok
      obtain ⟨hlist, hstated, hle⟩ := decoded_of_checked hok
      refine ⟨hle, ?_⟩
      intro id
      -- either there is no image to restore, or a sound one
      cases hblk : entryAt d.blocks id with
      | none =>
        rw [Checked.restoreBlockImage, hblk]
        exact inside_failed _
      | some blk =>
        cases himage : blk.image with
        | none =>
          rw [Checked.restoreBlockImage, hblk]
          dsimp only
          rw [himage]
          exact inside_failed _
        | some image =>
          obtain ⟨hparsed, hlen⟩ := image_of_decoded hlist hstated hblk himage
          rw [restoreBlockImage_sound hblk himage hparsed hlen ((hsound d hlist).2 id blk image hblk himage)]
          exact inside_unchecked _

def farHole : Bytes :=
  [50, 0, 0, 0, 0, 0, 0, 0, 0, 0, 0, 0, 0, 0, 0, 0, 0xB0, 0, 0, 0, 115, 31, 131, 84] ++
    [0, 0x10, 0, 0, 1, 0, 0x40, 0x1F, 3, 1, 0, 0, 0, 2, 0, 0, 0, 3, 0, 0, 0, 0, 0, 0, 0, 0xAA]

def farHoleRecord : WholeRecord := ⟨farHole, by decide, by decide⟩

def zeroPage : Page := ⟨List.replicate blckSz 0, List.length_replicate⟩

/-- Its header and its checksum are valid, and the page is written behind its end. -/
theorem far_hole_writes_behind_page :
    validXLogRecordHeader 8192 0 (readHeader farHole) true = .ok () ∧ validXLogRecord farHole = .ok () ∧
      ¬Bounded ⟨88, 64⟩ zeroPage farHole := by
  refine ⟨by decide +kernel, by decide +kernel, ?_⟩
  intro hbounded
  obtain ⟨d, hlist, hstated, blk, image, hblk, himage, hsound⟩ : ∃ d, decodeXLogRecord farHole = .ok d ∧
      d.stated < 2 ^ 32 ∧ ∃ blk image, entryAt d.blocks 0 = some blk ∧ blk.image = some image ∧
        ¬image.Sound blk.bkpImage := by
    refine ⟨_, rfl, by decide, _, ⟨1, 8000, 8191, 3⟩, rfl, rfl, ?_⟩
    intro hsound
    have hfits : (8191 = 0 ∨ 8000 + 8191 ≤ 8192) := hsound
    exact absurd hfits (by decide)
  obtain ⟨hok, -⟩ := WholeRecord.checked_ok (r := farHoleRecord) ⟨88, 64⟩ hlist |>.1 hstated
  exact (hbounded.restore d _ hok).2 0 (restoreBlockImage_unsound hblk himage hsound)

end CdcKafka.Xlog
