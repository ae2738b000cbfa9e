import CdcKafka.Xlog.PglzInverse

/-! `pglz_maximum_compressed_size`: how much of the compressed form is enough for the first bytes
of the text. -/

namespace CdcKafka.Xlog

open CdcKafka.Lib

variable {source : Bytes} {p q r k : Nat}

def pglzMaximumCompressedSize (rawsize totalCompressedSize : Nat) : Nat :=
  min ((rawsize * 9 + 7) / 8 + 2) totalCompressedSize

theorem length_tagBytes (off : Nat) {len : Nat} (h : 2 < len) :
    0 < (PglzOut.tagBytes len off).length ∧ (PglzOut.tagBytes len off).length ≤ 3 ∧
      (PglzOut.tagBytes len off).length ≤ len := by
  rw [PglzOut.tagBytes]
  split
  · exact ⟨Nat.succ_pos 2, Nat.le_refl 3, h⟩
  · exact ⟨Nat.succ_pos 1, Nat.le_succ 2, Nat.le_of_lt h⟩

theorem length_itemBytes {items : List (Item UInt8)} (hspells : Spells source p items q) (hfits : ∀ x ∈ items, Fits x) :
    items.length ≤ (items.flatMap itemBytes).length ∧ p + (items.flatMap itemBytes).length ≤ q := by
  induction items generalizing p with
  | nil =>
    obtain rfl : p = q := hspells
    exact ⟨Nat.le_refl 0, Nat.le_refl p⟩
  | cons item items ih =>
    have hrest : ∀ x ∈ items, Fits x := fun x hx => hfits x (List.mem_cons_of_mem item hx)
    rw [List.flatMap_cons, List.length_append, List.length_cons]
    cases item with
    | literal c =>
      obtain ⟨hcount, hbytes⟩ := ih hspells.2 hrest
      rw [itemBytes, List.length_singleton]
      omega
    | back off len =>
      obtain ⟨hcount, hbytes⟩ := ih hspells.2.2.2.2 hrest
      obtain ⟨hpos, -, hle⟩ := length_tagBytes off (hfits _ List.mem_cons_self).2.1
      rw [itemBytes]
      omega

theorem take_append_of_le (first rest : Bytes) (h : first.length ≤ k) :
    (first ++ rest).take k = first ++ rest.take (k - first.length) := by
  rw [List.take_append, List.take_of_length_le h]

theorem sliceItems (rest : Bytes) {items : List (Item UInt8)} (hspells : Spells source p items q)
    (hfits : ∀ x ∈ items, Fits x)
    {bits : Nat} (hbits : items.length ≤ bits) {ctrl : UInt8} (hctrl : ctrl.toNat = ctrlByte items) (hp : p ≤ r)
    (hr : r ≤ source.length) (hk : r - p + 2 ≤ k) :
    (∃ left, decompressItems r ((items.flatMap itemBytes ++ rest).take k) bits ctrl (source.take p) =
        some (source.take r, left)) ∨
      q < r ∧ decompressItems r ((items.flatMap itemBytes ++ rest).take k) bits ctrl (source.take p) =
        decompressItems r (rest.take (k - (items.flatMap itemBytes).length)) (bits - items.length) 0
          (source.take q) := by
  induction items generalizing p bits ctrl k with
  | nil =>
    obtain rfl : p = q := hspells
    obtain rfl : ctrl = 0 := UInt8.toNat_inj.mp hctrl
    rcases Nat.lt_or_eq_of_le hp with hlt | rfl
    · exact .inr ⟨hlt, rfl⟩
    · exact .inl ⟨_, decompressItems_full (Nat.le_of_eq (length_take_of_le hr).symm) _ _ _⟩
  | cons item items ih =>
    have hlength : (source.take p).length = p := length_take_of_le (Nat.le_trans hp hr)
    rcases Nat.lt_or_eq_of_le hp with hlt | rfl
    · obtain ⟨bits, rfl⟩ : ∃ b, bits = b + 1 := ⟨bits - 1, by rw [List.length_cons] at hbits; omega⟩
      obtain ⟨hbit, hshift⟩ := ctrl_of_cons hctrl
      have hrest : ∀ x ∈ items, Fits x := fun x hx => hfits x (List.mem_cons_of_mem item hx)
      have hless : items.length ≤ bits := Nat.le_of_succ_le_succ hbits
      have hleft : bits + 1 - (item :: items).length = bits - items.length := by
        rw [List.length_cons]
        omega
      rw [List.flatMap_cons, List.append_assoc, List.length_append, hleft, ← Nat.sub_sub]
      cases item with
      | literal c =>
        obtain ⟨hc, htail⟩ := hspells
        have hpush : source.take p ++ [c] = source.take (p + 1) := by
          rw [List.take_add_one, hc]
          rfl
        have hread (sp : Bytes) : decompressItems r (c :: sp) (bits + 1) ctrl (source.take p) =
            decompressItems r sp bits (ctrl >>> 1) (source.take (p + 1)) := by
          rw [decompressItems, hlength, if_neg (Nat.not_le.mpr hlt)]
          dsimp only
          rw [if_pos (hbit.mpr rfl), hpush]
        rw [take_append_of_le (itemBytes (.literal c)) _ (by rw [itemBytes, List.length_singleton]; omega), itemBytes,
          List.cons_append, List.nil_append, hread]
        exact ih htail hrest hless hshift hlt (by rw [List.length_singleton]; omega)
      | back off len =>
        obtain ⟨hpos, hback, hinside, hrepeats, htail⟩ := hspells
        have hlong : 2 < len := (hfits _ List.mem_cons_self).2.1
        obtain ⟨-, hthree, hbytes⟩ := length_tagBytes off hlong
        have hone : ctrl &&& 1 ≠ 0 := fun hzero => by cases hbit.mp hzero
        -- there are at least three bytes, so the tag is whole
        rw [take_append_of_le (itemBytes (.back off len)) _ (by rw [itemBytes]; omega), itemBytes,
          readTag (hfits _ List.mem_cons_self) r bits hone (by rw [hlength]; exact hlt) hpos
          (by rw [hlength]; exact hback), hlength,
          copyBack_take (fun j hj => hrepeats j (by omega)) hpos hback (by omega)]
        by_cases hend : r ≤ p + len
        · have hmin : p + min len (r - p) = r := by omega
          rw [hmin]
          exact .inl ⟨_, decompressItems_full (Nat.le_of_eq (length_take_of_le hr).symm) _ _ _⟩
        · have hmin : min len (r - p) = len := by omega
          rw [hmin]
          exact ih htail hrest hless hshift (by omega) (by omega)
    · exact .inl ⟨_, decompressItems_full (Nat.le_of_eq hlength.symm) _ _ _⟩

theorem sliceGroup (rest : Bytes) {items : List (Item UInt8)} (hspells : Spells source p items q)
    (hfits : ∀ x ∈ items, Fits x)
    (hcount : items.length ≤ 8) (hp : p < r) (hr : r ≤ source.length) (hk : ((r - p) * 9 + 7) / 8 + 2 ≤ k)
    (ctrl : UInt8) :
    (∃ left, decompressItems r ((groupBytes items ++ rest).take k) 0 ctrl (source.take p) =
        some (source.take r, left)) ∨
      q < r ∧ ∃ k', (items.length = 8 → ((r - q) * 9 + 7) / 8 + 2 ≤ k') ∧
        decompressItems r ((groupBytes items ++ rest).take k) 0 ctrl (source.take p) =
          decompressItems r (rest.take k') (8 - items.length) 0 (source.take q) := by
  have hlength : (source.take p).length = p := length_take_of_le (by omega)
  have hbyte : (UInt8.ofNat (ctrlByte items)).toNat = ctrlByte items := by
    rw [UInt8.toNat_ofNat']
    refine Nat.mod_eq_of_lt (Nat.lt_of_lt_of_le (ctrlByte_lt items) ?_)
    exact Nat.pow_le_pow_right (by decide) hcount
  obtain ⟨hitems, hbytes⟩ := length_itemBytes hspells hfits
  obtain ⟨k, rfl⟩ : ∃ j, k = j + 1 := ⟨k - 1, by omega⟩
  rw [groupBytes, List.cons_append, List.take_succ_cons, decompressItems, hlength, if_neg (Nat.not_le.mpr hp)]
  rcases sliceItems rest hspells hfits hcount hbyte (Nat.le_of_lt hp) hr (by omega : r - p + 2 ≤ k) with
    hdone | ⟨hq, hread⟩
  · exact .inl hdone
  · exact .inr ⟨hq, k - (items.flatMap itemBytes).length, by omega, hread⟩

theorem sliceGroups (rest : Bytes) {groups : List (List (Item UInt8))} (hspells : Spells source p groups.flatten q)
    (hfits : ∀ x ∈ groups.flatten, Fits x) (hfull : ∀ g ∈ groups, g.length = 8) (hp : p ≤ r) (hr : r ≤ source.length)
    (hk : ((r - p) * 9 + 7) / 8 + 2 ≤ k) :
    (∃ left, decompressItems r ((groups.flatMap groupBytes ++ rest).take k) 0 0 (source.take p) =
        some (source.take r, left)) ∨
      q < r ∧ ∃ k', ((r - q) * 9 + 7) / 8 + 2 ≤ k' ∧
        decompressItems r ((groups.flatMap groupBytes ++ rest).take k) 0 0 (source.take p) =
          decompressItems r (rest.take k') 0 0 (source.take q) := by
  rcases Nat.lt_or_eq_of_le hp with hlt | rfl
  · induction groups generalizing p k with
    | nil =>
      obtain rfl : p = q := hspells
      exact .inr ⟨hlt, k, hk, rfl⟩
    | cons g groups ih =>
      have hlength : g.length = 8 := hfull g List.mem_cons_self
      have hg : ∀ x ∈ g, Fits x := fun x hx => hfits x (List.mem_append_left _ hx)
      obtain ⟨m, hfirst, htail⟩ := hspells.of_append
      rw [List.flatMap_cons, List.append_assoc]
      rcases sliceGroup (groups.flatMap groupBytes ++ rest) hfirst hg (Nat.le_of_eq hlength) hlt hr hk 0 with
        hdone | ⟨hm, k', hk', hread⟩
      · exact .inl hdone
      · rw [hread, hlength]
        exact ih htail (fun x hx => hfits x (List.mem_append_right _ hx))
          (fun g' hg' => hfull g' (List.mem_cons_of_mem g hg')) (Nat.le_of_lt hm) (hk' hlength) hm
  · exact .inl ⟨_, decompressItems_full (Nat.le_of_eq (length_take_of_le hr).symm) _ _ _⟩

theorem slice_of_written {o : PglzOut} (h : Written source source.length o) (hr : r ≤ source.length)
    (hk : (r * 9 + 7) / 8 + 2 ≤ k) :
    ∃ left, decompressItems r (o.flush.take k) 0 0 [] = some (source.take r, left) := by
  rcases h with ⟨groups, items, hspelled, hwork, hne, hlength⟩ | ⟨hzero, rfl⟩
  · obtain ⟨q, hgroups, hitems⟩ := hspelled.spells.of_append
    have hfits : ∀ x ∈ items, Fits x := fun x hx => hspelled.fits x (List.mem_append_right _ hx)
    have hflush : o.flush = groups.flatMap groupBytes ++ (groupBytes items ++ []) := by
      rw [PglzOut.flush, hwork.real, hspelled.written, hwork.ctrlb, hwork.behind, List.append_nil]
      rfl
    rw [hflush]
    rcases sliceGroups (groupBytes items ++ []) hgroups
      (fun x hx => hspelled.fits x (List.mem_append_left _ hx)) hspelled.full (Nat.zero_le r) hr hk with
      hdone | ⟨hq, k', hk', hread⟩
    · exact hdone
    · rcases sliceGroup [] hitems hfits hlength hq hr hk' 0 with ⟨left, hdone⟩ | ⟨hend, -⟩
      · exact ⟨left, hread.trans hdone⟩
      · exact absurd hr (Nat.not_le.mpr hend)
  · obtain rfl : source = [] := List.length_eq_zero_iff.mp hzero
    obtain rfl : r = 0 := Nat.le_zero.mp hr
    exact ⟨_, decompressItems_full (Nat.le_refl 0) _ _ _⟩

/-- The part of the compressed form that is fetched for the first bytes gives them. -/
theorem pglzDecompress_slice {strategy : PglzStrategy} {compressed : Bytes} {rawsize : Nat}
    (h : pglzCompress source strategy = some compressed) (hr : rawsize ≤ source.length) :
    ∃ dest, pglzDecompress (compressed.take (pglzMaximumCompressedSize rawsize compressed.length)) rawsize false =
      some dest ∧ dest.length = rawsize ∧ dest = source.take rawsize := by
  obtain ⟨o, hwritten, rfl⟩ := written_of_pglzCompress h
  have hpart : o.flush.take (pglzMaximumCompressedSize rawsize o.flush.length) =
      o.flush.take ((rawsize * 9 + 7) / 8 + 2) := by
    rw [pglzMaximumCompressedSize, ← List.take_take, List.take_length]
  obtain ⟨left, hread⟩ := slice_of_written hwritten hr (Nat.le_refl _)
  refine ⟨source.take rawsize, ?_, length_take_of_le hr, rfl⟩
  rw [pglzDecompress, hpart, hread]
  rfl

theorem pglzDecompress_slice_repeated :
    ∃ dest, pglzDecompress (List.take (pglzMaximumCompressedSize 7 5) [2, 97, 15, 1, 21]) 7 false = some dest ∧
      dest.length = 7 ∧ dest = (List.replicate 40 97).take 7 :=
  @pglzDecompress_slice (List.replicate 40 97) pglzStrategyDefault [2, 97, 15, 1, 21] 7 (by decide +kernel) (by decide)

end CdcKafka.Xlog
