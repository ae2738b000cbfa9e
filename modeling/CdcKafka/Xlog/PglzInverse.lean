import CdcKafka.Xlog.Pglz
import Mathlib.Tactic.IntervalCases

/-! What is compressed with pglz is decompressed as it was. -/

namespace CdcKafka.Xlog

open CdcKafka.Lib

variable {source rest : Bytes} {hist : PglzHistory} {p q dp len off n : Nat} {mask : Int32} {o : PglzOut}

theorem matchLength_le (n : Nat) (as bs : Bytes) : matchLength n as bs ≤ as.length := by
  induction n generalizing as bs with
  | zero => exact Nat.zero_le _
  | succ n ih =>
    cases as with
    | nil => exact Nat.le_refl 0
    | cons a as =>
      cases bs with
      | nil => exact Nat.zero_le _
      | cons b bs =>
        rw [matchLength]
        split
        · exact Nat.succ_le_succ (ih as bs)
        · exact Nat.zero_le _

theorem matchLength_le_limit (n : Nat) (as bs : Bytes) : matchLength n as bs ≤ n := by
  induction n generalizing as bs with
  | zero => exact Nat.zero_le _
  | succ n ih =>
    cases as with
    | nil => exact Nat.zero_le _
    | cons a as =>
      cases bs with
      | nil => exact Nat.zero_le _
      | cons b bs =>
        rw [matchLength]
        split
        · exact Nat.succ_le_succ (ih as bs)
        · exact Nat.zero_le _

theorem take_matchLength (n : Nat) (as bs : Bytes) : as.take (matchLength n as bs) = bs.take (matchLength n as bs) := by
  induction n generalizing as bs with
  | zero => rfl
  | succ n ih =>
    cases as with
    | nil => rfl
    | cons a as =>
      cases bs with
      | nil => rfl
      | cons b bs =>
        rw [matchLength]
        split
        · next hab => rw [List.take_succ_cons, List.take_succ_cons, hab, ih]
        · rfl

structure Matches (len : Nat) (ip hp : Bytes) : Prop where
  agree : ip.take len = hp.take len
  length : len ≤ ip.length
  limit : len ≤ pglzMaxMatch

theorem matches_thisLength {ip hp : Bytes} (hlen : len ≤ ip.length) (hlimit : len ≤ pglzMaxMatch) :
    Matches (thisLength len ip hp) ip hp := by
  rw [thisLength]
  split
  · split
    · next hsame =>
      have hmore := take_matchLength (pglzMaxMatch - len) (ip.drop len) (hp.drop len)
      have hle := matchLength_le (pglzMaxMatch - len) (ip.drop len) (hp.drop len)
      have hlim := matchLength_le_limit (pglzMaxMatch - len) (ip.drop len) (hp.drop len)
      rw [List.length_drop] at hle
      refine ⟨?_, by omega, by omega⟩
      rw [List.take_add, List.take_add, hsame, hmore]
    · exact ⟨rfl, Nat.zero_le _, Nat.zero_le _⟩
  · exact ⟨take_matchLength _ ip hp, matchLength_le _ ip hp, matchLength_le_limit _ ip hp⟩

structure Reference (source : Bytes) (dp len off : Nat) : Prop where
  pos : 0 < off
  back : off ≤ dp
  fits : off < 0x0fff
  inside : dp + len ≤ source.length
  limit : len ≤ pglzMaxMatch
  repeats : Repeats source dp off len

theorem repeats_of_take {k : Nat} (hk : k ≤ dp) (h : (source.drop dp).take len = (source.drop k).take len) :
    Repeats source dp (dp - k) len := by
  intro j hj
  have hget := congrArg (fun l : Bytes => l[j]?) h
  simp only [List.getElem?_take_of_lt hj, List.getElem?_drop] at hget
  rw [hget, Nat.sub_sub_self hk]

theorem traverse_reference (goodDrop : Nat) {l : List Nat} (hl : ∀ k ∈ l, k < dp) (hdp : dp ≤ source.length)
    (goodMatch : Nat) (h : len = 0 ∨ Reference source dp len off) :
    (traverse source dp goodDrop l goodMatch len off).1 = 0 ∨
      Reference source dp (traverse source dp goodDrop l goodMatch len off).1
        (traverse source dp goodDrop l goodMatch len off).2 := by
  induction l generalizing goodMatch len off with
  | nil => exact h
  | cons k l ih =>
    have hk : k < dp := hl k List.mem_cons_self
    rw [traverse]
    split
    · exact h
    · next hnear =>
      have hbest : ∀ best : Nat × Nat, best = (if len < thisLength len (source.drop dp) (source.drop k) then
          (thisLength len (source.drop dp) (source.drop k), dp - k) else (len, off)) →
          best.1 = 0 ∨ Reference source dp best.1 best.2 := by
        rintro best rfl
        split
        · have hlength : (source.drop dp).length = source.length - dp := List.length_drop
          have hle : len ≤ (source.drop dp).length := by
            rcases h with rfl | href
            · exact Nat.zero_le _
            · have := href.inside
              omega
          have hlimit : len ≤ pglzMaxMatch := by
            rcases h with rfl | href
            · exact Nat.zero_le _
            · exact href.limit
          have hmatch : Matches (thisLength len (source.drop dp) (source.drop k)) (source.drop dp) (source.drop k) :=
            matches_thisLength hle hlimit
          have hinside := hmatch.length
          exact .inr ⟨by omega, by omega, by omega, by omega, hmatch.limit,
            repeats_of_take (Nat.le_of_lt hk) hmatch.agree⟩
        · exact h
      dsimp only
      generalize hb : (if len < thisLength len (source.drop dp) (source.drop k) then
        (thisLength len (source.drop dp) (source.drop k), dp - k) else (len, off)) = best
      have hafter := hbest best hb.symm
      split
      · exact hafter
      · exact ih (fun j hj => hl j (List.mem_cons_of_mem k hj)) _ hafter

def Behind (hist : PglzHistory) (dp : Nat) : Prop := ∀ e ∈ hist, e.2 < dp

theorem Behind.add (h : Behind hist dp) : Behind (pglzHistAdd mask source hist dp) (dp + 1) := by
  intro e he
  rcases List.mem_cons.mp (List.mem_of_mem_take he) with rfl | he
  · exact Nat.lt_succ_self dp
  · exact Nat.lt_succ_of_lt (h e he)

theorem Behind.addMany (h : Behind hist dp) (n : Nat) : Behind (pglzHistAddMany mask source hist dp n) (dp + n) := by
  induction n generalizing hist dp with
  | zero => exact h
  | succ n ih =>
    rw [pglzHistAddMany, Nat.add_comm n 1, ← Nat.add_assoc]
    exact ih h.add

theorem reference_of_pglzFindMatch {goodMatch goodDrop : Nat} (hhist : Behind hist dp) (hdp : dp ≤ source.length)
    (h : pglzFindMatch source hist dp goodMatch goodDrop mask = some (len, off)) : Reference source dp len off := by
  have hpos := pglzFindMatch_pos h
  rw [pglzFindMatch] at h
  split at h
  · have hlist : ∀ k ∈ (hist.filter fun e => e.1 = pglzHistIdx mask (source.drop dp)).map (·.2), k < dp := by
      intro k hk
      obtain ⟨e, he, rfl⟩ := List.mem_map.mp hk
      exact hhist e (List.mem_of_mem_filter he)
    have hzero : (0 : Nat) = 0 ∨ Reference source dp 0 0 := .inl rfl
    have href := traverse_reference goodDrop hlist hdp goodMatch hzero
    rw [Option.some.inj h] at href
    exact href.resolve_left (by omega)
  · cases h

def isBack : Item UInt8 → Bool
  | .literal _ => false
  | .back _ _ => true

def itemBytes : Item UInt8 → Bytes
  | .literal c => [c]
  | .back off len => PglzOut.tagBytes len off

def Fits : Item UInt8 → Prop
  | .literal _ => True
  | .back off len => off < 0x0fff ∧ 2 < len ∧ len ≤ pglzMaxMatch

def ctrlByte : List (Item UInt8) → Nat
  | [] => 0
  | item :: items => (isBack item).toNat + 2 * ctrlByte items

def groupBytes (items : List (Item UInt8)) : Bytes := UInt8.ofNat (ctrlByte items) :: items.flatMap itemBytes

theorem ctrlByte_lt (items : List (Item UInt8)) : ctrlByte items < 2 ^ items.length := by
  induction items with
  | nil => exact Nat.one_pos
  | cons item items ih =>
    have hbit : (isBack item).toNat ≤ 1 := Bool.toNat_le _
    rw [ctrlByte, List.length_cons, Nat.pow_succ]
    omega

theorem ctrlByte_append (items : List (Item UInt8)) (item : Item UInt8) :
    ctrlByte (items ++ [item]) = ctrlByte items + (isBack item).toNat * 2 ^ items.length := by
  induction items with
  | nil => simp [ctrlByte]
  | cons x items ih =>
    rw [List.cons_append, ctrlByte, ih, ctrlByte, List.length_cons, Nat.pow_succ, Nat.mul_add, ← Nat.add_assoc]
    congr 1
    rw [Nat.mul_comm 2, Nat.mul_assoc]

theorem and_high_nibble : ∀ m < 256, m &&& 0xf0 = m / 16 * 16 := by decide +kernel

theorem tag_offset_high (hoff : off < 4096) : (off &&& 0xf00) >>> 4 = off / 256 * 16 := by
  have hdiv : off / 16 / 16 = off / 256 := Nat.div_div_eq_div_mul off 16 16
  rw [Nat.shiftRight_and_distrib, Nat.shiftRight_eq_div_pow, ← hdiv]
  exact and_high_nibble (off / 16) (Nat.div_lt_of_lt_mul hoff)

theorem tag_read : ∀ high < 16, ∀ nibble < 16, (UInt8.ofNat (high * 16 ||| nibble) &&& 0x0f).toNat = nibble ∧
      (UInt8.ofNat (high * 16 ||| nibble) &&& 0xf0).toNat <<< 4 = high * 256 := by decide

theorem offset_read (off : Nat) : (off / 256 * 256) ||| (UInt8.ofNat (off &&& 0xff)).toNat = off := by
  have hlow : off &&& 0xff = off % 256 := Nat.and_two_pow_sub_one_eq_mod off 8
  have hbyte : (UInt8.ofNat (off % 256)).toNat = off % 256 := by
    rw [UInt8.toNat_ofNat']
    exact Nat.mod_eq_of_lt (Nat.mod_lt off (by decide))
  rw [hlow, hbyte, Nat.mul_comm, ← Nat.two_pow_add_eq_or_of_lt (i := 8) (Nat.mod_lt off (by decide))]
  exact Nat.div_add_mod off 256

theorem decompressItems_full {rawsize : Nat} {dest : Bytes} (h : rawsize ≤ dest.length) (sp : Bytes) (bits : Nat) (ctrl : UInt8) :
    decompressItems rawsize sp bits ctrl dest = some (dest, sp) := by
  cases sp with
  | nil => rw [decompressItems]
  | cons b sp => cases bits with
    | zero => rw [decompressItems, if_pos h]
    | succ bits => rw [decompressItems, if_pos h]

theorem readTag (hfits : Fits (.back off len)) (rawsize bits : Nat) {ctrl : UInt8} (hctrl : ctrl &&& 1 ≠ 0)
    {dest : Bytes} (hroom : dest.length < rawsize) (hpos : 0 < off) (hback : off ≤ dest.length) :
    decompressItems rawsize (PglzOut.tagBytes len off ++ rest) (bits + 1) ctrl dest =
      decompressItems rawsize rest bits (ctrl >>> 1) (copyBack off (min len (rawsize - dest.length)) dest) := by
  obtain ⟨hoff, hlong, hlimit⟩ := hfits
  have hoff' : off < 4096 := by omega
  have hhigh : off / 256 < 16 := Nat.div_lt_of_lt_mul hoff'
  have hnotfull : ¬ rawsize ≤ dest.length := Nat.not_le.mpr hroom
  have hgood : ¬ (off = 0 ∨ dest.length < off) := by omega
  rw [PglzOut.tagBytes, tag_offset_high hoff']
  by_cases hext : 17 < len
  · obtain ⟨hnibble, hread⟩ := tag_read (off / 256) hhigh 15 (by decide)
    have hlast : (UInt8.ofNat (len - 18)).toNat = len - 18 := by
      rw [UInt8.toNat_ofNat']
      exact Nat.mod_eq_of_lt (by rw [pglzMaxMatch] at hlimit; omega)
    have hlen : 18 + (len - 18) = len := by omega
    rw [if_pos hext]
    simp only [List.cons_append, List.nil_append, decompressItems, if_neg hnotfull, if_neg hctrl, hnibble, hread,
      offset_read, hlast]
    rw [if_pos trivial, if_neg hgood, hlen]
  · obtain ⟨hnibble, hread⟩ := tag_read (off / 256) hhigh (len - 3) (by omega)
    have hlen : len - 3 + 3 = len := by omega
    have hshort : ¬ len = 18 := by omega
    rw [if_neg hext]
    simp only [List.cons_append, List.nil_append, decompressItems, if_neg hnotfull, if_neg hctrl, hnibble, hread,
      offset_read, hlen]
    rw [if_neg hshort, if_neg hgood]

theorem ctrl_of_cons {item : Item UInt8} {items : List (Item UInt8)} {ctrl : UInt8}
    (h : ctrl.toNat = ctrlByte (item :: items)) :
    (ctrl &&& 1 = 0 ↔ isBack item = false) ∧ (ctrl >>> 1).toNat = ctrlByte items := by
  have hbit : (isBack item).toNat ≤ 1 := Bool.toNat_le _
  rw [ctrlByte] at h
  constructor
  · rw [← UInt8.toNat_inj, UInt8.toNat_and]
    have hlow : ctrl.toNat &&& 1 = ctrl.toNat % 2 := Nat.and_two_pow_sub_one_eq_mod ctrl.toNat 1
    show ctrl.toNat &&& 1 = 0 ↔ _
    rw [hlow, h]
    cases isBack item with
    | false => simp
    | true => simp [Nat.add_mod]
  · rw [UInt8.toNat_shiftRight]
    show ctrl.toNat >>> 1 = _
    rw [Nat.shiftRight_eq_div_pow, h]
    omega

theorem readItems {items : List (Item UInt8)} (hspells : Spells source p items q) (hfits : ∀ x ∈ items, Fits x)
    {bits : Nat} (hbits : items.length ≤ bits) {ctrl : UInt8} (hctrl : ctrl.toNat = ctrlByte items) :
    decompressItems source.length (items.flatMap itemBytes ++ rest) bits ctrl (source.take p) =
      decompressItems source.length rest (bits - items.length) 0 (source.take q) := by
  induction items generalizing p bits ctrl with
  | nil =>
    obtain rfl : p = q := hspells
    obtain rfl : ctrl = 0 := UInt8.toNat_inj.mp hctrl
    rfl
  | cons item items ih =>
    obtain ⟨bits, rfl⟩ : ∃ b, bits = b + 1 := ⟨bits - 1, by rw [List.length_cons] at hbits; omega⟩
    obtain ⟨hbit, hshift⟩ := ctrl_of_cons hctrl
    have hrest : ∀ x ∈ items, Fits x := fun x hx => hfits x (List.mem_cons_of_mem item hx)
    have hless : items.length ≤ bits := Nat.le_of_succ_le_succ hbits
    have hleft : bits + 1 - (item :: items).length = bits - items.length := by
      rw [List.length_cons]
      omega
    rw [List.flatMap_cons, List.append_assoc, hleft]
    cases item with
    | literal c =>
      obtain ⟨hc, htail⟩ := hspells
      have hp : p < source.length := (List.getElem?_eq_some_iff.mp hc).1
      have hlength : (source.take p).length = p := length_take_of_le (Nat.le_of_lt hp)
      have hpush : source.take p ++ [c] = source.take (p + 1) := by
        rw [List.take_add_one, hc]
        rfl
      have hstep :
          decompressItems source.length (itemBytes (.literal c) ++ (items.flatMap itemBytes ++ rest)) (bits + 1)
          ctrl (source.take p) =
          decompressItems source.length (items.flatMap itemBytes ++ rest) bits (ctrl >>> 1) (source.take p ++ [c]) := by
        rw [itemBytes, List.cons_append, List.nil_append, decompressItems, hlength, if_neg (by omega)]
        dsimp only
        rw [if_pos (hbit.mpr rfl)]
      rw [hstep, hpush]
      exact ih htail hrest hless hshift
    | back off len =>
      obtain ⟨hpos, hback, hinside, hrepeats, htail⟩ := hspells
      have hlength : (source.take p).length = p := length_take_of_le (by omega)
      have hlong : 2 < len := (hfits _ List.mem_cons_self).2.1
      have hwhole : min len (source.length - p) = len := by omega
      have hone : ctrl &&& 1 ≠ 0 := fun hzero => by cases hbit.mp hzero
      rw [itemBytes, readTag (hfits _ List.mem_cons_self) source.length bits hone (by rw [hlength]; omega) hpos
        (by rw [hlength]; exact hback), hlength, hwhole, copyBack_take hrepeats hpos hback hinside]
      exact ih htail hrest hless hshift

theorem readGroup {items : List (Item UInt8)} (hspells : Spells source p items q) (hfits : ∀ x ∈ items, Fits x)
    (hp : p < source.length) (hlength : items.length ≤ 8) (ctrl : UInt8) :
    decompressItems source.length (groupBytes items ++ rest) 0 ctrl (source.take p) =
      decompressItems source.length rest (8 - items.length) 0 (source.take q) := by
  have hprefix : (source.take p).length = p := length_take_of_le (Nat.le_of_lt hp)
  have hbyte : (UInt8.ofNat (ctrlByte items)).toNat = ctrlByte items := by
    rw [UInt8.toNat_ofNat']
    refine Nat.mod_eq_of_lt (Nat.lt_of_lt_of_le (ctrlByte_lt items) ?_)
    exact Nat.pow_le_pow_right (by decide) hlength
  rw [groupBytes, List.cons_append, decompressItems, hprefix, if_neg (Nat.not_le.mpr hp)]
  exact readItems hspells hfits hlength hbyte

theorem lt_of_spells {items : List (Item UInt8)} (hspells : Spells source p items q) (hfits : ∀ x ∈ items, Fits x)
    (hne : items ≠ []) : p < source.length := by
  cases items with
  | nil => exact absurd rfl hne
  | cons item items =>
    cases item with
    | literal c => exact (List.getElem?_eq_some_iff.mp hspells.1).1
    | back off len =>
      have hlong := (hfits _ List.mem_cons_self).2.1
      have hinside := hspells.2.2.1
      omega

theorem readGroups {groups : List (List (Item UInt8))} (hspells : Spells source p groups.flatten q)
    (hfits : ∀ x ∈ groups.flatten, Fits x) (hfull : ∀ g ∈ groups, g.length = 8) :
    decompressItems source.length (groups.flatMap groupBytes ++ rest) 0 0 (source.take p) =
      decompressItems source.length rest 0 0 (source.take q) := by
  induction groups generalizing p with
  | nil =>
    obtain rfl : p = q := hspells
    rfl
  | cons g groups ih =>
    have hlength : g.length = 8 := hfull g List.mem_cons_self
    have hg : ∀ x ∈ g, Fits x := fun x hx => hfits x (List.mem_append_left _ hx)
    obtain ⟨r, hfirst, htail⟩ := hspells.of_append
    have hne : g ≠ [] := by
      rintro rfl
      cases hlength
    rw [List.flatMap_cons, List.append_assoc,
      readGroup hfirst hg (lt_of_spells hfirst hg hne) (Nat.le_of_eq hlength), hlength]
    exact ih htail (fun x hx => hfits x (List.mem_append_right _ hx)) fun g' hg' => hfull g' (List.mem_cons_of_mem g hg')

/-- The output spells the source up to `p`, in full groups and the group in work. -/
structure Spelled (source : Bytes) (p : Nat) (o : PglzOut) (groups : List (List (Item UInt8)))
    (items : List (Item UInt8)) : Prop where
  spells : Spells source 0 (groups.flatten ++ items) p
  full : ∀ g ∈ groups, g.length = 8
  fits : ∀ x ∈ groups.flatten ++ items, Fits x
  written : o.written = groups.flatMap groupBytes

structure InWork (o : PglzOut) (items : List (Item UInt8)) : Prop where
  real : o.dummy = false
  ctrlb : o.ctrlb = UInt8.ofNat (ctrlByte items)
  behind : o.items = items.flatMap itemBytes
  ctrl : o.ctrl = UInt8.ofNat (2 ^ items.length)

def Written (source : Bytes) (p : Nat) (o : PglzOut) : Prop :=
  (∃ groups items, Spelled source p o groups items ∧ InWork o items ∧ items ≠ [] ∧ items.length ≤ 8) ∨
    p = 0 ∧ o = .empty

def Ready (source : Bytes) (p : Nat) (o : PglzOut) : Prop :=
  ∃ groups items, Spelled source p o groups items ∧ InWork o items ∧ items.length < 8

theorem ctrl_ne_zero : ∀ k < 8, UInt8.ofNat (2 ^ k) ≠ 0 := by decide

theorem ctrl_shift : ∀ k < 8, UInt8.ofNat (2 ^ k) <<< 1 = UInt8.ofNat (2 ^ (k + 1)) := by decide

theorem Written.outCtrl (h : Written source p o) : Ready source p o.outCtrl := by
  rcases h with ⟨groups, items, hspelled, hwork, hne, hlength⟩ | ⟨rfl, rfl⟩
  · by_cases hroom : items.length < 8
    · have hctrl : o.ctrl ≠ 0 := by
        rw [hwork.ctrl]
        exact ctrl_ne_zero _ hroom
      rw [PglzOut.outCtrl, if_neg hctrl]
      exact ⟨groups, items, hspelled, hwork, hroom⟩
    · have height : items.length = 8 := by omega
      have hctrl : o.ctrl = 0 := by
        rw [hwork.ctrl, height]
        rfl
      rw [PglzOut.outCtrl, if_pos hctrl]
      refine ⟨groups ++ [items], [], ⟨?_, ?_, ?_, ?_⟩, ⟨rfl, rfl, rfl, rfl⟩, by decide⟩
      · rw [List.append_nil, List.flatten_append, List.flatten_singleton]
        exact hspelled.spells
      · intro g hg
        rcases List.mem_append.mp hg with hg | hg
        · exact hspelled.full g hg
        · rw [List.mem_singleton.mp hg]
          exact height
      · rw [List.append_nil, List.flatten_append, List.flatten_singleton]
        exact hspelled.fits
      · rw [List.flatMap_append, List.flatMap_singleton, PglzOut.flush, hwork.real, hspelled.written, hwork.ctrlb,
          hwork.behind]
        rfl
  · exact ⟨[], [], ⟨rfl, nofun, nofun, rfl⟩, ⟨rfl, rfl, rfl, rfl⟩, by decide⟩

theorem ofNat_or_pow {a k : Nat} (ha : a < 2 ^ k) (hk : k < 8) :
    UInt8.ofNat a ||| UInt8.ofNat (2 ^ k) = UInt8.ofNat (a + 2 ^ k) := by
  have hpow : 2 ^ k * 2 ≤ 256 := by
    rw [← Nat.pow_succ]
    exact Nat.pow_le_pow_right (by decide) hk
  have hor := Nat.two_pow_add_eq_or_of_lt ha 1
  rw [Nat.mul_one] at hor
  rw [← UInt8.toNat_inj, UInt8.toNat_or, UInt8.toNat_ofNat', UInt8.toNat_ofNat', UInt8.toNat_ofNat',
    Nat.mod_eq_of_lt (by omega : a < 2 ^ 8), Nat.mod_eq_of_lt (by omega : 2 ^ k < 2 ^ 8),
    Nat.mod_eq_of_lt (by omega : a + 2 ^ k < 2 ^ 8), Nat.or_comm, ← hor, Nat.add_comm]

theorem Ready.push (h : Ready source p o) {item : Item UInt8} (hitem : Spells source p [item] q) (hfits : Fits item)
    {ctrlb : UInt8} (hctrlb : ctrlb = if isBack item then o.ctrlb ||| o.ctrl else o.ctrlb) :
    Written source q { o with ctrlb := ctrlb, items := o.items ++ itemBytes item, ctrl := o.ctrl <<< 1 } := by
  obtain ⟨groups, items, hspelled, hwork, hroom⟩ := h
  refine .inl ⟨groups, items ++ [item], ⟨?_, hspelled.full, ?_, hspelled.written⟩, ⟨hwork.real, ?_, ?_, ?_⟩, by simp,
    ?_⟩
  · rw [← List.append_assoc]
    exact hspelled.spells.append hitem
  · intro x hx
    rw [← List.append_assoc] at hx
    rcases List.mem_append.mp hx with hx | hx
    · exact hspelled.fits x hx
    · rw [List.mem_singleton.mp hx]
      exact hfits
  · rw [ctrlByte_append]
    dsimp only
    rw [hctrlb]
    cases hback : isBack item with
    | false =>
      rw [if_neg (by decide), hwork.ctrlb]
      simp
    | true =>
      rw [if_pos rfl, hwork.ctrlb, hwork.ctrl, ofNat_or_pow (ctrlByte_lt items) hroom]
      simp
  · rw [List.flatMap_append, List.flatMap_singleton]
    dsimp only
    rw [hwork.behind]
  · rw [List.length_append, List.length_singleton]
    dsimp only
    rw [hwork.ctrl]
    exact ctrl_shift _ hroom
  · rw [List.length_append, List.length_singleton]
    exact hroom

theorem Written.outLiteral (h : Written source p o) (hp : p < source.length) :
    Written source (p + 1) (o.outLiteral source[p]) := by
  have hitem : Spells source p [.literal source[p]] (p + 1) := ⟨List.getElem?_eq_getElem hp, rfl⟩
  exact h.outCtrl.push hitem trivial rfl

theorem Written.outTag (h : Written source p o) (href : Reference source p len off) (hlen : 2 < len) :
    Written source (p + len) (o.outTag len off) := by
  have hitem : Spells source p [.back off len] (p + len) := ⟨href.pos, href.back, href.inside, href.repeats, rfl⟩
  exact h.outCtrl.push hitem ⟨href.fits, hlen, href.limit⟩ rfl

theorem written_of_compressLoop {l : PglzLimits} {foundMatch : Bool} {out : PglzOut} (hdp : dp ≤ source.length)
    (hhist : Behind hist dp) (h : Written source dp o)
    (hloop : compressLoop l source dp hist o foundMatch = some out) : Written source source.length out := by
  induction hn : source.length - dp using Nat.strongRecOn generalizing dp hist o foundMatch with
  | ind n ih =>
    rw [compressLoop] at hloop
    split at hloop
    · next hlt =>
      split at hloop
      · cases hloop
      · split at hloop
        · cases hloop
        · split at hloop
          · next len off hfind =>
            have href := reference_of_pglzFindMatch hhist hdp hfind
            have hlen := pglzFindMatch_pos hfind
            have hinside := href.inside
            exact ih (source.length - (dp + len)) (by omega) hinside (hhist.addMany len) (h.outTag href hlen) hloop rfl
          · exact ih (source.length - (dp + 1)) (by omega) hlt hhist.add (h.outLiteral hlt) hloop rfl
    · next hend =>
      cases hloop
      obtain rfl : dp = source.length := by omega
      exact h

theorem decompress_of_written (h : Written source source.length o) :
    decompressItems source.length o.flush 0 0 [] = some (source, []) := by
  rcases h with ⟨groups, items, hspelled, hwork, hne, hlength⟩ | ⟨hzero, rfl⟩
  · obtain ⟨q, hgroups, hitems⟩ := hspelled.spells.of_append
    have hfits : ∀ x ∈ items, Fits x := fun x hx => hspelled.fits x (List.mem_append_right _ hx)
    have hq : q < source.length := lt_of_spells hitems hfits hne
    have hflush : o.flush = groups.flatMap groupBytes ++ (groupBytes items ++ []) := by
      rw [PglzOut.flush, hwork.real, hspelled.written, hwork.ctrlb, hwork.behind, List.append_nil]
      rfl
    have hread : decompressItems source.length (groups.flatMap groupBytes ++ (groupBytes items ++ [])) 0 0 [] =
        decompressItems source.length (groupBytes items ++ []) 0 0 (source.take q) :=
      readGroups hgroups (fun x hx => hspelled.fits x (List.mem_append_left _ hx)) hspelled.full
    rw [hflush, hread, readGroup hitems hfits hq hlength, decompressItems, List.take_length]
  · obtain rfl : source = [] := List.length_eq_zero_iff.mp hzero
    rfl

theorem written_of_pglzCompress {strategy : PglzStrategy} {compressed : Bytes}
    (h : pglzCompress source strategy = some compressed) :
    ∃ o, Written source source.length o ∧ compressed = o.flush := by
  rw [pglzCompress] at h
  split at h
  · cases h
  · dsimp only at h
    split at h
    · cases h
    · next o hloop =>
      split at h
      · cases h
      · cases h
        exact ⟨o, written_of_compressLoop (Nat.zero_le _) (fun _ he => by cases he) (.inr ⟨rfl, rfl⟩) hloop, rfl⟩

theorem pglzDecompress_of_compress {strategy : PglzStrategy} {compressed : Bytes}
    (h : pglzCompress source strategy = some compressed) (checkComplete : Bool) :
    pglzDecompress compressed source.length checkComplete = some source := by
  obtain ⟨o, hwritten, rfl⟩ := written_of_pglzCompress h
  rw [pglzDecompress, decompress_of_written hwritten]
  simp

end CdcKafka.Xlog
