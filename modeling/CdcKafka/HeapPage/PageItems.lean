import CdcKafka.HeapPage.Repair
import Mathlib.Data.List.GetD

/-! A heap page as a table of items, and what `PageAddItemExtended` does to the table. -/

namespace CdcKafka.HeapPage

open Lib

structure PageItem where
  flags : LpFlags
  link : ℕ
  bytes : List UInt8
deriving DecidableEq

def itemAt (data : Bytes) (lp : ItemIdData) : PageItem :=
  ⟨lp.lp_flags, if lp.lp_flags = .redirect ∧ lp.lp_len = 0 then lp.lp_off else 0,
    (List.range lp.lp_len).map fun j : ℕ => data (lp.lp_off + j)⟩

def Page.item (page : Page) (n : ℕ) : Option PageItem :=
  if 1 ≤ n ∧ n ≤ page.maxOffsetNumber ∧ (page.linp (n - 1)).isUsed then some (itemAt page.data (page.linp (n - 1)))
  else none

def ItemIdData.stop (lp : ItemIdData) : ℕ := lp.lp_off + MAXALIGN lp.lp_len

structure PageOk (page : Page) : Prop where
  lower : SizeOfPageHeaderData ≤ page.pd_lower
  whole : page.pd_lower % sizeofItemIdData = 0
  upper : page.pd_lower ≤ page.pd_upper
  special : page.pd_upper ≤ page.pd_special
  blcksz : page.pd_special ≤ BLCKSZ
  aligned : page.pd_special = MAXALIGN page.pd_special
  inside : ∀ i < page.maxOffsetNumber, (page.linp i).stored →
    page.pd_upper ≤ (page.linp i).lp_off ∧ (page.linp i).stop ≤ page.pd_special
  disjoint : ∀ i < page.maxOffsetNumber, ∀ j < page.maxOffsetNumber, i ≠ j → (page.linp i).stored → (page.linp j).stored →
    (page.linp i).stop ≤ (page.linp j).lp_off ∨ (page.linp j).stop ≤ (page.linp i).lp_off

theorem maxOffsetNumber_eq (page : Page) : page.maxOffsetNumber = (page.pd_lower - 24) / 4 := by
  rw [Page.maxOffsetNumber, SizeOfPageHeaderData, sizeofItemIdData]
  split
  · omega
  · rfl

theorem PageOk.lower_eq {page : Page} (h : PageOk page) : page.pd_lower = 24 + 4 * page.maxOffsetNumber := by
  have hlower := h.lower
  have hwhole := h.whole
  rw [SizeOfPageHeaderData] at hlower
  rw [sizeofItemIdData] at hwhole
  rw [maxOffsetNumber_eq]
  omega

theorem le_MAXALIGN (len : ℕ) : len ≤ MAXALIGN len := by
  rw [MAXALIGN]
  omega

theorem itemAt_congr {data data' : Bytes} {lp : ItemIdData}
    (h : ∀ k : ℤ, lp.lp_off ≤ k → k < lp.lp_off + lp.lp_len → data' k = data k) : itemAt data' lp = itemAt data lp := by
  rw [itemAt, itemAt]
  congr 1
  refine List.map_congr_left fun j hj => ?_
  have hj' := List.mem_range.mp hj
  exact h _ (by omega) (by omega)

theorem item_eq {page : Page} {i : ℕ} (hi : i < page.maxOffsetNumber) :
    page.item (i + 1) = if (page.linp i).isUsed then some (itemAt page.data (page.linp i)) else none := by
  rw [Page.item, Nat.add_sub_cancel]
  exact if_congr ⟨fun h => h.2.2, fun h => ⟨by omega, by omega, h⟩⟩ rfl rfl

theorem item_beyond {page : Page} {n : ℕ} (hn : page.maxOffsetNumber < n) : page.item n = none :=
  if_neg fun h => absurd h.2.1 (not_le.mpr hn)

theorem item_zero (page : Page) : page.item 0 = none := if_neg fun h => absurd h.1 (by decide)

/-- Which line pointer stands at an index behind an insertion. -/
def oldIndex (offsetNumber : ℕ) (needshuffle : Bool) (i : ℕ) : ℕ := if needshuffle ∧ offsetNumber ≤ i then i - 1 else i

def newItemId (upper : ℤ) (item : Item) : ItemIdData := ⟨upper.toNat, .normal, item.bytes.length⟩

structure Slot (page : Page) (offsetNumber : ℕ) (needshuffle : Bool) : Prop where
  pos : 1 ≤ offsetNumber
  le : offsetNumber ≤ page.maxOffsetNumber + 1
  shuffle : needshuffle = true → offsetNumber ≤ page.maxOffsetNumber
  free : needshuffle = false → offsetNumber ≤ page.maxOffsetNumber → (page.linp (offsetNumber - 1)).isUsed = false

theorem findFree_spec (linp : ℕ → ItemIdData) (n : ℕ) : 1 ≤ findFree linp (n + 1) ∧ findFree linp (n + 1) ≤ n + 1 ∧
      (findFree linp (n + 1) ≤ n → (linp (findFree linp (n + 1) - 1)).isUsed = false) := by
  rw [findFree, Nat.add_sub_cancel]
  cases hfind : (List.range n).find? fun i => !(linp i).isUsed && !(linp i).hasStorage with
  | none => exact ⟨Nat.succ_le_succ (Nat.zero_le n), le_refl _, fun h => absurd h (Nat.not_succ_le_self n)⟩
  | some i =>
    have hi := List.mem_range.mp (List.mem_of_find?_eq_some hfind)
    have hfree := List.find?_some hfind
    rw [Bool.and_eq_true, Bool.not_eq_true'] at hfree
    exact ⟨Nat.succ_le_succ (Nat.zero_le i), Nat.succ_le_succ hi.le, fun _ => hfree.1⟩

def isInsertion (offsetNumber : ℕ) (flags : PaiFlags) : Bool := offsetNumberIsValid offsetNumber && !flags.overwrite

theorem selectOffset_spec {page : Page} {offsetNumber : ℕ} {flags : PaiFlags} {r : ℕ} {needshuffle : Bool}
    (h : (selectOffset page offsetNumber flags).2 = some (r, needshuffle)) (hle : r ≤ page.maxOffsetNumber + 1) :
    Slot page r needshuffle ∧
      (isInsertion offsetNumber flags = true → needshuffle = decide (r ≤ page.maxOffsetNumber)) ∧
      (isInsertion offsetNumber flags = false → needshuffle = false) := by
  rw [selectOffset] at h
  split at h
  · next hvalid =>
    have hpos : 1 ≤ offsetNumber := by
      rw [offsetNumberIsValid, decide_eq_true_iff, InvalidOffsetNumber] at hvalid
      omega
    split at h
    · next hoverwrite =>
      have hno : isInsertion offsetNumber flags = false := by rw [isInsertion, hoverwrite, Bool.not_true, Bool.and_false]
      split at h
      · cases h
      · next hfree =>
        cases h
        refine ⟨⟨hpos, hle, nofun, fun _ hlt => ?_⟩, fun hins => ?_, fun _ => rfl⟩
        · rw [not_and, not_or] at hfree
          exact Bool.eq_false_iff.mpr (hfree (by omega)).1
        · rw [hno] at hins
          cases hins
    · next hoverwrite =>
      cases h
      have hyes : isInsertion offsetNumber flags = true := by
        rw [isInsertion, hvalid, Bool.eq_false_iff.mpr hoverwrite]
        rfl
      refine ⟨⟨hpos, hle, fun hshuffle => ?_, fun hshuffle hlt => ?_⟩, fun _ => ?_, fun hins => ?_⟩
      · rw [decide_eq_true_iff] at hshuffle
        omega
      · rw [decide_eq_false_iff_not] at hshuffle
        omega
      · exact decide_eq_decide.mpr Nat.lt_succ_iff
      · rw [hyes] at hins
        cases hins
  · next hvalid =>
    have hno : isInsertion offsetNumber flags = false := by
      rw [isInsertion, Bool.eq_false_iff.mpr hvalid, Bool.false_and]
    have hins : isInsertion offsetNumber flags = true → needshuffle = decide (r ≤ page.maxOffsetNumber) := by
      rw [hno]
      nofun
    split at h
    · cases h
      obtain ⟨hpos, -, hfree⟩ := findFree_spec page.linp page.maxOffsetNumber
      exact ⟨⟨hpos, hle, nofun, fun _ => hfree⟩, hins, fun _ => rfl⟩
    · cases h
      exact ⟨⟨Nat.succ_le_succ (Nat.zero_le _), le_refl _, nofun, fun _ hlt => absurd hlt (Nat.not_succ_le_self _)⟩, hins,
        fun _ => rfl⟩

structure Added (page page' : Page) (item : Item) (r : ℕ) (needshuffle : Bool) (upper : ℤ) : Prop where
  slot : Slot page r needshuffle
  placed : upper = page.pd_upper - MAXALIGN item.bytes.length
  room : (page'.pd_lower : ℤ) ≤ upper
  lower : page'.pd_lower = if r = page.maxOffsetNumber + 1 ∨ needshuffle then page.pd_lower + 4 else page.pd_lower
  linp : page'.linp = setLinp page.linp r (page.maxOffsetNumber + 1) needshuffle (newItemId upper item)
  data : page'.data = storeBytes page.data upper item.bytes
  pd_upper : (page'.pd_upper : ℤ) = upper
  special : page'.pd_special = page.pd_special

theorem pageAdd_cases {page : Page} (h : PageOk page) (item : Item) (offsetNumber : ℕ) (flags : PaiFlags) :
    ∃ page' r, pageAddItemExtended page item offsetNumber flags = some (page', r) ∧
      ((r = 0 ∧ ∃ b, page' = { page with hasFreeLines := b }) ∨
        ∃ needshuffle upper, Added page page' item r needshuffle upper ∧
          (isInsertion offsetNumber flags = true → needshuffle = decide (r ≤ page.maxOffsetNumber)) ∧
          (isInsertion offsetNumber flags = false → needshuffle = false)) := by
  have hlower := h.lower
  have hupper := h.upper
  have hspecial := h.special
  have hblcksz := h.blcksz
  rw [pageAddItemExtended, if_neg (by omega)]
  dsimp only
  split
  · exact ⟨_, _, rfl, Or.inl ⟨rfl, _, rfl⟩⟩
  · next r needshuffle hselect =>
    split
    · exact ⟨_, _, rfl, Or.inl ⟨rfl, _, rfl⟩⟩
    · next hle =>
      split
      · exact ⟨_, _, rfl, Or.inl ⟨rfl, _, rfl⟩⟩
      · generalize hlow : (if r = page.maxOffsetNumber + 1 ∨ needshuffle = true then page.pd_lower + sizeofItemIdData
          else page.pd_lower) = lower
        split
        · exact ⟨_, _, rfl, Or.inl ⟨rfl, _, rfl⟩⟩
        · next hroom =>
          have hle' : r ≤ page.maxOffsetNumber + 1 := not_lt.mp hle
          obtain ⟨hslot, hinsertion, hplain⟩ := selectOffset_spec hselect hle'
          refine ⟨_, _, rfl, Or.inr ⟨needshuffle, _, ⟨hslot, rfl, not_lt.mp hroom, hlow.symm, rfl, rfl, ?_, rfl⟩,
            hinsertion, hplain⟩⟩
          exact Int.toNat_of_nonneg (le_trans (Int.natCast_nonneg _) (not_lt.mp hroom))

section

variable {page page' : Page} {item : Item} {r : ℕ} {needshuffle : Bool} {upper : ℤ}

theorem Added.maxOffsetNumber (h : Added page page' item r needshuffle upper) (hok : PageOk page) :
    page'.maxOffsetNumber =
      if r = page.maxOffsetNumber + 1 ∨ needshuffle then page.maxOffsetNumber + 1 else page.maxOffsetNumber := by
  have hlower := hok.lower_eq
  have hlower' := h.lower
  rw [maxOffsetNumber_eq page', hlower']
  split <;> omega

theorem Added.size (h : Added page page' item r needshuffle upper) :
    (page'.pd_upper : ℤ) + MAXALIGN item.bytes.length = page.pd_upper := by
  have hupper := h.placed
  have hnat := h.pd_upper
  omega

theorem Added.linp_cases (h : Added page page' item r needshuffle upper) (hok : PageOk page) {i : ℕ}
    (hi : i < page'.maxOffsetNumber) :
    (i + 1 = r ∧ page'.linp i = newItemId upper item) ∨
      (i + 1 ≠ r ∧ page'.linp i = page.linp (oldIndex r needshuffle i) ∧
        oldIndex r needshuffle i < page.maxOffsetNumber) := by
  have hpos := h.slot.pos
  have hle := h.slot.le
  have hmax := h.maxOffsetNumber hok
  rw [h.linp, setLinp]
  by_cases hnew : i = r - 1
  · exact Or.inl ⟨by omega, if_pos hnew⟩
  · refine Or.inr ⟨by omega, ?_, ?_⟩
    · rw [if_neg hnew, oldIndex]
      cases hshuffle : needshuffle with
      | false => rw [if_neg fun hand => Bool.false_ne_true hand.1, if_neg fun hand => Bool.false_ne_true hand.1]
      | true =>
        rw [hshuffle, if_pos (Or.inr rfl)] at hmax
        by_cases hbehind : r ≤ i
        · rw [if_pos ⟨rfl, hbehind, by omega⟩, if_pos ⟨rfl, hbehind⟩]
        · rw [if_neg fun hand => hbehind hand.2.1, if_neg fun hand => hbehind hand.2]
    · rw [oldIndex]
      cases hshuffle : needshuffle with
      | false =>
        rw [hshuffle] at hmax
        rw [if_neg fun hand => Bool.false_ne_true hand.1]
        split at hmax
        · next hlast =>
          rcases hlast with hlast | hlast
          · omega
          · cases hlast
        · omega
      | true =>
        rw [hshuffle, if_pos (Or.inr rfl)] at hmax
        have hin := h.slot.shuffle hshuffle
        split
        · omega
        · next hbefore =>
          have hlt : ¬ r ≤ i := fun hge => hbefore ⟨rfl, hge⟩
          omega

theorem oldIndex_injective {i j : ℕ} (hi : i + 1 ≠ r) (hj : j + 1 ≠ r) (hr : 1 ≤ r)
    (h : oldIndex r needshuffle i = oldIndex r needshuffle j) : i = j := by
  rw [oldIndex, oldIndex] at h
  cases needshuffle with
  | false => rwa [if_neg fun hand => Bool.false_ne_true hand.1, if_neg fun hand => Bool.false_ne_true hand.1] at h
  | true =>
    simp only [true_and] at h
    split at h <;> split at h <;> omega

theorem Added.ok (h : Added page page' item r needshuffle upper) (hok : PageOk page) : PageOk page' := by
  have hsize := h.size
  have hroom := h.room
  have hspecial := h.special
  have hlower := hok.lower
  have hlow := h.lower
  have hwhole := hok.whole
  have hnew : (newItemId upper item).lp_off = page'.pd_upper ∧ (newItemId upper item).stop = page.pd_upper := by
    have hoff : (newItemId upper item).lp_off = page'.pd_upper := by
      have hnat := h.pd_upper
      change upper.toNat = page'.pd_upper
      omega
    have hlen : (newItemId upper item).lp_len = item.bytes.length := rfl
    refine ⟨hoff, ?_⟩
    rw [ItemIdData.stop, hoff, hlen]
    omega
  constructor
  · rw [hlow]
    split <;> omega
  · rw [hlow]
    rw [sizeofItemIdData] at hwhole ⊢
    split <;> omega
  · rw [← h.pd_upper] at hroom
    exact_mod_cast hroom
  · have := hok.special
    omega
  · rw [hspecial]
    exact hok.blcksz
  · rw [hspecial]
    exact hok.aligned
  · intro i hi hstored
    rcases h.linp_cases hok hi with ⟨-, hlinp⟩ | ⟨-, hlinp, hold⟩
    · rw [hlinp, hnew.1, hnew.2, hspecial]
      exact ⟨le_refl _, hok.special⟩
    · rw [hlinp] at hstored ⊢
      obtain ⟨hoff, hstop⟩ := hok.inside _ hold hstored
      exact ⟨by omega, by omega⟩
  · intro i hi j hj hne hstored hstored'
    rcases h.linp_cases hok hi with ⟨hir, hlinp⟩ | ⟨hir, hlinp, hold⟩
    · rcases h.linp_cases hok hj with ⟨hjr, -⟩ | ⟨hjr, hlinp', hold'⟩
      · exact absurd (hir.trans hjr.symm) (fun heq => hne (Nat.succ.inj heq))
      · rw [hlinp'] at hstored'
        rw [hlinp, hlinp', hnew.2]
        exact Or.inl (hok.inside _ hold' hstored').1
    · rw [hlinp] at hstored
      rcases h.linp_cases hok hj with ⟨hjr, hlinp'⟩ | ⟨hjr, hlinp', hold'⟩
      · rw [hlinp, hlinp', hnew.2]
        exact Or.inr (hok.inside _ hold hstored).1
      · rw [hlinp'] at hstored'
        rw [hlinp, hlinp']
        refine hok.disjoint _ hold _ hold' (fun heq => hne ?_) hstored hstored'
        exact oldIndex_injective hir hjr h.slot.pos heq

end

def newItem (item : Item) : PageItem := ⟨.normal, 0, item.bytes⟩

theorem storeBytes_outside {data : Bytes} {upper k : ℤ} {bytes : List UInt8} (h : upper + bytes.length ≤ k) :
    storeBytes data upper bytes k = data k := blit_outside (Or.inr h)

theorem itemAt_new (data : Bytes) {upper : ℤ} (hupper : 0 ≤ upper) (item : Item) :
    itemAt (storeBytes data upper item.bytes) (newItemId upper item) = newItem item := by
  have hbytes : (List.range item.bytes.length).map
      (fun j : ℕ => storeBytes data upper item.bytes ((upper.toNat : ℕ) + j)) = item.bytes := by
    apply List.ext_getElem
    · rw [List.length_map, List.length_range]
    · intro j hj hj'
      rw [List.getElem_map, List.getElem_range, Int.toNat_of_nonneg hupper, storeBytes, blit_inside (by omega) (by omega)]
      have hindex : (upper + j - upper + 0).toNat = j := by omega
      rw [hindex, List.getD_eq_getElem _ _ hj']
  rw [itemAt, newItem, newItemId]
  dsimp only
  rw [hbytes]
  rfl

theorem Added.itemAt_old {page page' : Page} {item : Item} {r : ℕ} {needshuffle : Bool} {upper : ℤ}
    (h : Added page page' item r needshuffle upper) (hok : PageOk page) {j : ℕ} (hj : j < page.maxOffsetNumber)
    (hused : (page.linp j).isUsed) : itemAt page'.data (page.linp j) = itemAt page.data (page.linp j) := by
  refine itemAt_congr fun k hk hk' => ?_
  have hstored : (page.linp j).stored = true := ItemIdData.stored_iff.mpr ⟨hused, by omega⟩
  have hoff := (hok.inside j hj hstored).1
  have hupper := h.placed
  have hle := le_MAXALIGN item.bytes.length
  rw [h.data]
  exact storeBytes_outside (by omega)

def addedItems (items : ℕ → Option PageItem) (insertion : Bool) (r : ℕ) (item : PageItem) (n : ℕ) : Option PageItem :=
  if n = r then some item else if insertion ∧ r < n then items (n - 1) else items n

theorem Added.item {page page' : Page} {item : Item} {r : ℕ} {needshuffle : Bool} {upper : ℤ}
    (h : Added page page' item r needshuffle upper) (hok : PageOk page) (n : ℕ) :
    page'.item n = addedItems page.item needshuffle r (newItem item) n := by
  have hpos := h.slot.pos
  have hupper : 0 ≤ upper := le_trans (Int.natCast_nonneg _) h.room
  rw [addedItems]
  rcases Nat.eq_zero_or_pos n with rfl | hn
  · rw [item_zero, if_neg (by omega), if_neg (by omega), item_zero]
  · obtain ⟨i, rfl⟩ : ∃ i, n = i + 1 := ⟨n - 1, by omega⟩
    rcases Nat.lt_or_ge i page'.maxOffsetNumber with hi | hi
    · rw [item_eq hi]
      rcases h.linp_cases hok hi with ⟨hir, hlinp⟩ | ⟨hir, hlinp, hold⟩
      · rw [if_pos hir, hlinp, h.data, itemAt_new page.data hupper]
        exact if_pos rfl
      · rw [if_neg hir, hlinp]
        have hread : (if (page.linp (oldIndex r needshuffle i)).isUsed then
            some (itemAt page'.data (page.linp (oldIndex r needshuffle i))) else none) =
            page.item (oldIndex r needshuffle i + 1) := by
          rw [item_eq hold]
          split
          · next hused => rw [h.itemAt_old hok hold hused]
          · rfl
        rw [hread, oldIndex]
        by_cases hmoved : needshuffle ∧ r ≤ i
        · rw [if_pos hmoved, if_pos ⟨hmoved.1, by omega⟩]
          congr 1
          omega
        · rw [if_neg hmoved, if_neg fun hand => hmoved ⟨hand.1, by omega⟩]
    · have hmax := h.maxOffsetNumber hok
      have hle := h.slot.le
      rw [item_beyond (by omega : page'.maxOffsetNumber < i + 1)]
      have hne : i + 1 ≠ r := by
        split at hmax
        · omega
        · next hnot =>
          rw [not_or] at hnot
          omega
      rw [if_neg hne]
      split
      · next hand =>
        rw [hand.1, if_pos (Or.inr rfl)] at hmax
        exact (item_beyond (by omega)).symm
      · refine (item_beyond ?_).symm
        split at hmax <;> omega

end CdcKafka.HeapPage
