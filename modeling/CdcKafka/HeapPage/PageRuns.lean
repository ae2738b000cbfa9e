import CdcKafka.HeapPage.PageItems

/-! Runs of additions, removals and repairs on a heap page, compared with a table of items. -/

namespace CdcKafka.HeapPage

open Lib

theorem markUnused_ok {page : Page} (h : PageOk page) (n : ℕ) : PageOk (markUnused page n) := by
  rw [markUnused]
  split
  · have hstored {i : ℕ} (hi : (Function.update page.linp (n - 1) .setUnused i).stored) :
        Function.update page.linp (n - 1) ItemIdData.setUnused i = page.linp i := by
      rcases eq_or_ne i (n - 1) with rfl | hne
      · rw [Function.update_self] at hi
        cases hi
      · exact Function.update_of_ne hne _ _
    refine ⟨h.lower, h.whole, h.upper, h.special, h.blcksz, h.aligned, fun i hi hs => ?_, fun i hi j hj hne hs hs' => ?_⟩
    · have hlp := hstored hs
      dsimp only at hs ⊢
      rw [hlp] at hs ⊢
      exact h.inside i hi hs
    · have hlp := hstored hs
      have hlp' := hstored hs'
      dsimp only at hs hs' ⊢
      rw [hlp] at hs ⊢
      rw [hlp'] at hs' ⊢
      exact h.disjoint i hi j hj hne hs hs'
  · exact h

theorem markUnused_item (page : Page) (n : ℕ) : (markUnused page n).item = Function.update page.item n none := by
  funext m
  rw [markUnused]
  split
  · next hn =>
    rcases eq_or_ne m n with rfl | hne
    · rw [Function.update_self]
      refine if_neg fun h => ?_
      have hused := h.2.2
      dsimp only at hused
      rw [Function.update_self] at hused
      cases hused
    · rw [Function.update_of_ne hne, Page.item, Page.item]
      rcases Nat.eq_zero_or_pos m with rfl | hm
      · rw [if_neg fun h => absurd h.1 (by decide), if_neg fun h => absurd h.1 (by decide)]
      · have hsame : Function.update page.linp (n - 1) ItemIdData.setUnused (m - 1) = page.linp (m - 1) :=
          Function.update_of_ne (by omega) _ _
        simp only [hsame]
        rfl
  · next hn =>
    rcases eq_or_ne m n with rfl | hne
    · rw [Function.update_self]
      exact if_neg fun h => hn ⟨h.1, h.2.1⟩
    · rw [Function.update_of_ne hne]

theorem placeLinp_other {items : List ItemIdCompact} {i : ℕ} (h : ∀ it ∈ items, it.offsetindex ≠ i) (upper : ℤ)
    (linp : ℕ → ItemIdData) : placeLinp items upper linp i = linp i := by
  induction items generalizing upper linp with
  | nil => rfl
  | cons it its ih =>
    obtain ⟨hit, hits⟩ := List.forall_mem_cons.mp h
    rw [placeLinp, ih hits, setOff, Function.update_of_ne hit.symm]

def Placed (items : List ItemIdCompact) (special : ℤ) (it : ItemIdCompact) (off : ℤ) : Prop :=
  ∃ pre post, items = pre ++ it :: post ∧ off = special - piecesLength (pieces pre) - it.alignedlen

theorem exists_placed {items : List ItemIdCompact} {it : ItemIdCompact} (h : it ∈ items) (special : ℤ) :
    ∃ off, Placed items special it off := by
  obtain ⟨pre, post, hsplit⟩ := List.append_of_mem h
  exact ⟨_, pre, post, hsplit, rfl⟩

theorem pieces_append (items items' : List ItemIdCompact) : pieces (items ++ items') = pieces items ++ pieces items' :=
  List.map_append

theorem Placed.bounds {items : List ItemIdCompact} {special : ℤ} {it : ItemIdCompact} {off : ℤ}
    (h : Placed items special it off) :
    special - piecesLength (pieces items) ≤ off ∧ off + it.alignedlen ≤ special := by
  obtain ⟨pre, post, rfl, rfl⟩ := h
  have hpre := piecesLength_nonneg (pieces_nonneg pre)
  have hpost := piecesLength_nonneg (pieces_nonneg post)
  rw [pieces_append, piecesLength_append, piecesLength_cons]
  omega

theorem Placed.apart {items : List ItemIdCompact} {special : ℤ} {a b : ItemIdCompact} {off off' : ℤ}
    (h : Placed items special a off) (h' : Placed items special b off') (hne : a ≠ b) :
    off + a.alignedlen ≤ off' ∨ off' + b.alignedlen ≤ off := by
  obtain ⟨pre, post, hsplit, rfl⟩ := h
  obtain ⟨pre', post', hsplit', rfl⟩ := h'
  have hbefore {p p' t t' : List ItemIdCompact} {x y : ItemIdCompact} {mid : List ItemIdCompact} (hxy : x ≠ y)
      (hp : p' = p ++ mid) (ht : x :: t = mid ++ y :: t') :
      piecesLength (pieces p) + x.alignedlen ≤ piecesLength (pieces p') := by
    cases mid with
    | nil => exact absurd (List.cons.inj ht).1 hxy
    | cons m mid =>
      obtain rfl : x = m := (List.cons.inj ht).1
      have hmid := piecesLength_nonneg (pieces_nonneg mid)
      rw [hp, pieces_append, piecesLength_append, piecesLength_cons]
      omega
  rcases List.append_eq_append_iff.mp (hsplit.symm.trans hsplit') with ⟨mid, hp, ht⟩ | ⟨mid, hp, ht⟩
  · have := hbefore hne hp ht
    exact Or.inr (by omega)
  · have := hbefore hne.symm hp ht
    exact Or.inl (by omega)

theorem Placed.linp {items : List ItemIdCompact} {special : ℤ} {it : ItemIdCompact} {off : ℤ}
    (h : Placed items special it off) (hnodup : (items.map ItemIdCompact.offsetindex).Nodup) (linp : ℕ → ItemIdData) :
    placeLinp items special linp it.offsetindex = { linp it.offsetindex with lp_off := off.toNat } := by
  obtain ⟨pre, post, rfl, rfl⟩ := h
  rw [List.map_append, List.map_cons, List.nodup_append] at hnodup
  obtain ⟨-, hpost, hdisjoint⟩ := hnodup
  have hpre : ∀ a ∈ pre, a.offsetindex ≠ it.offsetindex := fun a ha =>
    hdisjoint _ (List.mem_map_of_mem ha) _ List.mem_cons_self
  have hrest : ∀ a ∈ post, a.offsetindex ≠ it.offsetindex := fun a ha heq =>
    (List.nodup_cons.mp hpost).1 (heq ▸ List.mem_map_of_mem ha)
  rw [placeLinp_append, placeLinp, placeLinp_other hrest, setOff, Function.update_self, placeLinp_other hpre]

theorem Placed.data {items : List ItemIdCompact} {special : ℤ} {it : ItemIdCompact} {off : ℤ}
    (h : Placed items special it off) (data : Bytes) {j : ℤ} (hj : 0 ≤ j) (hj' : j < it.alignedlen) :
    pack data (pieces items) special data (off + j) = data (it.itemoff + j) := by
  obtain ⟨pre, post, rfl, rfl⟩ := h
  have hnonneg := pieces_nonneg (pre ++ it :: post)
  rw [pieces_append, pieces_cons] at hnonneg ⊢
  exact pack_inside hnonneg special data hj hj'

def itemRoom : Option PageItem → ℕ
  | some it => MAXALIGN it.bytes.length
  | none => 0

theorem itemRoom_item {page : Page} {i : ℕ} (hi : i < page.maxOffsetNumber) :
    itemRoom (page.item (i + 1)) = if (page.linp i).stored then MAXALIGN (page.linp i).lp_len else 0 := by
  rw [item_eq hi, ItemIdData.stored]
  cases hused : (page.linp i).isUsed with
  | false => rfl
  | true =>
    rw [if_pos rfl, Bool.true_and, itemRoom, itemAt, List.length_map, List.length_range, ItemIdData.hasStorage]
    split
    · rfl
    · next hzero =>
      rw [decide_eq_true_iff, not_not] at hzero
      rw [hzero]
      rfl

theorem totalLen_itemsOf (page : Page) {n : ℕ} (hn : n ≤ page.maxOffsetNumber) :
    totalLen (itemsOf page n) = ∑ i ∈ Finset.range n, itemRoom (page.item (i + 1)) := by
  induction n with
  | zero => rfl
  | succ n ih =>
    rw [itemsOf_succ, totalLen_append, ih (Nat.le_of_succ_le hn), Finset.sum_range_succ, itemRoom_item hn]
    congr 1
    split
    · rfl
    · rfl

theorem PageOk.room {page : Page} (h : PageOk page) :
    ∑ i ∈ Finset.range page.maxOffsetNumber, itemRoom (page.item (i + 1)) ≤ page.pd_special - page.pd_upper := by
  have hroom {i : ℕ} (hi : i < page.maxOffsetNumber) (hpos : 0 < itemRoom (page.item (i + 1))) :
      (page.linp i).stored ∧ itemRoom (page.item (i + 1)) = MAXALIGN (page.linp i).lp_len := by
    rw [itemRoom_item hi] at hpos ⊢
    split at hpos
    · next hstored => exact ⟨hstored, if_pos hstored⟩
    · exact absurd hpos (Nat.lt_irrefl 0)
  refine @sum_le_of_disjoint page.maxOffsetNumber page.pd_upper page.pd_special (fun i => (page.linp i).lp_off)
    (fun i => itemRoom (page.item (i + 1))) (fun i hi hpos => ?_) (fun i hi j hj hne hpos hpos' => ?_)
  · obtain ⟨hstored, hlen⟩ := hroom hi hpos
    rw [hlen]
    exact h.inside i hi hstored
  · obtain ⟨hstored, hlen⟩ := hroom hi hpos
    obtain ⟨hstored', hlen'⟩ := hroom hj hpos'
    rw [hlen, hlen']
    exact h.disjoint i hi j hj hne hstored hstored'

theorem nodup_itemsOf (page : Page) (n : ℕ) : ((itemsOf page n).map ItemIdCompact.offsetindex).Nodup := by
  have hindex : (itemsOf page n).map ItemIdCompact.offsetindex = (List.range n).filter fun i => (page.linp i).stored := by
    rw [itemsOf, List.map_map]
    exact List.map_id _
  rw [hindex]
  exact List.nodup_range.filter _

theorem apart_itemsOf {page : Page} (h : PageOk page) : Apart (itemsOf page page.maxOffsetNumber) := by
  refine List.pairwise_map.mpr ?_
  refine (List.pairwise_lt_range.filter _).imp_of_mem fun {i j} hi hj hlt => ?_
  rw [List.mem_filter, List.mem_range] at hi hj
  have hapart := h.disjoint i hi.1 j hj.1 hlt.ne hi.2 hj.2
  rw [ItemIdData.stop, ItemIdData.stop] at hapart
  rw [ItemIdCompact.stop, ItemIdCompact.stop, entryOf, entryOf]
  exact_mod_cast hapart

theorem below_of_sorted {bound : ℤ} {items : List ItemIdCompact} (hsorted : items.Pairwise fun a b => b.itemoff < a.itemoff)
    (hapart : Apart items) (hstop : ∀ it ∈ items, it.stop ≤ bound) : Below bound items := by
  induction items generalizing bound with
  | nil => trivial
  | cons a its ih =>
    obtain ⟨hsmaller, hrest⟩ := List.pairwise_cons.mp hsorted
    obtain ⟨hfirst, hapart'⟩ := List.pairwise_cons.mp hapart
    refine ⟨hstop a List.mem_cons_self, ih hrest hapart' fun b hb => ?_⟩
    rcases hfirst b hb with habove | hbelow
    · have := hsmaller b hb
      rw [ItemIdCompact.stop] at habove
      omega
    · exact hbelow

theorem PageOk.scan {page : Page} (h : PageOk page) (hn : page.maxOffsetNumber ≤ MaxHeapTuplesPerPage) :
    ∃ s, scanPage page = .ok s ∧ ScanInv page page.maxOffsetNumber s ∧ headerSane page ∧
      s.totallen ≤ page.pd_special - page.pd_lower ∧ Sound { page with linp := s.linp } s.items ∧
      (s.presorted = true → Below page.pd_special s.items) := by
  have hheader : headerSane page := ⟨h.lower, h.upper, h.special, h.blcksz, h.aligned⟩
  rcases scanPage_spec hn with ⟨s, hscan, hinv⟩ | ⟨s, off, hscan, i, hi, hstored, hbad⟩
  · have htotal : s.totallen ≤ page.pd_special - page.pd_lower := by
      have hroom := h.room
      have hupper := h.upper
      rw [hinv.total, hinv.items, totalLen_itemsOf page (le_refl _)]
      omega
    have hstop : ∀ it ∈ s.items, it.stop ≤ page.pd_special := by
      rw [hinv.items]
      intro it hit
      obtain ⟨i, hi, hstored, rfl⟩ := mem_itemsOf.mp hit
      exact Int.ofNat_le.mpr (h.inside i hi hstored).2
    have hapart : Apart s.items := hinv.items ▸ apart_itemsOf h
    refine ⟨s, hscan, hinv, hheader, htotal, ⟨checked_of_scan hheader hinv htotal, hstop, hapart, ?_⟩, fun hsorted => ?_⟩
    · rw [hinv.items]
      intro it hit
      obtain ⟨i, hi, hstored, rfl⟩ := mem_itemsOf.mp hit
      have hused := (ItemIdData.stored_iff.mp hstored).1
      have hread : s.linp i = page.linp i := by
        rw [hinv.linp]
        exact if_neg fun hand => by rw [hused] at hand; cases hand.2
      exact congrArg (fun lp : ItemIdData => (lp.lp_off : ℕ)) hread
    · exact below_of_sorted (hinv.sorted hsorted) hapart hstop
  · refine absurd ?_ hbad
    obtain ⟨hoff, hstop⟩ := h.inside i hi hstored
    have hpos := MAXALIGN_pos (ItemIdData.stored_iff.mp hstored).2
    rw [ItemIdData.stop] at hstop
    exact ⟨hoff, by omega⟩

theorem PageOk.repair_eq {page : Page} (h : PageOk page) (hn : page.maxOffsetNumber ≤ MaxHeapTuplesPerPage)
    (scratch : Bytes) :
    ∃ s, ScanInv page page.maxOffsetNumber s ∧ pageRepairFragmentation page scratch =
      .done (truncateLinp (packedPage s.items { page with linp := s.linp }) page.maxOffsetNumber s) := by
  obtain ⟨s, hscan, hinv, hheader, htotal, hsound, hsorted⟩ := h.scan hn
  refine ⟨s, hinv, ?_⟩
  rw [pageRepairFragmentation, if_pos hheader, hscan]
  dsimp only
  split
  · next hempty =>
    rw [hempty]
    rfl
  · rw [if_neg (not_lt.mpr htotal), compactifyTuples_eq hsound hsorted]

structure RepairedLinp (page page' : Page) (items : List ItemIdCompact) : Prop where
  stored : ∀ i < page.maxOffsetNumber, (page.linp i).stored → ∃ off : ℕ,
    Placed items page.pd_special (entryOf page i) off ∧ page'.linp i = { page.linp i with lp_off := off }
  used : ∀ i < page.maxOffsetNumber, ¬ (page.linp i).stored → (page.linp i).isUsed → page'.linp i = page.linp i
  unused : ∀ i < page.maxOffsetNumber, (page.linp i).isUsed = false → page'.linp i = .setUnused

theorem PageOk.repairedLinp {page : Page} (h : PageOk page) {s : Scan} (hinv : ScanInv page page.maxOffsetNumber s)
    {page' : Page} (hlinp : page'.linp = placeLinp s.items page.pd_special s.linp) : RepairedLinp page page' s.items := by
  have hread {i : ℕ} (hused : (page.linp i).isUsed = true) : s.linp i = page.linp i := by
    rw [hinv.linp]
    exact if_neg fun hand => by rw [hused] at hand; cases hand.2
  have hother {i : ℕ} (hnot : ¬ (page.linp i).stored = true) : page'.linp i = s.linp i := by
    rw [hlinp]
    refine placeLinp_other (fun it hit heq => hnot ?_) _ _
    rw [hinv.items] at hit
    obtain ⟨j, -, hstored, rfl⟩ := mem_itemsOf.mp hit
    rwa [← heq]
  refine ⟨fun i hi hstored => ?_, fun i _ hnot hused => (hother hnot).trans (hread hused), fun i hi hunused => ?_⟩
  · have hmem : entryOf page i ∈ s.items := hinv.items ▸ mem_itemsOf.mpr ⟨i, hi, hstored, rfl⟩
    obtain ⟨off, hplaced⟩ := exists_placed hmem page.pd_special
    have htotal : piecesLength (pieces s.items) ≤ page.pd_special := by
      have hroom := h.room
      rw [piecesLength_eq, hinv.items, totalLen_itemsOf page (le_refl _)]
      omega
    have hnonneg : 0 ≤ off := le_trans (sub_nonneg.mpr htotal) hplaced.bounds.1
    obtain ⟨n, rfl⟩ := Int.eq_ofNat_of_zero_le hnonneg
    refine ⟨n, hplaced, ?_⟩
    have hat := hplaced.linp (hinv.items ▸ nodup_itemsOf page page.maxOffsetNumber) s.linp
    rw [hlinp, ← hread (ItemIdData.stored_iff.mp hstored).1]
    exact hat
  · have hnot : ¬ (page.linp i).stored = true := fun hstored => by
      rw [(ItemIdData.stored_iff.mp hstored).1] at hunused
      cases hunused
    rw [hother hnot, hinv.linp]
    exact if_pos ⟨hi, hunused⟩

theorem RepairedLinp.stored_iff {page page' : Page} {items : List ItemIdCompact} (h : RepairedLinp page page' items) {i : ℕ}
    (hi : i < page.maxOffsetNumber) : (page'.linp i).stored = (page.linp i).stored ∧
      (page'.linp i).isUsed = (page.linp i).isUsed := by
  by_cases hstored : (page.linp i).stored = true
  · obtain ⟨off, -, hlinp⟩ := h.stored i hi hstored
    rw [hlinp]
    exact ⟨rfl, rfl⟩
  · cases hused : (page.linp i).isUsed with
    | true => rw [h.used i hi hstored hused, hused]; exact ⟨rfl, rfl⟩
    | false =>
      rw [h.unused i hi hused, Bool.eq_false_iff.mpr hstored]
      exact ⟨rfl, rfl⟩

theorem Placed.itemAt {items : List ItemIdCompact} {special : ℤ} {page : Page} {i off : ℕ}
    (h : Placed items special (entryOf page i) off) (hstored : (page.linp i).stored) :
    itemAt (pack page.data (pieces items) special page.data) { page.linp i with lp_off := off } =
      HeapPage.itemAt page.data (page.linp i) := by
  have hlen := (ItemIdData.stored_iff.mp hstored).2
  have hbytes : (List.range (page.linp i).lp_len).map
      (fun j : ℕ => pack page.data (pieces items) special page.data ((off : ℤ) + j)) =
      (List.range (page.linp i).lp_len).map fun j : ℕ => page.data ((page.linp i).lp_off + j) := by
    refine List.map_congr_left fun j hj => ?_
    have hj' := List.mem_range.mp hj
    have hle := le_MAXALIGN (page.linp i).lp_len
    exact h.data page.data (Int.natCast_nonneg j) (Int.ofNat_lt.mpr (hj'.trans_le hle))
  rw [HeapPage.itemAt, HeapPage.itemAt]
  dsimp only
  rw [hbytes, if_neg fun hand => hlen hand.2, if_neg fun hand => hlen hand.2]

structure RepairedPage (page page' : Page) (s : Scan) : Prop where
  lower : page'.pd_lower = page.pd_lower - 4 * (page.maxOffsetNumber - s.finalusedlp)
  upper : (page'.pd_upper : ℤ) = page.pd_special - totalLen s.items
  special : page'.pd_special = page.pd_special
  linp : page'.linp = placeLinp s.items page.pd_special s.linp
  data : page'.data = pack page.data (pieces s.items) page.pd_special page.data

theorem repairedPage {page : Page} {s : Scan} (htotal : totalLen s.items ≤ page.pd_special) :
    RepairedPage page (truncateLinp (packedPage s.items { page with linp := s.linp }) page.maxOffsetNumber s) s := by
  have hupper : (((page.pd_special - piecesLength (pieces s.items) : ℤ).toNat : ℕ) : ℤ) =
      page.pd_special - totalLen s.items := by
    rw [piecesLength_eq]
    omega
  rw [truncateLinp]
  split
  · exact ⟨rfl, hupper, rfl, rfl, rfl⟩
  · next hfinal =>
    refine ⟨?_, hupper, rfl, rfl, rfl⟩
    rw [not_not.mp hfinal, Nat.sub_self, Nat.mul_zero, Nat.sub_zero]
    rfl

section

variable {page page' : Page} {s : Scan}

theorem RepairedPage.maxOffsetNumber (h : RepairedPage page page' s) (hok : PageOk page)
    (hinv : ScanInv page page.maxOffsetNumber s) :
    page'.maxOffsetNumber = s.finalusedlp ∧ s.finalusedlp ≤ page.maxOffsetNumber := by
  have hlower := hok.lower_eq
  have hlower' := h.lower
  have hfinal : s.finalusedlp ≤ page.maxOffsetNumber := by
    rcases hinv.final with hzero | ⟨hle, -⟩
    · omega
    · exact hle
  refine ⟨?_, hfinal⟩
  rw [maxOffsetNumber_eq page', hlower']
  omega

theorem RepairedPage.ok (h : RepairedPage page page' s) (hok : PageOk page) (hinv : ScanInv page page.maxOffsetNumber s) :
    PageOk page' := by
  obtain ⟨hmax, hfinal⟩ := h.maxOffsetNumber hok hinv
  have hlinp := hok.repairedLinp hinv h.linp
  have hroom := hok.room
  rw [← totalLen_itemsOf page (le_refl _), ← hinv.items] at hroom
  have hlower := hok.lower_eq
  have hupper := h.upper
  have hok2 := hok.upper
  have hok3 := hok.special
  have hlow := h.lower
  constructor
  · rw [hlow, SizeOfPageHeaderData]
    omega
  · rw [hlow, sizeofItemIdData]
    omega
  · omega
  · rw [h.special]
    omega
  · rw [h.special]
    exact hok.blcksz
  · rw [h.special]
    exact hok.aligned
  · intro i hi hstored
    have hi' : i < page.maxOffsetNumber := by omega
    rw [(hlinp.stored_iff hi').1] at hstored
    obtain ⟨off, hplaced, hlp⟩ := hlinp.stored i hi' hstored
    obtain ⟨hlow, hhigh⟩ := hplaced.bounds
    rw [piecesLength_eq] at hlow
    rw [entryOf] at hhigh
    rw [hlp, ItemIdData.stop, h.special]
    dsimp only at hhigh ⊢
    omega
  · intro i hi j hj hne hstored hstored'
    have hi' : i < page.maxOffsetNumber := by omega
    have hj' : j < page.maxOffsetNumber := by omega
    rw [(hlinp.stored_iff hi').1] at hstored
    rw [(hlinp.stored_iff hj').1] at hstored'
    obtain ⟨off, hplaced, hlp⟩ := hlinp.stored i hi' hstored
    obtain ⟨off', hplaced', hlp'⟩ := hlinp.stored j hj' hstored'
    have hapart := hplaced.apart hplaced' fun heq => hne (congrArg ItemIdCompact.offsetindex heq)
    rw [hlp, hlp', ItemIdData.stop, ItemIdData.stop]
    rw [entryOf, entryOf] at hapart
    exact_mod_cast hapart

theorem RepairedPage.item (h : RepairedPage page page' s) (hok : PageOk page)
    (hinv : ScanInv page page.maxOffsetNumber s) : page'.item = page.item := by
  obtain ⟨hmax, hfinal⟩ := h.maxOffsetNumber hok hinv
  have hlinp := hok.repairedLinp hinv h.linp
  funext n
  rcases Nat.eq_zero_or_pos n with rfl | hn
  · rw [item_zero, item_zero]
  · obtain ⟨i, rfl⟩ : ∃ i, n = i + 1 := ⟨n - 1, by omega⟩
    rcases Nat.lt_or_ge i page'.maxOffsetNumber with hi | hi
    · have hi' : i < page.maxOffsetNumber := by omega
      rw [item_eq hi, item_eq hi', (hlinp.stored_iff hi').2]
      by_cases hstored : (page.linp i).stored = true
      · obtain ⟨off, hplaced, hlp⟩ := hlinp.stored i hi' hstored
        rw [hlp, h.data, hplaced.itemAt hstored]
      · cases hused : (page.linp i).isUsed with
        | false => rfl
        | true =>
          have hlen : (page.linp i).lp_len = 0 := by
            by_contra hne
            exact hstored (ItemIdData.stored_iff.mpr ⟨hused, hne⟩)
          rw [hlinp.used i hi' hstored hused]
          exact congrArg some (itemAt_congr fun k hk hk' => by omega)
    · rw [item_beyond (by omega)]
      rcases Nat.lt_or_ge i page.maxOffsetNumber with hi' | hi'
      · rw [item_eq hi']
        refine (if_neg fun hused => ?_).symm
        have hlt := hinv.used i hi' hused
        omega
      · exact (item_beyond (by omega)).symm

end

structure RepairResult (page page' : Page) : Prop where
  ok : PageOk page'
  item : page'.item = page.item
  maximal : ∀ q, PageOk q → q.pd_special = page.pd_special → q.item = page.item →
    q.pd_upper - q.pd_lower ≤ page'.pd_upper - page'.pd_lower

theorem sum_itemRoom_eq {p q : Page} (h : p.item = q.item) :
    ∑ i ∈ Finset.range p.maxOffsetNumber, itemRoom (p.item (i + 1)) =
      ∑ i ∈ Finset.range q.maxOffsetNumber, itemRoom (q.item (i + 1)) := by
  have hextend {u v : Page} (huv : u.item = v.item) (hle : u.maxOffsetNumber ≤ v.maxOffsetNumber) :
      ∑ i ∈ Finset.range u.maxOffsetNumber, itemRoom (u.item (i + 1)) =
        ∑ i ∈ Finset.range v.maxOffsetNumber, itemRoom (v.item (i + 1)) := by
    rw [← huv]
    refine Finset.sum_subset (Finset.range_subset_range.mpr hle) fun i _ hi => ?_
    rw [Finset.mem_range, not_lt] at hi
    rw [item_beyond (Nat.lt_succ_of_le hi)]
    rfl
  rcases Nat.le_total p.maxOffsetNumber q.maxOffsetNumber with hle | hle
  · exact hextend h hle
  · exact (hextend h.symm hle).symm

theorem RepairedPage.maximal {page page' : Page} {s : Scan} (h : RepairedPage page page' s) (hok : PageOk page)
    (hinv : ScanInv page page.maxOffsetNumber s) {q : Page} (hq : PageOk q) (hspecial : q.pd_special = page.pd_special)
    (hitem : q.item = page.item) : q.pd_upper - q.pd_lower ≤ page'.pd_upper - page'.pd_lower := by
  obtain ⟨hmax, hfinal⟩ := h.maxOffsetNumber hok hinv
  have hroom := hq.room
  rw [sum_itemRoom_eq hitem, ← totalLen_itemsOf page (le_refl _), ← hinv.items, hspecial] at hroom
  have hlast : s.finalusedlp ≤ q.maxOffsetNumber := by
    rcases hinv.final with hzero | ⟨hle, hused⟩
    · omega
    · by_contra hgt
      rcases Nat.eq_zero_or_pos s.finalusedlp with hzero | hpos
      · omega
      · obtain ⟨i, hi⟩ : ∃ i, s.finalusedlp = i + 1 := ⟨s.finalusedlp - 1, by omega⟩
        rw [hi, Nat.add_sub_cancel] at hused
        have hsome : page.item (i + 1) ≠ none := by
          rw [item_eq (by omega), hused, if_pos rfl]
          exact Option.some_ne_none _
        rw [← hitem] at hsome
        exact hsome (item_beyond (by omega))
  have hlower := hok.lower_eq
  have hqlower := hq.lower_eq
  have hupper := h.upper
  have hlow := h.lower
  have hqupper := hq.special
  omega

theorem PageOk.repair {page : Page} (h : PageOk page) (hn : page.maxOffsetNumber ≤ MaxHeapTuplesPerPage)
    (scratch : Bytes) : ∃ page', pageRepairFragmentation page scratch = .done page' ∧ RepairResult page page' := by
  obtain ⟨s, hinv, heq⟩ := h.repair_eq hn scratch
  have htotal : totalLen s.items ≤ page.pd_special := by
    have hroom := h.room
    rw [hinv.items, totalLen_itemsOf page (le_refl _)]
    omega
  have hfields := @repairedPage page s htotal
  exact ⟨_, heq, hfields.ok h hinv, hfields.item h hinv, fun q => hfields.maximal h hinv⟩

inductive PageCall where
  | add (item : Item) (offsetNumber : ℕ) (flags : PaiFlags)
  | markUnused (offsetNumber : ℕ)
  | repair (scratch : Bytes)

/-- A call and its result; the repair is for pages with at most `MaxHeapTuplesPerPage` line pointers. -/
def pageCall (page : Page) : PageCall → Option (Page × ℕ)
  | .add item offsetNumber flags => pageAddItemExtended page item offsetNumber flags
  | .markUnused offsetNumber => some (HeapPage.markUnused page offsetNumber, 0)
  | .repair scratch =>
    if page.maxOffsetNumber ≤ MaxHeapTuplesPerPage then
      match pageRepairFragmentation page scratch with
      | .done page' => some (page', 0)
      | _ => none
    else some (page, 0)

def pageRun (page : Page) : List PageCall → Option (Page × List ℕ)
  | [] => some (page, [])
  | call :: calls => do
    let r ← pageCall page call
    let rest ← pageRun r.1 calls
    some (rest.1, r.2 :: rest.2)

def itemsCall (items : ℕ → Option PageItem) : PageCall → ℕ → Option (ℕ → Option PageItem)
  | .add item offsetNumber flags, r =>
    if r = 0 then some items
    else if isInsertion offsetNumber flags then some (addedItems items true r (newItem item))
    else if (items r).isNone then some (addedItems items false r (newItem item))
    else none
  | .markUnused offsetNumber, _ => some (Function.update items offsetNumber none)
  | .repair _, _ => some items

def itemsRun (items : ℕ → Option PageItem) : List PageCall → List ℕ → Option (ℕ → Option PageItem)
  | [], _ => some items
  | call :: calls, r :: rs => (itemsCall items call r).bind fun items => itemsRun items calls rs
  | _ :: _, [] => none

theorem addedItems_insertion {page : Page} (item : Item) {r : ℕ} {needshuffle : Bool}
    (hinsertion : needshuffle = decide (r ≤ page.maxOffsetNumber)) :
    addedItems page.item needshuffle r (newItem item) = addedItems page.item true r (newItem item) := by
  funext n
  rw [addedItems, addedItems]
  by_cases hnew : n = r
  · rw [if_pos hnew, if_pos hnew]
  · rw [if_neg hnew, if_neg hnew, hinsertion]
    by_cases hin : r ≤ page.maxOffsetNumber
    · rw [decide_eq_true hin]
    · rw [decide_eq_false hin, if_neg fun hand => Bool.false_ne_true hand.1]
      split
      · next hand => rw [item_beyond (by omega), item_beyond (by omega)]
      · rfl

theorem Added.free {page page' : Page} {item : Item} {r : ℕ} {upper : ℤ} (h : Added page page' item r false upper) :
    (page.item r).isNone := by
  have hpos := h.slot.pos
  obtain ⟨i, rfl⟩ : ∃ i, r = i + 1 := ⟨r - 1, by omega⟩
  rcases Nat.lt_or_ge i page.maxOffsetNumber with hi | hi
  · have hfree := h.slot.free rfl hi
    rw [Nat.add_sub_cancel] at hfree
    rw [item_eq hi, hfree]
    rfl
  · rw [item_beyond (Nat.lt_succ_of_le hi)]
    rfl

theorem pageCall_spec {page : Page} (h : PageOk page) (call : PageCall) :
    ∃ page' r, pageCall page call = some (page', r) ∧ PageOk page' ∧ itemsCall page.item call r = some page'.item := by
  cases call with
  | add item offsetNumber flags =>
    obtain ⟨page', r, hadd, hcase⟩ := pageAdd_cases h item offsetNumber flags
    refine ⟨page', r, hadd, ?_⟩
    rcases hcase with ⟨rfl, b, rfl⟩ | ⟨needshuffle, upper, hadded, hinsertion, hplain⟩
    · exact ⟨⟨h.lower, h.whole, h.upper, h.special, h.blcksz, h.aligned, h.inside, h.disjoint⟩, rfl⟩
    · have hitem : page'.item = addedItems page.item needshuffle r (newItem item) := funext (hadded.item h)
      have hpos := hadded.slot.pos
      refine ⟨hadded.ok h, ?_⟩
      rw [itemsCall, if_neg (by omega), hitem]
      cases hins : isInsertion offsetNumber flags with
      | true => rw [if_pos rfl, addedItems_insertion item (hinsertion hins)]
      | false =>
        obtain rfl := hplain hins
        rw [if_neg Bool.false_ne_true, if_pos hadded.free]
  | markUnused offsetNumber =>
    exact ⟨_, _, rfl, markUnused_ok h offsetNumber, congrArg some (markUnused_item page offsetNumber).symm⟩
  | repair scratch =>
    rw [pageCall]
    split
    · next hn =>
      obtain ⟨page', hrepair, hresult⟩ := h.repair hn scratch
      rw [hrepair]
      exact ⟨page', 0, rfl, hresult.ok, congrArg some hresult.item.symm⟩
    · exact ⟨page, 0, rfl, h, rfl⟩

theorem pageRun_spec {page : Page} (h : PageOk page) (calls : List PageCall) :
    ∃ page' rs, pageRun page calls = some (page', rs) ∧ PageOk page' ∧ itemsRun page.item calls rs = some page'.item := by
  induction calls generalizing page with
  | nil => exact ⟨page, [], rfl, h, rfl⟩
  | cons call calls ih =>
    obtain ⟨page1, r, hcall, hok, hitems⟩ := pageCall_spec h call
    obtain ⟨page', rs, hrun, hok', hitems'⟩ := ih hok
    refine ⟨page', r :: rs, ?_, hok', ?_⟩
    · rw [pageRun, hcall, Option.bind_eq_bind, Option.bind_some, hrun]
      rfl
    · rw [itemsRun, hitems, Option.bind_some, hitems']

theorem PageOk.branches_agree {page : Page} (h : PageOk page) (hn : page.maxOffsetNumber ≤ MaxHeapTuplesPerPage) {s : Scan}
    (hscan : scanPage page = .ok s) (hpresorted : s.presorted = true) (scratch scratch' : Bytes) :
    compactifyTuples s.items { page with linp := s.linp } true scratch =
      compactifyTuples s.items { page with linp := s.linp } false scratch' := by
  obtain ⟨s', hscan', -, -, -, hsound, hsorted⟩ := h.scan hn
  obtain rfl : s = s' := Scanned.ok.inj (hscan.symm.trans hscan')
  have hfirst := compactifyTuples_eq hsound (fun _ => hsorted hpresorted : true = true → _) scratch
  have hsecond := compactifyTuples_eq hsound (fun h => absurd h Bool.false_ne_true : false = true → _) scratch'
  exact hfirst.trans hsecond.symm

/-- Every run on a sound heap page keeps the page sound and its items in place but for insertions; and a repair at any point
of it keeps the items, leaves the most free space, and does not depend on the branch that the compaction takes. -/
theorem page_run_preserves_items {page : Page} (h : PageOk page) (calls : List PageCall) :
    ∃ page' rs, pageRun page calls = some (page', rs) ∧ PageOk page' ∧ itemsRun page.item calls rs = some page'.item ∧
      (page'.maxOffsetNumber ≤ MaxHeapTuplesPerPage →
        (∀ scratch, ∃ page'', pageRepairFragmentation page' scratch = .done page'' ∧ RepairResult page' page'') ∧
        ∀ s, scanPage page' = .ok s → s.presorted = true → ∀ scratch scratch',
          compactifyTuples s.items { page' with linp := s.linp } true scratch =
            compactifyTuples s.items { page' with linp := s.linp } false scratch') := by
  obtain ⟨page', rs, hrun, hok, hitems⟩ := pageRun_spec h calls
  exact ⟨page', rs, hrun, hok, hitems, fun hn => ⟨hok.repair hn, fun s hscan hpresorted =>
    hok.branches_agree hn hscan hpresorted⟩⟩

theorem length_itemsOf_stored {page : Page} {k : ℕ} (h : ∀ i < k, (page.linp i).stored) : (itemsOf page k).length = k := by
  rw [itemsOf, List.length_map, List.filter_eq_self.mpr fun i hi => h i (List.mem_range.mp hi), List.length_range]

theorem scanItems_outside {page : Page} {k m : ℕ} {s : Scan} (hinv : ScanInv page k s)
    (hall : ∀ i < k + m, (page.linp i).stored ∧ OffsetSane page (page.linp i)) (hk : k ≤ MaxHeapTuplesPerPage)
    (hmany : MaxHeapTuplesPerPage < k + m) : scanItems page (List.range' k m) s = .outside := by
  induction m generalizing k s with
  | zero => exact absurd hmany (not_lt.mpr hk)
  | succ m ih =>
    rw [List.range'_succ, scanItems]
    rcases Nat.lt_or_eq_of_le hk with hlt | heq
    · rcases scanItem_spec hinv hlt with ⟨s', hitem, hinv'⟩ | ⟨s', off, hitem, -, hbad⟩
      · rw [hitem]
        exact ih hinv' (fun i hi => hall i (by omega)) hlt (by omega)
      · exact absurd (hall k (by omega)).2 hbad
    · have hread : s.linp k = page.linp k := by rw [hinv.linp]; exact if_neg fun hand => absurd hand.1 (Nat.lt_irrefl k)
      obtain ⟨hused, hlen⟩ := ItemIdData.stored_iff.mp (hall k (by omega)).1
      have hstorage : (page.linp k).hasStorage = true := decide_eq_true hlen
      have hfull : MaxHeapTuplesPerPage ≤ s.items.length := by
        rw [hinv.items, length_itemsOf_stored fun i hi => (hall i (by omega)).1, heq]
      rw [scanItem]
      dsimp only
      rw [hread, if_pos hused, if_pos hstorage, if_pos hfull]

theorem PageOk.repair_outside {page : Page} (h : PageOk page) (hmany : MaxHeapTuplesPerPage < page.maxOffsetNumber)
    (hall : ∀ i < page.maxOffsetNumber, (page.linp i).stored) (scratch : Bytes) :
    pageRepairFragmentation page scratch = .outside := by
  have hheader : headerSane page := ⟨h.lower, h.upper, h.special, h.blcksz, h.aligned⟩
  have hsane : ∀ i < 0 + page.maxOffsetNumber, (page.linp i).stored ∧ OffsetSane page (page.linp i) := by
    intro i hi
    rw [Nat.zero_add] at hi
    obtain ⟨hoff, hstop⟩ := h.inside i hi (hall i hi)
    have hpos := MAXALIGN_pos (ItemIdData.stored_iff.mp (hall i hi)).2
    rw [ItemIdData.stop] at hstop
    exact ⟨hall i hi, hoff, by omega⟩
  have hscan : scanPage page = .outside := by
    rw [scanPage, List.range_eq_range']
    exact scanItems_outside (scanInv_start page) hsane (Nat.zero_le _) (by rwa [Nat.zero_add])
  rw [pageRepairFragmentation, if_pos hheader, hscan]

def filledPage (n : ℕ) : Page where
  pd_lower := 24 + 4 * n
  pd_upper := 8192 - 8 * n
  pd_special := 8192
  hasFreeLines := false
  linp i := ⟨8192 - 8 * (i + 1), .normal, 8⟩
  data _ := 0

theorem filledPage_ok {n : ℕ} (hn : n ≤ 600) : PageOk (filledPage n) := by
  have hmax : (filledPage n).maxOffsetNumber = n := by
    rw [maxOffsetNumber_eq]
    change (24 + 4 * n - 24) / 4 = n
    omega
  have hstop (i : ℕ) : ((filledPage n).linp i).stop = 8192 - 8 * (i + 1) + 8 := by
    change 8192 - 8 * (i + 1) + MAXALIGN 8 = 8192 - 8 * (i + 1) + 8
    rw [MAXALIGN]
  have hoff (i : ℕ) : ((filledPage n).linp i).lp_off = 8192 - 8 * (i + 1) := rfl
  have haligned : 8192 = MAXALIGN 8192 := by decide
  refine ⟨?_, ?_, ?_, ?_, le_refl _, haligned, fun i hi _ => ?_, fun i hi j hj hne _ _ => ?_⟩
  · exact Nat.le_add_right 24 _
  · change (24 + 4 * n) % 4 = 0
    omega
  · change 24 + 4 * n ≤ 8192 - 8 * n
    omega
  · exact Nat.sub_le _ _
  · rw [hmax] at hi
    rw [hstop, hoff]
    change 8192 - 8 * n ≤ _ ∧ _ ≤ 8192
    omega
  · rw [hmax] at hi hj
    rw [hstop, hstop, hoff, hoff]
    omega

def shortItem (byte : UInt8) : Item := ⟨[byte], (by decide : 1 ≤ 1073741823)⟩

def shortRun : List PageCall :=
  [.add (shortItem 1) 0 ⟨false, true⟩, .add (shortItem 2) 0 ⟨false, true⟩, .markUnused 1, .repair fun _ => 0]

theorem page_run_preserves_items_short : ∃ page' rs, pageRun (filledPage 0) shortRun = some (page', rs) ∧ PageOk page' ∧
      itemsRun (filledPage 0).item shortRun rs = some page'.item :=
  have ⟨page', rs, hrun, hok, hitems, _⟩ := page_run_preserves_items (filledPage_ok (by decide)) shortRun
  ⟨page', rs, hrun, hok, hitems⟩

/-- An insertion moves an item to another offset number; and without the heap flag more line pointers come into being than
the array of the repair holds. -/
theorem items_move_and_repair_overflows :
    (∃ page1 page2, pageRun (filledPage 0) [.add (shortItem 1) 0 ⟨false, true⟩] = some (page1, [1]) ∧
      page1.item 1 = some (newItem (shortItem 1)) ∧
      pageRun page1 [.add (shortItem 2) 1 ⟨false, true⟩] = some (page2, [1]) ∧
      page2.item 1 = some (newItem (shortItem 2)) ∧ page2.item 2 = some (newItem (shortItem 1))) ∧
    PageOk (filledPage 291) ∧
      ∃ page, pageAddItemExtended (filledPage 291) (shortItem 1) 0 ⟨false, false⟩ = some (page, 292) ∧
        pageRepairFragmentation page (fun _ => 0) = .outside := by
  have hok : PageOk (filledPage 291) := filledPage_ok (by decide)
  refine ⟨⟨_, _, rfl, by decide, rfl, by decide, by decide⟩, hok, ?_⟩
  obtain ⟨page, r, hadd, hcase⟩ := pageAdd_cases hok (shortItem 1) 0 ⟨false, false⟩
  have hr : (pageAddItemExtended (filledPage 291) (shortItem 1) 0 ⟨false, false⟩).map Prod.snd = some 292 := rfl
  rw [hadd] at hr
  obtain rfl : r = 292 := Option.some.inj hr
  refine ⟨page, hadd, ?_⟩
  rcases hcase with ⟨hzero, -⟩ | ⟨needshuffle, upper, hadded, -, -⟩
  · exact absurd hzero (by decide)
  · have hmax : page.maxOffsetNumber = 292 := by
      rw [hadded.maxOffsetNumber hok]
      exact if_pos (Or.inl rfl)
    refine (hadded.ok hok).repair_outside (by rw [hmax]; decide) (fun i hi => ?_) _
    rcases hadded.linp_cases hok hi with ⟨-, hlinp⟩ | ⟨-, hlinp, -⟩
    · rw [hlinp]
      rfl
    · rw [hlinp]
      rfl

end CdcKafka.HeapPage
