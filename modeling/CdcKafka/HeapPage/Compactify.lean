import CdcKafka.HeapPage.Bufpage

/-! `compactify_tuples` packs the items towards the end of the page, whichever branch it takes; and it stays inside of its
buffers where no item reaches beyond the page. -/

namespace CdcKafka.HeapPage

open Lib

def ItemIdCompact.piece (it : ItemIdCompact) : Piece := (it.itemoff, it.alignedlen)

def pieces (items : List ItemIdCompact) : List Piece := items.map ItemIdCompact.piece

theorem pieces_nonneg (items : List ItemIdCompact) : ∀ p ∈ pieces items, 0 ≤ p.2 :=
  List.forall_mem_map.mpr fun it _ => Int.natCast_nonneg it.alignedlen

theorem pieces_cons (it : ItemIdCompact) (its : List ItemIdCompact) : pieces (it :: its) = it.piece :: pieces its := rfl

theorem piecesLength_cons (it : ItemIdCompact) (its : List ItemIdCompact) :
    piecesLength (pieces (it :: its)) = it.alignedlen + piecesLength (pieces its) := rfl

def placeLinp : List ItemIdCompact → ℤ → (ℕ → ItemIdData) → ℕ → ItemIdData
  | [], _, linp => linp
  | it :: its, upper, linp => placeLinp its (upper - it.alignedlen) (setOff linp it.offsetindex (upper - it.alignedlen))

theorem moveBytes_isSome {dst src : Bytes} {dstOff srcOff n : ℤ} (hn : 0 ≤ n) (hdst : 0 ≤ dstOff)
    (hdst' : dstOff + n ≤ BLCKSZ) (hsrc : 0 ≤ srcOff) :
    (moveBytes dst dstOff src srcOff n).isSome ↔ n = 0 ∨ srcOff + n ≤ BLCKSZ := by
  rw [moveBytes]
  split
  · next h => exact iff_of_true rfl (by omega)
  · next h => exact iff_of_false (by decide) (by omega)

theorem moveBytes_eq {dst src : Bytes} {dstOff srcOff n : ℤ} {m : Bytes} (h : moveBytes dst dstOff src srcOff n = some m) :
    m = blit dst dstOff src srcOff n := by
  rw [moveBytes] at h
  split at h
  · exact (Option.some.inj h).symm
  · cases h

structure Room (its : List ItemIdCompact) (s : Moves) : Prop where
  head : 0 ≤ s.copyHead ∧ s.copyHead ≤ s.copyTail
  above : s.upper + (s.copyTail - s.copyHead) ≤ BLCKSZ
  below : piecesLength (pieces its) ≤ s.upper

theorem Room.takeItem {it : ItemIdCompact} {its : List ItemIdCompact} {s : Moves} (h : Room (it :: its) s)
    (hstop : s.copyHead = it.stop) : Room its (takeItem s it) := by
  obtain ⟨hhead, habove, hbelow⟩ := h
  rw [ItemIdCompact.stop] at hstop
  rw [piecesLength_cons] at hbelow
  refine ⟨⟨Int.natCast_nonneg _, ?_⟩, ?_, ?_⟩ <;> simp only [HeapPage.takeItem] <;> omega

theorem Room.next {it : ItemIdCompact} {its : List ItemIdCompact} {s : Moves} (h : Room (it :: its) s) (data : Bytes) :
    Room its (HeapPage.takeItem { s with data := data, copyTail := it.stop } it) := by
  obtain ⟨hhead, habove, hbelow⟩ := h
  rw [piecesLength_cons] at hbelow
  refine ⟨⟨Int.natCast_nonneg _, ?_⟩, ?_, ?_⟩ <;> simp only [HeapPage.takeItem, ItemIdCompact.stop] <;> omega

theorem compactLoop_isSome {src : Bytes → Bytes} {its : List ItemIdCompact} (hlen : ∀ it ∈ its, 0 < it.alignedlen)
    {s : Moves} (h : Room its s) :
    (compactLoop src its s).isSome ↔
      (s.copyTail = s.copyHead ∨ s.copyTail ≤ BLCKSZ) ∧ ∀ it ∈ its, it.stop ≤ BLCKSZ := by
  have hpending {its : List ItemIdCompact} {s : Moves} (h : Room its s) :
      (movePending src s).isSome ↔ s.copyTail = s.copyHead ∨ s.copyTail ≤ BLCKSZ := by
    have hupper : 0 ≤ s.upper := (piecesLength_nonneg (pieces_nonneg its)).trans h.below
    have hhead := h.head
    rw [movePending, moveBytes_isSome (by omega) hupper h.above hhead.1]
    omega
  induction its generalizing s with
  | nil =>
    rw [compactLoop, Option.isSome_map, hpending h]
    exact ⟨fun hor => ⟨hor, List.forall_mem_nil _⟩, fun hand => hand.1⟩
  | cons it its ih =>
    obtain ⟨hit, hits⟩ := List.forall_mem_cons.mp hlen
    rw [compactLoop, List.forall_mem_cons]
    have hhead := h.head
    split
    · next hgap =>
      rw [Option.isSome_bind, ← hpending h]
      cases hmove : movePending src s with
      | none => exact iff_of_false (by rw [Option.any_none]; exact Bool.false_ne_true) fun hand => by cases hand.1
      | some data =>
        rw [Option.any_some]
        refine (ih hits (h.next data)).trans ?_
        simp only [takeItem, ItemIdCompact.stop, Option.isSome_some, true_and]
        exact and_congr_left fun _ => by omega
    · next hrun =>
      refine (ih hits (h.takeItem (not_not.mp hrun))).trans ?_
      simp only [takeItem]
      rw [← and_assoc]
      refine and_congr_left fun _ => ?_
      rw [ItemIdCompact.stop] at hrun ⊢
      omega

theorem compactLoop_scratch {scratch : Bytes} {its : List ItemIdCompact} {s s' : Moves}
    (h : compactLoop (fun _ => scratch) its s = some s') (hhead : s.copyHead ≤ s.copyTail) :
    s'.data = pack scratch (pieces its) s.upper (blit s.data s.upper scratch s.copyHead (s.copyTail - s.copyHead)) ∧
      s'.linp = placeLinp its s.upper s.linp ∧ s'.upper = s.upper - piecesLength (pieces its) := by
  induction its generalizing s with
  | nil =>
    rw [compactLoop, Option.map_eq_some_iff] at h
    obtain ⟨data, hmove, rfl⟩ := h
    exact ⟨moveBytes_eq hmove, rfl, (sub_zero _).symm⟩
  | cons it its ih =>
    rw [compactLoop] at h
    rw [piecesLength_cons, ← sub_sub, pieces_cons, pack, placeLinp]
    split at h
    · obtain ⟨data, hmove, hrest⟩ := Option.bind_eq_some_iff.mp h
      have hnext : it.stop - it.itemoff = it.alignedlen := by
        rw [ItemIdCompact.stop]
        omega
      obtain ⟨hdata, hlinp, hupper⟩ := ih hrest (by simp only [takeItem, ItemIdCompact.stop]; omega)
      refine ⟨?_, hlinp, hupper⟩
      rw [hdata]
      simp only [takeItem]
      rw [hnext, moveBytes_eq hmove]
      rfl
    · next hrun =>
      rw [not_not, ItemIdCompact.stop] at hrun
      obtain ⟨hdata, hlinp, hupper⟩ := ih h (by simp only [takeItem]; omega)
      refine ⟨?_, hlinp, hupper⟩
      have hoff : s.copyHead - it.alignedlen = it.itemoff := by omega
      have hlen : s.copyTail - it.itemoff = s.copyTail - s.copyHead + it.alignedlen := by omega
      have hmerge := @blit_append _ s.data scratch s.upper s.copyHead (s.copyTail - s.copyHead) it.alignedlen (by omega)
        (Int.natCast_nonneg _)
      rw [hoff] at hmerge
      rw [hdata, ItemIdCompact.piece, hmerge, ← hlen]
      rfl

def Below : ℤ → List ItemIdCompact → Prop
  | _, [] => True
  | bound, it :: its => it.stop ≤ bound ∧ Below it.itemoff its

theorem movePending_congr {copy : Bytes} {s : Moves} (h : ∀ k < s.copyTail, s.data k = copy k) :
    movePending id s = movePending (fun _ => copy) s := by
  have hblit : blit s.data s.upper s.data s.copyHead (s.copyTail - s.copyHead) =
      blit s.data s.upper copy s.copyHead (s.copyTail - s.copyHead) := blit_congr fun k _ hk => h k (by omega)
  rw [movePending, movePending, moveBytes, moveBytes, id_eq, hblit]

theorem compactLoop_in_place {copy : Bytes} {its : List ItemIdCompact} {s : Moves} (hbelow : Below s.copyHead its)
    (hhead : s.copyHead ≤ s.copyTail) (hupper : s.copyHead ≤ s.upper) (hdata : ∀ k < s.copyTail, s.data k = copy k) :
    compactLoop id its s = compactLoop (fun _ => copy) its s := by
  induction its generalizing s with
  | nil => rw [compactLoop, compactLoop, movePending_congr hdata]
  | cons it its ih =>
    obtain ⟨hstop, hrest⟩ := hbelow
    rw [compactLoop, compactLoop, movePending_congr hdata]
    rw [ItemIdCompact.stop] at hstop
    split
    · cases hpending : movePending (fun _ => copy) s with
      | none => rfl
      | some data =>
        have hagree : ∀ k < it.stop, data k = copy k := by
          intro k hk
          rw [ItemIdCompact.stop] at hk
          rw [moveBytes_eq hpending, blit_outside (by omega), hdata k (by omega)]
        rw [Option.bind_some, Option.bind_some]
        refine ih hrest ?_ ?_ hagree
        · simp only [takeItem, ItemIdCompact.stop]
          omega
        · simp only [takeItem]
          omega
    · next hrun =>
      rw [not_not, ItemIdCompact.stop] at hrun
      refine ih hrest ?_ ?_ hdata
      · simp only [takeItem]
        omega
      · simp only [takeItem]
        omega

def InPlace : ℤ → List ItemIdCompact → Prop
  | _, [] => True
  | upper, it :: its => it.stop = upper ∧ InPlace it.itemoff its

theorem skipInPlace_spec (items : List ItemIdCompact) (upper : ℤ) :
    ∃ pre, items = pre ++ (skipInPlace items upper).1 ∧ InPlace upper pre ∧
      (skipInPlace items upper).2 = upper - piecesLength (pieces pre) := by
  induction items generalizing upper with
  | nil => exact ⟨[], rfl, trivial, (sub_zero _).symm⟩
  | cons it its ih =>
    rw [skipInPlace]
    split
    · exact ⟨[], rfl, trivial, (sub_zero _).symm⟩
    · next hstop =>
      rw [not_not, ItemIdCompact.stop] at hstop
      obtain ⟨pre, hsplit, hplace, hupper⟩ := ih (upper - it.alignedlen)
      have hoff : upper - it.alignedlen = it.itemoff := by omega
      refine ⟨it :: pre, congrArg (it :: ·) hsplit, ⟨hstop.symm, hoff ▸ hplace⟩, ?_⟩
      rw [hupper, piecesLength_cons, sub_sub]

theorem pack_inPlace (data : Bytes) {pre : List ItemIdCompact} {upper : ℤ} (h : InPlace upper pre) :
    pack data (pieces pre) upper data = data := by
  induction pre generalizing upper with
  | nil => rfl
  | cons it its ih =>
    obtain ⟨hstop, hrest⟩ := h
    rw [ItemIdCompact.stop] at hstop
    have hoff : upper - it.alignedlen = it.itemoff := by omega
    rw [pieces_cons, pack, ItemIdCompact.piece, hoff, blit_in_place fun _ _ _ => rfl, ih hrest]

def Describes (linp : ℕ → ItemIdData) (items : List ItemIdCompact) : Prop :=
  ∀ it ∈ items, (linp it.offsetindex).lp_off = it.itemoff

theorem placeLinp_inPlace {linp : ℕ → ItemIdData} {pre : List ItemIdCompact} {upper : ℤ} (h : InPlace upper pre)
    (hdescribes : Describes linp pre) : placeLinp pre upper linp = linp := by
  induction pre generalizing upper with
  | nil => rfl
  | cons it its ih =>
    obtain ⟨hstop, hrest⟩ := h
    obtain ⟨hit, hits⟩ := List.forall_mem_cons.mp hdescribes
    rw [ItemIdCompact.stop] at hstop
    have hoff : upper - it.alignedlen = it.itemoff := by omega
    have hsame : setOff linp it.offsetindex it.itemoff = linp := by
      rw [setOff, Int.toNat_natCast, ← hit]
      exact Function.update_eq_self _ _
    rw [placeLinp, hoff, hsame, ih hrest hits]

theorem placeLinp_append (pre its : List ItemIdCompact) (upper : ℤ) (linp : ℕ → ItemIdData) :
    placeLinp (pre ++ its) upper linp = placeLinp its (upper - piecesLength (pieces pre)) (placeLinp pre upper linp) := by
  induction pre generalizing upper linp with
  | nil => rw [List.nil_append, pieces, List.map_nil, piecesLength, sub_zero, placeLinp]
  | cons it pre ih => rw [List.cons_append, placeLinp, ih, placeLinp, piecesLength_cons, sub_sub]

theorem InPlace.le_upper {bound : ℤ} {pre : List ItemIdCompact} {upper : ℤ} (h : InPlace upper pre) (hbound : bound ≤ upper)
    (hitems : ∀ it ∈ pre, bound ≤ it.itemoff) : bound ≤ upper - piecesLength (pieces pre) := by
  induction pre generalizing upper with
  | nil => rwa [pieces, List.map_nil, piecesLength, sub_zero]
  | cons it its ih =>
    obtain ⟨hstop, hrest⟩ := h
    obtain ⟨hit, hits⟩ := List.forall_mem_cons.mp hitems
    have hle := ih hrest hit hits
    rw [ItemIdCompact.stop] at hstop
    rw [piecesLength_cons]
    omega

theorem InPlace.stop_le {pre : List ItemIdCompact} {upper : ℤ} (h : InPlace upper pre) : ∀ it ∈ pre, it.stop ≤ upper := by
  induction pre generalizing upper with
  | nil => exact List.forall_mem_nil _
  | cons it its ih =>
    obtain ⟨hstop, hrest⟩ := h
    refine List.forall_mem_cons.mpr ⟨hstop.le, fun it' hit' => (ih hrest it' hit').trans ?_⟩
    rw [ItemIdCompact.stop] at hstop
    omega

theorem copyToScratch_isSome {items : List ItemIdCompact} (hlen : ∀ it ∈ items, 0 < it.alignedlen) (scratch data : Bytes) :
    (copyToScratch scratch data items).isSome ↔ ∀ it ∈ items, it.stop ≤ BLCKSZ := by
  induction items generalizing scratch with
  | nil => exact iff_of_true rfl (List.forall_mem_nil _)
  | cons it its ih =>
    obtain ⟨hit, hits⟩ := List.forall_mem_cons.mp hlen
    rw [copyToScratch, Option.isSome_bind, List.forall_mem_cons, moveBytes]
    split
    · next hmove =>
      rw [Option.any_some, ih hits]
      exact ⟨fun h => ⟨by rw [ItemIdCompact.stop]; omega, h⟩, fun h => h.2⟩
    · next hmove =>
      refine iff_of_false (by rw [Option.any_none]; exact Bool.false_ne_true) fun h => ?_
      have hstop := h.1
      rw [ItemIdCompact.stop] at hstop
      omega

theorem copyToScratch_spec {items : List ItemIdCompact} {scratch data copied : Bytes}
    (h : copyToScratch scratch data items = some copied) :
    (∀ k, scratch k = data k → copied k = data k) ∧
      ∀ it ∈ items, ∀ k, (it.itemoff : ℤ) ≤ k → k < it.stop → copied k = data k := by
  induction items generalizing scratch with
  | nil =>
    obtain rfl : scratch = copied := Option.some.inj h
    exact ⟨fun _ h => h, List.forall_mem_nil _⟩
  | cons it its ih =>
    obtain ⟨scratch', hmove, hrest⟩ := Option.bind_eq_some_iff.mp h
    obtain ⟨hkept, hitems⟩ := ih hrest
    have hinside : ∀ k, (it.itemoff : ℤ) ≤ k → k < it.stop → scratch' k = data k := by
      intro k hk hk'
      rw [moveBytes_eq hmove, blit_inside hk hk', Int.sub_add_cancel]
    refine ⟨fun k hk => hkept k ?_, List.forall_mem_cons.mpr ⟨fun k hk hk' => hkept k (hinside k hk hk'), hitems⟩⟩
    by_cases hin : (it.itemoff : ℤ) ≤ k ∧ k < it.stop
    · exact hinside k hin.1 hin.2
    · rw [ItemIdCompact.stop] at hin
      rw [moveBytes_eq hmove, blit_outside (by omega), hk]

structure Checked (page : Page) (items : List ItemIdCompact) : Prop where
  header : page.pd_upper ≤ page.pd_special ∧ page.pd_special ≤ BLCKSZ
  len : ∀ it ∈ items, 0 < it.alignedlen
  off : ∀ it ∈ items, page.pd_upper ≤ it.itemoff
  total : piecesLength (pieces items) ≤ page.pd_special

theorem firstStop_nonneg (items moved : List ItemIdCompact) : 0 ≤ firstStop items moved := by
  rw [firstStop]
  split
  · exact add_nonneg (Int.natCast_nonneg _) (Int.natCast_nonneg _)
  · exact le_refl _

theorem startRoom {moved : List ItemIdCompact} {upper stop : ℤ} (data : Bytes) (linp : ℕ → ItemIdData) (hstop : 0 ≤ stop)
    (hupper : upper ≤ BLCKSZ) (hmoved : piecesLength (pieces moved) ≤ upper) :
    Room moved ⟨data, linp, upper, stop, stop⟩ :=
  ⟨⟨hstop, le_refl _⟩, by rwa [sub_self, add_zero], hmoved⟩

theorem compactSkipped_isSome {page : Page} {items : List ItemIdCompact} (h : Checked page items) (src : Bytes → Bytes) :
    (compactSkipped items page src).isSome ↔ ∀ it ∈ items, it.stop ≤ BLCKSZ := by
  obtain ⟨pre, hsplit, hplace, hupper⟩ := skipInPlace_spec items page.pd_special
  rw [compactSkipped]
  generalize skipInPlace items page.pd_special = skipped at *
  have hspecial := h.header
  have htotal := h.total
  have hlen := h.len
  rw [hsplit, pieces, List.map_append, piecesLength_append] at htotal
  rw [hsplit] at hlen
  have hprelen := piecesLength_nonneg (pieces_nonneg pre)
  have hpre : ∀ it ∈ pre, it.stop ≤ BLCKSZ := fun it hit => (hplace.stop_le it hit).trans (by omega)
  have hroom := @startRoom skipped.1 skipped.2 (firstStop items skipped.1) page.data page.linp (firstStop_nonneg _ _)
    (by omega) (by rw [hupper, pieces, pieces]; omega)
  refine (compactLoop_isSome (fun it hit => hlen it (List.mem_append_right _ hit)) hroom).trans ?_
  rw [hsplit, List.forall_mem_append]
  exact ⟨fun hand => ⟨hpre, hand.2⟩, fun hand => ⟨Or.inl rfl, hand.2⟩⟩

theorem skipped_le {page : Page} {items : List ItemIdCompact} (h : Checked page items) :
    (page.pd_upper : ℤ) ≤ (skipInPlace items page.pd_special).2 ∧
      (skipInPlace items page.pd_special).2 ≤ page.pd_special := by
  obtain ⟨pre, hsplit, hplace, hupper⟩ := skipInPlace_spec items page.pd_special
  have hoff := h.off
  rw [hsplit] at hoff
  have hheader := h.header
  rw [hupper]
  refine ⟨hplace.le_upper (by omega) fun it hit => ?_, sub_le_self _ (piecesLength_nonneg (pieces_nonneg pre))⟩
  exact Int.ofNat_le.mpr (hoff it (List.mem_append_left _ hit))

theorem compactMoves_isSome {page : Page} {items : List ItemIdCompact} (h : Checked page items) (presorted : Bool)
    (scratch : Bytes) :
    (compactMoves items page presorted scratch).isSome ↔ ∀ it ∈ items, it.stop ≤ BLCKSZ := by
  have hheader := h.header
  rw [compactMoves]
  split
  · exact compactSkipped_isSome h id
  · split
    · have hroom := @startRoom items page.pd_special (firstStop items items) page.data page.linp (firstStop_nonneg _ _)
        (by omega) h.total
      have hscratch := copyToScratch_isSome h.len scratch page.data
      rw [Option.isSome_bind]
      cases hcopy : copyToScratch scratch page.data items with
      | none =>
        rw [hcopy] at hscratch
        exact iff_of_false (by rw [Option.any_none]; exact Bool.false_ne_true) fun hall => by cases hscratch.mpr hall
      | some copied =>
        rw [Option.any_some]
        exact (compactLoop_isSome h.len hroom).trans ⟨fun hand => hand.2, fun hall => ⟨Or.inl rfl, hall⟩⟩
    · obtain ⟨hlow, hhigh⟩ := skipped_le h
      have hmove : moveBytes scratch page.pd_upper page.data page.pd_upper
          ((skipInPlace items page.pd_special).2 - page.pd_upper) =
          some (blit scratch page.pd_upper page.data page.pd_upper
            ((skipInPlace items page.pd_special).2 - page.pd_upper)) := by
        rw [moveBytes, if_pos (by omega)]
      rw [hmove, Option.bind_some]
      exact compactSkipped_isSome h _

def Apart (items : List ItemIdCompact) : Prop :=
  items.Pairwise fun a b => a.stop ≤ b.itemoff ∨ b.stop ≤ a.itemoff

theorem InPlace.stop_le_rest {pre rest : List ItemIdCompact} {upper : ℤ} (h : InPlace upper pre) (hapart : Apart (pre ++ rest))
    (hlen : ∀ it ∈ rest, 0 < it.alignedlen) (hstop : ∀ it ∈ rest, it.stop ≤ upper) :
    ∀ it ∈ rest, it.stop ≤ upper - piecesLength (pieces pre) := by
  induction pre generalizing upper with
  | nil => rwa [pieces, List.map_nil, piecesLength, sub_zero]
  | cons a pre ih =>
    obtain ⟨ha, hpre⟩ := h
    obtain ⟨hfirst, hrest⟩ := List.pairwise_cons.mp hapart
    have hbelow : ∀ it ∈ rest, it.stop ≤ a.itemoff := by
      intro it hit
      have hpos := hlen it hit
      have hle := hstop it hit
      rcases hfirst it (List.mem_append_right _ hit) with habove | hbelow
      · rw [ItemIdCompact.stop] at hle
        omega
      · exact hbelow
    have hstep : upper - piecesLength (pieces (a :: pre)) = a.itemoff - piecesLength (pieces pre) := by
      rw [ItemIdCompact.stop] at ha
      rw [piecesLength_cons]
      omega
    rw [hstep]
    exact ih hpre hrest hbelow

def packedPage (items : List ItemIdCompact) (page : Page) : Page :=
  { page with
    data := pack page.data (pieces items) page.pd_special page.data
    linp := placeLinp items page.pd_special page.linp
    pd_upper := (page.pd_special - piecesLength (pieces items) : ℤ).toNat }

structure Sound (page : Page) (items : List ItemIdCompact) : Prop where
  checked : Checked page items
  stop : ∀ it ∈ items, it.stop ≤ page.pd_special
  apart : Apart items
  describes : Describes page.linp items

theorem Sound.inside {page : Page} {items : List ItemIdCompact} (h : Sound page items) :
    ∀ it ∈ items, it.stop ≤ BLCKSZ := fun it hit =>
  (h.stop it hit).trans (Int.ofNat_le.mpr h.checked.header.2)

theorem pieces_congr {copied data : Bytes} {items : List ItemIdCompact}
    (h : ∀ it ∈ items, ∀ k, (it.itemoff : ℤ) ≤ k → k < it.stop → copied k = data k) (upper : ℤ) (m : Bytes) :
    pack copied (pieces items) upper m = pack data (pieces items) upper m :=
  pack_congr (List.forall_mem_map.mpr h) upper m

theorem compactSkipped_value {page : Page} {items : List ItemIdCompact} (h : Sound page items) {copied : Bytes} {s : Moves}
    (hcopied : ∀ k, (page.pd_upper : ℤ) ≤ k → k < (skipInPlace items page.pd_special).2 → copied k = page.data k)
    (hs : compactSkipped items page (fun _ => copied) = some s) :
    { page with data := s.data, linp := s.linp, pd_upper := s.upper.toNat } = packedPage items page := by
  obtain ⟨pre, hsplit, hplace, hupper⟩ := skipInPlace_spec items page.pd_special
  rw [compactSkipped] at hs
  obtain ⟨hdata, hlinp, hs'⟩ := compactLoop_scratch hs (le_refl _)
  dsimp only at hdata hlinp hs'
  rw [sub_self, blit_zero] at hdata
  generalize skipInPlace items page.pd_special = skipped at *
  have hrest : ∀ it ∈ skipped.1, it.stop ≤ skipped.2 := by
    rw [hupper]
    have hapart := h.apart
    rw [hsplit] at hapart
    have hmem : ∀ it ∈ skipped.1, it ∈ items := fun it hit => hsplit ▸ List.mem_append_right _ hit
    exact hplace.stop_le_rest hapart (fun it hit => h.checked.len it (hmem it hit)) fun it hit => h.stop it (hmem it hit)
  have hagree : ∀ it ∈ skipped.1, ∀ k, (it.itemoff : ℤ) ≤ k → k < it.stop → copied k = page.data k := by
    intro it hit k hk hk'
    have hoff := h.checked.off it (hsplit ▸ List.mem_append_right _ hit)
    have hstop := hrest it hit
    exact hcopied k (by omega) (by omega)
  have hpre : Describes page.linp pre := fun it hit => h.describes it (hsplit ▸ List.mem_append_left _ hit)
  have hpieces : pieces items = pieces pre ++ pieces skipped.1 := by
    rw [hsplit, pieces, List.map_append]
    rfl
  have hpacked : pack page.data (pieces items) page.pd_special page.data = s.data := by
    rw [hpieces, pack_append, pack_inPlace page.data hplace, ← hupper, hdata, pieces_congr hagree]
  have hplaced : placeLinp items page.pd_special page.linp = s.linp := by
    conv_lhs => rw [hsplit]
    rw [placeLinp_append, placeLinp_inPlace hplace hpre, ← hupper, hlinp]
  have hlow : (page.pd_special : ℤ) - piecesLength (pieces items) = s.upper := by
    rw [hpieces, piecesLength_append, ← sub_sub, ← hupper, hs']
  rw [packedPage, hpacked, hplaced, hlow]

theorem InPlace.below_rest {pre rest : List ItemIdCompact} {upper : ℤ} (h : InPlace upper pre)
    (hbelow : Below upper (pre ++ rest)) : Below (upper - piecesLength (pieces pre)) rest := by
  induction pre generalizing upper with
  | nil => rwa [pieces, List.map_nil, piecesLength, sub_zero]
  | cons a pre ih =>
    have hstep : upper - piecesLength (pieces (a :: pre)) = a.itemoff - piecesLength (pieces pre) := by
      have ha := h.1
      rw [ItemIdCompact.stop] at ha
      rw [piecesLength_cons]
      omega
    rw [hstep]
    exact ih h.2 hbelow.2

theorem compactSkipped_presorted {page : Page} {items : List ItemIdCompact} (hbelow : Below page.pd_special items) :
    compactSkipped items page id = compactSkipped items page fun _ => page.data := by
  obtain ⟨pre, hsplit, hplace, hupper⟩ := skipInPlace_spec items page.pd_special
  rw [compactSkipped, compactSkipped]
  generalize skipInPlace items page.pd_special = skipped at *
  obtain ⟨rest, upper⟩ := skipped
  dsimp only at hsplit hupper ⊢
  have hrest : Below upper rest := hupper ▸ hplace.below_rest (hsplit ▸ hbelow)
  cases rest with
  | nil =>
    rw [compactLoop, compactLoop, movePending_congr]
    exact fun k _ => rfl
  | cons it its =>
    have hfirst : firstStop items (it :: its) = it.stop := rfl
    rw [hfirst]
    exact compactLoop_in_place ⟨le_refl _, hrest.2⟩ (le_refl _) hrest.1 fun k _ => rfl

theorem compactifyTuples_eq {page : Page} {items : List ItemIdCompact} (h : Sound page items) {presorted : Bool}
    (hsorted : presorted = true → Below page.pd_special items) (scratch : Bytes) :
    compactifyTuples items page presorted scratch = some (packedPage items page) := by
  obtain ⟨s, hs⟩ := Option.isSome_iff_exists.mp ((compactMoves_isSome h.checked presorted scratch).mpr h.inside)
  rw [compactifyTuples, hs, Option.map_some]
  refine congrArg some ?_
  rw [compactMoves] at hs
  split at hs
  · next hpre =>
    rw [compactSkipped_presorted (hsorted hpre)] at hs
    exact compactSkipped_value h (fun k _ _ => rfl) hs
  · split at hs
    · obtain ⟨copied, hcopy, hloop⟩ := Option.bind_eq_some_iff.mp hs
      obtain ⟨hdata, hlinp, hupper⟩ := compactLoop_scratch hloop (le_refl _)
      dsimp only at hdata hlinp hupper
      rw [sub_self, blit_zero, pieces_congr (copyToScratch_spec hcopy).2] at hdata
      rw [packedPage, hdata, hlinp, hupper]
    · obtain ⟨copied, hcopy, hloop⟩ := Option.bind_eq_some_iff.mp hs
      refine compactSkipped_value h (fun k hk hk' => ?_) hloop
      rw [moveBytes_eq hcopy, blit_inside hk (by omega), Int.sub_add_cancel]

end CdcKafka.HeapPage
