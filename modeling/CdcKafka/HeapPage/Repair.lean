import CdcKafka.HeapPage.Compactify

/-! What the scan over the line pointers finds, and when `PageRepairFragmentation` stays inside of a corrupted page. -/

namespace CdcKafka.HeapPage

open Lib

def entryOf (page : Page) (i : ℕ) : ItemIdCompact := ⟨i, (page.linp i).lp_off, MAXALIGN (page.linp i).lp_len⟩

def itemsOf (page : Page) (n : ℕ) : List ItemIdCompact :=
  ((List.range n).filter fun i => (page.linp i).stored).map (entryOf page)

def totalLen (items : List ItemIdCompact) : ℕ := (items.map ItemIdCompact.alignedlen).sum

theorem itemsOf_succ (page : Page) (n : ℕ) :
    itemsOf page (n + 1) = itemsOf page n ++ if (page.linp n).stored then [entryOf page n] else [] := by
  rw [itemsOf, itemsOf, List.range_succ, List.filter_append, List.map_append]
  congr 1
  cases hstored : (page.linp n).stored <;> simp [hstored]

theorem mem_itemsOf {page : Page} {n : ℕ} {it : ItemIdCompact} :
    it ∈ itemsOf page n ↔ ∃ i < n, (page.linp i).stored ∧ entryOf page i = it := by
  rw [itemsOf, List.mem_map]
  refine exists_congr fun i => ?_
  rw [List.mem_filter, List.mem_range, and_assoc]

theorem length_itemsOf (page : Page) (n : ℕ) : (itemsOf page n).length ≤ n := by
  rw [itemsOf, List.length_map]
  exact (List.length_filter_le _ _).trans_eq List.length_range

theorem totalLen_append (items items' : List ItemIdCompact) :
    totalLen (items ++ items') = totalLen items + totalLen items' := by
  rw [totalLen, List.map_append, List.sum_append]
  rfl

theorem piecesLength_eq (items : List ItemIdCompact) : piecesLength (pieces items) = totalLen items := by
  induction items with
  | nil => rfl
  | cons it its ih =>
    rw [piecesLength_cons, ih, totalLen, totalLen, List.map_cons, List.sum_cons, Nat.cast_add]

def OffsetSane (page : Page) (lp : ItemIdData) : Prop := page.pd_upper ≤ lp.lp_off ∧ lp.lp_off < page.pd_special

structure ScanInv (page : Page) (k : ℕ) (s : Scan) : Prop where
  linp : s.linp = fun i => if i < k ∧ (page.linp i).isUsed = false then .setUnused else page.linp i
  items : s.items = itemsOf page k
  sane : ∀ i < k, (page.linp i).stored → OffsetSane page (page.linp i)
  total : s.totallen = totalLen s.items
  last : ∀ it ∈ s.items, s.lastOffset ≤ it.itemoff
  sorted : s.presorted = true → s.items.Pairwise fun a b => b.itemoff < a.itemoff
  used : ∀ i < k, (page.linp i).isUsed → i < s.finalusedlp
  final : s.finalusedlp = 0 ∨ s.finalusedlp ≤ k ∧ (page.linp (s.finalusedlp - 1)).isUsed

theorem scanInv_start (page : Page) : ScanInv page 0 ⟨page.linp, [], page.pd_special, true, 0, 0, InvalidOffsetNumber⟩ where
  linp := funext fun i => (if_neg fun h => absurd h.1 (Nat.not_lt_zero i)).symm
  items := rfl
  sane i hi := absurd hi (Nat.not_lt_zero i)
  total := rfl
  last := List.forall_mem_nil _
  sorted _ := List.Pairwise.nil
  used i hi := absurd hi (Nat.not_lt_zero i)
  final := Or.inl rfl

theorem forall_lt_succ {P : ℕ → Prop} {k : ℕ} (h : ∀ i < k, P i) (hk : P k) : ∀ i < k + 1, P i := fun i hi => by
  rcases Nat.lt_succ_iff_lt_or_eq.mp hi with hlt | rfl
  · exact h i hlt
  · exact hk

theorem linp_succ_used {page : Page} {k : ℕ} (hused : (page.linp k).isUsed = true) :
    (fun i => if i < k + 1 ∧ (page.linp i).isUsed = false then ItemIdData.setUnused else page.linp i) =
      fun i => if i < k ∧ (page.linp i).isUsed = false then ItemIdData.setUnused else page.linp i := by
  funext i
  refine if_congr ?_ rfl rfl
  refine and_congr_left fun hunused => ?_
  have hne : i ≠ k := by
    rintro rfl
    rw [hused] at hunused
    cases hunused
  omega

theorem scanItem_spec {page : Page} {k : ℕ} {s : Scan} (h : ScanInv page k s) (hk : k < MaxHeapTuplesPerPage) :
    (∃ s', scanItem page s k = .ok s' ∧ ScanInv page (k + 1) s') ∨
      ∃ s' off, scanItem page s k = .error s' off ∧ (page.linp k).stored ∧ ¬ OffsetSane page (page.linp k) := by
  have hread : s.linp k = page.linp k := by rw [h.linp]; exact if_neg fun hand => absurd hand.1 (Nat.lt_irrefl k)
  have hroom : ¬ MaxHeapTuplesPerPage ≤ s.items.length := by
    rw [h.items]
    exact not_le.mpr ((length_itemsOf page k).trans_lt hk)
  rw [scanItem]
  dsimp only
  rw [hread, if_neg hroom]
  split
  · next hused =>
    split
    · next hstorage =>
      have hstored : (page.linp k).stored = true := by rw [ItemIdData.stored, hused, hstorage, Bool.and_self]
      split
      · next hbad =>
        refine Or.inr ⟨_, _, rfl, hstored, ?_⟩
        rw [OffsetSane]
        omega
      · next hgood =>
        have hsane : OffsetSane page (page.linp k) := by
          rw [OffsetSane]
          omega
        refine Or.inl ⟨_, rfl, ?_⟩
        constructor
        · dsimp only
          rw [h.linp, linp_succ_used hused]
        · dsimp only
          rw [h.items, itemsOf_succ, if_pos hstored]
          rfl
        · exact forall_lt_succ h.sane fun _ => hsane
        · dsimp only
          rw [h.total, totalLen_append]
          rfl
        · dsimp only
          refine List.forall_mem_append.mpr ⟨fun it hit => ?_, List.forall_mem_singleton.mpr ?_⟩
          · have hle := h.last it hit
            split <;> omega
          · split <;> dsimp only <;> omega
        · dsimp only
          rw [Bool.and_eq_true, decide_eq_true_iff]
          rintro ⟨hsorted, hless⟩
          refine List.pairwise_append.mpr ⟨h.sorted hsorted, List.pairwise_singleton _ _, fun a ha b hb => ?_⟩
          rw [List.mem_singleton.mp hb]
          exact hless.trans_le (h.last a ha)
        · exact forall_lt_succ (fun i hi _ => Nat.lt_succ_of_lt hi) fun _ => Nat.lt_succ_self k
        · exact Or.inr ⟨le_refl _, hused⟩
    · next hstorage =>
      have hstored : ¬ (page.linp k).stored = true := by
        rw [ItemIdData.stored, hused, Bool.true_and]
        exact hstorage
      refine Or.inl ⟨_, rfl, ?_⟩
      constructor
      · dsimp only
        rw [h.linp, linp_succ_used hused]
      · dsimp only
        rw [h.items, itemsOf_succ, if_neg hstored, List.append_nil]
      · exact forall_lt_succ h.sane fun h => absurd h hstored
      · exact h.total
      · exact h.last
      · exact h.sorted
      · exact forall_lt_succ (fun i hi _ => Nat.lt_succ_of_lt hi) fun _ => Nat.lt_succ_self k
      · exact Or.inr ⟨le_refl _, hused⟩
  · next hunused =>
    have hfalse : (page.linp k).isUsed = false := Bool.eq_false_iff.mpr hunused
    have hstored : ¬ (page.linp k).stored = true := by
      rw [ItemIdData.stored, hfalse, Bool.false_and]
      exact Bool.false_ne_true
    refine Or.inl ⟨_, rfl, ?_⟩
    constructor
    · dsimp only
      rw [h.linp]
      funext i
      rcases eq_or_ne i k with rfl | hne
      · rw [Function.update_self, if_pos ⟨Nat.lt_succ_self i, hfalse⟩]
      · rw [Function.update_of_ne hne]
        exact if_congr (and_congr_left fun _ => by omega) rfl rfl
    · dsimp only
      rw [h.items, itemsOf_succ, if_neg hstored, List.append_nil]
    · exact forall_lt_succ h.sane fun h => absurd h hstored
    · exact h.total
    · exact h.last
    · exact h.sorted
    · exact forall_lt_succ h.used fun h => absurd h hunused
    · exact h.final.imp_right fun hand => ⟨Nat.le_succ_of_le hand.1, hand.2⟩

theorem scanItems_spec {page : Page} {k m : ℕ} {s : Scan} (h : ScanInv page k s) (hm : k + m ≤ MaxHeapTuplesPerPage) :
    (∃ s', scanItems page (List.range' k m) s = .ok s' ∧ ScanInv page (k + m) s') ∨
      ∃ s' off, scanItems page (List.range' k m) s = .error s' off ∧
        ∃ i < k + m, (page.linp i).stored ∧ ¬ OffsetSane page (page.linp i) := by
  induction m generalizing k s with
  | zero => exact Or.inl ⟨s, rfl, h⟩
  | succ m ih =>
    rw [List.range'_succ, scanItems]
    rcases scanItem_spec h (by omega) with ⟨s', hitem, hinv⟩ | ⟨s', off, hitem, hbad⟩
    · rw [hitem]
      have hnext := ih hinv (by omega)
      rwa [Nat.add_assoc, Nat.add_comm 1 m] at hnext
    · rw [hitem]
      exact Or.inr ⟨s', off, rfl, k, by omega, hbad⟩

theorem scanPage_spec {page : Page} (hn : page.maxOffsetNumber ≤ MaxHeapTuplesPerPage) :
    (∃ s, scanPage page = .ok s ∧ ScanInv page page.maxOffsetNumber s) ∨ ∃ s off, scanPage page = .error s off ∧
        ∃ i < page.maxOffsetNumber, (page.linp i).stored ∧ ¬ OffsetSane page (page.linp i) := by
  have hscan := @scanItems_spec page 0 page.maxOffsetNumber _ (scanInv_start page) (by rwa [Nat.zero_add])
  rwa [Nat.zero_add, ← List.range_eq_range'] at hscan

theorem MAXALIGN_pos {len : ℕ} (h : len ≠ 0) : 0 < MAXALIGN len := by
  rw [MAXALIGN]
  omega

theorem ItemIdData.stored_iff {lp : ItemIdData} : lp.stored = true ↔ lp.isUsed = true ∧ lp.lp_len ≠ 0 := by
  rw [ItemIdData.stored, Bool.and_eq_true]
  refine and_congr_right fun _ => ?_
  rw [ItemIdData.hasStorage, decide_eq_true_iff]

structure PassesChecks (page : Page) : Prop where
  header : headerSane page
  offsets : ∀ i < page.maxOffsetNumber, (page.linp i).stored → OffsetSane page (page.linp i)
  total : totalLen (itemsOf page page.maxOffsetNumber) ≤ page.pd_special - page.pd_lower

theorem checked_of_scan {page : Page} {s : Scan} (hheader : headerSane page) (h : ScanInv page page.maxOffsetNumber s)
    (htotal : s.totallen ≤ page.pd_special - page.pd_lower) : Checked { page with linp := s.linp } s.items where
  header := ⟨hheader.2.2.1, hheader.2.2.2.1⟩
  len := by
    rw [h.items]
    intro it hit
    obtain ⟨i, -, hstored, rfl⟩ := mem_itemsOf.mp hit
    exact MAXALIGN_pos (ItemIdData.stored_iff.mp hstored).2
  off := by
    rw [h.items]
    intro it hit
    obtain ⟨i, hi, hstored, rfl⟩ := mem_itemsOf.mp hit
    exact (h.sane i hi hstored).1
  total := by
    rw [piecesLength_eq, ← h.total]
    exact Int.ofNat_le.mpr (htotal.trans (Nat.sub_le _ _))

def Contained (page : Page) (scratch : Bytes) : Prop :=
  pageRepairFragmentation page scratch ≠ .outside ∧
    ∀ page' e, pageRepairFragmentation page scratch = .error page' e → page'.data = page.data

/-- The repair stays inside of the page exactly where a check fails or no item reaches behind the end of the page. -/
theorem repair_contained_iff {page : Page} (hn : page.maxOffsetNumber ≤ MaxHeapTuplesPerPage) (scratch : Bytes) :
    Contained page scratch ↔ (PassesChecks page → ∀ i < page.maxOffsetNumber, (page.linp i).stored →
        (page.linp i).lp_off + MAXALIGN (page.linp i).lp_len ≤ BLCKSZ) := by
  have hend {s : Scan} (h : ScanInv page page.maxOffsetNumber s) :
      (∀ it ∈ s.items, it.stop ≤ BLCKSZ) ↔ ∀ i < page.maxOffsetNumber, (page.linp i).stored →
        (page.linp i).lp_off + MAXALIGN (page.linp i).lp_len ≤ BLCKSZ := by
    rw [h.items]
    constructor
    · intro hall i hi hstored
      have hstop := hall _ (mem_itemsOf.mpr ⟨i, hi, hstored, rfl⟩)
      rw [ItemIdCompact.stop, entryOf] at hstop
      exact_mod_cast hstop
    · intro hall it hit
      obtain ⟨i, hi, hstored, rfl⟩ := mem_itemsOf.mp hit
      rw [ItemIdCompact.stop, entryOf]
      exact_mod_cast hall i hi hstored
  rw [Contained, pageRepairFragmentation]
  split
  · next hheader =>
    rcases scanPage_spec hn with ⟨s, hscan, hinv⟩ | ⟨s, off, hscan, i, hi, hstored, hbad⟩
    · rw [hscan]
      dsimp only
      split
      · next hempty =>
        refine iff_of_true ⟨fun h => (by cases h), fun _ _ h => by cases h⟩ fun _ i hi hstored => ?_
        have hmem := mem_itemsOf.mpr ⟨i, hi, hstored, rfl⟩
        rw [← hinv.items, hempty] at hmem
        cases hmem
      · split
        · next htotal =>
          refine iff_of_true ⟨fun h => (by cases h), ?_⟩ fun hpass => ?_
          · intro page' e herror
            cases herror
            rfl
          · have hle := hpass.total
            rw [← hinv.items, ← hinv.total] at hle
            exact absurd htotal (not_lt.mpr hle)
        · next htotal =>
          have hchecked := checked_of_scan hheader hinv (not_lt.mp htotal)
          have hinside := (compactMoves_isSome hchecked s.presorted scratch).trans (hend hinv)
          have hpass : PassesChecks page := by
            refine ⟨hheader, hinv.sane, ?_⟩
            rw [← hinv.items, ← hinv.total]
            exact not_lt.mp htotal
          rw [compactifyTuples]
          cases hmoves : compactMoves s.items { page with linp := s.linp } s.presorted scratch with
          | none =>
            rw [hmoves] at hinside
            exact iff_of_false (fun hand => hand.1 rfl) fun hall => by cases hinside.mpr (hall hpass)
          | some moves =>
            rw [hmoves] at hinside
            exact iff_of_true ⟨fun h => (by cases h), fun _ _ h => by cases h⟩ fun _ => hinside.mp rfl
    · rw [hscan]
      refine iff_of_true ⟨fun h => (by cases h), ?_⟩ fun hpass => absurd (hpass.offsets i hi hstored) hbad
      intro page' e herror
      cases herror
      rfl
  · next hheader =>
    refine iff_of_true ⟨fun h => (by cases h), ?_⟩ fun hpass => absurd hpass.header hheader
    intro page' e herror
    cases herror
    rfl

def oneItemPage (pd_upper lp_off lp_len : ℕ) : Page where
  pd_lower := 28
  pd_upper := pd_upper
  pd_special := 8192
  hasFreeLines := false
  linp i := if i = 0 then ⟨lp_off, .normal, lp_len⟩ else .setUnused
  data _ := 0

theorem repair_contained_iff_one :
    (oneItemPage 8176 8176 10).maxOffsetNumber ≤ MaxHeapTuplesPerPage ∧ Contained (oneItemPage 8176 8176 10) fun _ => 0 :=
  ⟨by decide, (repair_contained_iff (by decide) _).mpr fun _ => by decide⟩

/-- An item in front of the end of the page with a length that reaches behind it is copied with what follows the page. -/
theorem repair_reads_behind_page : (oneItemPage 8184 8184 4096).maxOffsetNumber ≤ MaxHeapTuplesPerPage ∧
      ¬ Contained (oneItemPage 8184 8184 4096) fun _ => 0 := by
  have houtside : pageRepairFragmentation (oneItemPage 8184 8184 4096) (fun _ => 0) = .outside := by rfl
  exact ⟨by decide, fun h => h.1 houtside⟩

end CdcKafka.HeapPage
