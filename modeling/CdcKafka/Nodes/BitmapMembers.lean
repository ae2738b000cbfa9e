import CdcKafka.Nodes.Bitmapset

/-! Single members and ranges of a bitmapset, the index of a member, and the iterations over a set. -/

namespace CdcKafka.Nodes
open Lib Lib.BitWords

variable {a : Bitmapset} {words : List Bitmapword} {s : Finset Nat} {x y n : Nat}

theorem getLsbD_zero {i : Nat} : (0 : Bitmapword).getLsbD i = false := BitVec.getLsbD_zero

theorem bitnum_lt : bitnum x < 64 := Nat.mod_lt x (Nat.succ_pos 63)

theorem eq_iff_wordnum : y = x ↔ wordnum y = wordnum x ∧ bitnum y = bitnum x := by
  rw [wordnum, wordnum, bitnum, bitnum]
  omega

theorem testBit_modify {f : Bitmapword → Bitmapword} (hn : n < words.length) : (value (words.modify n f)).testBit y =
    if wordnum y = n then (f (words.getD n 0)).getLsbD (bitnum y) else (value words).testBit y := by
  rw [testBit_words, testBit_words, List.getD_eq_getElem?_getD, List.getElem?_modify]
  by_cases hy : wordnum y = n
  · rw [if_pos hy, hy, List.getD_eq_getElem?_getD, List.getElem?_eq_getElem hn]
    simp
  · rw [if_neg hy, List.getD_eq_getElem?_getD]
    simp [Ne.symm hy]

theorem testBit_add (hn : wordnum x < words.length) :
    (value (words.modify (wordnum x) (· ||| memberBit x))).testBit y = true ↔
      y = x ∨ (value words).testBit y = true := by
  rw [testBit_modify hn, @eq_iff_wordnum x y]
  split
  · next hy =>
    rw [BitVec.getLsbD_or, getLsbD_memberBit bitnum_lt, Bool.or_eq_true, decide_eq_true_iff, testBit_words, hy,
      and_iff_right rfl, or_comm]
  · next hy => rw [or_iff_right fun h => hy h.1]

theorem testBit_del (hn : wordnum x < words.length) :
    (value (words.modify (wordnum x) (· &&& ~~~memberBit x))).testBit y = true ↔
      (value words).testBit y = true ∧ y ≠ x := by
  rw [testBit_modify hn, ne_eq, @eq_iff_wordnum x y]
  split
  · next hy =>
    rw [minus_bits _ _ _ bitnum_lt, getLsbD_memberBit bitnum_lt, Bool.and_eq_true, Bool.not_eq_true',
      decide_eq_false_iff_not, testBit_words, hy, and_iff_right rfl]
  · next hy => rw [and_iff_left fun h => hy h.1]

theorem grow_spec {words' : List Bitmapword}
    (hgrow : words' = if n ≥ words.length then enlarge words (n + 1) else words) :
    value words' = value words ∧ words'.length = max words.length (n + 1) := by
  subst hgrow
  split
  · next hn =>
    rw [enlarge, List.length_append, List.length_replicate]
    exact ⟨value_append_zeros, by omega⟩
  · next hn => exact ⟨rfl, by omega⟩

theorem grown_top (ha : IsValidSet (some words)) (hx : x ≤ intMax) (hs : members (some words) ⊆ s) (hxs : x ∈ s) :
    max words.length (wordnum x + 1) ≤ nwordsMax ∧ ∃ y ∈ s, 64 * max words.length (wordnum x + 1) ≤ y + 64 := by
  obtain ⟨⟨y, hy, hle⟩, hlen⟩ := isValidSet_some.mp ha
  rw [nwordsMax] at hlen ⊢
  rw [intMax] at hx
  rw [wordnum]
  refine ⟨by omega, ?_⟩
  obtain hmax | hmax := Nat.le_total words.length (x / 64 + 1)
  · exact ⟨x, hxs, by omega⟩
  · exact ⟨y, hs hy, by omega⟩

theorem bmsMakeSingleton_is (hx : x ≤ intMax) : ∃ r, bmsMakeSingleton x = .ok r ∧ Is r {x} := by
  refine ⟨_, if_neg (Int.not_lt.mpr (Int.natCast_nonneg x)), ?_⟩
  rw [Int.toNat_natCast]
  have hbit : ∀ y, (value ((List.replicate (wordnum x + 1) 0).set (wordnum x) (memberBit x))).testBit y = true ↔
      y ∈ ({x} : Finset Nat) := by
    intro y
    rw [testBit_words, List.getD_eq_getElem?_getD, List.getElem?_set, List.length_replicate, Finset.mem_singleton,
      @eq_iff_wordnum x y]
    split
    · next hy =>
      rw [if_pos (Nat.lt_succ_self _), Option.getD_some, getLsbD_memberBit bitnum_lt, decide_eq_true_iff,
        and_iff_right hy.symm]
    · next hy =>
      refine iff_of_false (fun h => ?_) fun h => hy h.1.symm
      rw [List.getElem?_replicate] at h
      split at h
      · rw [Option.getD_some, getLsbD_zero] at h
        cases h
      · rw [Option.getD_none, getLsbD_zero] at h
        cases h
  refine is_some ?_ hbit ⟨x, Finset.mem_singleton_self x, ?_⟩
  · rw [List.length_set, List.length_replicate, nwordsMax, wordnum]
    rw [intMax] at hx
    omega
  · rw [List.length_set, List.length_replicate, wordnum]
    omega

theorem bmsAddMember_is (ha : IsValidSet a) (hx : x ≤ intMax) :
    ∃ r, bmsAddMember a x = .ok r ∧ Is r (insert x (members a)) := by
  rw [bmsAddMember.eq_def, if_neg (Int.not_lt.mpr (Int.natCast_nonneg x))]
  cases a with
  | none => exact bmsMakeSingleton_is hx
  | some words =>
    refine ⟨_, rfl, ?_⟩
    rw [Int.toNat_natCast]
    obtain ⟨hvalue, hlen⟩ := @grow_spec words (wordnum x) _ rfl
    obtain ⟨hmax, htop⟩ := grown_top ha hx (Finset.subset_insert x _) (Finset.mem_insert_self x _)
    refine is_some ?_ (fun y => ?_) ?_
    · rwa [List.length_modify, hlen]
    · rw [testBit_add (by rw [hlen]; omega), hvalue, Finset.mem_insert, mem_some]
    · rwa [List.length_modify, hlen]

theorem trimLoop_is (hlen : words.length ≤ nwordsMax) (hn : n ≤ words.length)
    (hs : ∀ x, (value words).testBit x = true ↔ x ∈ s) (hzero : ∀ x ∈ s, wordnum x < n) : Is (trimLoop words n) s := by
  induction n with
  | zero =>
    rw [Finset.eq_empty_of_forall_notMem fun x hx => Nat.not_lt_zero _ (hzero x hx)]
    exact is_none
  | succ n ih =>
    rw [trimLoop]
    split
    · next hword =>
      obtain ⟨x, hx, hbit⟩ := exists_testBit (by decide) hword
      refine is_some ((List.length_take_le' _ _).trans hlen) (fun y => ?_) ⟨x, (hs x).mp hbit, ?_⟩
      · rw [← hs, testBit_words, testBit_words, List.getD_eq_getElem?_getD, List.getD_eq_getElem?_getD,
          List.getElem?_take]
        split
        · rfl
        · next hy =>
          rw [Option.getD_none, getLsbD_zero]
          refine iff_of_false Bool.false_ne_true fun h => hy (hzero y ((hs y).mp ?_))
          rwa [testBit_words, List.getD_eq_getElem?_getD]
      · rw [List.length_take]
        omega
    · next hword =>
      refine ih (Nat.le_of_succ_le hn) fun x hx => lt_of_le_of_ne (Nat.le_of_lt_succ (hzero x hx)) fun heq => ?_
      rw [← hs, testBit_words, heq, not_not.mp hword, getLsbD_zero] at hx
      cases hx

theorem bmsDelMember_is (ha : IsValidSet a) : ∃ r, bmsDelMember a x = .ok r ∧ Is r ((members a).erase x) := by
  rw [bmsDelMember.eq_def, if_neg (Int.not_lt.mpr (Int.natCast_nonneg x)), Int.toNat_natCast]
  cases a with
  | none => exact ⟨none, rfl, is_none⟩
  | some words =>
    obtain ⟨⟨z, hz, hle⟩, hlen⟩ := isValidSet_some.mp ha
    dsimp only
    split
    · next hn =>
      have hnot : x ∉ members (some words) := fun h => by
        have hlt := lt_of_testBit (mem_some.mp h)
        rw [wordnum] at hn
        omega
      rw [Finset.erase_eq_of_notMem hnot]
      exact ⟨_, rfl, ha.is⟩
    · next hn =>
      have hn' : wordnum x < words.length := Nat.lt_of_not_ge hn
      have hbit : ∀ y, (value (words.modify (wordnum x) (· &&& ~~~memberBit x))).testBit y = true ↔
          y ∈ (members (some words)).erase x := fun y => by
        rw [testBit_del hn', Finset.mem_erase, mem_some, and_comm]
      rw [List.length_modify]
      split
      · next hlast =>
        refine ⟨_, rfl, trimLoop_is ?_ ?_ hbit fun y hy => lt_of_le_of_ne ?_ fun heq => ?_⟩
        · rwa [List.length_modify]
        · rw [List.length_modify]
          exact hn'.le
        · have hlt := lt_of_testBit (mem_some.mp (Finset.mem_of_mem_erase hy))
          rw [hlast.2]
          rw [wordnum]
          omega
        · rw [← hbit, testBit_words, heq, hlast.1, getLsbD_zero] at hy
          cases hy
      · next hlast =>
        refine ⟨_, rfl, is_some ?_ hbit ?_⟩
        · rwa [List.length_modify]
        · rw [List.length_modify]
          by_cases hword : (words.modify (wordnum x) (· &&& ~~~memberBit x)).getD (wordnum x) 0 = 0
          · -- another word is the last one
            refine ⟨z, Finset.mem_erase.mpr ⟨fun heq => hlast ⟨hword, ?_⟩, hz⟩, hle⟩
            rw [← heq, wordnum] at hn' ⊢
            omega
          · obtain hlt | hge := Nat.lt_or_ge (wordnum x + 1) words.length
            · refine ⟨z, Finset.mem_erase.mpr ⟨fun heq => ?_, hz⟩, hle⟩
              rw [← heq, wordnum] at hlt
              omega
            · obtain ⟨y, hy, hybit⟩ := exists_testBit (by decide) hword
              exact ⟨y, (hbit y).mp hybit, by omega⟩

theorem getLsbD_lower {k i : Nat} (hk : k < 64) (hi : i < 64) : (~~~lowMask k).getLsbD i = decide (k ≤ i) := by
  rw [BitVec.getLsbD_not, getLsbD_lowMask hk, decide_eq_true hi, Bool.true_and, ← decide_not]
  exact decide_eq_decide.mpr Nat.not_lt

theorem getLsbD_upper {k i : Nat} (hk : k < 64) : (allOnes >>> (64 - (k + 1))).getLsbD i = decide (i ≤ k) := by
  rw [BitVec.getLsbD_ushiftRight, allOnes, BitVec.getLsbD_not, getLsbD_zero, Bool.not_false, Bool.and_true]
  exact decide_eq_decide.mpr (by omega)

theorem length_fillLoop {k : Nat} : (fillLoop words k n).length = words.length := by
  induction n generalizing words k with
  | zero => rfl
  | succ n ih => rw [fillLoop, ih, List.length_set]

theorem testBit_fillLoop {k : Nat} (hlen : k + n ≤ words.length) : (value (fillLoop words k n)).testBit y = true ↔
    (k ≤ wordnum y ∧ wordnum y < k + n) ∨ (value words).testBit y = true := by
  induction n generalizing words k with
  | zero => exact ⟨.inr, fun h => h.resolve_left fun h => by omega⟩
  | succ n ih =>
    rw [fillLoop, ih (by rw [List.length_set]; omega), testBit_words, List.getD_eq_getElem?_getD, List.getElem?_set]
    split
    · next hy =>
      rw [if_pos (by omega), Option.getD_some, allOnes, BitVec.getLsbD_not, getLsbD_zero, decide_eq_true bitnum_lt]
      exact iff_of_true (.inr rfl) (.inl (by omega))
    · next hy =>
      rw [testBit_words, List.getD_eq_getElem?_getD]
      refine or_congr_left ?_
      omega

theorem testBit_setRange {lower upper : Nat} (hlen : wordnum upper < words.length) (hle : lower ≤ upper) :
    (value (setRange words lower upper)).testBit y = true ↔
      (lower ≤ y ∧ y ≤ upper) ∨ (value words).testBit y = true := by
  have hlower : lower ≤ y ↔ wordnum lower < wordnum y ∨ wordnum lower = wordnum y ∧ bitnum lower ≤ bitnum y := by
    rw [wordnum, wordnum, bitnum, bitnum]
    omega
  have hupper : y ≤ upper ↔ wordnum y < wordnum upper ∨ wordnum y = wordnum upper ∧ bitnum y ≤ bitnum upper := by
    rw [wordnum, wordnum, bitnum, bitnum]
    omega
  have hwords : wordnum lower ≤ wordnum upper := Nat.div_le_div_right hle
  rw [hlower, hupper, setRange]
  dsimp only
  split
  · next heq =>
    rw [testBit_modify (heq ▸ hlen)]
    split
    · next hy =>
      rw [BitVec.getLsbD_or, BitVec.getLsbD_and, getLsbD_lower bitnum_lt bitnum_lt, getLsbD_upper bitnum_lt,
        Bool.or_eq_true, Bool.and_eq_true, decide_eq_true_iff, decide_eq_true_iff, testBit_words, hy, or_comm]
      refine or_congr_left ?_
      omega
    · next hy => rw [or_iff_right (by omega)]
  · next hne =>
    have hlt := lt_of_le_of_ne hwords hne
    rw [testBit_modify (by rwa [length_fillLoop, List.length_modify])]
    split
    · next hy =>
      have hbit : ((fillLoop (words.modify (wordnum lower) (· ||| ~~~lowMask (bitnum lower))) (wordnum lower + 1)
          (wordnum upper - (wordnum lower + 1))).getD (wordnum upper) 0).getLsbD (bitnum y) = true ↔
          (value words).testBit y = true := by
        rw [← hy, ← testBit_words, testBit_fillLoop (by rw [List.length_modify]; omega), or_iff_right (by omega),
          testBit_modify (by omega), if_neg (by omega)]
      rw [BitVec.getLsbD_or, Bool.or_eq_true, getLsbD_upper bitnum_lt, decide_eq_true_iff, hbit, or_comm]
      refine or_congr_left ?_
      omega
    · next hy =>
      rw [testBit_fillLoop (by rw [List.length_modify]; omega), testBit_modify (by omega)]
      split
      · next hy' =>
        rw [or_iff_right (by omega), BitVec.getLsbD_or, getLsbD_lower bitnum_lt bitnum_lt, Bool.or_eq_true,
          decide_eq_true_iff, testBit_words, hy', or_comm]
        refine or_congr_left ?_
        omega
      · next hy' =>
        refine or_congr_left ?_
        omega

theorem length_setRange {lower upper : Nat} : (setRange words lower upper).length = words.length := by
  rw [setRange]
  dsimp only
  split
  · rw [List.length_modify]
  · rw [List.length_modify, length_fillLoop, List.length_modify]

theorem bmsAddRange_is {lower upper : Nat} (ha : IsValidSet a) (hupper : upper ≤ intMax) :
    ∃ r, bmsAddRange a lower upper = .ok r ∧ Is r (members a ∪ Finset.Icc lower upper) := by
  rw [bmsAddRange]
  split
  · next hlt =>
    rw [Finset.Icc_eq_empty (by omega), Finset.union_empty]
    exact ⟨a, rfl, ha.is⟩
  · next hnot =>
    have hle : lower ≤ upper := by omega
    have hin : upper ∈ members a ∪ Finset.Icc lower upper :=
      Finset.mem_union_right _ (Finset.mem_Icc.mpr ⟨hle, le_rfl⟩)
    rw [if_neg (by omega), Int.toNat_natCast, Int.toNat_natCast]
    -- the words that the bits are set in
    have hgrown : ∀ words' : List Bitmapword, value words' = value (a.getD []) → wordnum upper < words'.length →
        words'.length ≤ nwordsMax → (∃ y ∈ members a ∪ Finset.Icc lower upper, 64 * words'.length ≤ y + 64) →
        Is (some (setRange words' lower upper)) (members a ∪ Finset.Icc lower upper) := by
      intro words' hvalue hlen hmax htop
      refine is_some (length_setRange.trans_le hmax) (fun y => ?_) (by rwa [length_setRange])
      rw [testBit_setRange hlen hle, hvalue, Finset.mem_union, mem_members, Finset.mem_Icc, or_comm]
    refine ⟨_, rfl, ?_⟩
    cases a with
    | none =>
      refine hgrown _ value_zeros ?_ ?_ ⟨upper, hin, ?_⟩
      · rw [List.length_replicate]
        exact Nat.lt_succ_self _
      · rw [List.length_replicate, nwordsMax, wordnum]
        rw [intMax] at hupper
        omega
      · rw [List.length_replicate, wordnum]
        omega
    | some words =>
      obtain ⟨hvalue, hlen⟩ := @grow_spec words (wordnum upper) _ rfl
      obtain ⟨hmax, htop⟩ := grown_top ha hupper Finset.subset_union_left hin
      rw [← hlen] at hmax htop
      exact hgrown _ hvalue (by rw [hlen]; omega) hmax htop

theorem bmsIsMember_eq : bmsIsMember x a = .ok (decide (x ∈ members a)) := by
  rw [bmsIsMember.eq_def, if_neg (Int.not_lt.mpr (Int.natCast_nonneg x)), Int.toNat_natCast]
  cases a with
  | none => rfl
  | some words =>
    refine congrArg Except.ok (decide_eq_decide.mpr ?_)
    rw [mem_some, testBit_words]
    constructor
    · intro hne
      by_contra hbit
      refine hne (BitVec.eq_of_getLsbD_eq fun i hi => ?_)
      rw [BitVec.getLsbD_and, getLsbD_memberBit hi, getLsbD_zero, Bool.and_eq_false_iff, decide_eq_false_iff_not]
      by_cases heq : i = bitnum x
      · exact .inl (heq ▸ Bool.eq_false_iff.mpr hbit)
      · exact .inr heq
    · intro hbit hzero
      have hand := congrArg (BitVec.getLsbD · (bitnum x)) hzero
      rw [BitVec.getLsbD_and, hbit, getLsbD_memberBit bitnum_lt, getLsbD_zero, decide_eq_true rfl] at hand
      cases hand

theorem count_mask {w : Bitmapword} {k : Nat} (hk : k < 64) :
    (w &&& lowMask k).cpop.toNat = Nat.count (fun i => w.getLsbD i = true) k := by
  rw [toNat_cpop_eq_count, Nat.count_eq_card_filter_range, Nat.count_eq_card_filter_range]
  congr 1
  ext i
  rw [Finset.mem_filter, Finset.mem_filter, Finset.mem_range, Finset.mem_range, BitVec.getLsbD_and, getLsbD_lowMask hk,
    Bool.and_eq_true, decide_eq_true_iff]
  exact ⟨fun h => ⟨h.2.2, h.2.1⟩, fun h => ⟨h.1.trans hk, h.2, h.1⟩⟩

theorem count_words {result k : Nat} (hk : k < 64) (hn : n < words.length) :
    (words.take n).foldl (fun result w => if w ≠ 0 then result + w.cpop.toNat else result) result +
      (words.getD n 0 &&& lowMask k).cpop.toNat =
    result + Nat.count (fun i => (value words).testBit i = true) (64 * n + k) := by
  induction words generalizing result n with
  | nil => cases hn
  | cons w ws ih =>
    cases n with
    | zero =>
      rw [List.take_zero, List.foldl_nil, List.getD_cons_zero, count_mask hk, Nat.mul_zero, Nat.zero_add,
        count_value_low hk.le]
    | succ n =>
      have hskip : (if w ≠ 0 then result + w.cpop.toNat else result) = result + w.cpop.toNat := by
        split
        · rfl
        · next hw =>
          rw [not_not.mp hw]
          rfl
      have hsplit : 64 * (n + 1) + k = 64 + (64 * n + k) := by omega
      rw [List.take_succ_cons, List.foldl_cons, List.getD_cons_succ, hskip, ih (Nat.lt_of_succ_lt_succ hn), hsplit,
        count_value_cons, Nat.add_assoc]

theorem bmsMemberIndex_eq : bmsMemberIndex a x =
    .ok (if x ∈ members a then (((members a).filter (· < x)).card : Int) else -1) := by
  rw [bmsMemberIndex, bmsIsMember_eq]
  by_cases hx : x ∈ members a
  · have hcount : ((members a).filter (· < x)).card = Nat.count (fun i => (value (a.getD [])).testBit i = true) x := by
      rw [Nat.count_eq_card_filter_range]
      congr 1
      ext y
      rw [Finset.mem_filter, Finset.mem_filter, Finset.mem_range, mem_members, and_comm]
    have hn : wordnum x < (a.getD []).length := Nat.div_lt_of_lt_mul (lt_of_testBit (mem_members.mp hx))
    have hsum := @count_words (a.getD []) (wordnum x) 0 (bitnum x) bitnum_lt hn
    rw [Nat.zero_add, wordnum, bitnum, Nat.div_add_mod, ← hcount] at hsum
    rw [if_pos hx, ← hsum]
    simp [bind, Except.bind, pure, Except.pure, hx, wordnum, bitnum]
  · rw [if_neg hx]
    simp [bind, Except.bind, pure, Except.pure, hx]

def maskHead (mask : Bitmapword) : List Bitmapword → List Bitmapword
  | [] => []
  | w :: words => (w &&& mask) :: words

theorem testBit_maskHead {mask : Bitmapword} : (value (maskHead mask words)).testBit y = true ↔
    (value words).testBit y = true ∧ (64 ≤ y ∨ mask.getLsbD y = true) := by
  cases words with
  | nil => simp [maskHead, value]
  | cons w ws =>
    rw [maskHead, testBit_value_cons, testBit_value_cons]
    split
    · next hy => rw [BitVec.getLsbD_and, Bool.and_eq_true, or_iff_right (Nat.not_le.mpr hy)]
    · next hy => rw [and_iff_left (.inl (Nat.le_of_not_lt hy))]

theorem maskHead_allOnes : maskHead allOnes words = words := by
  cases words with
  | nil => rfl
  | cons w ws => rw [maskHead, allOnes, BitVec.ofNat_eq_ofNat, BitVec.not_zero, BitVec.and_allOnes]

theorem nextLoop_spec {mask : Bitmapword} : (nextLoop mask n words = -2 ∧ value (maskHead mask words) = 0) ∨
    ∃ y : Nat, nextLoop mask n words = (64 * n + y : Nat) ∧ (value (maskHead mask words)).testBit y = true ∧
      ∀ z < y, (value (maskHead mask words)).testBit z = false := by
  induction words generalizing mask n with
  | nil => exact .inl ⟨rfl, rfl⟩
  | cons w ws ih =>
    rw [nextLoop, maskHead]
    split
    · next hne =>
      have hlt : (w &&& mask).ctz.toNat < 64 := by
        have h := BitVec.ctz_lt_iff_ne_zero.mpr hne
        rwa [BitVec.lt_def] at h
      refine .inr ⟨(w &&& mask).ctz.toNat, ?_, ?_, fun z hz => ?_⟩
      · rw [Nat.mul_comm]
        rfl
      · rw [testBit_value_cons, if_pos hlt]
        exact BitVec.getLsbD_true_ctz_of_ne_zero hne
      · rw [testBit_value_cons, if_pos (hz.trans hlt)]
        exact BitVec.getLsbD_false_of_lt_ctz hz
    · next hzero =>
      rw [not_not.mp hzero]
      have hrest := @ih (n + 1) allOnes
      rw [maskHead_allOnes] at hrest
      obtain ⟨hnext, hnone⟩ | ⟨y, hnext, hbit, hleast⟩ := hrest
      · exact .inl ⟨hnext, value_cons_eq_zero.mpr ⟨rfl, hnone⟩⟩
      · refine .inr ⟨64 + y, ?_, ?_, fun z hz => ?_⟩
        · rw [hnext]
          congr 1
          omega
        · rw [testBit_value_cons, if_neg (by omega), Nat.add_sub_cancel_left, hbit]
        · rw [testBit_value_cons]
          split
          · exact getLsbD_zero
          · exact hleast _ (by omega)

theorem testBit_drop : (value (words.drop n)).testBit y = (value words).testBit (64 * n + y) := by
  rw [testBit_words, testBit_words, List.getD_eq_getElem?_getD, List.getD_eq_getElem?_getD, List.getElem?_drop, wordnum,
    wordnum, bitnum, bitnum, Nat.mul_add_div (by decide), Nat.mul_add_mod]

theorem testBit_from : (value (maskHead (allOnes <<< bitnum x) (words.drop (wordnum x)))).testBit y = true ↔
    64 * wordnum x + y ∈ members (some words) ∧ x ≤ 64 * wordnum x + y := by
  rw [testBit_maskHead, testBit_drop, mem_some]
  refine and_congr_right fun _ => ?_
  have hx : 64 * wordnum x + bitnum x = x := Nat.div_add_mod x 64
  obtain hy | hy := Nat.lt_or_ge y 64
  · rw [BitVec.getLsbD_shiftLeft, allOnes, BitVec.getLsbD_not, getLsbD_zero]
    have hb : @bitnum x < 64 := bitnum_lt
    simp
    omega
  · have hb : bitnum x < 64 := bitnum_lt
    exact iff_of_true (.inl hy) (by omega)

theorem toInt_eq {k : Int} (hlow : -2147483648 ≤ k) (hhigh : k ≤ 2147483647) : toInt k = k :=
  Int.bmod_eq_of_le_mul_two (by omega) (by omega)

theorem bmsNextMember_spec {p : Int} (hp : -1 ≤ p) (hmax : p < intMax) :
    (bmsNextMember a p = some (-2) ∧ ∀ y ∈ members a, (y : Int) ≤ p) ∨
    ∃ y : Nat, bmsNextMember a p = some (y : Int) ∧ y ∈ members a ∧ p < y ∧ ∀ z ∈ members a, p < z → y ≤ z := by
  cases a with
  | none => exact .inl ⟨rfl, fun y hy => absurd hy (Finset.notMem_empty y)⟩
  | some words =>
    rw [intMax] at hmax
    obtain ⟨k, hk⟩ := Int.eq_ofNat_of_zero_le (show 0 ≤ p + 1 by omega)
    have hword : 64 * wordnum k ≤ k := Nat.mul_div_le k 64
    rw [bmsNextMember, toInt_eq (by omega) (by omega), hk, if_neg (Int.not_lt.mpr (Int.natCast_nonneg k)),
      Int.toNat_natCast]
    obtain ⟨hnext, hnone⟩ | ⟨y, hnext, hbit, hleast⟩ :=
      @nextLoop_spec (words.drop (wordnum k)) (wordnum k) (allOnes <<< bitnum k)
    · refine .inl ⟨congrArg some hnext, fun y hy => ?_⟩
      by_contra hlt
      have hbit := (@testBit_from words k (y - 64 * wordnum k)).mpr ⟨by rwa [Nat.add_sub_of_le (by omega)], by omega⟩
      rw [hnone, Nat.zero_testBit] at hbit
      cases hbit
    · obtain ⟨hy, hle⟩ := testBit_from.mp hbit
      refine .inr ⟨_, congrArg some hnext, hy, by omega, fun z hz hlt => ?_⟩
      by_contra hless
      have hnot := hleast (z - 64 * wordnum k) (by omega)
      rw [← Bool.not_eq_true, testBit_from, Nat.add_sub_of_le (by omega)] at hnot
      exact hnot ⟨hz, by omega⟩

theorem bmsNextMember_intMax : bmsNextMember (some words) intMax = none := rfl

def Seen (words : List Bitmapword) (mask : Bitmapword) (n y : Nat) : Prop :=
  (value words).testBit y = true ∧ (wordnum y + 1 < n ∨ wordnum y + 1 = n ∧ mask.getLsbD (bitnum y) = true)

theorem seen_allOnes : Seen words allOnes n y ↔ (value words).testBit y = true ∧ wordnum y < n := by
  refine and_congr_right fun _ => ?_
  rw [allOnes, BitVec.getLsbD_not, getLsbD_zero, decide_eq_true bitnum_lt, Bool.not_false, Bool.and_true,
    and_iff_left rfl]
  omega

theorem prevLoop_spec {mask : Bitmapword} (hn : n ≤ words.length) :
    (prevLoop words mask n = some (-2) ∧ ∀ y, ¬Seen words mask n y) ∨
    ∃ y : Nat, prevLoop words mask n = some (y : Int) ∧ Seen words mask n y ∧ ∀ z, Seen words mask n z → z ≤ y := by
  induction n generalizing mask with
  | zero => exact .inl ⟨rfl, fun y h => by obtain ⟨-, h⟩ := h; omega⟩
  | succ n ih =>
    have hword : words[n]? = some (words.getD n 0) := by
      rw [List.getD_eq_getElem?_getD, List.getElem?_eq_getElem hn, Option.getD_some]
    rw [prevLoop, hword, Option.bind_some]
    split
    · next hne =>
      set w := words.getD n 0 &&& mask with hw
      have hbit := BitVec.getLsbD_true_clz_of_ne_zero (by decide) hne
      have hq : 64 - 1 - w.clz.toNat < 64 := by omega
      set q := 64 - 1 - w.clz.toNat with hqdef
      have hdiv : wordnum (n * 64 + q) = n := by
        rw [wordnum]
        omega
      have hmod : bitnum (n * 64 + q) = q := by
        rw [bitnum]
        omega
      rw [hw, BitVec.getLsbD_and, Bool.and_eq_true] at hbit
      refine .inr ⟨n * 64 + q, ?_, ⟨?_, .inr ⟨by rw [hdiv], by rw [hmod, hbit.2]⟩⟩, fun z hz => ?_⟩
      · have hclz := BitVec.clz_lt_iff_ne_zero.mpr hne
        rw [BitVec.lt_def] at hclz
        have hlt : w.clz.toNat < 64 := hclz
        refine congrArg some ?_
        omega
      · rw [testBit_words, hdiv, hmod, hbit.1]
      · obtain ⟨hzbit, hzword | ⟨hzword, hzmask⟩⟩ := hz
        · rw [wordnum] at hzword
          omega
        · -- the bits above that one are zero
          have hzn : wordnum z = n := by omega
          rw [testBit_words, hzn] at hzbit
          have hset : w.getLsbD (bitnum z) = true := by rw [hw, BitVec.getLsbD_and, hzbit, hzmask, Bool.and_self]
          by_contra hgt
          have hpow : w.toNat < 2 ^ bitnum z := by
            refine BitVec.toNat_lt_two_pow_sub_clz.trans_le (Nat.pow_le_pow_right Nat.two_pos ?_)
            rw [wordnum] at hzn
            rw [bitnum]
            omega
          rw [BitVec.getLsbD, Nat.testBit_lt_two_pow hpow] at hset
          cases hset
    · next hzero =>
      have hskip : ∀ z, Seen words mask (n + 1) z ↔ Seen words allOnes n z := by
        intro z
        rw [seen_allOnes]
        refine and_congr_right fun hz => ⟨fun h => ?_, fun h => .inl (by omega)⟩
        obtain h | ⟨h, hmask⟩ := h
        · omega
        · have hzn : wordnum z = n := by omega
          rw [testBit_words, hzn] at hz
          have hset := congrArg (BitVec.getLsbD · (bitnum z)) (not_not.mp hzero)
          rw [BitVec.getLsbD_and, hz, hmask, getLsbD_zero] at hset
          cases hset
      simp only [hskip]
      exact ih (Nat.le_of_succ_le hn)

def before (a : Bitmapset) (p : Int) : Finset Nat := (members a).filter fun y : Nat => p = -1 ∨ (y : Int) < p

theorem bmsPrevMember_spec {p : Int} (ha : IsValidSet a) (hp : p = -1 ∨ ∃ n ∈ members a, p = (n : Int)) :
    (bmsPrevMember a p = some (-2) ∧ before a p = ∅) ∨
    ∃ y : Nat, bmsPrevMember a p = some (y : Int) ∧ y ∈ before a p ∧ ∀ z ∈ before a p, z ≤ y := by
  cases a with
  | none => exact .inl ⟨rfl, rfl⟩
  | some words =>
    obtain ⟨⟨top, htop, hle⟩, hmax⟩ := isValidSet_some.mp ha
    rw [nwordsMax] at hmax
    have hlast := lt_of_testBit (mem_some.mp htop)
    by_cases hzero : p = 0
    · refine .inl ⟨by rw [bmsPrevMember, if_pos hzero], Finset.filter_eq_empty_iff.mpr fun y _ => ?_⟩
      omega
    · -- the bit that the loop starts from
      have hstart : ∃ k : Nat, k < 64 * words.length ∧ (∀ y, y ∈ before (some words) p ↔ y ∈ members (some words) ∧ y ≤ k) ∧
          bmsPrevMember (some words) p = prevLoop words (allOnes >>> (64 - (bitnum k + 1))) (wordnum k + 1) := by
        rw [bmsPrevMember, if_neg hzero]
        obtain rfl | ⟨x, hx, rfl⟩ := hp
        · have hcast : toInt (toInt (words.length * 64) - 1) = (64 * words.length - 1 : Nat) := by
            rw [toInt, toInt, Int.bmod_sub_bmod]
            refine (toInt_eq (by omega) (by omega)).trans ?_
            omega
          refine ⟨64 * words.length - 1, by omega, fun y => ?_, ?_⟩
          · rw [before, Finset.mem_filter]
            refine and_congr_right fun hy => ?_
            have hlt := lt_of_testBit (mem_some.mp hy)
            exact iff_of_true (.inl rfl) (by omega)
          · rw [if_pos rfl, hcast, if_neg (by omega), Int.toNat_natCast]
        · have hlt := lt_of_testBit (mem_some.mp hx)
          have hcast : (x : Int) - 1 = (x - 1 : Nat) := by omega
          refine ⟨x - 1, by omega, fun y => ?_, ?_⟩
          · rw [before, Finset.mem_filter]
            refine and_congr_right fun hy => ?_
            omega
          · rw [if_neg (by omega), hcast, if_neg (by omega), Int.toNat_natCast]
      obtain ⟨k, hk, hbefore, hcall⟩ := hstart
      have hseen : ∀ y, Seen words (allOnes >>> (64 - (bitnum k + 1))) (wordnum k + 1) y ↔ y ∈ before (some words) p := by
        intro y
        rw [hbefore, mem_some, Seen, getLsbD_upper bitnum_lt, decide_eq_true_iff, wordnum, wordnum, bitnum, bitnum]
        refine and_congr_right fun _ => ?_
        omega
      rw [hcall]
      obtain ⟨hprev, hnone⟩ | ⟨y, hprev, hy, hgreatest⟩ :=
        @prevLoop_spec words (wordnum k + 1) (allOnes >>> (64 - (bitnum k + 1))) (Nat.div_lt_of_lt_mul hk)
      · exact .inl ⟨hprev, Finset.eq_empty_of_forall_notMem fun y hy => hnone y ((hseen y).mpr hy)⟩
      · exact .inr ⟨y, hprev, (hseen y).mp hy, fun z hz => hgreatest z ((hseen z).mpr hz)⟩

def Visits (next : Int → Option Int) (order : Nat → Nat → Prop) (s : Finset Nat) : Prop :=
  ∃ fuel, ∃ l : List Nat, iterate next fuel (-1) = some (l.map (↑)) ∧ l.Pairwise order ∧ ∀ y, y ∈ l ↔ y ∈ s

theorem iterate_visits {next : Int → Option Int} {order : Nat → Nat → Prop} {rest : Int → Finset Nat} {ok : Int → Prop}
    (hstep : ∀ p, ok p → (next p = some (-2) ∧ rest p = ∅) ∨ ∃ y : Nat, next p = some (y : Int) ∧ ok y ∧ y ∈ rest p ∧
      rest y = (rest p).erase y ∧ ∀ z ∈ rest y, order y z) {p : Int} (hp : ok p) :
    ∃ fuel, ∃ l : List Nat, iterate next fuel p = some (l.map (↑)) ∧ l.Pairwise order ∧ ∀ y, y ∈ l ↔ y ∈ rest p := by
  induction hcard : (rest p).card generalizing p with
  | zero =>
    obtain ⟨hnext, hnone⟩ | ⟨y, -, -, hy, -⟩ := hstep p hp
    · refine ⟨1, [], ?_, List.Pairwise.nil, fun y => ?_⟩
      · rw [iterate, hnext]
        rfl
      · rw [hnone]
        exact iff_of_false List.not_mem_nil (Finset.notMem_empty y)
    · rw [Finset.card_eq_zero.mp hcard] at hy
      exact absurd hy (Finset.notMem_empty y)
  | succ n ih =>
    obtain ⟨-, hnone⟩ | ⟨y, hnext, hok, hy, hrest, horder⟩ := hstep p hp
    · rw [hnone] at hcard
      cases hcard
    · obtain ⟨fuel, l, hrun, hpairwise, hmem⟩ := ih hok (by rw [hrest, Finset.card_erase_of_mem hy, hcard]; rfl)
      refine ⟨fuel + 1, y :: l, ?_, List.pairwise_cons.mpr ⟨fun z hz => horder z ((hmem z).mp hz), hpairwise⟩,
        fun z => ?_⟩
      · rw [iterate, hnext, Option.bind_some, if_pos (Int.natCast_nonneg y), hrun]
        rfl
      · rw [List.mem_cons, hmem, hrest, Finset.mem_erase]
        by_cases hz : z = y
        · exact iff_of_true (.inl hz) (hz ▸ hy)
        · rw [or_iff_right hz, and_iff_right hz]

theorem visits_down (ha : IsValidSet a) : Visits (bmsPrevMember a) (· > ·) (members a) := by
  have hvisits := @iterate_visits (bmsPrevMember a) (· > ·) (before a) (fun p => p = -1 ∨ ∃ n ∈ members a, p = (n : Int))
    (fun p hp => ?_) (-1) (.inl rfl)
  · have hall : before a (-1) = members a := Finset.filter_true_of_mem fun y _ => .inl rfl
    rwa [hall] at hvisits
  · refine (bmsPrevMember_spec ha hp).imp_right ?_
    rintro ⟨y, hprev, hy, hgreatest⟩
    rw [before, Finset.mem_filter] at hy
    refine ⟨y, hprev, .inr ⟨y, hy.1, rfl⟩, Finset.mem_filter.mpr hy, ?_, fun z hz => ?_⟩
    · ext z
      have hz := hgreatest z
      simp only [before, Finset.mem_filter, Finset.mem_erase] at hz ⊢
      constructor
      · rintro ⟨hmem, hlt⟩
        exact ⟨by omega, hmem, by omega⟩
      · rintro ⟨hne, hmem, hlt⟩
        have hle := hz ⟨hmem, hlt⟩
        exact ⟨hmem, .inr (by omega)⟩
    · rw [before, Finset.mem_filter] at hz
      omega

def after (a : Bitmapset) (p : Int) : Finset Nat := (members a).filter fun y : Nat => p < y

theorem mem_le_intMax (ha : IsValidSet a) (hx : x ∈ members a) : x ≤ intMax := by
  cases a with
  | none => exact absurd hx (Finset.notMem_empty x)
  | some words =>
    have hlt := lt_of_testBit (mem_some.mp hx)
    have hmax := (isValidSet_some.mp ha).2
    rw [nwordsMax] at hmax
    rw [intMax]
    omega

theorem visits_up (ha : IsValidSet a) (hmax : intMax ∉ members a) : Visits (bmsNextMember a) (· < ·) (members a) := by
  have hvisits := @iterate_visits (bmsNextMember a) (· < ·) (after a) (fun p => p = -1 ∨ ∃ n ∈ members a, p = (n : Int))
    (fun p hp => ?_) (-1) (.inl rfl)
  · have hall : after a (-1) = members a := Finset.filter_true_of_mem fun y _ => by omega
    rwa [hall] at hvisits
  · have hrange : -1 ≤ p ∧ p < intMax := by
      obtain rfl | ⟨n, hn, rfl⟩ := hp
      · exact ⟨le_rfl, by rw [intMax]; omega⟩
      · have hle := mem_le_intMax ha hn
        have hne : n ≠ intMax := fun heq => hmax (heq ▸ hn)
        omega
    refine (bmsNextMember_spec hrange.1 hrange.2).imp (fun h => ⟨h.1, ?_⟩) ?_
    · refine Finset.filter_eq_empty_iff.mpr fun y hy => ?_
      exact Int.not_lt.mpr (h.2 y hy)
    · rintro ⟨y, hnext, hy, hlt, hleast⟩
      refine ⟨y, hnext, .inr ⟨y, hy, rfl⟩, Finset.mem_filter.mpr ⟨hy, hlt⟩, ?_, fun z hz => ?_⟩
      · ext z
        have hz := hleast z
        simp only [after, Finset.mem_filter, Finset.mem_erase]
        constructor
        · rintro ⟨hmem, hyz⟩
          exact ⟨by omega, hmem, by omega⟩
        · rintro ⟨hne, hmem, hpz⟩
          have hle := hz hmem hpz
          exact ⟨hmem, by omega⟩
      · rw [after, Finset.mem_filter] at hz
        omega

theorem next_of_iterate {next : Int → Option Int} {fuel : Nat} {p q : Int} {l : List Int}
    (hrun : iterate next fuel p = some l) (hq : q ∈ l) : next q ≠ none := by
  induction fuel generalizing p l with
  | zero => cases hrun
  | succ fuel ih =>
    rw [iterate, Option.bind_eq_some_iff] at hrun
    obtain ⟨y, -, hrun⟩ := hrun
    split at hrun
    · obtain ⟨l', hrest, rfl⟩ := Option.map_eq_some_iff.mp hrun
      obtain rfl | hq := List.mem_cons.mp hq
      · cases fuel with
        | zero => cases hrest
        | succ fuel =>
          rw [iterate, Option.bind_eq_some_iff] at hrest
          obtain ⟨z, hz, -⟩ := hrest
          rw [hz]
          exact Option.some_ne_none z
      · exact ih hrest hq
    · cases hrun
      cases hq

theorem visits_up_iff (ha : IsValidSet a) : Visits (bmsNextMember a) (· < ·) (members a) ↔ intMax ∉ members a := by
  refine ⟨?_, visits_up ha⟩
  rintro ⟨fuel, l, hrun, -, hmem⟩ hmax
  refine next_of_iterate hrun (List.mem_map.mpr ⟨intMax, (hmem intMax).mpr hmax, rfl⟩) ?_
  cases a with
  | none => exact absurd hmax (Finset.notMem_empty _)
  | some words => exact bmsNextMember_intMax

structure SetOperations (a b : Bitmapset) (x lower upper : Nat) : Prop where
  union : Is (bmsUnion a b) (members a ∪ members b)
  intersect : Is (bmsIntersect a b) (members a ∩ members b)
  difference : Is (bmsDifference a b) (members a \ members b)
  join : bmsJoin a b = bmsUnion a b
  add_members : bmsAddMembers a b = bmsUnion a b
  int_members : bmsIntMembers a b = bmsIntersect a b
  del_members : bmsDelMembers a b = bmsDifference a b
  replace_members : bmsReplaceMembers a b = bmsCopy b
  add_member : ∃ r, bmsAddMember a x = .ok r ∧ Is r (insert x (members a))
  del_member : ∃ r, bmsDelMember a x = .ok r ∧ Is r ((members a).erase x)
  add_range : ∃ r, bmsAddRange a lower upper = .ok r ∧ Is r (members a ∪ Finset.Icc lower upper)
  equal : bmsEqual a b = true ↔ members a = members b
  compare : (bmsCompare a b = 0 ∧ members a = members b) ∨ (bmsCompare a b = -1 ∧ Below (members a) (members b)) ∨
    (bmsCompare a b = 1 ∧ Below (members b) (members a))
  is_subset : bmsIsSubset a b = true ↔ members a ⊆ members b
  subset_compare : bmsSubsetCompare a b = .of (decide (members a ⊆ members b)) (decide (members b ⊆ members a))
  overlap : bmsOverlap a b = true ↔ (members a ∩ members b).Nonempty
  member_index : bmsMemberIndex a x = .ok (if x ∈ members a then (((members a).filter (· < x)).card : Int) else -1)
  prev_member : Visits (bmsPrevMember a) (· > ·) (members a)

theorem bmsIsSubset_iff (ha : IsValidSet a) {b : Bitmapset} : bmsIsSubset a b = true ↔ members a ⊆ members b := by
  rw [bmsIsSubset_eq, Bool.not_eq_true', Bool.eq_false_iff, ne_eq, bmsNonemptyDifference_iff ha, not_not]

theorem setOperations {b : Bitmapset} {lower upper : Nat} (ha : IsValidSet a) (hb : IsValidSet b) (hx : x ≤ intMax)
    (hupper : upper ≤ intMax) : SetOperations a b x lower upper where
  union := bmsUnion_is ha hb
  intersect := bmsIntersect_is ha hb
  difference := bmsDifference_is ha
  join := bmsJoin_eq.trans ((bmsAddMembers_is ha hb).eq (bmsUnion_is ha hb))
  add_members := (bmsAddMembers_is ha hb).eq (bmsUnion_is ha hb)
  int_members := (bmsIntMembers_is ha).eq (bmsIntersect_is ha hb)
  del_members := (bmsDelMembers_is ha).eq (bmsDifference_is ha)
  replace_members := bmsReplaceMembers_eq
  add_member := bmsAddMember_is ha hx
  del_member := bmsDelMember_is ha
  add_range := bmsAddRange_is ha hupper
  equal := bmsEqual_iff ha hb
  compare := bmsCompare_spec ha hb
  is_subset := bmsIsSubset_iff ha
  subset_compare := by
    rw [bmsSubsetCompare_eq]
    congr 1
    · exact Bool.eq_iff_iff.mpr ((bmsIsSubset_iff ha).trans (decide_eq_true_iff).symm)
    · exact Bool.eq_iff_iff.mpr ((bmsIsSubset_iff hb).trans (decide_eq_true_iff).symm)
  overlap := bmsOverlap_iff
  member_index := bmsMemberIndex_eq
  prev_member := visits_down ha

/-- The operations on valid sets are those on finite sets, with one form for each set, and the iteration upwards
visits the members in order unless the greatest `int` is one. -/
theorem bitmapset_is_set {b : Bitmapset} {lower upper : Nat} (ha : IsValidSet a) (hb : IsValidSet b) (hx : x ≤ intMax)
    (hupper : upper ≤ intMax) : SetOperations a b x lower upper ∧
    (Visits (bmsNextMember a) (· < ·) (members a) ↔ intMax ∉ members a) :=
  ⟨setOperations ha hb hx hupper, visits_up_iff ha⟩

theorem bitmapset_is_set_two : SetOperations (some [5]) (some [4, 1]) 2 3 70 ∧
    (Visits (bmsNextMember (some [5])) (· < ·) (members (some [5])) ↔ intMax ∉ members (some [5])) :=
  bitmapset_is_set ⟨by decide, by decide⟩ ⟨by decide, by decide⟩ (by decide) (by decide)

theorem next_member_overflows : ∃ a, bmsMakeSingleton 2147483647 = .ok a ∧ IsValidSet a ∧ members a = {intMax} ∧
    ¬Visits (bmsNextMember a) (· < ·) (members a) := by
  obtain ⟨a, hcall, ha⟩ := bmsMakeSingleton_is (le_refl intMax)
  refine ⟨a, hcall, ha.valid, ha.members_eq, fun hvisits => (visits_up_iff ha.valid).mp hvisits ?_⟩
  rw [ha.members_eq]
  exact Finset.mem_singleton_self _

end CdcKafka.Nodes
