import CdcKafka.Lib.Steps
import CdcKafka.ProcArray.XidRange

/-! The array is the set of running transactions, after every run of the startup process. -/

namespace CdcKafka.ProcArray
open Lib Slot

variable {a a' : KnownAssignedXids} {l l₁ l₂ : List Entry} {e : Entry} {base x : TransactionId} {xs : List TransactionId} {i n : Nat}

def xidsOf (l : List Entry) : List TransactionId := l.map Entry.xid

def liveXids (l : List Entry) : List TransactionId := (l.filter Entry.valid).map Entry.xid

theorem liveXids_append (l₁ l₂ : List Entry) : liveXids (l₁ ++ l₂) = liveXids l₁ ++ liveXids l₂ := by
  rw [liveXids, List.filter_append, List.map_append]
  rfl

theorem liveXids_cons_pos (h : e.valid = true) (l : List Entry) : liveXids (e :: l) = e.xid :: liveXids l := by
  rw [liveXids, List.filter_cons_of_pos h]
  rfl

theorem liveXids_cons_neg (h : ¬ e.valid = true) (l : List Entry) : liveXids (e :: l) = liveXids l := by
  rw [liveXids, List.filter_cons_of_neg h]
  rfl

theorem validCount_eq (l : List Entry) : validCount l = (liveXids l).length := by
  rw [validCount, liveXids, List.length_map]

theorem liveXids_sublist (l : List Entry) : (liveXids l).Sublist (xidsOf l) := List.filter_sublist.map _

theorem liveXids_filter (l : List Entry) : liveXids (l.filter Entry.valid) = liveXids l := by
  rw [liveXids, List.filter_filter]
  simp only [Bool.and_self]
  rfl

theorem liveXids_dropWhile (l : List Entry) : liveXids (l.dropWhile fun e => !e.valid) = liveXids l := by
  induction l with
  | nil => rfl
  | cons e l ih =>
    by_cases h : e.valid = true
    · rw [List.dropWhile_cons_of_neg (by rw [h]; decide)]
    · rw [List.dropWhile_cons_of_pos (by rw [Bool.not_eq_true] at h; rw [h]; rfl), ih, liveXids_cons_neg h]

structure Holds (a : KnownAssignedXids) (l : List Entry) : Prop where
  tail_le : a.tail ≤ a.head
  head_le : a.head ≤ a.max
  entries : entries a = l
  count : a.num = validCount l

theorem Holds.length (h : Holds a l) : l.length = a.head - a.tail := by
  rw [← h.entries, ProcArray.entries, length_get]

theorem Holds.moveDown (h : Holds a l) (now : Int) : Holds (moveDown now a) (l.filter Entry.valid) := by
  have hspec := compressLoop_spec a.cells (a.head - a.tail) (Nat.zero_le a.tail)
  have hentries : ProcArray.entries (ProcArray.moveDown now a) = l.filter Entry.valid := by
    refine Eq.trans ?_ (hspec.trans ?_)
    · rw [ProcArray.entries, ProcArray.moveDown]
      rfl
    · rw [get_zero, List.nil_append, ← h.entries]
      rfl
  have hlength := congrArg List.length hentries
  rw [ProcArray.entries, length_get] at hlength
  have hle := List.length_filter_le Entry.valid l
  have hmine := h.length
  have hbound := h.head_le
  refine ⟨Nat.zero_le _, ?_, hentries, ?_⟩
  · have htail : (ProcArray.moveDown now a).tail = 0 := rfl
    have hmax : (ProcArray.moveDown now a).max = a.max := rfl
    omega
  · rw [validCount_eq, liveXids_filter, ← validCount_eq]
    exact h.count

theorem compress_noSpace (before after : Int) (a : KnownAssignedXids) :
    knownAssignedXidsCompress .noSpace before after a = moveDown after a := by
  unfold knownAssignedXidsCompress
  exact ite_self (moveDown after a)

theorem Holds.compress (h : Holds a l) (reason : CompressReason) (before after : Int) :
    ∃ l', Holds (knownAssignedXidsCompress reason before after a) l' ∧ (l' = l ∨ l' = l.filter Entry.valid) ∧
      (knownAssignedXidsCompress reason before after a).max = a.max := by
  have hcounted : Holds { a with transactionEndsCounter := a.transactionEndsCounter + 1 } l :=
    ⟨h.tail_le, h.head_le, h.entries, h.count⟩
  unfold knownAssignedXidsCompress
  dsimp only
  split
  · split
    · exact ⟨l, h, .inl rfl, rfl⟩
    · exact ⟨_, h.moveDown after, .inr rfl, rfl⟩
  · split
    · split
      · exact ⟨l, hcounted, .inl rfl, rfl⟩
      · split
        · exact ⟨l, hcounted, .inl rfl, rfl⟩
        · exact ⟨_, hcounted.moveDown after, .inr rfl, rfl⟩
    · split
      · exact ⟨l, h, .inl rfl, rfl⟩
      · exact ⟨_, h.moveDown after, .inr rfl, rfl⟩
    · exact ⟨_, h.moveDown after, .inr rfl, rfl⟩

theorem insertLoop_spec (n : Nat) (x : TransactionId) (htail : a.tail ≤ a.head) (hroom : a.head + n ≤ a.max) :
    ∃ a', insertLoop n x a = some a' ∧ a'.max = a.max ∧ a'.num = a.num ∧ a'.tail ≤ a'.head ∧ a'.head ≤ a'.max ∧
      entries a' = entries a ++ (advances n x).map fun y => ⟨y, true⟩ := by
  induction n generalizing a x with
  | zero => exact ⟨a, rfl, rfl, rfl, htail, hroom, (List.append_nil _).symm⟩
  | succ n ih =>
    have hentries : entries { a with cells := Function.update a.cells a.head ⟨x, true⟩, head := a.head + 1 } =
        entries a ++ [⟨x, true⟩] := by
      have hlast : a.tail + (a.head - a.tail) = a.head := by omega
      rw [entries, entries]
      dsimp only
      rw [Nat.succ_sub htail, get_concat, get_update_outside _ (by omega), hlast, Function.update_self]
    rw [insertLoop, if_pos (by omega), advances]
    obtain ⟨a', hloop, hmax, hnum, htail', hhead', hout⟩ := ih (transactionIdAdvance x)
      (a := { a with cells := Function.update a.cells a.head ⟨x, true⟩, head := a.head + 1 })
      (Nat.le_succ_of_le htail) (by dsimp only; omega)
    rw [hentries, List.append_assoc] at hout
    exact ⟨a', hloop, hmax, hnum, htail', hhead', hout⟩

theorem precedes_ordered (h : Ordered base xs) : xs.Pairwise fun x y =>
    transactionIdPrecedes x y = true ∧ ¬ transactionIdPrecedes y x = true := by
  refine List.Pairwise.imp_of_mem (fun hx hy hlt => ?_) h.order
  rw [transactionIdPrecedes_iff (h.near _ hx) (h.near _ hy), transactionIdPrecedes_iff (h.near _ hy) (h.near _ hx)]
  omega

theorem searchLoop_spec (cells : Nat → Entry) (x : TransactionId) (fuel : Nat) {first stop : Nat}
    (hsorted : (xidsOf (get cells first (stop - first))).Pairwise fun x y =>
      transactionIdPrecedes x y = true ∧ ¬ transactionIdPrecedes y x = true) (hfuel : stop - first ≤ fuel) :
    (∃ i, searchLoop cells x fuel first stop = some i ∧ first ≤ i ∧ i < stop ∧ (cells i).xid = x) ∨
      searchLoop cells x fuel first stop = none ∧ x ∉ xidsOf (get cells first (stop - first)) := by
  induction fuel generalizing first stop with
  | zero =>
    rw [Nat.le_zero.mp hfuel]
    exact .inr ⟨rfl, List.not_mem_nil⟩
  | succ fuel ih =>
    rw [searchLoop]
    split
    · next hlt =>
      dsimp only
      set mid := (first + (stop - 1)) / 2 with hmid
      have hlow : first ≤ mid := by omega
      have hhigh : mid < stop := by omega
      -- the middle one splits the entries
      have hsplit : get cells first (stop - first) =
          get cells first (mid - first) ++ cells mid :: get cells (mid + 1) (stop - (mid + 1)) := by
        rw [show stop - first = (mid - first) + (stop - (mid + 1) + 1) by omega, get_add, get_succ,
          show first + (mid - first) = mid by omega]
      rw [hsplit, xidsOf, List.map_append, List.map_cons] at hsorted ⊢
      obtain ⟨hleft, hrest, hcross⟩ := List.pairwise_append.mp hsorted
      obtain ⟨hafter, hright⟩ := List.pairwise_cons.mp hrest
      split
      · next heq => exact .inl ⟨mid, rfl, hlow, hhigh, heq.symm⟩
      · next hne =>
        split
        · next hprec =>
          rcases ih hleft (by omega) with ⟨i, hi, hfirst, hstop, hx⟩ | ⟨hnone, hnot⟩
          · exact .inl ⟨i, hi, hfirst, by omega, hx⟩
          · refine .inr ⟨hnone, fun hmem => ?_⟩
            rcases List.mem_append.mp hmem with hl | hr
            · exact hnot hl
            · rcases List.mem_cons.mp hr with heq | hr
              · exact hne heq
              · exact (hafter x hr).2 hprec
        · next hprec =>
          rcases ih hright (by omega) with ⟨i, hi, hfirst, hstop, hx⟩ | ⟨hnone, hnot⟩
          · exact .inl ⟨i, hi, by omega, hstop, hx⟩
          · refine .inr ⟨hnone, fun hmem => ?_⟩
            rcases List.mem_append.mp hmem with hl | hr
            · exact hprec (hcross x hl _ List.mem_cons_self).1
            · rcases List.mem_cons.mp hr with heq | hr
              · exact hne heq
              · exact hnot hr
    · next hge =>
      rw [Nat.sub_eq_zero_of_le (Nat.le_of_not_lt hge)]
      exact .inr ⟨rfl, List.not_mem_nil⟩

theorem Holds.split (h : Holds a l) (hlow : a.tail ≤ i) (hhigh : i < a.head) :
    l = get a.cells a.tail (i - a.tail) ++ a.cells i :: get a.cells (i + 1) (a.head - (i + 1)) := by
  rw [← h.entries, ProcArray.entries, show a.head - a.tail = (i - a.tail) + (a.head - (i + 1) + 1) by omega, get_add, get_succ,
    show a.tail + (i - a.tail) = i by omega]

theorem not_mem_of_mem_split (hnodup : (xidsOf (l₁ ++ e :: l₂)).Nodup) : e.xid ∉ liveXids l₁ ∧ e.xid ∉ liveXids l₂ := by
  rw [xidsOf, List.map_append, List.map_cons, List.nodup_append] at hnodup
  obtain ⟨-, hright, hcross⟩ := hnodup
  exact ⟨fun hmem => hcross _ ((liveXids_sublist l₁).subset hmem) _ List.mem_cons_self rfl,
    fun hmem => (List.nodup_cons.mp hright).1 ((liveXids_sublist l₂).subset hmem)⟩

theorem exists_iff (h : Holds a l) (hord : Ordered base (xidsOf l)) :
    knownAssignedXidExists a x = true ↔ x ∈ liveXids l := by
  have hsorted := precedes_ordered hord
  rw [← h.entries] at hsorted
  rw [knownAssignedXidExists, knownAssignedXidsSearch]
  rcases searchLoop_spec a.cells x (a.head - a.tail) hsorted le_rfl with ⟨i, hi, hlow, hhigh, hx⟩ | ⟨hnone, hnot⟩
  · rw [hi]
    have hsplit := h.split hlow hhigh
    rw [hsplit] at hord ⊢
    obtain ⟨hleft, hright⟩ := not_mem_of_mem_split hord.nodup
    rw [hx] at hleft hright
    rw [liveXids_append, List.mem_append]
    by_cases hvalid : (a.cells i).valid = true
    · rw [liveXids_cons_pos hvalid, hx]
      simp only [hvalid, Bool.not_true, Bool.false_eq_true, if_false, true_iff]
      exact .inr List.mem_cons_self
    · rw [liveXids_cons_neg hvalid]
      rw [Bool.not_eq_true] at hvalid
      simp only [hvalid, Bool.not_false, if_true, Bool.false_eq_true, false_iff]
      exact fun hmem => hmem.elim hleft hright
  · rw [hnone]
    refine ⟨fun hfalse => absurd hfalse Bool.false_ne_true, fun hmem => ?_⟩
    rw [← h.entries] at hmem
    exact absurd ((liveXids_sublist _).subset hmem) hnot

def OldestValid (l : List Entry) : Prop := ∀ e ∈ l.head?, e.valid = true

theorem oldestValid_dropWhile (l : List Entry) : OldestValid (l.dropWhile fun e => !e.valid) := by
  intro e he
  have hnot := List.head?_dropWhile_not (fun e : Entry => !e.valid) l
  rw [Option.mem_def.mp he] at hnot
  simpa using hnot

theorem filter_ne_of_not_mem {xs : List TransactionId} (h : x ∉ xs) : xs.filter (· ≠ x) = xs := by
  refine List.filter_eq_self.mpr fun y hy => decide_eq_true fun heq => h (heq ▸ hy)

theorem entries_setTail (h : i ≤ a.head) : entries (setTail a i) = get a.cells i (a.head - i) := by
  unfold setTail
  split
  · rw [show a.head - i = 0 by omega]
    rfl
  · rfl

theorem holds_setTail {l' : List Entry} (htail : a.tail ≤ a.head) (hhead : a.head ≤ a.max)
    (hcells : get a.cells a.tail (a.head - a.tail) = l') (hcount : a.num = validCount l') :
    Holds (setTail a (skipInvalid a.cells (a.head - a.tail) a.tail)) (l'.dropWhile fun e => !e.valid) := by
  obtain ⟨hlow, hhigh, hget⟩ := skipInvalid_spec a.cells (a.head - a.tail) a.tail
  have hend : a.tail + (a.head - a.tail) = a.head := by omega
  rw [hend] at hhigh hget
  have hnum : (setTail a (skipInvalid a.cells (a.head - a.tail) a.tail)).num = a.num := by
    unfold setTail
    split <;> rfl
  refine ⟨?_, ?_, ?_, ?_⟩
  · unfold setTail
    split
    · exact le_rfl
    · next hlt => exact Nat.le_of_not_le hlt
  · unfold setTail
    split
    · exact Nat.zero_le _
    · exact hhead
  · rw [entries_setTail hhigh, hget, hcells]
  · rw [hnum, hcount, validCount_eq, validCount_eq, liveXids_dropWhile]

theorem setTail_max (a : KnownAssignedXids) (i : Nat) : (setTail a i).max = a.max := by
  unfold setTail
  split <;> rfl

theorem skipInvalid_cons (h : (a.cells a.tail).valid = false) (hlt : a.tail < a.head) :
    skipInvalid a.cells (a.head - a.tail) a.tail = skipInvalid a.cells (a.head - (a.tail + 1)) (a.tail + 1) := by
  rw [show a.head - a.tail = a.head - (a.tail + 1) + 1 by omega, skipInvalid, h, if_neg Bool.false_ne_true]

theorem Holds.remove (h : Holds a l) (hord : Ordered base (xidsOf l)) (hold : OldestValid l) (x : TransactionId) :
    ∃ l', Holds (knownAssignedXidsRemove a x) l' ∧ (xidsOf l').Sublist (xidsOf l) ∧ OldestValid l' ∧
      liveXids l' = (liveXids l).filter (· ≠ x) ∧ (knownAssignedXidsRemove a x).max = a.max := by
  have hexists := exists_iff (x := x) h hord
  have hsorted := precedes_ordered hord
  rw [← h.entries] at hsorted
  rw [knownAssignedXidExists] at hexists
  rw [knownAssignedXidsRemove]
  unfold knownAssignedXidsSearch at hexists ⊢
  rcases searchLoop_spec a.cells x (a.head - a.tail) hsorted le_rfl with ⟨i, hi, hlow, hhigh, hx⟩ | ⟨hnone, -⟩
  · rw [hi] at hexists ⊢
    by_cases hvalid : (a.cells i).valid = true
    · simp only [hvalid, Bool.not_true, Bool.false_eq_true, if_false, if_true]
      set b : KnownAssignedXids :=
        { a with cells := Function.update a.cells i ⟨(a.cells i).xid, false⟩, num := a.num - 1 } with hb
      have hsplit := h.split hlow hhigh
      set l₁ := get a.cells a.tail (i - a.tail) with hl₁
      set l₂ := get a.cells (i + 1) (a.head - (i + 1)) with hl₂
      have hmarked : get b.cells a.tail (a.head - a.tail) = l₁ ++ ⟨x, false⟩ :: l₂ := by
        rw [show a.head - a.tail = (i - a.tail) + (a.head - (i + 1) + 1) by omega, get_add, get_succ,
          show a.tail + (i - a.tail) = i by omega, hb]
        dsimp only
        rw [get_update_outside _ (by omega), get_update_outside _ (by omega), Function.update_self, hx]
      obtain ⟨hleft, hright⟩ := not_mem_of_mem_split (hsplit ▸ hord.nodup)
      rw [hx] at hleft hright
      have hlive : liveXids (l₁ ++ ⟨x, false⟩ :: l₂) = (liveXids l).filter (· ≠ x) := by
        rw [hsplit, liveXids_append, liveXids_append, liveXids_cons_pos hvalid, hx,
          liveXids_cons_neg (e := ⟨x, false⟩) Bool.false_ne_true, List.filter_append, filter_ne_of_not_mem hleft,
          List.filter_cons_of_neg (by simp), filter_ne_of_not_mem hright]
      have hxids : xidsOf (l₁ ++ ⟨x, false⟩ :: l₂) = xidsOf l := by
        rw [hsplit, xidsOf, xidsOf, List.map_append, List.map_append, List.map_cons, List.map_cons, hx]
      have hcount : b.num = validCount (l₁ ++ ⟨x, false⟩ :: l₂) := by
        have hmine := h.count
        rw [validCount_eq, hsplit, liveXids_append, liveXids_cons_pos hvalid, List.length_append, List.length_cons] at hmine
        rw [validCount_eq, liveXids_append, liveXids_cons_neg (e := ⟨x, false⟩) Bool.false_ne_true, List.length_append]
        change a.num - 1 = _
        omega
      have hbound := h.head_le
      split
      · next htail =>
        have hfirst : (b.cells b.tail).valid = false := by
          change (Function.update a.cells i _ a.tail).valid = false
          rw [htail, Function.update_self]
        have hskip : skipInvalid b.cells (b.head - b.tail) b.tail =
            skipInvalid b.cells (a.head - (a.tail + 1)) (a.tail + 1) := skipInvalid_cons hfirst (by
              change a.tail < a.head
              omega)
        have hdone := holds_setTail (a := b) h.tail_le hbound hmarked hcount
        rw [hskip] at hdone
        refine ⟨_, hdone, ?_, oldestValid_dropWhile _, ?_, setTail_max _ _⟩
        · rw [← hxids]
          exact (List.dropWhile_sublist _).map _
        · rw [liveXids_dropWhile, hlive]
      · next htail =>
        refine ⟨_, ⟨h.tail_le, hbound, hmarked, hcount⟩, hxids ▸ List.Sublist.refl _, ?_, hlive, rfl⟩
        -- the oldest entry is another one
        rw [OldestValid, hsplit] at hold
        rw [show i - a.tail = (i - a.tail - 1) + 1 by omega, get_succ] at hl₁
        rw [hl₁] at hold ⊢
        exact hold
    · rw [Bool.not_eq_true] at hvalid
      simp only [hvalid, Bool.not_false, if_true, Bool.false_eq_true, false_iff] at hexists ⊢
      exact ⟨l, h, List.Sublist.refl _, hold, (filter_ne_of_not_mem hexists).symm, trivial⟩
  · rw [hnone] at hexists ⊢
    have hnot : x ∉ liveXids l := fun hmem => Bool.false_ne_true (hexists.mpr hmem)
    exact ⟨l, h, List.Sublist.refl _, hold, (filter_ne_of_not_mem hnot).symm, rfl⟩

theorem transactionIdFollowsOrEquals_eq (x y : TransactionId) :
    transactionIdFollowsOrEquals x y = !transactionIdPrecedes x y := by
  unfold transactionIdFollowsOrEquals transactionIdPrecedes
  split
  · rw [← decide_not]
    exact decide_eq_decide.mpr UInt32.not_lt.symm
  · rfl

def Near (xs : List TransactionId) (limit : TransactionId) : Prop :=
  ∃ base, InWindow base limit ∧ ∀ x ∈ xs, InWindow base x

theorem Near.downward {limit : TransactionId} {xs : List TransactionId} (h : Near xs limit) (hord : Ordered base xs) :
    xs.Pairwise fun x y => transactionIdPrecedes y limit = true → transactionIdPrecedes x limit = true := by
  obtain ⟨origin, hlimit, hnear⟩ := h
  refine List.Pairwise.imp_of_mem (fun hx hy hlt => ?_) (precedes_ordered hord)
  have hbefore := (transactionIdPrecedes_iff (hnear _ hx) (hnear _ hy)).mp hlt.1
  rw [transactionIdPrecedes_iff (hnear _ hx) hlimit, transactionIdPrecedes_iff (hnear _ hy) hlimit]
  exact fun hafter => hbefore.trans hafter

theorem xidsOf_prune (isPrepared : TransactionId → Bool) (limit : TransactionId) (l : List Entry) :
    xidsOf (prune isPrepared limit l) = xidsOf l := by
  induction l with
  | nil => rfl
  | cons e l ih =>
    rw [prune]
    split_ifs
    · rfl
    · exact congrArg (e.xid :: ·) ih
    · exact congrArg (e.xid :: ·) ih
    · exact congrArg (e.xid :: ·) ih

theorem liveXids_prune (isPrepared : TransactionId → Bool) (limit : TransactionId) {l : List Entry}
    (hdown : (liveXids l).Pairwise fun x y => transactionIdPrecedes y limit = true → transactionIdPrecedes x limit = true) :
    liveXids (prune isPrepared limit l) =
      (liveXids l).filter fun x => isPrepared x || !transactionIdPrecedes x limit := by
  induction l with
  | nil => rfl
  | cons e l ih =>
    rw [prune]
    split
    · next hvalid =>
      rw [liveXids_cons_pos hvalid] at hdown ⊢
      obtain ⟨hfirst, hrest⟩ := List.pairwise_cons.mp hdown
      rw [transactionIdFollowsOrEquals_eq]
      split
      · next hstop =>
        -- nothing after the first one that follows the limit precedes it
        rw [Bool.not_eq_true'] at hstop
        rw [liveXids_cons_pos hvalid, List.filter_eq_self.mpr]
        intro x hx
        have hlater : transactionIdPrecedes x limit = false := by
          rcases List.mem_cons.mp hx with rfl | hx
          · exact hstop
          · exact Bool.eq_false_iff.mpr fun hprec => Bool.eq_false_iff.mp hstop (hfirst x hx hprec)
        rw [hlater, Bool.not_false, Bool.or_true]
      · next hgo =>
        have hprec : transactionIdPrecedes e.xid limit = true := by simpa using hgo
        split
        · next hprepared =>
          rw [liveXids_cons_neg (e := ⟨e.xid, false⟩) Bool.false_ne_true, ih hrest, List.filter_cons_of_neg]
          rw [hprec, Bool.not_true, Bool.or_false]
          rw [Bool.not_eq_true'] at hprepared
          rw [hprepared]
          exact Bool.false_ne_true
        · next hprepared =>
          rw [liveXids_cons_pos hvalid, ih hrest, List.filter_cons_of_pos]
          rw [Bool.not_eq_true', Bool.not_eq_false] at hprepared
          rw [hprepared, Bool.true_or]
    · next hvalid =>
      rw [liveXids_cons_neg hvalid] at hdown
      rw [liveXids_cons_neg hvalid, liveXids_cons_neg hvalid, ih hdown]

def belowXmax (xmax x : TransactionId) : Bool := xmax = 0 || transactionIdPrecedes x xmax

theorem getLoop_spec (xmax : TransactionId) {l : List Entry}
    (hdown : (liveXids l).Pairwise fun x y => transactionIdPrecedes y xmax = true → transactionIdPrecedes x xmax = true)
    (xarray : List TransactionId) (xmin : TransactionId) :
    getLoop xmax l xarray xmin = (xarray ++ (liveXids l).filter (belowXmax xmax),
      if xarray = [] ∧ ∃ x ∈ (liveXids l).head?, transactionIdPrecedes x xmin = true then (liveXids l).headD xmin
      else xmin) := by
  induction l generalizing xarray xmin with
  | nil =>
    rw [getLoop, if_neg (by rintro ⟨-, x, hx, -⟩; cases hx)]
    exact congrArg (·, xmin) (List.append_nil xarray).symm
  | cons e l ih =>
    rw [getLoop]
    split
    · next hvalid =>
      rw [liveXids_cons_pos hvalid] at hdown ⊢
      obtain ⟨hfirst, hrest⟩ := List.pairwise_cons.mp hdown
      have hmin : (if xarray.length = 0 ∧ transactionIdPrecedes e.xid xmin = true then e.xid else xmin) =
          if xarray = [] ∧ ∃ x ∈ (e.xid :: liveXids l).head?, transactionIdPrecedes x xmin = true then
            (e.xid :: liveXids l).headD xmin
          else xmin := by
        refine if_congr ?_ rfl rfl
        rw [List.length_eq_zero_iff, List.head?_cons]
        refine and_congr_right fun _ => ⟨fun hprec => ⟨_, rfl, hprec⟩, ?_⟩
        rintro ⟨x, hx, hprec⟩
        cases hx
        exact hprec
      dsimp only
      rw [hmin, transactionIdFollowsOrEquals_eq]
      split
      · next hstop =>
        rw [Bool.not_eq_true'] at hstop
        rw [List.filter_eq_nil_iff.mpr, List.append_nil]
        intro x hx hkeep
        rw [belowXmax, Bool.or_eq_true, decide_eq_true_iff] at hkeep
        have hprec := hkeep.resolve_left hstop.1
        refine Bool.eq_false_iff.mp hstop.2 ?_
        rcases List.mem_cons.mp hx with rfl | hx
        · exact hprec
        · exact hfirst x hx hprec
      · next hgo =>
        have hkeep : belowXmax xmax e.xid = true := by
          rw [belowXmax, Bool.or_eq_true, decide_eq_true_iff]
          by_cases hzero : xmax = 0
          · exact .inl hzero
          · exact .inr (Bool.of_not_eq_false fun hfalse => hgo ⟨hzero, by rw [hfalse]; rfl⟩)
        rw [ih hrest, if_neg (fun hnil => List.append_ne_nil_of_right_ne_nil _ (List.cons_ne_nil _ _) hnil.1),
          List.filter_cons_of_pos hkeep, List.append_assoc]
        rfl
    · next hvalid =>
      rw [liveXids_cons_neg hvalid] at hdown ⊢
      exact ih hdown xarray xmin

structure Running where
  live : List TransactionId
  newest : TransactionId

inductive Call
  | add (fromXid toXid : TransactionId) (before after : Int)
  | remove (xid : TransactionId)
  | removeTree (xid : TransactionId) (subxids : List TransactionId) (before after : Int)
  | removePreceding (isPrepared : TransactionId → Bool) (removeXid : TransactionId) (before after : Int)
  | compress (reason : CompressReason) (before after : Int)

def KnownAssignedXids.step (a : KnownAssignedXids) : Call → Option (KnownAssignedXids × Option AddError)
  | .add fromXid toXid before after => knownAssignedXidsAdd fromXid toXid before after a
  | .remove xid => some (knownAssignedXidsRemove a xid, none)
  | .removeTree xid subxids before after => some (knownAssignedXidsRemoveTree xid subxids before after a, none)
  | .removePreceding isPrepared removeXid before after =>
    some (knownAssignedXidsRemovePreceding isPrepared removeXid before after a, none)
  | .compress reason before after => some (knownAssignedXidsCompress reason before after a, none)

def Running.next (max : Nat) (r : Running) : Call → Running
  | .add fromXid toXid _ _ =>
    if r.live.length + (between fromXid toXid).length ≤ max then ⟨r.live ++ between fromXid toXid, toXid⟩ else r
  | .remove xid => ⟨r.live.filter (· ≠ xid), r.newest⟩
  | .removeTree xid subxids _ _ => ⟨r.live.filter (· ∉ xid :: subxids), r.newest⟩
  | .removePreceding isPrepared removeXid _ _ =>
    if removeXid = 0 then ⟨[], r.newest⟩
    else ⟨r.live.filter fun x => isPrepared x || !transactionIdPrecedes x removeXid, r.newest⟩
  | .compress .. => r

/-- Added are normal xids, behind the last ones and within half a circle of the oldest; a limit lies within it too. -/
def Running.Allows (r : Running) : Call → Prop
  | .add fromXid toXid _ _ =>
    transactionIdIsNormal fromXid = true ∧ transactionIdIsNormal toXid = true ∧
      rank (r.live.headD fromXid) fromXid ≤ rank (r.live.headD fromXid) toXid ∧
      rank (r.live.headD fromXid) toXid < 2 ^ 31 ∧
      ∀ oldest ∈ r.live.head?, rank oldest r.newest < rank oldest fromXid
  | .removePreceding _ removeXid _ _ => removeXid = 0 ∨ Near r.live removeXid
  | _ => True

def KnownAssignedXids.Fits (a : KnownAssignedXids) : Call → Prop
  | .add fromXid toXid _ _ => a.head + (between fromXid toXid).length < 2 ^ 31
  | _ => True

def created (procArrayMaxProcs : Nat) (cells : Nat → Entry) : KnownAssignedXids where
  max := 65 * procArrayMaxProcs
  num := 0
  tail := 0
  head := 0
  cells := cells
  transactionEndsCounter := 0
  lastCompressTs := 0

structure Inv (a : KnownAssignedXids) (r : Running) (l : List Entry) : Prop where
  holds : Holds a l
  live : liveXids l = r.live
  oldest : OldestValid l
  order : ∃ base, Ordered base (xidsOf l) ∧ ∀ x ∈ xidsOf l, rank base x ≤ rank base r.newest

variable {r : Running} {fromXid toXid : TransactionId}

theorem Inv.shrink (h : Inv a r l) {a' : KnownAssignedXids} {l' : List Entry} (hholds : Holds a' l')
    (hsub : (xidsOf l').Sublist (xidsOf l)) (hold : OldestValid l') : Inv a' ⟨liveXids l', r.newest⟩ l' := by
  obtain ⟨base, hord, hnew⟩ := h.order
  exact ⟨hholds, rfl, hold, base, hord.sublist hsub, fun x hx => hnew x (hsub.subset hx)⟩

theorem oldestValid_filter (l : List Entry) : OldestValid (l.filter Entry.valid) := by
  intro e he
  exact (List.mem_filter.mp (List.mem_of_mem_head? he)).2

theorem Inv.compress (h : Inv a r l) (reason : CompressReason) (before after : Int) :
    ∃ l', Inv (knownAssignedXidsCompress reason before after a) r l' ∧
      (knownAssignedXidsCompress reason before after a).max = a.max := by
  obtain ⟨l', hholds, hl', hmax⟩ := h.holds.compress reason before after
  rcases hl' with rfl | rfl
  · exact ⟨_, ⟨hholds, h.live, h.oldest, h.order⟩, hmax⟩
  · have hinv := h.shrink hholds (List.filter_sublist.map _) (oldestValid_filter l)
    rw [liveXids_filter, h.live] at hinv
    exact ⟨_, hinv, hmax⟩

theorem Inv.remove (h : Inv a r l) (x : TransactionId) :
    ∃ l', Inv (knownAssignedXidsRemove a x) ⟨r.live.filter (· ≠ x), r.newest⟩ l' ∧
      (knownAssignedXidsRemove a x).max = a.max := by
  obtain ⟨base, hord, -⟩ := h.order
  obtain ⟨l', hholds, hsub, hold, hlive, hmax⟩ := h.holds.remove hord h.oldest x
  have hinv := h.shrink hholds hsub hold
  rw [hlive, h.live] at hinv
  exact ⟨l', hinv, hmax⟩

theorem Inv.removeAll (subxids : List TransactionId) (h : Inv a r l) :
    ∃ l', Inv (subxids.foldl knownAssignedXidsRemove a) ⟨r.live.filter (· ∉ subxids), r.newest⟩ l' ∧
      (subxids.foldl knownAssignedXidsRemove a).max = a.max := by
  induction subxids generalizing a r l with
  | nil =>
    refine ⟨l, ?_, rfl⟩
    rw [List.filter_eq_self.mpr fun x _ => decide_eq_true List.not_mem_nil]
    exact h
  | cons x subxids ih =>
    obtain ⟨l₁, hone, hmax⟩ := h.remove x
    obtain ⟨l₂, hrest, hmax'⟩ := ih hone
    refine ⟨l₂, ?_, hmax'.trans hmax⟩
    have hsame : r.live.filter (· ∉ x :: subxids) = (r.live.filter (· ≠ x)).filter (· ∉ subxids) := by
      rw [List.filter_filter]
      refine List.filter_congr fun y _ => ?_
      rw [← Bool.decide_and]
      refine decide_eq_decide.mpr ?_
      rw [List.mem_cons, not_or, and_comm]
    rw [hsame]
    exact hrest

theorem Inv.removePreceding (h : Inv a r l) (isPrepared : TransactionId → Bool) {removeXid : TransactionId}
    (hvalid : removeXid ≠ 0) (hnear : Near r.live removeXid) (before after : Int) :
    ∃ l', Inv (knownAssignedXidsRemovePreceding isPrepared removeXid before after a)
        ⟨r.live.filter fun x => isPrepared x || !transactionIdPrecedes x removeXid, r.newest⟩ l' ∧
      (knownAssignedXidsRemovePreceding isPrepared removeXid before after a).max = a.max := by
  obtain ⟨base, hord, -⟩ := h.order
  obtain ⟨hget, hcount, -⟩ := pruneLoop_spec isPrepared removeXid (a.head - a.tail) a.tail a.cells 0
  rw [show get a.cells a.tail (a.head - a.tail) = l from h.holds.entries] at hget hcount
  rw [knownAssignedXidsRemovePreceding, if_neg hvalid]
  dsimp only
  set pruned : KnownAssignedXids :=
    { a with
      cells := (pruneLoop isPrepared removeXid (a.head - a.tail) a.tail a.cells 0).1
      num := a.num - (pruneLoop isPrepared removeXid (a.head - a.tail) a.tail a.cells 0).2 } with hpruned
  have hnum : pruned.num = validCount (prune isPrepared removeXid l) := by
    have hmine := h.holds.count
    change a.num - _ = _
    omega
  have hdone := holds_setTail (a := pruned) h.holds.tail_le h.holds.head_le hget hnum
  have hsub : (xidsOf ((prune isPrepared removeXid l).dropWhile fun e => !e.valid)).Sublist (xidsOf l) := by
    rw [← xidsOf_prune isPrepared removeXid l]
    exact (List.dropWhile_sublist _).map _
  have hinv := h.shrink hdone hsub (oldestValid_dropWhile _)
  rw [liveXids_dropWhile, liveXids_prune isPrepared removeXid, h.live] at hinv
  · obtain ⟨l', hinv', hmax⟩ := hinv.compress .prune before after
    exact ⟨l', hinv', hmax.trans (setTail_max _ _)⟩
  · rw [h.live]
    exact hnear.downward (h.live ▸ hord.sublist (liveXids_sublist l))

theorem intOf_of_lt {z : Int} (h0 : 0 ≤ z) (h : z < 2 ^ 31) : intOf z = z := by
  unfold intOf
  omega

theorem Inv.window (h : Inv a r l) {before after : Int} (hallows : r.Allows (.add fromXid toXid before after)) :
    ∃ base, Ordered base (xidsOf l ++ between fromXid toXid) ∧ (∀ x ∈ xidsOf l, rank base x < rank base fromXid) ∧
      (∀ x ∈ xidsOf l ++ between fromXid toXid, rank base x ≤ rank base toXid) ∧ InWindow base fromXid := by
  obtain ⟨hfrom, hto, hle, hnear, hafter⟩ := hallows
  obtain ⟨origin, hord, hnew⟩ := h.order
  set base := r.live.headD fromXid with hbase
  have hold : Ordered base (xidsOf l) ∧ ∀ x ∈ xidsOf l, rank base x < rank base fromXid := by
    rcases l with _ | ⟨e, l⟩
    · exact ⟨Ordered.nil _, fun x hx => absurd hx List.not_mem_nil⟩
    · have hvalid : e.valid = true := h.oldest e rfl
      have hlive := h.live
      rw [liveXids_cons_pos hvalid] at hlive
      have hhead : base = e.xid := by rw [hbase, ← hlive]; rfl
      have hlast := hafter e.xid (by rw [← hlive]; rfl)
      rw [hhead]
      refine ⟨hord.rebase, fun x hx => lt_of_le_of_lt ?_ hlast⟩
      have hfirst : rank origin e.xid ≤ rank origin x := hord.rank_head_le x hx
      have hbound := hnew x hx
      rw [rank_rebase hfirst, rank_rebase (hfirst.trans hbound)]
      omega
  have hspan := rank_rebase hle
  have hback := toNat_sub_rank base base fromXid
  have hranks : ∀ x ∈ between fromXid toXid, transactionIdIsNormal x = true ∧ rank base fromXid ≤ rank base x ∧
      rank base x ≤ rank base toXid := by
    intro x hx
    obtain ⟨hnormal, hin⟩ := mem_between.mp hx
    have hx' := toNat_sub_rank fromXid x base
    rw [rank_self] at hback
    rw [show (base - fromXid).toNat = rank fromXid base from rfl] at hback
    rw [show (x - base).toNat = rank base x from rfl] at hx'
    exact ⟨hnormal, by omega, by omega⟩
  have hmine : Ordered fromXid (between fromXid toXid) := ordered_between (by omega)
  have hnewOrd : Ordered base (between fromXid toXid) := by
    refine ⟨fun x hx => ⟨(hranks x hx).1, lt_of_le_of_lt (hranks x hx).2.2 hnear⟩, ?_⟩
    refine List.Pairwise.imp_of_mem (fun hx hy hlt => ?_) hmine.order
    rwa [rank_rebase (hranks _ hx).2.1, rank_rebase (hranks _ hy).2.1,
      Nat.sub_lt_sub_iff_right (hranks _ hx).2.1] at hlt
  refine ⟨base, hold.1.append hnewOrd fun x hx y hy => lt_of_lt_of_le (hold.2 x hx) (hranks y hy).2.1, hold.2,
    fun x hx => ?_, hfrom, lt_of_le_of_lt hle hnear⟩
  rcases List.mem_append.mp hx with hx | hx
  · exact ((hold.2 x hx).trans_le hle).le
  · exact (hranks x hx).2.2

theorem Inv.insert (h : Inv a r l) {before after : Int} (hallows : r.Allows (.add fromXid toXid before after))
    (hroom : a.head + (between fromXid toXid).length ≤ a.max) :
    ∃ a' l', (insertLoop (between fromXid toXid).length fromXid a).map (fun a =>
        ({ a with num := a.num + ((between fromXid toXid).length : Int) }, (none : Option AddError))) = some (a', none) ∧
      Inv a' ⟨r.live ++ between fromXid toXid, toXid⟩ l' ∧ a'.max = a.max := by
  obtain ⟨base, hord, -, hnewest, -⟩ := h.window hallows
  obtain ⟨hfrom, hto, hle, hnear, -⟩ := hallows
  have hspan := rank_rebase hle
  obtain ⟨-, hadvances⟩ := nxids_spec hfrom hto (by omega)
  obtain ⟨a', hloop, hmax, hnum, htail, hhead, hentries⟩ :=
    insertLoop_spec (between fromXid toXid).length fromXid h.holds.tail_le hroom
  rw [hadvances, h.holds.entries] at hentries
  set added : List Entry := (between fromXid toXid).map fun y => ⟨y, true⟩ with hadded
  have hxids : xidsOf (l ++ added) = xidsOf l ++ between fromXid toXid := by
    rw [xidsOf, List.map_append, hadded, List.map_map]
    exact congrArg (_ ++ ·) (List.map_id _)
  have hlive : liveXids (l ++ added) = r.live ++ between fromXid toXid := by
    rw [liveXids_append, h.live, hadded, liveXids, List.filter_eq_self.mpr, List.map_map]
    · exact congrArg (_ ++ ·) (List.map_id _)
    · intro e he
      obtain ⟨y, -, rfl⟩ := List.mem_map.mp he
      rfl
  refine ⟨{ a' with num := a'.num + ((between fromXid toXid).length : Int) }, l ++ added, by rw [hloop]; rfl,
    ⟨⟨htail, hhead, hentries, ?_⟩, hlive, ?_, base, ?_, ?_⟩, hmax⟩
  · have hmine := h.holds.count
    rw [validCount_eq, h.live] at hmine
    rw [validCount_eq, hlive, List.length_append, hnum, hmine, Int.natCast_add]
  · intro e he
    rw [List.head?_append] at he
    rcases hl : l.head? with _ | e'
    · rw [hl, Option.none_or] at he
      obtain ⟨y, -, rfl⟩ := List.mem_map.mp (List.mem_of_mem_head? he)
      rfl
    · rw [hl, Option.some_or] at he
      exact h.oldest e (hl.trans he)
  · rw [hxids]
    exact hord
  · rw [hxids]
    exact hnewest

theorem Inv.add (h : Inv a r l) {before after : Int} (hallows : r.Allows (.add fromXid toXid before after))
    (hfits : a.Fits (.add fromXid toXid before after)) :
    ∃ a' err l', knownAssignedXidsAdd fromXid toXid before after a = some (a', err) ∧
      Inv a' (r.next a.max (.add fromXid toXid before after)) l' ∧ a'.max = a.max ∧
      (err = none ∨ err = some .tooMany ∧ a.max < r.live.length + (between fromXid toXid).length) := by
  obtain ⟨base, hord, hbefore, -, hwindow⟩ := h.window hallows
  have hspan := rank_rebase hallows.2.2.1
  obtain ⟨hnxids, -⟩ := nxids_spec hallows.1 hallows.2.1 (by have := hallows.2.2.2.1; omega)
  have hfits' : a.head + (between fromXid toXid).length < 2 ^ 31 := hfits
  have hn : nxids fromXid toXid = (between fromXid toXid).length := by
    rw [hnxids, intOf_of_lt (by omega) (by omega)]
  have hlength : r.live.length ≤ a.head - a.tail := by
    rw [← h.live, ← h.holds.length, liveXids, List.length_map]
    exact List.length_filter_le _ _
  have htail := h.holds.tail_le
  have hinorder : ¬ (a.tail < a.head ∧ transactionIdFollowsOrEquals (a.cells (a.head - 1)).xid fromXid = true) := by
    rintro ⟨hsome, hfollows⟩
    have hlast : (a.cells (a.head - 1)).xid ∈ xidsOf l := by
      rw [h.holds.split (by omega : a.tail ≤ a.head - 1) (by omega), xidsOf, List.map_append]
      exact List.mem_append_right _ List.mem_cons_self
    have hprec := (transactionIdPrecedes_iff (hord.near _ (List.mem_append_left _ hlast)) hwindow).mpr (hbefore _ hlast)
    rw [transactionIdFollowsOrEquals_eq, hprec] at hfollows
    cases hfollows
  unfold knownAssignedXidsAdd
  dsimp only
  rw [if_neg hinorder, hn, intOf_of_lt (by omega) (by omega), Int.toNat_natCast, compress_noSpace]
  split
  · obtain hdown := h.holds.moveDown after
    have hinv := h.shrink hdown (List.filter_sublist.map _) (oldestValid_filter l)
    rw [liveXids_filter, h.live] at hinv
    have hhead : (moveDown after a).head = r.live.length := by
      have hlen := hdown.length
      rw [← h.live, liveXids, List.length_map, hlen]
      exact (Nat.sub_zero _).symm
    have hmax : (moveDown after a).max = a.max := rfl
    rw [intOf_of_lt (by omega) (by omega), hmax]
    split
    · next hfull =>
      refine ⟨moveDown after a, some .tooMany, l.filter Entry.valid, rfl, ?_, rfl, .inr ⟨rfl, by omega⟩⟩
      rw [Running.next, if_neg (by omega)]
      exact hinv
    · next hroom =>
      obtain ⟨a', l', hinsert, hinv', hmax'⟩ := hinv.insert hallows (by omega)
      refine ⟨a', none, l', hinsert, ?_, hmax', .inl rfl⟩
      rw [Running.next, if_pos (by omega)]
      exact hinv'
  · next hroom =>
    obtain ⟨a', l', hinsert, hinv', hmax'⟩ := h.insert hallows (by omega)
    refine ⟨a', none, l', hinsert, ?_, hmax', .inl rfl⟩
    rw [Running.next, if_pos (by omega)]
    exact hinv'

def Running.Exceeds (max : Nat) (r : Running) : Call → Prop
  | .add fromXid toXid _ _ => max < r.live.length + (between fromXid toXid).length
  | _ => False

theorem Inv.step (h : Inv a r l) {c : Call} (hallows : r.Allows c) (hfits : a.Fits c) :
    ∃ a' err l', a.step c = some (a', err) ∧ Inv a' (r.next a.max c) l' ∧ a'.max = a.max ∧
      ∀ e ∈ err, e = .tooMany ∧ r.Exceeds a.max c := by
  have hquiet : ∀ e ∈ (none : Option AddError), e = .tooMany ∧ r.Exceeds a.max c := fun e he => by cases he
  cases c with
  | add fromXid toXid before after =>
    obtain ⟨a', err, l', hstep, hinv, hmax, herr⟩ := h.add hallows hfits
    refine ⟨a', err, l', hstep, hinv, hmax, fun e he => ?_⟩
    rcases herr with rfl | ⟨rfl, hfull⟩
    · cases he
    · cases he
      exact ⟨rfl, hfull⟩
  | remove xid =>
    obtain ⟨l', hinv, hmax⟩ := h.remove xid
    exact ⟨_, none, l', rfl, hinv, hmax, hquiet⟩
  | removeTree xid subxids before after =>
    obtain ⟨l₁, hrest, hmax⟩ : ∃ l₁, Inv (subxids.foldl knownAssignedXidsRemove
        (if xid ≠ 0 then knownAssignedXidsRemove a xid else a)) (r.next a.max (.removeTree xid subxids before after)) l₁ ∧
        (subxids.foldl knownAssignedXidsRemove (if xid ≠ 0 then knownAssignedXidsRemove a xid else a)).max = a.max := by
      split
      · exact h.removeAll (xid :: subxids)
      · next hzero =>
        -- no entry is invalid
        rw [not_not] at hzero
        obtain ⟨l₁, hinv, hmax⟩ := h.removeAll subxids
        refine ⟨l₁, ?_, hmax⟩
        obtain ⟨base, hord, -⟩ := h.order
        have hsame : r.live.filter (· ∉ xid :: subxids) = r.live.filter (· ∉ subxids) := by
          refine List.filter_congr fun x hx => decide_eq_decide.mpr ?_
          rw [← h.live] at hx
          have hnormal := (hord.near x ((liveXids_sublist l).subset hx)).normal
          have hne : x ≠ xid := fun heq => by
            rw [heq, hzero] at hnormal
            exact Bool.false_ne_true hnormal
          rw [List.mem_cons, not_or]
          exact and_iff_right hne
        rw [Running.next, hsame]
        exact hinv
    obtain ⟨l', hinv, hmax'⟩ := hrest.compress .transactionEnd before after
    exact ⟨_, none, l', rfl, hinv, hmax'.trans hmax, hquiet⟩
  | removePreceding isPrepared removeXid before after =>
    by_cases hzero : removeXid = 0
    · refine ⟨_, none, [], rfl, ?_, ?_, hquiet⟩
      · rw [knownAssignedXidsRemovePreceding, if_pos hzero, Running.next, if_pos hzero]
        have hempty : Holds { a with num := 0, head := 0, tail := 0 } [] := ⟨le_rfl, Nat.zero_le _, rfl, rfl⟩
        exact h.shrink hempty (List.nil_sublist _) fun e he => by cases he
      · rw [knownAssignedXidsRemovePreceding, if_pos hzero]
    · obtain ⟨l', hinv, hmax⟩ := h.removePreceding isPrepared hzero (hallows.resolve_left hzero) before after
      refine ⟨_, none, l', rfl, ?_, hmax, hquiet⟩
      rw [Running.next, if_neg hzero]
      exact hinv
  | compress reason before after =>
    obtain ⟨l', hinv, hmax⟩ := h.compress reason before after
    exact ⟨_, none, l', rfl, hinv, hmax, hquiet⟩

structure IsRunningSet (a : KnownAssignedXids) (r : Running) : Prop where
  ordered : (xidsOf (entries a)).Pairwise fun x y => transactionIdPrecedes x y = true
  count : a.num = validCount (entries a)
  found : ∀ x, knownAssignedXidExists a x = true ↔ x ∈ r.live
  read : ∀ xmin xmax, xmax = 0 ∨ Near r.live xmax → knownAssignedXidsGetAndSetXmin a xmin xmax =
    (r.live.filter (belowXmax xmax),
      if ∃ oldest ∈ r.live.head?, transactionIdPrecedes oldest xmin = true then r.live.headD xmin else xmin)

theorem precedes_zero {xs : List TransactionId} (hord : Ordered base xs) :
    xs.Pairwise fun x y => transactionIdPrecedes y 0 = true → transactionIdPrecedes x 0 = true := by
  refine hord.order.imp fun _ hprec => absurd hprec ?_
  rw [transactionIdPrecedes, show transactionIdIsNormal 0 = false from rfl, Bool.not_false, Bool.or_true, if_pos rfl,
    decide_eq_true_iff]
  exact UInt32.not_lt.mpr (UInt32.le_iff_toNat_le.mpr (Nat.zero_le _))

theorem Inv.isRunningSet (h : Inv a r l) : IsRunningSet a r := by
  obtain ⟨base, hord, -⟩ := h.order
  have hlive : Ordered base r.live := h.live ▸ hord.sublist (liveXids_sublist l)
  refine ⟨?_, ?_, fun x => ?_, fun xmin xmax hmax => ?_⟩
  · rw [h.holds.entries]
    exact (precedes_ordered hord).imp And.left
  · rw [h.holds.entries]
    exact h.holds.count
  · rw [exists_iff h.holds hord, h.live]
  · have hdown : r.live.Pairwise fun x y =>
        transactionIdPrecedes y xmax = true → transactionIdPrecedes x xmax = true := by
      rcases hmax with rfl | hnear
      · exact precedes_zero hlive
      · exact hnear.downward hlive
    rw [knownAssignedXidsGetAndSetXmin, h.holds.entries, getLoop_spec xmax (h.live ▸ hdown), h.live, List.nil_append]
    refine congrArg _ (if_congr ?_ rfl rfl)
    exact and_iff_right rfl

def Step (s : KnownAssignedXids × Running) (c : Call) (s' : KnownAssignedXids × Running) : Prop :=
  s.2.Allows c ∧ (∃ err, s.1.step c = some (s'.1, err)) ∧ s'.2 = s.2.next s.1.max c

theorem created_inv (procArrayMaxProcs : Nat) (cells : Nat → Entry) :
    Inv (created procArrayMaxProcs cells) ⟨[], 0⟩ [] where
  holds := ⟨le_rfl, Nat.zero_le _, rfl, rfl⟩
  live := rfl
  oldest e he := by cases he
  order := ⟨0, Ordered.nil 0, fun x hx => absurd hx List.not_mem_nil⟩

/-- While the ends of the added ranges fit an `int`, the array is the set of running transactions, and an xid is refused
only for lack of room. -/
theorem knownAssignedXids_running {procArrayMaxProcs : Nat} {cells : Nat → Entry} {calls : List Call}
    (hrun : Steps (fun s c s' => s.1.Fits c ∧ Step s c s') (created procArrayMaxProcs cells, ⟨[], 0⟩) calls (a, r)) :
    IsRunningSet a r ∧ ∀ c, r.Allows c → a.Fits c →
      ∃ a' err, a.step c = some (a', err) ∧ IsRunningSet a' (r.next a.max c) ∧
        ∀ e ∈ err, e = .tooMany ∧ r.Exceeds a.max c := by
  obtain ⟨l, hinv⟩ : ∃ l, Inv a r l := by
    refine hrun.invariant (P := fun s => ∃ l, Inv s.1 s.2 l) ?_ ⟨[], created_inv procArrayMaxProcs cells⟩
    rintro ⟨a₁, r₁⟩ c ⟨a₂, r₂⟩ ⟨l₁, hinv⟩ ⟨hfits, hallows, ⟨err, hstep⟩, hnext⟩
    obtain ⟨a', err', l', hstep', hinv', -⟩ := hinv.step hallows hfits
    cases hstep.symm.trans hstep'
    exact ⟨l', hnext ▸ hinv'⟩
  refine ⟨hinv.isRunningSet, fun c hallows hfits => ?_⟩
  obtain ⟨a', err, l', hstep, hinv', -, herr⟩ := hinv.step hallows hfits
  exact ⟨a', err, hstep, hinv'.isRunningSet, herr⟩

def twoAdded : KnownAssignedXids :=
  { created 1 fun _ => ⟨0, false⟩ with
    num := 2
    head := 2
    cells := Function.update (Function.update (fun _ => ⟨0, false⟩) 0 ⟨3, true⟩) 1 ⟨4, true⟩ }

theorem two_fit : (created 1 fun _ => ⟨0, false⟩).Fits (.add 3 4 0 0) := by
  unfold KnownAssignedXids.Fits
  decide

theorem knownAssignedXids_running_two : IsRunningSet twoAdded ⟨[3, 4], 4⟩ ∧
    ∀ c, Running.Allows ⟨[3, 4], 4⟩ c → twoAdded.Fits c →
      ∃ a' err, twoAdded.step c = some (a', err) ∧ IsRunningSet a' (Running.next 65 ⟨[3, 4], 4⟩ c) ∧
        ∀ e ∈ err, e = .tooMany ∧ Running.Exceeds 65 ⟨[3, 4], 4⟩ c :=
  @knownAssignedXids_running twoAdded ⟨[3, 4], 4⟩ 1 (fun _ => ⟨0, false⟩) [.add 3 4 0 0]
    (.cons ⟨two_fit, ⟨by decide, by decide, by decide, by decide, fun _ h => by cases h⟩, ⟨none, rfl⟩, rfl⟩ (.nil _))

/-- 2^31 xids are counted as a negative number. -/
theorem range_overflows : ¬ ∀ procArrayMaxProcs cells calls a r,
    Steps Step (created procArrayMaxProcs cells, ⟨[], 0⟩) calls (a, r) → IsRunningSet a r := by
  intro hclaim
  obtain ⟨a, hnum, hstep⟩ : ∃ a, a.num = -2147483648 ∧
      (created 1 fun _ => ⟨0, false⟩).step (.add 3 2147483650 0 0) = some (a, none) := by
    have hcount : nxids 3 2147483650 = -2147483648 := by decide +kernel
    rw [KnownAssignedXids.step, knownAssignedXidsAdd, hcount]
    exact ⟨_, rfl, rfl⟩
  have hallows : Running.Allows ⟨[], 0⟩ (.add 3 2147483650 0 0) :=
    ⟨by decide, by decide, by decide, by decide, fun _ h => by cases h⟩
  obtain ⟨r, hr⟩ : ∃ r, r = Running.next 65 ⟨[], 0⟩ (.add 3 2147483650 0 0) := ⟨_, rfl⟩
  have hone : Step (created 1 fun _ => ⟨0, false⟩, ⟨[], 0⟩) (.add 3 2147483650 0 0) (a, r) :=
    ⟨hallows, ⟨none, hstep⟩, hr⟩
  have hcount := (hclaim 1 _ _ a r (.cons hone (.nil _))).count
  rw [hnum] at hcount
  cases hcount

end CdcKafka.ProcArray
