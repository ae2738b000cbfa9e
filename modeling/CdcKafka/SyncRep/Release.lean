import Mathlib.Data.Finset.Card
import Mathlib.Data.List.GetD
import Mathlib.Data.List.TakeWhile
import CdcKafka.SyncRep.State

/-! The synchronous standbys, and what the positions computed from theirs say about them. -/

namespace CdcKafka.SyncRep

variable {cfg : Config} {walsnds : List WalSnd} {me : Nat} {mode : Mode} {x y : Lsn} {d e : StandbyData}

theorem mem_collect {walsnds : List WalSnd} {k : Nat} : d ∈ collect me walsnds k ↔
      ∃ i w, walsnds[i]? = some w ∧ w.isCandidate = true ∧ d = ⟨w.position, w.syncStandbyPriority, k + i, k + i == me⟩ := by
  induction walsnds generalizing k with
  | nil => simp [collect]
  | cons v walsnds ih =>
    have hrest : (∃ i w, (v :: walsnds)[i]? = some w ∧ w.isCandidate = true ∧
        d = ⟨w.position, w.syncStandbyPriority, k + i, k + i == me⟩) ↔
        (v.isCandidate = true ∧ d = ⟨v.position, v.syncStandbyPriority, k, k == me⟩) ∨ d ∈ collect me walsnds (k + 1) := by
      rw [ih]
      constructor
      · rintro ⟨i, w, hw, hcandidate, hd⟩
        cases i with
        | zero =>
          obtain rfl : v = w := by simpa using hw
          exact .inl ⟨hcandidate, hd⟩
        | succ i =>
          refine .inr ⟨i, w, by simpa using hw, hcandidate, ?_⟩
          rw [hd, Nat.add_right_comm k 1 i, Nat.add_assoc k i 1]
      · rintro (⟨hcandidate, hd⟩ | ⟨i, w, hw, hcandidate, hd⟩)
        · exact ⟨0, v, rfl, hcandidate, hd⟩
        · refine ⟨i + 1, w, by simpa using hw, hcandidate, ?_⟩
          rw [hd, Nat.add_right_comm k 1 i, Nat.add_assoc k i 1]
    rw [hrest, collect]
    split
    · next hcandidate => simp [hcandidate]
    · next hcandidate => simp [hcandidate]

theorem pairwise_collect (me : Nat) (walsnds : List WalSnd) (k : Nat) :
    (collect me walsnds k).Pairwise fun a b => a.walsndIndex < b.walsndIndex := by
  induction walsnds generalizing k with
  | nil => exact .nil
  | cons v walsnds ih =>
    rw [collect]
    split
    · refine .cons (fun d hd => ?_) (ih (k + 1))
      obtain ⟨i, w, -, -, rfl⟩ := mem_collect.mp hd
      show k < k + 1 + i
      omega
    · exact ih (k + 1)

theorem nodup_collect (me : Nat) (walsnds : List WalSnd) : ((collect me walsnds 0).map StandbyData.walsndIndex).Nodup :=
  List.pairwise_map.mpr ((pairwise_collect me walsnds 0).imp Nat.ne_of_lt)

instance : Std.Total standbyPriorityLe where
  total a b := by
    simp only [standbyPriorityLe]
    omega

instance : IsTrans StandbyData standbyPriorityLe where
  trans a b c hab hbc := by
    simp only [standbyPriorityLe] at hab hbc ⊢
    omega

def IsDataOf (walsnds : List WalSnd) (d : StandbyData) : Prop :=
  ∃ w, walsnds[d.walsndIndex]? = some w ∧ w.isCandidate = true ∧ d.position = w.position ∧
    d.syncStandbyPriority = w.syncStandbyPriority

theorem isDataOf_of_mem_collect (hd : d ∈ collect me walsnds 0) : IsDataOf walsnds d := by
  obtain ⟨i, w, hw, hcandidate, rfl⟩ := mem_collect.mp hd
  exact ⟨w, by simpa using hw, hcandidate, rfl, rfl⟩

theorem subperm_candidates (cfg : Config) (walsnds : List WalSnd) (me : Nat) :
    List.Subperm (syncRepGetCandidateStandbys cfg walsnds me) (collect me walsnds 0) := by
  rw [syncRepGetCandidateStandbys]
  split
  · exact (List.take_sublist _ _).subperm.trans (List.perm_insertionSort standbyPriorityLe _).subperm
  · exact List.Subperm.refl _

theorem isDataOf_of_selected (hd : d ∈ syncRepGetCandidateStandbys cfg walsnds me) : IsDataOf walsnds d :=
  isDataOf_of_mem_collect ((subperm_candidates cfg walsnds me).subset hd)

theorem nodup_selected (cfg : Config) (walsnds : List WalSnd) (me : Nat) :
    ((syncRepGetCandidateStandbys cfg walsnds me).map StandbyData.walsndIndex).Nodup := by
  obtain ⟨l, hperm, hsub⟩ := subperm_candidates cfg walsnds me
  exact (hperm.map _).nodup_iff.mp ((nodup_collect me walsnds).sublist (hsub.map _))

theorem length_selected (hpriority : cfg.syncrepMethod = .priority) :
    (syncRepGetCandidateStandbys cfg walsnds me).length ≤ cfg.numSync := by
  rw [syncRepGetCandidateStandbys]
  split
  · exact List.length_take_le _ _
  · next hfew => exact Nat.le_of_not_lt fun hlt => hfew ⟨hpriority, hlt⟩

theorem selected_before (hd : d ∈ syncRepGetCandidateStandbys cfg walsnds me) (he : e ∈ collect me walsnds 0)
    (hout : e ∉ syncRepGetCandidateStandbys cfg walsnds me) : standbyPriorityLe d e := by
  rw [syncRepGetCandidateStandbys] at hd hout
  split at hd
  · next hmany =>
    rw [if_pos hmany] at hout
    have hsorted := List.pairwise_insertionSort standbyPriorityLe (collect me walsnds 0)
    rw [← List.take_append_drop cfg.numSync (List.insertionSort _ _), List.pairwise_append] at hsorted
    refine hsorted.2.2 d hd e ?_
    have hmem := (List.mem_insertionSort standbyPriorityLe).mpr he
    rw [← List.take_append_drop cfg.numSync (List.insertionSort _ _), List.mem_append] at hmem
    exact hmem.resolve_left hout
  · next hfew =>
    rw [if_neg hfew] at hout
    exact absurd he hout

theorem older_ne_zero (hy : y ≠ 0) : older x y ≠ 0 := by
  rw [older]
  split
  · exact hy
  · next h => exact fun hx => h (.inl hx)

theorem older_le (hx : x ≠ 0) : older x y ≤ x ∧ older x y ≤ y := by
  rw [older]
  split
  · next h =>
    have hlt : y < x := h.resolve_left hx
    exact ⟨UInt64.le_of_lt hlt, UInt64.le_refl _⟩
  · next h =>
    have hle : x ≤ y := UInt64.not_lt.mp fun hlt => h (.inr hlt)
    exact ⟨UInt64.le_refl _, hle⟩

theorem older_zero (x : Lsn) : older x 0 = 0 := by
  rw [older]
  split
  · rfl
  · next h =>
    have hzero : ¬ x ≠ 0 := fun hx => h (.inr (UInt64.pos_iff_ne_zero.mpr hx))
    exact not_not.mp hzero

theorem foldl_older_le (l : List Lsn) (hx : x ≠ 0) (hl : ∀ y ∈ l, y ≠ 0) :
    l.foldl older x ≤ x ∧ ∀ y ∈ l, l.foldl older x ≤ y := by
  induction l generalizing x with
  | nil => exact ⟨UInt64.le_refl _, fun y hy => by cases hy⟩
  | cons z l ih =>
    obtain ⟨hlex, hlez⟩ := older_le (y := z) hx
    have hne : older x z ≠ 0 := older_ne_zero (hl z List.mem_cons_self)
    obtain ⟨hle, hrest⟩ := ih hne fun y hy => hl y (List.mem_cons_of_mem z hy)
    refine ⟨UInt64.le_trans hle hlex, fun y hy => ?_⟩
    rcases List.mem_cons.mp hy with rfl | hy
    · exact UInt64.le_trans hle hlez
    · exact hrest y hy

theorem oldest_le (standbys : List StandbyData) (hvalid : ∀ d ∈ standbys, d.position mode ≠ 0) :
    ∀ d ∈ standbys, syncRepGetOldestSyncRecPtr standbys mode ≤ d.position mode := by
  intro d hd
  cases standbys with
  | nil => cases hd
  | cons a standbys =>
    have hfirst : older 0 (a.position mode) = a.position mode := if_pos (.inl rfl)
    have hl : ∀ y ∈ standbys.map fun d => d.position mode, y ≠ 0 := by
      intro y hy
      obtain ⟨b, hb, rfl⟩ := List.mem_map.mp hy
      exact hvalid b (List.mem_cons_of_mem a hb)
    obtain ⟨hle, hrest⟩ := foldl_older_le (standbys.map fun d => d.position mode) (hvalid a List.mem_cons_self) hl
    rw [syncRepGetOldestSyncRecPtr, List.map_cons, List.foldl_cons, hfirst]
    rcases List.mem_cons.mp hd with rfl | hd
    · exact hle
    · exact hrest _ (List.mem_map_of_mem hd)

theorem oldest_of_last (standbys : List StandbyData) (hlast : d ∈ standbys.getLast?) (hzero : d.position mode = 0) :
    syncRepGetOldestSyncRecPtr standbys mode = 0 := by
  obtain ⟨front, rfl⟩ := List.getLast?_eq_some_iff.mp hlast
  rw [syncRepGetOldestSyncRecPtr, List.map_append, List.foldl_append, List.map_singleton, List.foldl_cons, hzero,
    older_zero, List.foldl_nil]

theorem le_countP_getD {l : List Lsn} (hsorted : l.Pairwise fun a b => b ≤ a) {n : Nat} (hn : 0 < n) (hlen : n ≤ l.length) :
    n ≤ l.countP fun y => l.getD (n - 1) 0 ≤ y := by
  have htake : ∀ y ∈ l.take n, l.getD (n - 1) 0 ≤ y := by
    intro y hy
    obtain ⟨i, hi, rfl⟩ := List.mem_iff_getElem.mp hy
    rw [List.length_take] at hi
    rw [List.getElem_take, List.getD_eq_getElem _ _ (by omega)]
    rcases Nat.lt_or_ge i (n - 1) with hlt | hge
    · exact List.pairwise_iff_getElem.mp hsorted i (n - 1) (by omega) (by omega) hlt
    · obtain rfl : i = n - 1 := by omega
      exact UInt64.le_refl _
  calc n = (l.take n).length := by rw [List.length_take, Nat.min_eq_left hlen]
    _ = (l.take n).countP fun y => l.getD (n - 1) 0 ≤ y := by
      refine (List.countP_eq_length.mpr fun y hy => ?_).symm
      exact decide_eq_true (htake y hy)
    _ ≤ l.countP fun y => l.getD (n - 1) 0 ≤ y := (List.take_sublist n l).countP_le

instance : Std.Total (fun a b : Lsn => b ≤ a) := ⟨fun a b => UInt64.le_total b a⟩

instance : IsTrans Lsn (fun a b => b ≤ a) := ⟨fun _ _ _ hab hbc => UInt64.le_trans hbc hab⟩

theorem le_countP_nthLatest (standbys : List StandbyData) {nth : UInt8} (hnth : nth ≠ 0)
    (hlen : nth.toNat ≤ standbys.length) (stray : Lsn) (mode : Mode) :
    nth.toNat ≤ standbys.countP fun d => syncRepGetNthLatestSyncRecPtr standbys nth stray mode ≤ d.position mode := by
  have hsorted := List.pairwise_insertionSort (fun a b : Lsn => b ≤ a) (standbys.map fun d => d.position mode)
  have hperm := List.perm_insertionSort (fun a b : Lsn => b ≤ a) (standbys.map fun d => d.position mode)
  have hpos : 0 < nth.toNat := UInt8.pos_iff_ne_zero.mpr hnth
  have hcount := le_countP_getD hsorted hpos (by rw [hperm.length_eq, List.length_map]; exact hlen)
  rw [hperm.countP_eq, List.countP_map] at hcount
  rw [syncRepGetNthLatestSyncRecPtr, if_neg hnth]
  exact hcount

end CdcKafka.SyncRep

/-! A backend that is let go waits for no more than what enough standbys had reported, and the
queues keep their order. -/

namespace CdcKafka.SyncRep

open CdcKafka.Lib

variable {cfg : Config} {s t : State} {me p : Nat} {mode mode' : Mode} {x y position : Lsn} {stray : Mode → Lsn}

def Reported (s : State) (mode : Mode) (x : Lsn) (i : Nat) : Prop :=
  ∃ w, s.walsnds[i]? = some w ∧ w.isCandidate = true ∧ x ≤ w.position mode

def Outranks (s : State) (i j : Nat) : Prop :=
  ∀ v w, s.walsnds[i]? = some v → s.walsnds[j]? = some w → w.isCandidate = true →
    v.syncStandbyPriority < w.syncStandbyPriority ∨ v.syncStandbyPriority = w.syncStandbyPriority ∧ i < j

def Acknowledged (cfg : Config) (s : State) (mode : Mode) (x : Lsn) : Prop :=
  ∃ standbys : Finset Nat, cfg.numSync ≤ standbys.card ∧ (∀ i ∈ standbys, Reported s mode x i) ∧
    (cfg.syncrepMethod = .priority → standbys.card = cfg.numSync ∧ ∀ i ∈ standbys, ∀ j, j ∉ standbys → Outranks s i j)

theorem Acknowledged.mono (h : Acknowledged cfg s mode y) (hle : x ≤ y) : Acknowledged cfg s mode x := by
  obtain ⟨standbys, hcard, hreported, hfirst⟩ := h
  refine ⟨standbys, hcard, fun i hi => ?_, hfirst⟩
  obtain ⟨w, hw, hcandidate, hpos⟩ := hreported i hi
  exact ⟨w, hw, hcandidate, UInt64.le_trans hle hpos⟩

/-- Where the waiters are released: in priority mode, an invalid position of a synchronous standby
comes with one of the last of them; in quorum mode, the number of standbys fits in eight bits. -/
def Allowed (cfg : Config) (s : State) : Event → Prop
  | .releaseWaiters i _ =>
    (cfg.syncrepMethod = .priority → ∀ mode, ∀ d ∈ (syncRepGetCandidateStandbys cfg s.walsnds i).getLast?,
      d.position mode ≠ 0 → ∀ e ∈ syncRepGetCandidateStandbys cfg s.walsnds i, e.position mode ≠ 0) ∧
    (cfg.syncrepMethod = .quorum → cfg.numSync < 256)
  | _ => True

theorem acknowledged_of_priority (hpriority : cfg.syncrepMethod = .priority)
    (hlen : cfg.numSync ≤ (syncRepGetCandidateStandbys cfg s.walsnds me).length)
    (hpos : ∀ d ∈ syncRepGetCandidateStandbys cfg s.walsnds me, x ≤ d.position mode) : Acknowledged cfg s mode x := by
  have hcard : ((syncRepGetCandidateStandbys cfg s.walsnds me).map StandbyData.walsndIndex).toFinset.card =
      (syncRepGetCandidateStandbys cfg s.walsnds me).length := by
    rw [List.toFinset_card_of_nodup (nodup_selected cfg s.walsnds me), List.length_map]
  refine ⟨_, hcard ▸ hlen, fun i hi => ?_, fun _ => ⟨?_, fun i hi j hj v w hv hw hcandidate => ?_⟩⟩
  · obtain ⟨d, hd, rfl⟩ := List.mem_map.mp (List.mem_toFinset.mp hi)
    obtain ⟨w, hw, hcandidate, hposition, -⟩ := isDataOf_of_selected hd
    exact ⟨w, hw, hcandidate, hposition ▸ hpos d hd⟩
  · rw [hcard]
    exact Nat.le_antisymm (length_selected hpriority) hlen
  · obtain ⟨d, hd, rfl⟩ := List.mem_map.mp (List.mem_toFinset.mp hi)
    obtain ⟨w', hw', -, -, hprio⟩ := isDataOf_of_selected hd
    obtain rfl : w' = v := Option.some.inj (hw'.symm.trans hv)
    have he : (⟨w.position, w.syncStandbyPriority, j, j == me⟩ : StandbyData) ∈ collect me s.walsnds 0 :=
      mem_collect.mpr ⟨j, w, hw, hcandidate, by rw [Nat.zero_add]⟩
    have hout : (⟨w.position, w.syncStandbyPriority, j, j == me⟩ : StandbyData) ∉
        syncRepGetCandidateStandbys cfg s.walsnds me := by
      intro hmem
      exact hj (List.mem_toFinset.mpr (List.mem_map.mpr ⟨_, hmem, rfl⟩))
    have hne : d.walsndIndex ≠ j := fun heq => hj (heq ▸ hi)
    rw [← hprio]
    rcases selected_before hd he hout with hlt | ⟨heq, hle⟩
    · exact .inl hlt
    · exact .inr ⟨heq, Nat.lt_of_le_of_ne hle hne⟩

theorem acknowledged_of_quorum (hquorum : cfg.syncrepMethod = .quorum)
    (hcount : cfg.numSync ≤ (syncRepGetCandidateStandbys cfg s.walsnds me).countP fun d => x ≤ d.position mode) :
    Acknowledged cfg s mode x := by
  have hnodup : (((syncRepGetCandidateStandbys cfg s.walsnds me).filter fun d => x ≤ d.position mode).map
      StandbyData.walsndIndex).Nodup :=
    (nodup_selected cfg s.walsnds me).sublist (List.filter_sublist.map _)
  refine ⟨(((syncRepGetCandidateStandbys cfg s.walsnds me).filter fun d => x ≤ d.position mode).map
    StandbyData.walsndIndex).toFinset, ?_, fun i hi => ?_, fun hpriority => ?_⟩
  · rw [List.toFinset_card_of_nodup hnodup, List.length_map, ← List.countP_eq_length_filter]
    exact hcount
  · obtain ⟨d, hd, rfl⟩ := List.mem_map.mp (List.mem_toFinset.mp hi)
    obtain ⟨hmem, hpos⟩ := List.mem_filter.mp hd
    obtain ⟨w, hw, hcandidate, hposition, -⟩ := isDataOf_of_selected hmem
    exact ⟨w, hw, hcandidate, hposition ▸ of_decide_eq_true hpos⟩
  · rw [hquorum] at hpriority
    cases hpriority

theorem acknowledged_of_synced {positions : Mode → Lsn} (hallowed : Allowed cfg s (.releaseWaiters me stray))
    (hsynced : syncRepGetSyncRecPtr cfg s.walsnds me stray = some positions) (hvalid : positions mode ≠ 0) :
    Acknowledged cfg s mode (positions mode) := by
  rw [syncRepGetSyncRecPtr] at hsynced
  split at hsynced
  · cases hsynced
  · next henough =>
    rw [Bool.or_eq_true, not_or, decide_eq_true_iff, Nat.not_lt] at henough
    have hlen := henough.2
    obtain rfl := Option.some.inj hsynced
    cases hmethod : cfg.syncrepMethod with
    | priority =>
      simp only [hmethod] at hvalid ⊢
      have hnonempty : syncRepGetCandidateStandbys cfg s.walsnds me ≠ [] := by
        intro hnil
        rw [hnil, List.length_nil] at hlen
        exact absurd cfg.pos (Nat.not_lt.mpr hlen)
      have hlast := List.getLast?_eq_some_getLast hnonempty
      -- a valid result means that the last standby's position is valid, and so are all
      have hlastValid : ((syncRepGetCandidateStandbys cfg s.walsnds me).getLast hnonempty).position mode ≠ 0 :=
        fun hzero => hvalid (oldest_of_last _ hlast hzero)
      have hall := hallowed.1 hmethod mode _ hlast hlastValid
      exact acknowledged_of_priority hmethod hlen (oldest_le _ hall)
    | quorum =>
      simp only [hmethod] at hvalid ⊢
      have hsmall := hallowed.2 hmethod
      have hnth : (UInt8.ofNat cfg.numSync).toNat = cfg.numSync := by
        rw [UInt8.toNat_ofNat']
        exact Nat.mod_eq_of_lt hsmall
      have hne : UInt8.ofNat cfg.numSync ≠ 0 := by
        intro hzero
        rw [hzero] at hnth
        exact absurd hnth.symm (Nat.ne_of_gt cfg.pos)
      have hcount := le_countP_nthLatest (syncRepGetCandidateStandbys cfg s.walsnds me) hne (hnth.symm ▸ hlen)
        (stray mode) mode
      rw [hnth] at hcount
      exact acknowledged_of_quorum hmethod hcount

theorem releaseMode_lsn_self (s : State) (mode : Mode) (position : Lsn) :
    (releaseMode s mode position).1.lsn mode = s.lsn mode ∨
      (releaseMode s mode position).1.lsn mode = position ∧ position ≠ 0 := by
  rw [releaseMode]
  split
  · next hlt =>
    refine .inr ⟨Function.update_self _ _ _, fun hzero => ?_⟩
    rw [hzero] at hlt
    exact UInt64.not_lt_zero hlt
  · exact .inl rfl

theorem releaseMode_lsn_of_ne (s : State) (position : Lsn) (hne : mode' ≠ mode) :
    (releaseMode s mode position).1.lsn mode' = s.lsn mode' := by
  rw [releaseMode]
  split
  · exact Function.update_of_ne hne _ _
  · rfl

theorem releaseMode_released {r : Released} (hr : r ∈ (releaseMode s mode position).2) :
    r.1 = mode ∧ r.2 ≤ (releaseMode s mode position).1.lsn mode := by
  rw [releaseMode] at hr ⊢
  split at hr
  · next hlt =>
    rw [if_pos hlt]
    obtain ⟨p, hp, rfl⟩ := List.mem_map.mp hr
    have hwoken := List.mem_takeWhile_imp hp
    rw [Bool.not_eq_true', decide_eq_false_iff_not, UInt64.not_lt] at hwoken
    exact ⟨rfl, hwoken⟩
  · cases hr

/-- A step moves the stored positions only to what was acknowledged before it, and lets no
backend go that waits for more than them. -/
structure Sound (cfg : Config) (s t : State) (released : List Released) : Prop where
  lsn : ∀ mode, t.lsn mode = s.lsn mode ∨ Acknowledged cfg s mode (t.lsn mode)
  le : ∀ r ∈ released, r.2 ≤ t.lsn r.1

theorem sound_of_lsn (hlsn : t.lsn = s.lsn) : Sound cfg s t [] :=
  ⟨fun mode => .inl (congrFun hlsn mode), fun r hr => by cases hr⟩

theorem sound_releaseWaiters (hallowed : Allowed cfg s (.releaseWaiters me stray)) :
    Sound cfg s (syncRepReleaseWaiters cfg s me stray).1 (syncRepReleaseWaiters cfg s me stray).2 := by
  rw [syncRepReleaseWaiters]
  split
  · cases hsynced : syncRepGetSyncRecPtr cfg s.walsnds me stray with
    | none => exact sound_of_lsn rfl
    | some positions =>
      have hack : ∀ mode, positions mode ≠ 0 → Acknowledged cfg s mode (positions mode) :=
        fun _ hvalid => acknowledged_of_synced hallowed hsynced hvalid
      dsimp only
      have hof : ∀ (u : State) (mode : Mode), u.lsn mode = s.lsn mode →
          (releaseMode u mode (positions mode)).1.lsn mode = s.lsn mode ∨
            Acknowledged cfg s mode ((releaseMode u mode (positions mode)).1.lsn mode) := by
        intro u mode hu
        rcases releaseMode_lsn_self u mode (positions mode) with hsame | ⟨hmoved, hvalid⟩
        · exact .inl (hsame.trans hu)
        · exact .inr (hmoved.symm ▸ hack mode hvalid)
      refine ⟨fun mode => ?_, fun r hr => ?_⟩
      · cases mode with
        | write =>
          rw [releaseMode_lsn_of_ne _ _ (by decide), releaseMode_lsn_of_ne _ _ (by decide)]
          exact hof s .write rfl
        | flush =>
          rw [releaseMode_lsn_of_ne _ _ (by decide)]
          exact hof _ .flush (releaseMode_lsn_of_ne _ _ (by decide))
        | apply =>
          refine hof _ .apply ?_
          rw [releaseMode_lsn_of_ne _ _ (by decide), releaseMode_lsn_of_ne _ _ (by decide)]
      · rcases List.mem_append.mp hr with hr | hr
        · rcases List.mem_append.mp hr with hr | hr
          · obtain ⟨hmode, hle⟩ := releaseMode_released hr
            rw [hmode, releaseMode_lsn_of_ne _ _ (by decide), releaseMode_lsn_of_ne _ _ (by decide)]
            exact hle
          · obtain ⟨hmode, hle⟩ := releaseMode_released hr
            rw [hmode, releaseMode_lsn_of_ne _ _ (by decide)]
            exact hle
        · obtain ⟨hmode, hle⟩ := releaseMode_released hr
          rw [hmode]
          exact hle
  · exact sound_of_lsn rfl

theorem sound_waitForLSN (lsn : Lsn) (waitMode : Mode) (commit : Bool) :
    Sound cfg s (syncRepWaitForLSN s me lsn waitMode commit).1 (syncRepWaitForLSN s me lsn waitMode commit).2 := by
  rw [syncRepWaitForLSN]
  by_cases hle : lsn ≤ s.lsn (if commit = true then waitMode else waitMode.capAtFlush)
  · simp only [if_pos hle]
    refine ⟨fun _ => .inl rfl, fun r hr => ?_⟩
    obtain rfl := List.mem_singleton.mp hr
    exact hle
  · simp only [if_neg hle]
    exact sound_of_lsn rfl

theorem sound_step {e : Event} {released : List Released} (hallowed : Allowed cfg s e)
    (hstep : step cfg s e = some (t, released)) : Sound cfg s t released := by
  cases e with
  | waitForLsn me lsn waitMode commit =>
    simp only [step] at hstep
    split at hstep
    · have heq := Option.some.inj hstep
      have hsound := @sound_waitForLSN cfg s me lsn waitMode commit
      rw [heq] at hsound
      exact hsound
    · cases hstep
  | leave me =>
    simp only [step] at hstep
    split at hstep
    · cases hstep
      exact sound_of_lsn rfl
    · cases hstep
  | cancelWait me =>
    simp only [step] at hstep
    split at hstep
    · cases hstep
      exact sound_of_lsn rfl
    · cases hstep
  | releaseWaiters i stray =>
    have heq := Option.some.inj hstep
    have hsound := sound_releaseWaiters hallowed
    rw [heq] at hsound
    exact hsound
  | start i pid =>
    cases hstep
    exact sound_of_lsn rfl
  | setState i state =>
    cases hstep
    exact sound_of_lsn rfl
  | initConfig i priority =>
    cases hstep
    exact sound_of_lsn rfl
  | reply i position =>
    cases hstep
    exact sound_of_lsn rfl
  | stop i =>
    cases hstep
    exact sound_of_lsn rfl

end CdcKafka.SyncRep
