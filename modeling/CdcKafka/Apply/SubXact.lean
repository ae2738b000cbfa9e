import CdcKafka.Apply.Effects
import CdcKafka.Lib.Rollback

/-! The changes file of a spooled transaction and its table of subtransactions, against the
list of changes they stand for, each with the subtransaction it belongs to. -/

namespace CdcKafka.Apply
open CdcKafka.Lib CdcKafka.Event CdcKafka.Json CdcKafka.Proto

abbrev Change := Nat × Bytes

def changesBytes (l : List Change) : Bytes := spoolBytes (l.map (·.2))

theorem changesBytes_append (l l' : List Change) : changesBytes (l ++ l') = changesBytes l ++ changesBytes l' := by
  simp [changesBytes, spoolBytes]

theorem changesBytes_singleton (p : Change) : changesBytes [p] = changeRecord p.2 := by
  simp [changesBytes, spoolBytes]

def addSubXact (x : Nat) (tab : List SubXactInfo) (sub offset : Nat) : List SubXactInfo :=
  if sub = x ∨ tab.any (·.xid = sub) = true then tab else tab ++ [{ xid := sub, offset := offset }]

/-- The subtransactions of `l` in the order of their first changes, with the offsets of these. -/
def firsts (x : Nat) (l : List Change) : List SubXactInfo :=
  (l.foldl (fun acc p => (addSubXact x acc.1 p.1 acc.2, acc.2 + (changeRecord p.2).length))
    (([] : List SubXactInfo), 0)).1

theorem firsts_fold (x : Nat) (l : List Change) :
    l.foldl (fun acc p => (addSubXact x acc.1 p.1 acc.2, acc.2 + (changeRecord p.2).length))
      (([] : List SubXactInfo), 0) = (firsts x l, (changesBytes l).length) := by
  induction l using List.reverseRecOn with
  | nil => rfl
  | append_singleton l p ih =>
    have hpair : ∀ a : List SubXactInfo × Nat, a = (a.1, a.2) := fun _ => rfl
    rw [hpair (List.foldl _ _ (l ++ [p]))]
    congr 1
    rw [List.foldl_append, ih, changesBytes_append, changesBytes_singleton, List.length_append]
    rfl

theorem firsts_append_singleton (x : Nat) (l : List Change) (p : Change) :
    firsts x (l ++ [p]) = addSubXact x (firsts x l) p.1 (changesBytes l).length := by
  unfold firsts
  rw [List.foldl_append, firsts_fold]
  rfl

theorem any_firsts (x : Nat) (l : List Change) (sub : Nat) :
    (firsts x l).any (·.xid = sub) = true ↔ sub ≠ x ∧ ∃ p ∈ l, p.1 = sub := by
  induction l using List.reverseRecOn generalizing sub with
  | nil => simp [firsts]
  | append_singleton l p ih =>
    have hmem : (∃ q ∈ l ++ [p], q.1 = sub) ↔ (∃ q ∈ l, q.1 = sub) ∨ p.1 = sub := by
      simp [or_and_right, exists_or]
    rw [firsts_append_singleton, hmem]
    unfold addSubXact
    split
    next hold =>
      rw [ih] at hold
      rw [ih]
      refine and_congr_right fun hne => ?_
      constructor
      · exact .inl
      · rintro (hl | rfl)
        · exact hl
        · rcases hold with heq | ⟨-, hl⟩
          · exact (hne heq).elim
          · exact hl
    next hnew =>
      rw [List.any_append, Bool.or_eq_true, ih]
      simp only [List.any_cons, List.any_nil, Bool.or_false, decide_eq_true_eq]
      constructor
      · rintro (⟨hne, hl⟩ | rfl)
        · exact ⟨hne, .inl hl⟩
        · exact ⟨fun heq => hnew (.inl heq), .inr rfl⟩
      · rintro ⟨hne, hl | rfl⟩
        · exact .inl ⟨hne, hl⟩
        · exact .inr rfl

theorem findSubxactFrom_append (tab tab' : List SubXactInfo) (sub : Nat) {n : Nat}
    (hn : n ≤ tab.length) : findSubxactFrom (tab ++ tab') sub n = findSubxactFrom tab sub n := by
  induction n with
  | zero => rfl
  | succ n ih =>
    unfold findSubxactFrom
    rw [List.getElem?_append_left hn, ih (Nat.le_of_lt hn)]

theorem findSubxact_append_singleton (tab : List SubXactInfo) (e : SubXactInfo) (sub : Nat) :
    findSubxact (tab ++ [e]) sub = if e.xid = sub then some tab.length else findSubxact tab sub := by
  have hlast : (tab ++ [e])[tab.length]? = some e := by simp
  unfold findSubxact
  rw [List.length_append, List.length_singleton, findSubxactFrom, hlast,
    findSubxactFrom_append tab [e] sub (Nat.le_refl _)]
  simp

theorem findSubxactFrom_some {tab : List SubXactInfo} {sub n i : Nat}
    (h : findSubxactFrom tab sub n = some i) : i < n ∧ (tab[i]?).any (·.xid = sub) = true := by
  induction n with
  | zero => cases h
  | succ n ih =>
    unfold findSubxactFrom at h
    split at h
    next hany =>
      obtain rfl := Option.some.inj h
      exact ⟨Nat.lt_succ_self _, hany⟩
    next =>
      obtain ⟨hlt, hany⟩ := ih h
      exact ⟨Nat.lt_succ_of_lt hlt, hany⟩

theorem findSubxact_eq_none {tab : List SubXactInfo} {sub : Nat} :
    findSubxact tab sub = none ↔ tab.any (·.xid = sub) = false := by
  induction tab using List.reverseRecOn with
  | nil => simp [findSubxact, findSubxactFrom]
  | append_singleton tab e ih =>
    rw [findSubxact_append_singleton, List.any_append]
    by_cases he : e.xid = sub
    · simp [he]
    · rw [if_neg he, ih]
      simp [he]

theorem findSubxact_firsts {x sub : Nat} {l : List Change} (hsub : sub ≠ x) {i : Nat}
    (hfind : findSubxact (firsts x l) sub = some i) :
    ((firsts x l)[i]?).elim 0 (·.offset) = (changesBytes (beforeSub l sub)).length ∧
      (firsts x l).take i = firsts x (beforeSub l sub) := by
  induction l using List.reverseRecOn generalizing i with
  | nil => cases hfind
  | append_singleton l p ih =>
    rw [firsts_append_singleton] at hfind ⊢
    by_cases hmem : ∃ q ∈ l, q.1 = sub
    · rw [beforeSub_append_of_mem hmem]
      unfold addSubXact at hfind ⊢
      split at hfind
      next hold =>
        rw [if_pos hold]
        exact ih hfind
      next hnew =>
        rw [if_neg hnew]
        have hany := (any_firsts x l sub).mpr ⟨hsub, hmem⟩
        have hp : ¬ p.1 = sub := by
          rintro rfl
          exact hnew (.inr hany)
        rw [findSubxact_append_singleton, if_neg hp] at hfind
        have hlt := (findSubxactFrom_some hfind).1
        rw [List.getElem?_append_left hlt, List.take_append_of_le_length (Nat.le_of_lt hlt)]
        exact ih hfind
    · have hnot : ∀ q ∈ l, q.1 ≠ sub := fun q hq heq => hmem ⟨q, hq, heq⟩
      have hlfind : findSubxact (firsts x l) sub = none := by
        rw [findSubxact_eq_none, Bool.eq_false_iff]
        exact fun hany => hmem ((any_firsts x l sub).mp hany).2
      unfold addSubXact at hfind ⊢
      split at hfind
      next => rw [hlfind] at hfind; cases hfind
      next hnew =>
        rw [if_neg hnew]
        rw [findSubxact_append_singleton] at hfind
        split at hfind
        next hp =>
          obtain rfl := Option.some.inj hfind
          have hbefore : beforeSub (l ++ [p]) sub = l := by
            have hall := beforeSub_of_not_mem hnot
            unfold beforeSub at hall ⊢
            rw [List.takeWhile_append, hall, if_pos rfl]
            have hp' : p.1 = sub := hp
            simp [hp']
          rw [hbefore]
          exact ⟨by simp, by simp⟩
        next => rw [hlfind] at hfind; cases hfind

theorem findSubxact_firsts_none {x sub : Nat} {l : List Change} (hsub : sub ≠ x)
    (hfind : findSubxact (firsts x l) sub = none) : beforeSub l sub = l := by
  refine beforeSub_of_not_mem fun p hp heq => ?_
  have hany := (any_firsts x l sub).mpr ⟨hsub, p, hp, heq⟩
  rw [findSubxact_eq_none.mp hfind] at hany
  cases hany

def State.diskTable (s : State) (x : Nat) : List SubXactInfo :=
  (s.subxactFile x).elim [] fun f => f.subxacts.take f.nsubxacts

def State.subxactTable (s : State) (x : Nat) : List SubXactInfo :=
  if s.streamFd = some x then s.subxactData.subxacts else s.diskTable x

structure Spooled (s : State) (x : Nat) (l : List Change) : Prop where
  file : s.changesFile x = some (changesBytes l)
  records : ∀ p ∈ l, IsChangeRecord p.2
  table : s.subxactTable x = firsts x l
  last : s.streamFd = some x → s.subxactData.subxactLast ≠ 0 →
    (firsts x l).any (·.xid = s.subxactData.subxactLast) = true

variable {s t : State} {x : Nat} {l : List Change}

theorem Spooled.isChangeRecord (h : Spooled s x l) {r : Bytes} (hr : r ∈ l.map (·.2)) : IsChangeRecord r := by
  obtain ⟨p, hp, rfl⟩ := List.mem_map.mp hr
  exact h.records p hp

theorem subxactTable_of_open (h : s.streamFd = some x) : s.subxactTable x = s.subxactData.subxacts := if_pos h

theorem subxactTable_of_closed (h : s.streamFd = none) : s.subxactTable x = s.diskTable x :=
  if_neg (by rw [h]; nofun)

theorem diskTable_subxactInfoWrite (s : State) (x : Nat) :
    (subxactInfoWrite s x).diskTable x = s.subxactData.subxacts := by
  show (Function.update s.subxactFile x (if s.subxactData.subxacts = [] then none else some _)
    x).elim [] _ = s.subxactData.subxacts
  rw [Function.update_self]
  split
  next hnil =>
    rw [hnil]
    rfl
  next => simp

theorem subxactInfoRead_eq (hdata : s.subxactData = .empty) (x : Nat) : subxactInfoRead s x =
      { s with subxactData := { subxactLast := 0, subxacts := s.diskTable x } } := by
  unfold subxactInfoRead State.diskTable
  split
  next file hfile =>
    rw [hfile, hdata]
    rfl
  next hnone =>
    rw [hnone]
    show s = { s with subxactData := .empty }
    rw [← hdata]

theorem Spooled.frame (h : Spooled s x l) (hchanges : t.changesFile x = s.changesFile x)
    (hsubxacts : t.subxactFile x = s.subxactFile x) (hs : s.streamFd ≠ some x)
    (ht : t.streamFd ≠ some x) : Spooled t x l where
  file := hchanges.trans h.file
  records := h.records
  table := by
    rw [← h.table]
    unfold State.subxactTable State.diskTable
    rw [if_neg hs, if_neg ht, hsubxacts]
  last := fun hfd => (ht hfd).elim

theorem Spooled.same (h : Spooled s x l) (hchanges : t.changesFile = s.changesFile)
    (hsubxacts : t.subxactFile = s.subxactFile) (hfd : t.streamFd = s.streamFd)
    (hdata : t.subxactData = s.subxactData) : Spooled t x l where
  file := by
    rw [hchanges]
    exact h.file
  records := h.records
  table := by
    rw [← h.table]
    unfold State.subxactTable State.diskTable
    rw [hsubxacts, hfd, hdata]
  last := by
    rw [hfd, hdata]
    exact h.last

theorem spooled_first (s : State) (x : Nat) (hdata : s.subxactData = .empty) :
    Spooled { beginReplicationStep s with
              changesFile := Function.update s.changesFile x (some []), streamFd := some x } x [] where
  file := Function.update_self x _ _
  records := nofun
  table := by
    rw [subxactTable_of_open rfl]
    show s.subxactData.subxacts = firsts x []
    rw [hdata]
    rfl
  last := by
    intro _ hlast
    have hzero : s.subxactData.subxactLast = 0 := by rw [hdata]; rfl
    exact (hlast hzero).elim

theorem Spooled.next (h : Spooled s x l) (hfd : s.streamFd = none) (hdata : s.subxactData = .empty) :
    Spooled (subxactInfoRead { beginReplicationStep s with streamFd := some x } x) x l := by
  have htable := h.table
  rw [subxactTable_of_closed hfd] at htable
  rw [subxactInfoRead_eq (s := { beginReplicationStep s with streamFd := some x }) hdata x]
  refine ⟨h.file, h.records, ?_, fun _ hne => (hne rfl).elim⟩
  rw [subxactTable_of_open rfl]
  exact htable

theorem Spooled.add (h : Spooled s x l) (hfd : s.streamFd = some x) (hxid : s.streamXid = x)
    {sub : Nat} (hsub : sub ≠ 0) :
    ∃ data, subxactInfoAdd s sub = { s with subxactData := data } ∧
      data.subxacts = addSubXact x (firsts x l) sub (changesBytes l).length ∧
      (data.subxactLast ≠ 0 → data.subxacts.any (·.xid = data.subxactLast) = true) := by
  have htable := h.table
  rw [subxactTable_of_open hfd] at htable
  have hlast := h.last hfd
  subst hxid
  unfold subxactInfoAdd addSubXact
  split
  next heq =>
    refine ⟨s.subxactData, rfl, ?_, ?_⟩
    · rw [if_pos (.inl heq.symm), htable]
    · rw [htable]
      exact hlast
  next hne =>
    split
    next heq =>
      have hany := hlast (by rw [heq]; exact hsub)
      refine ⟨s.subxactData, rfl, ?_, ?_⟩
      · rw [if_pos (.inr (by rw [← heq]; exact hany)), htable]
      · rw [htable]
        exact hlast
    next =>
      split
      next hany =>
        refine ⟨_, rfl, ?_, fun _ => hany⟩
        rw [htable] at hany
        rw [if_pos (.inr hany)]
        exact htable
      next hany =>
        refine ⟨_, rfl, ?_, fun _ => by simp⟩
        rw [htable] at hany
        rw [if_neg (by rintro (heq | hmem); exacts [hne heq.symm, hany hmem])]
        simp [hfd, h.file, htable]

theorem Spooled.write (h : Spooled s x l) (hfd : s.streamFd = some x) (hxid : s.streamXid = x)
    {sub : Nat} (hsub : sub ≠ 0) {action : LogicalRepMsgType} {rest : Bytes}
    (hr : IsChangeRecord (action.toByte :: rest))
    (ht : streamWriteChange (subxactInfoAdd s sub) action rest = .ok t) :
    Spooled t x (l ++ [(sub, action.toByte :: rest)]) := by
  obtain ⟨data, hadd, htable, hlast⟩ := h.add hfd hxid hsub
  rw [hadd] at ht
  obtain ⟨y, hy, rfl⟩ := streamWriteChange_ok ht
  obtain rfl : x = y := Option.some.inj (hfd.symm.trans hy)
  rw [← firsts_append_singleton x l (sub, action.toByte :: rest)] at htable
  refine ⟨?_, ?_, ?_, ?_⟩
  · show Function.update s.changesFile x _ x = _
    rw [Function.update_self, h.file, changesBytes_append, changesBytes_singleton]
    rfl
  · intro p hp
    rcases List.mem_append.mp hp with hp | hp
    · exact h.records p hp
    · rw [List.mem_singleton.mp hp]
      exact hr
  · refine (subxactTable_of_open ?_).trans htable
    exact hfd
  · intro _ hne
    rw [← htable]
    exact hlast hne

theorem Spooled.stop (h : Spooled s x l) (hfd : s.streamFd = some x) : Spooled (streamStopInternal s x) x l := by
  have htable := h.table
  rw [subxactTable_of_open hfd] at htable
  refine ⟨h.file, h.records, ?_, nofun⟩
  rw [subxactTable_of_closed rfl, ← htable]
  exact diskTable_subxactInfoWrite s x

theorem take_changesBytes {l' : List Change} (h : l' <+: l) :
    (changesBytes l).take (changesBytes l').length = changesBytes l' := by
  obtain ⟨rest, rfl⟩ := h
  rw [changesBytes_append, List.take_left]

theorem Spooled.abort (h : Spooled s x l) (hfd : s.streamFd = none) (hdata : s.subxactData = .empty)
    {sub : Nat} (hsub : sub ≠ x) (ht : streamAbortInternal s x sub = .ok t) :
    Spooled t x (beforeSub l sub) ∧ t.subxactData = .empty := by
  have htable := h.table
  rw [subxactTable_of_closed hfd] at htable
  have hread := subxactInfoRead_eq (s := beginReplicationStep s) hdata x
  have hdisk : (beginReplicationStep s).diskTable x = firsts x l := htable
  rw [hdisk] at hread
  unfold streamAbortInternal at ht
  rw [if_neg (Ne.symm hsub)] at ht
  dsimp only at ht
  rw [hread] at ht
  dsimp only at ht
  split at ht
  next hnone =>
    cases ht
    rw [findSubxact_firsts_none hsub hnone]
    refine ⟨h.frame rfl rfl (by rw [hfd]; nofun) ?_, rfl⟩
    show s.streamFd ≠ some x
    rw [hfd]
    nofun
  next i hsome =>
    obtain ⟨hoffset, htake⟩ := findSubxact_firsts hsub hsome
    have hfile : (beginReplicationStep s).changesFile x = some (changesBytes l) := h.file
    rw [hfile] at ht
    dsimp only at ht
    rw [hoffset, htake, take_changesBytes (isPrefix_beforeSub l sub)] at ht
    cases ht
    refine ⟨⟨Function.update_self x _ _, ?_, ?_, ?_⟩, rfl⟩
    · intro p hp
      exact h.records p ((isPrefix_beforeSub l sub).subset hp)
    · refine (subxactTable_of_closed ?_).trans (diskTable_subxactInfoWrite _ x)
      exact hfd
    · intro hopen
      have hnone : some x = none := hopen.symm.trans hfd
      cases hnone

end CdcKafka.Apply
