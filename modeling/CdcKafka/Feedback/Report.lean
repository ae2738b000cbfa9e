import CdcKafka.Feedback.Position
import Mathlib.Order.MinMax

/-! The positions that are reported over a run: none of them ever falls, and if the worker reports
what it has received, the flush position stays below every entry that is not flushed yet. -/

namespace CdcKafka.Feedback

variable {localFlush : Lsn} {mapping : List FlushPosition}

structure FlushSpec (mapping : List FlushPosition) (a : FlushAnswer) : Prop where
  le_write : a.havePendingTxes = true → a.flush ≤ a.write
  write_mem : a.havePendingTxes = true → ∃ pos ∈ mapping, a.write = pos.remoteEnd
  flush_le : ∀ pos ∈ a.lsnMapping, a.flush ≤ pos.remoteEnd
  left : a.havePendingTxes = false → a.lsnMapping = []

theorem le_getLast (hsorted : mapping.Pairwise fun a b => a.remoteEnd ≤ b.remoteEnd)
    (hne : mapping ≠ []) {pos : FlushPosition} (h : pos ∈ mapping) :
    pos.remoteEnd ≤ (mapping.getLast hne).remoteEnd := by
  induction mapping with
  | nil => cases h
  | cons p rest ih =>
    obtain ⟨hp, hrest⟩ := List.pairwise_cons.mp hsorted
    cases rest with
    | nil =>
      rw [List.getLast_singleton, List.mem_singleton.mp h]
    | cons q rest =>
      rw [List.getLast_cons (List.cons_ne_nil q rest)]
      rcases List.mem_cons.mp h with rfl | h
      · exact hp _ (List.getLast_mem _)
      · exact ih hrest (List.cons_ne_nil q rest) h

theorem flushLoop_spec {w f : Lsn} (hsorted : mapping.Pairwise fun a b => a.remoteEnd ≤ b.remoteEnd)
    (hf : ∀ pos ∈ mapping, f ≤ pos.remoteEnd) :
    FlushSpec mapping (flushLoop localFlush mapping w f) := by
  induction mapping generalizing w f with
  | nil => exact ⟨by simp [flushLoop], by simp [flushLoop], by simp [flushLoop], fun _ => rfl⟩
  | cons p rest ih =>
    obtain ⟨hp, hrest⟩ := List.pairwise_cons.mp hsorted
    rw [flushLoop]
    split_ifs with hflushed
    · have hspec := ih (w := p.remoteEnd) hrest hp
      refine ⟨hspec.le_write, fun hpending => ?_, hspec.flush_le, hspec.left⟩
      obtain ⟨pos, hmem, hwrite⟩ := hspec.write_mem hpending
      exact ⟨pos, List.mem_cons_of_mem p hmem, hwrite⟩
    · -- the loop stops here and looks at the last entry
      refine ⟨fun _ => ?_, fun _ => ⟨_, List.getLast_mem (List.cons_ne_nil p rest), rfl⟩, hf, fun h => by cases h⟩
      have hlast := le_getLast hsorted (List.cons_ne_nil p rest) List.mem_cons_self
      exact (hf p List.mem_cons_self).trans hlast

theorem getFlushPosition_spec (localFlush : Lsn) (hsorted : mapping.Pairwise fun a b => a.remoteEnd ≤ b.remoteEnd) :
    FlushSpec mapping (getFlushPosition localFlush mapping) :=
  flushLoop_spec hsorted fun _ _ => Nat.zero_le _

inductive Call
  | store (remoteLsn localLsn : Lsn)
  | advance (localFlush : Lsn)
  | feedback (recvpos : Lsn) (force requestReply : Bool) (statusInterval : Int) (intervalExceeded : Bool)

structure Tracker where
  positions : Positions
  localFlush : Lsn
  reports : List StatusUpdate

def Tracker.init : Tracker where
  positions := .init
  localFlush := invalidXLogRecPtr
  reports := []

def Tracker.step (t : Tracker) : Call → Tracker
  | .store remoteLsn localLsn =>
    { t with positions := t.positions.storeFlushPosition remoteLsn localLsn }
  | .advance localFlush => { t with localFlush := max t.localFlush localFlush }
  | .feedback recvpos force requestReply statusInterval intervalExceeded =>
    let r := t.positions.sendFeedback ⟨t.localFlush, statusInterval, intervalExceeded⟩ recvpos force
      requestReply
    { t with positions := r.1, reports := r.2.toList ++ t.reports }

def Ordered : Lsn → List Call → Prop
  | _, [] => True
  | last, .store remoteLsn _ :: calls => last ≤ remoteLsn ∧ Ordered remoteLsn calls
  | last, _ :: calls => Ordered last calls

def Received : Lsn → List Call → Prop
  | _, [] => True
  | _, .store remoteLsn _ :: calls => Received remoteLsn calls
  | last, .feedback recvpos _ _ _ _ :: calls => last ≤ recvpos ∧ Received last calls
  | last, .advance _ :: calls => Received last calls

def Later : Lsn → List Call → Prop
  | _, [] => True
  | top, .store remoteLsn _ :: calls => top ≤ remoteLsn ∧ Later top calls
  | top, .feedback recvpos _ _ _ _ :: calls => Later (max top recvpos) calls
  | top, .advance _ :: calls => Later top calls

def StatusUpdate.After (u v : StatusUpdate) : Prop :=
  v.recvpos ≤ u.recvpos ∧ v.writepos ≤ u.writepos ∧ v.flushpos ≤ u.flushpos

structure Reported (last : Lsn) (t : Tracker) : Prop where
  mapped : t.positions.lsnMapping.Pairwise fun a b => a.remoteEnd ≤ b.remoteEnd
  stored : ∀ pos ∈ t.positions.lsnMapping, pos.remoteEnd ≤ last
  ordered : t.positions.lastFlushpos ≤ t.positions.lastWritepos
  bounded : ∀ u ∈ t.reports, u.recvpos ≤ t.positions.lastRecvpos ∧
    u.writepos ≤ t.positions.lastWritepos ∧ u.flushpos ≤ t.positions.lastFlushpos
  rising : t.reports.Pairwise StatusUpdate.After
  flush_le : ∀ u ∈ t.reports, u.flushpos ≤ u.writepos

theorem reported_init : Reported 0 Tracker.init :=
  ⟨List.Pairwise.nil, nofun, le_refl _, nofun, List.Pairwise.nil, nofun⟩

variable {t : Tracker} {last top : Lsn}

theorem Tracker.feedback_cases (t : Tracker) (recvpos : Lsn) (force requestReply : Bool)
    (statusInterval : Int) (intervalExceeded : Bool) :
    ∃ mapping, mapping <:+ t.positions.lsnMapping ∧
      ((t.step (.feedback recvpos force requestReply statusInterval intervalExceeded) =
          { t with positions := { t.positions with lsnMapping := mapping } }) ∨
        mapping = (getFlushPosition t.localFlush t.positions.lsnMapping).lsnMapping ∧
        ∃ write flush, write = max ((getFlushPosition t.localFlush t.positions.lsnMapping).writeOr
            (max recvpos t.positions.lastRecvpos)) t.positions.lastWritepos ∧
          flush = max ((getFlushPosition t.localFlush t.positions.lsnMapping).flushOr
            (max recvpos t.positions.lastRecvpos)) t.positions.lastFlushpos ∧
          t.step (.feedback recvpos force requestReply statusInterval intervalExceeded) =
            { t with
              positions := ⟨mapping, max recvpos t.positions.lastRecvpos, write, flush⟩
              reports := ⟨max recvpos t.positions.lastRecvpos, flush, write, requestReply⟩ ::
                t.reports }) := by
  unfold Tracker.step Positions.sendFeedback
  dsimp only
  split_ifs with hskip hsame
  · exact ⟨_, List.suffix_rfl, .inl rfl⟩
  · exact ⟨_, flushLoop_suffix, .inl rfl⟩
  · exact ⟨_, flushLoop_suffix, .inr ⟨rfl, _, _, rfl, rfl, rfl⟩⟩

theorem Reported.left (h : Reported last t) {mapping : List FlushPosition}
    (hsuffix : mapping <:+ t.positions.lsnMapping) :
    (mapping.Pairwise fun a b => a.remoteEnd ≤ b.remoteEnd) ∧ ∀ pos ∈ mapping, pos.remoteEnd ≤ last :=
  ⟨h.mapped.sublist hsuffix.sublist, fun pos hpos => h.stored pos (hsuffix.subset hpos)⟩

theorem Reported.flushOr_le_writeOr (h : Reported last t) (recvpos : Lsn) :
    (getFlushPosition t.localFlush t.positions.lsnMapping).flushOr recvpos ≤
      (getFlushPosition t.localFlush t.positions.lsnMapping).writeOr recvpos := by
  have hspec := getFlushPosition_spec t.localFlush h.mapped
  unfold FlushAnswer.flushOr FlushAnswer.writeOr
  split_ifs with hpending
  · exact hspec.le_write hpending
  · exact le_refl _

def Call.stored (last : Lsn) : Call → Lsn
  | .store remoteLsn _ => remoteLsn
  | _ => last

theorem Reported.step (h : Reported last t) (call : Call) (hle : last ≤ call.stored last) :
    Reported (call.stored last) (t.step call) := by
  cases call with
  | store remoteLsn localLsn =>
    refine ⟨?_, ?_, h.ordered, h.bounded, h.rising, h.flush_le⟩
    · refine List.pairwise_append.mpr ⟨h.mapped, List.pairwise_singleton _ _, ?_⟩
      intro a ha b hb
      rw [List.mem_singleton.mp hb]
      exact (h.stored a ha).trans hle
    · intro pos hpos
      rcases List.mem_append.mp hpos with hpos | hpos
      · exact (h.stored pos hpos).trans hle
      · rw [List.mem_singleton.mp hpos]
        exact le_refl remoteLsn
  | advance localFlush => exact ⟨h.mapped, h.stored, h.ordered, h.bounded, h.rising, h.flush_le⟩
  | feedback recvpos force requestReply statusInterval intervalExceeded =>
    obtain ⟨mapping, hsuffix, heq | ⟨-, write, flush, hwrite, hflush, heq⟩⟩ :=
      t.feedback_cases recvpos force requestReply statusInterval intervalExceeded
    · rw [heq]
      obtain ⟨hmapped, hstored⟩ := h.left hsuffix
      exact ⟨hmapped, hstored, h.ordered, h.bounded, h.rising, h.flush_le⟩
    · rw [heq]
      obtain ⟨hmapped, hstored⟩ := h.left hsuffix
      have hle : flush ≤ write := by
        rw [hflush, hwrite]
        exact max_le_max (h.flushOr_le_writeOr _) h.ordered
      have hrecv : t.positions.lastRecvpos ≤ max recvpos t.positions.lastRecvpos := le_max_right _ _
      have hwrite' : t.positions.lastWritepos ≤ write := by
        rw [hwrite]
        exact le_max_right _ _
      have hflush' : t.positions.lastFlushpos ≤ flush := by
        rw [hflush]
        exact le_max_right _ _
      have hrisen : ∀ u ∈ t.reports, u.recvpos ≤ max recvpos t.positions.lastRecvpos ∧
          u.writepos ≤ write ∧ u.flushpos ≤ flush := by
        intro u hu
        obtain ⟨hr, hw, hf⟩ := h.bounded u hu
        exact ⟨hr.trans hrecv, hw.trans hwrite', hf.trans hflush'⟩
      refine ⟨hmapped, hstored, hle, ?_, List.pairwise_cons.mpr ⟨hrisen, h.rising⟩, ?_⟩
      · intro u hu
        rcases List.mem_cons.mp hu with rfl | hu
        · exact ⟨le_refl _, le_refl _, le_refl _⟩
        · exact hrisen u hu
      · intro u hu
        rcases List.mem_cons.mp hu with rfl | hu
        · exact hle
        · exact h.flush_le u hu

structure Covered (t : Tracker) : Prop where
  last : t.positions.lastWritepos ≤ t.positions.lastRecvpos
  reports : ∀ u ∈ t.reports, u.writepos ≤ u.recvpos

theorem Covered.step (hc : Covered t) (h : Reported last t) {call : Call}
    (hcall : ∀ recvpos force requestReply statusInterval intervalExceeded,
      call = .feedback recvpos force requestReply statusInterval intervalExceeded →
        last ≤ recvpos) : Covered (t.step call) := by
  cases call with
  | store remoteLsn localLsn => exact ⟨hc.last, hc.reports⟩
  | advance localFlush => exact ⟨hc.last, hc.reports⟩
  | feedback recvpos force requestReply statusInterval intervalExceeded =>
    have hlast := hcall _ _ _ _ _ rfl
    obtain ⟨mapping, -, heq | ⟨-, write, flush, hwrite, -, heq⟩⟩ :=
      t.feedback_cases recvpos force requestReply statusInterval intervalExceeded
    · rw [heq]
      exact ⟨hc.last, hc.reports⟩
    · rw [heq]
      have hle : write ≤ max recvpos t.positions.lastRecvpos := by
        have hspec := getFlushPosition_spec t.localFlush h.mapped
        rw [hwrite]
        refine max_le ?_ (hc.last.trans (le_max_right _ _))
        unfold FlushAnswer.writeOr
        split_ifs with hpending
        · obtain ⟨pos, hpos, heq⟩ := hspec.write_mem hpending
          rw [heq]
          exact (h.stored pos hpos).trans (hlast.trans (le_max_left _ _))
        · exact le_refl _
      refine ⟨hle, fun u hu => ?_⟩
      rcases List.mem_cons.mp hu with rfl | hu
      · exact hle
      · exact hc.reports u hu

structure Safe (last top : Lsn) (t : Tracker) : Prop where
  recv : t.positions.lastRecvpos ≤ top
  flush : t.positions.lastFlushpos ≤ max top last
  pending : ∀ pos ∈ t.positions.lsnMapping, t.localFlush < pos.localEnd → t.positions.lastFlushpos ≤ pos.remoteEnd

theorem Safe.store (hs : Safe last top t) {remoteLsn localLsn : Lsn} (hlast : last ≤ remoteLsn)
    (htop : top ≤ remoteLsn) : Safe remoteLsn top (t.step (.store remoteLsn localLsn)) where
  recv := hs.recv
  flush := hs.flush.trans (max_le_max (le_refl _) hlast)
  pending := by
    intro pos hpos hflush
    rcases List.mem_append.mp hpos with hpos | hpos
    · exact hs.pending pos hpos hflush
    · rw [List.mem_singleton.mp hpos]
      exact hs.flush.trans (max_le htop hlast)

theorem Safe.advance (hs : Safe last top t) (localFlush : Lsn) : Safe last top (t.step (.advance localFlush)) :=
  ⟨hs.recv, hs.flush, fun pos hpos hflush =>
    hs.pending pos hpos (lt_of_le_of_lt (le_max_left _ _) hflush)⟩

theorem Safe.feedback (hs : Safe last top t) (h : Reported last t) (recvpos : Lsn)
    (force requestReply : Bool) (statusInterval : Int) (intervalExceeded : Bool) :
    Safe last (max top recvpos) (t.step (.feedback recvpos force requestReply statusInterval intervalExceeded)) := by
  obtain ⟨mapping, hsuffix, heq | ⟨hmapping, write, flush, -, hflush, heq⟩⟩ :=
    t.feedback_cases recvpos force requestReply statusInterval intervalExceeded
  · rw [heq]
    exact ⟨hs.recv.trans (le_max_left _ _), hs.flush.trans (max_le_max (le_max_left _ _) (le_refl _)),
      fun pos hpos => hs.pending pos (hsuffix.subset hpos)⟩
  · rw [heq]
    have hspec := getFlushPosition_spec t.localFlush h.mapped
    have hrecv : max recvpos t.positions.lastRecvpos ≤ max top recvpos :=
      max_le (le_max_right _ _) (hs.recv.trans (le_max_left _ _))
    refine ⟨hrecv, ?_, ?_⟩
    · show flush ≤ max (max top recvpos) last
      rw [hflush]
      refine max_le ?_ (hs.flush.trans (max_le_max (le_max_left _ _) (le_refl _)))
      unfold FlushAnswer.flushOr
      split_ifs with hpending
      · obtain ⟨pos, hpos, hwrite⟩ := hspec.write_mem hpending
        have hstored := h.stored pos hpos
        rw [← hwrite] at hstored
        exact (hspec.le_write hpending).trans (hstored.trans (le_max_right _ _))
      · exact hrecv.trans (le_max_left _ _)
    · intro pos hpos hunflushed
      show flush ≤ pos.remoteEnd
      rw [hflush]
      refine max_le ?_ (hs.pending pos (hsuffix.subset hpos) hunflushed)
      rw [hmapping] at hpos
      unfold FlushAnswer.flushOr
      split_ifs with hpending
      · exact hspec.flush_le pos hpos
      · -- nothing is pending, so nothing is left
        rw [hspec.left (by simpa using hpending)] at hpos
        cases hpos

theorem run_reported {calls : List Call} (h : Reported last t) (hordered : Ordered last calls) :
    (∃ last', Reported last' (calls.foldl Tracker.step t)) ∧
      (Received last calls → Covered t → Covered (calls.foldl Tracker.step t)) ∧
      (Later top calls → Safe last top t → ∃ last' top', Safe last' top' (calls.foldl Tracker.step t)) := by
  induction calls generalizing last top t with
  | nil => exact ⟨⟨last, h⟩, fun _ hc => hc, fun _ hs => ⟨last, top, hs⟩⟩
  | cons call calls ih =>
    cases call with
    | store remoteLsn localLsn =>
      obtain ⟨hrep, hcov, hsafe⟩ := ih (h.step (.store remoteLsn localLsn) hordered.1) hordered.2
      refine ⟨hrep, fun hrecv hc => hcov hrecv (hc.step h nofun), fun hlater hs => ?_⟩
      exact hsafe hlater.2 (hs.store hordered.1 hlater.1)
    | advance localFlush =>
      obtain ⟨hrep, hcov, hsafe⟩ := ih (h.step (.advance localFlush) (le_refl _)) hordered
      exact ⟨hrep, fun hrecv hc => hcov hrecv (hc.step h nofun), fun hlater hs => hsafe hlater (hs.advance localFlush)⟩
    | feedback recvpos force requestReply statusInterval intervalExceeded =>
      obtain ⟨hrep, hcov, hsafe⟩ := ih
        (h.step (.feedback recvpos force requestReply statusInterval intervalExceeded) (le_refl _))
        hordered
      refine ⟨hrep, fun hrecv hc => hcov hrecv.2 (hc.step h ?_), fun hlater hs => ?_⟩
      · rintro _ _ _ _ _ heq
        cases heq
        exact hrecv.1
      · exact hsafe hlater (hs.feedback h recvpos force requestReply statusInterval intervalExceeded)

/-- Only a front part of the list is removed, no reported position falls, and the flush position
is not past the write position. -/
theorem reported_of_run (calls : List Call) (hordered : Ordered invalidXLogRecPtr calls) :
    (∀ localFlush mapping, (getFlushPosition localFlush mapping).lsnMapping <:+ mapping) ∧
      (calls.foldl Tracker.step .init).reports.Pairwise StatusUpdate.After ∧
      (∀ u ∈ (calls.foldl Tracker.step .init).reports, u.flushpos ≤ u.writepos) ∧
      (Received invalidXLogRecPtr calls → ∀ u ∈ (calls.foldl Tracker.step .init).reports, u.writepos ≤ u.recvpos) ∧
      (Later invalidXLogRecPtr calls → ∀ u ∈ (calls.foldl Tracker.step .init).reports,
        ∀ pos ∈ (calls.foldl Tracker.step .init).positions.lsnMapping,
          (calls.foldl Tracker.step .init).localFlush < pos.localEnd → u.flushpos ≤ pos.remoteEnd) := by
  obtain ⟨⟨last, hrep⟩, hcov, hsafe⟩ := run_reported reported_init hordered
  refine ⟨fun _ _ => flushLoop_suffix, hrep.rising, hrep.flush_le, fun hrecv => ?_, fun hlater => ?_⟩
  · exact (hcov hrecv ⟨le_refl _, nofun⟩).reports
  · intro u hu pos hpos hunflushed
    obtain ⟨last', top', hs⟩ := hsafe hlater ⟨le_refl _, le_refl _, nofun⟩
    exact (hrep.bounded u hu).2.2.trans (hs.pending pos hpos hunflushed)

def steadyCalls : List Call :=
  [.feedback 90 true false 10 false, .store 100 5, .store 200 7, .advance 6,
    .feedback 200 true false 10 false, .advance 7, .feedback 200 true false 10 false]

theorem reported_steadyCalls :
    (steadyCalls.foldl Tracker.step .init).reports.map (fun u => (u.recvpos, u.writepos, u.flushpos)) =
        [(200, 200, 200), (200, 200, 100), (90, 90, 90)] ∧
      (∀ u ∈ (steadyCalls.foldl Tracker.step .init).reports, u.writepos ≤ u.recvpos) ∧
      ∀ u ∈ (steadyCalls.foldl Tracker.step .init).reports,
      ∀ pos ∈ (steadyCalls.foldl Tracker.step .init).positions.lsnMapping,
        (steadyCalls.foldl Tracker.step .init).localFlush < pos.localEnd → u.flushpos ≤ pos.remoteEnd := by
  obtain ⟨-, -, -, hcov, hsafe⟩ := reported_of_run steadyCalls ⟨by decide, by decide, trivial⟩
  exact ⟨by decide, hcov ⟨by decide, by decide, by decide, trivial⟩, hsafe ⟨by decide, by decide, trivial⟩⟩

/-- Feedback that passes no position after a commit was stored, and a commit that ends before the
position that feedback was sent with. -/
theorem reported_any_recvpos :
    ([Call.store 100 5, .feedback 0 true false 10 false].foldl Tracker.step .init).reports.map
        (fun u => (u.recvpos, u.writepos, u.flushpos)) = [(0, 100, 0)] ∧
      ([Call.feedback 1000 true false 10 false, .store 500 5, .feedback 0 true false 10 false].foldl
          Tracker.step .init).reports.map (fun u => (u.recvpos, u.writepos, u.flushpos)) =
        [(1000, 1000, 1000), (1000, 1000, 1000)] ∧
      ([Call.feedback 1000 true false 10 false, .store 500 5, .feedback 0 true false 10 false].foldl
          Tracker.step .init).positions.lsnMapping = [⟨5, 500⟩] ∧
      ([Call.feedback 1000 true false 10 false, .store 500 5, .feedback 0 true false 10 false].foldl
          Tracker.step .init).localFlush = 0 := by
  decide

end CdcKafka.Feedback
