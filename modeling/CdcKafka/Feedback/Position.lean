import Mathlib.Data.Nat.Basic
import Mathlib.Data.List.Basic

/-! The positions the apply worker reports to the publisher: `lsn_mapping`,
`get_flush_position`, `store_flush_position` and `send_feedback`. -/

namespace CdcKafka.Feedback

abbrev Lsn := Nat

def invalidXLogRecPtr : Lsn := 0

structure FlushPosition where
  localEnd : Lsn
  remoteEnd : Lsn
deriving DecidableEq

structure Positions where
  lsnMapping : List FlushPosition
  lastRecvpos : Lsn
  lastWritepos : Lsn
  lastFlushpos : Lsn
deriving DecidableEq

def Positions.init : Positions where
  lsnMapping := []
  lastRecvpos := invalidXLogRecPtr
  lastWritepos := invalidXLogRecPtr
  lastFlushpos := invalidXLogRecPtr

structure FlushAnswer where
  write : Lsn
  flush : Lsn
  havePendingTxes : Bool
  lsnMapping : List FlushPosition
deriving DecidableEq

def flushLoop (localFlush : Lsn) : List FlushPosition → Lsn → Lsn → FlushAnswer
  | [], write, flush =>
    { write := write, flush := flush, havePendingTxes := false, lsnMapping := [] }
  | pos :: rest, _, flush =>
    if pos.localEnd ≤ localFlush then flushLoop localFlush rest pos.remoteEnd pos.remoteEnd
    else
      { write := ((pos :: rest).getLast (List.cons_ne_nil _ _)).remoteEnd, flush := flush,
        havePendingTxes := true, lsnMapping := pos :: rest }

def getFlushPosition (localFlush : Lsn) (lsnMapping : List FlushPosition) : FlushAnswer :=
  flushLoop localFlush lsnMapping invalidXLogRecPtr invalidXLogRecPtr

def FlushAnswer.flushOr (a : FlushAnswer) (recvpos : Lsn) : Lsn :=
  if a.havePendingTxes then a.flush else recvpos

def FlushAnswer.writeOr (a : FlushAnswer) (recvpos : Lsn) : Lsn :=
  if a.havePendingTxes then a.write else recvpos

def Positions.storeFlushPosition (p : Positions) (remoteLsn localLsn : Lsn) : Positions :=
  { p with lsnMapping := p.lsnMapping ++ [{ localEnd := localLsn, remoteEnd := remoteLsn }] }

/-- What `send_feedback` reads from outside: the local flush position, the
setting `wal_receiver_status_interval`, and whether that interval has passed. -/
structure FeedbackEnv where
  localFlush : Lsn
  statusInterval : Int
  intervalExceeded : Bool

structure StatusUpdate where
  recvpos : Lsn
  flushpos : Lsn
  writepos : Lsn
  requestReply : Bool
deriving DecidableEq

def Positions.sendFeedback (env : FeedbackEnv) (recvpos : Lsn) (force requestReply : Bool)
    (p : Positions) : Positions × Option StatusUpdate :=
  if !force && env.statusInterval ≤ 0 then (p, none)
  else
    let recvpos := max recvpos p.lastRecvpos
    let a := getFlushPosition env.localFlush p.lsnMapping
    let writepos := max (a.writeOr recvpos) p.lastWritepos
    let flushpos := max (a.flushOr recvpos) p.lastFlushpos
    -- the flushed entries are gone from the list even when nothing is sent
    let p := { p with lsnMapping := a.lsnMapping }
    if !force && writepos == p.lastWritepos && flushpos == p.lastFlushpos && !env.intervalExceeded
    then (p, none)
    else
      ({ p with lastRecvpos := recvpos, lastWritepos := writepos, lastFlushpos := flushpos },
        some { recvpos := recvpos, flushpos := flushpos, writepos := writepos,
               requestReply := requestReply })

variable {localFlush : Lsn}

theorem flushLoop_pending {mapping : List FlushPosition} {w f : Lsn} {pos : FlushPosition}
    (h : pos ∈ mapping) (hpos : localFlush < pos.localEnd) :
    (flushLoop localFlush mapping w f).havePendingTxes = true := by
  induction mapping generalizing w f with
  | nil => simp at h
  | cons p rest ih =>
    rw [flushLoop]
    split_ifs with hp
    · rcases List.mem_cons.mp h with rfl | hrest
      · exact absurd hp (not_le.mpr hpos)
      · exact ih hrest
    · rfl

theorem flushLoop_flush_lt {mapping : List FlushPosition} {w f bound : Lsn} {pos : FlushPosition}
    (hsorted : mapping.Pairwise fun a b => a.remoteEnd < b.remoteEnd)
    (h : pos ∈ mapping) (hpos : localFlush < pos.localEnd) (hle : pos.remoteEnd ≤ bound)
    (hf : f < bound) :
    (flushLoop localFlush mapping w f).flush < bound := by
  induction mapping generalizing w f with
  | nil => simp at h
  | cons p rest ih =>
    obtain ⟨hp, hrest⟩ := List.pairwise_cons.mp hsorted
    rw [flushLoop]
    split_ifs with hflushed
    · rcases List.mem_cons.mp h with rfl | hmem
      · exact absurd hflushed (not_le.mpr hpos)
      · exact ih hrest hmem (lt_of_lt_of_le (hp pos hmem) hle)
    · exact hf

theorem flushLoop_flush_mem (localFlush : Lsn) (mapping : List FlushPosition) (w f : Lsn) :
    (flushLoop localFlush mapping w f).flush = f ∨
      ∃ pos ∈ mapping, (flushLoop localFlush mapping w f).flush = pos.remoteEnd := by
  induction mapping generalizing w f with
  | nil => exact .inl rfl
  | cons p rest ih =>
    rw [flushLoop]
    split_ifs with hp
    · rcases ih p.remoteEnd p.remoteEnd with h | ⟨pos, hmem, h⟩
      · exact .inr ⟨p, List.mem_cons_self .., h⟩
      · exact .inr ⟨pos, List.mem_cons_of_mem _ hmem, h⟩
    · exact .inl rfl

theorem flushLoop_suffix {mapping : List FlushPosition} {w f : Lsn} :
    (flushLoop localFlush mapping w f).lsnMapping <:+ mapping := by
  induction mapping generalizing w f with
  | nil => exact List.suffix_rfl
  | cons p rest ih =>
    rw [flushLoop]
    split_ifs with hp
    · exact ih.trans (List.suffix_cons p rest)
    · exact List.suffix_rfl

def Positions.flushCandidate (p : Positions) (localFlush recvpos : Lsn) : Lsn :=
  (getFlushPosition localFlush p.lsnMapping).flushOr (max recvpos p.lastRecvpos)

theorem sendFeedback_cases (env : FeedbackEnv) (recvpos : Lsn) (force requestReply : Bool)
    (p : Positions) : ∃ mapping, mapping <:+ p.lsnMapping ∧
    (p.sendFeedback env recvpos force requestReply = ({ p with lsnMapping := mapping }, none) ∨
      ∃ write flush, flush = max (p.flushCandidate env.localFlush recvpos) p.lastFlushpos ∧
        p.sendFeedback env recvpos force requestReply =
          ({ lsnMapping := mapping, lastRecvpos := max recvpos p.lastRecvpos, lastWritepos := write,
             lastFlushpos := flush },
            some { recvpos := max recvpos p.lastRecvpos, flushpos := flush, writepos := write,
                   requestReply := requestReply })) := by
  unfold Positions.sendFeedback
  dsimp only
  split_ifs with hskip hsame
  · exact ⟨p.lsnMapping, List.suffix_rfl, .inl rfl⟩
  · exact ⟨_, flushLoop_suffix, .inl rfl⟩
  · exact ⟨_, flushLoop_suffix, .inr ⟨_, _, rfl, rfl⟩⟩

end CdcKafka.Feedback
