import CdcKafka.SyncRep.State
import Mathlib.Data.Int.Order.Basic
import Mathlib.Data.List.Pairwise
import Mathlib.Data.List.TakeWhile
import Mathlib.Logic.Function.Basic

/-! `replication/walsender.c`: the ring of time samples from which a WAL sender computes the lag of its standby. One writer
and three readers share it. -/

namespace CdcKafka.WalSender
open SyncRep (Mode)

structure WalTimeSample where
  lsn : Nat
  time : Int

def lagTrackerBufferSize : Nat := 8192

structure LagTracker where
  lastLsn : Nat
  buffer : Nat → WalTimeSample
  writeHead : Nat
  readHeads : Mode → Nat
  lastRead : Mode → WalTimeSample

def bufferFull (t : LagTracker) : Prop := ∃ i, (t.writeHead + 1) % lagTrackerBufferSize = t.readHeads i

instance (t : LagTracker) : Decidable (bufferFull t) :=
  decidable_of_iff (∃ i ∈ [Mode.write, .flush, .apply], (t.writeHead + 1) % lagTrackerBufferSize = t.readHeads i)
    ⟨fun ⟨i, _, h⟩ => ⟨i, h⟩, fun ⟨i, h⟩ => ⟨i, by cases i <;> simp, h⟩⟩

def lagTrackerWrite (amWalsender : Bool) (t : LagTracker) (lsn : Nat) (localFlushTime : Int) :
    LagTracker :=
  if !amWalsender then t
  else if t.lastLsn = lsn then t
  else if bufferFull t then
    -- the last sample is overwritten
    let slot := if 0 < t.writeHead then t.writeHead - 1 else lagTrackerBufferSize - 1
    { t with lastLsn := lsn, buffer := Function.update t.buffer slot ⟨lsn, localFlushTime⟩ }
  else
    { t with
      lastLsn := lsn
      buffer := Function.update t.buffer t.writeHead ⟨lsn, localFlushTime⟩
      writeHead := (t.writeHead + 1) % lagTrackerBufferSize }

def readSamples (head : Mode) (lsn : Nat) : Nat → LagTracker → Int → LagTracker × Int
  | 0, t, time => (t, time)
  | fuel + 1, t, time =>
    if t.readHeads head ≠ t.writeHead ∧ (t.buffer (t.readHeads head)).lsn ≤ lsn then
      readSamples head lsn fuel
        { t with
          lastRead := Function.update t.lastRead head (t.buffer (t.readHeads head))
          readHeads := Function.update t.readHeads head ((t.readHeads head + 1) % lagTrackerBufferSize) }
        (t.buffer (t.readHeads head)).time
    else (t, time)

def lagOf (interpolate : WalTimeSample → WalTimeSample → Nat → Int) (t : LagTracker) (head : Mode)
    (lsn : Nat) (now time : Int) : Int :=
  if now < time then -1
  else if time = 0 then
    if t.readHeads head = t.writeHead then -1
    else
      let prev := t.lastRead head
      let next := t.buffer (t.readHeads head)
      if prev.time ≠ 0 then
        if lsn < prev.lsn then -1
        else if next.time < prev.time then -1
        else now - interpolate prev next lsn
      else now - next.time
  else now - time

def clearLastRead (t : LagTracker) (head : Mode) : LagTracker :=
  if t.readHeads head = t.writeHead then
    { t with lastRead := Function.update t.lastRead head { t.lastRead head with time := 0 } }
  else t

def lagTrackerRead (interpolate : WalTimeSample → WalTimeSample → Nat → Int) (t : LagTracker)
    (head : Mode) (lsn : Nat) (now : Int) : LagTracker × Int :=
  let (t, time) := readSamples head lsn lagTrackerBufferSize t 0
  let t := clearLastRead t head
  (t, lagOf interpolate t head lsn now time)

def samplesFrom (buffer : Nat → WalTimeSample) (start count : Nat) : List WalTimeSample :=
  (List.range count).map fun k => buffer ((start + k) % lagTrackerBufferSize)

def unreadCount (t : LagTracker) (head : Mode) : Nat :=
  (lagTrackerBufferSize + t.writeHead - t.readHeads head) % lagTrackerBufferSize

def unread (t : LagTracker) (head : Mode) : List WalTimeSample :=
  samplesFrom t.buffer (t.readHeads head) (unreadCount t head)

def reached (lsn : Nat) (w : WalTimeSample) : Bool := w.lsn ≤ lsn

structure InRing (t : LagTracker) : Prop where
  write : t.writeHead < lagTrackerBufferSize
  read : ∀ head, t.readHeads head < lagTrackerBufferSize

section
variable {t : LagTracker} {head : Mode} {lsn : Nat} {buffer : Nat → WalTimeSample} {start count : Nat}

theorem length_samplesFrom : (samplesFrom buffer start count).length = count := by
  rw [samplesFrom, List.length_map, List.length_range]

theorem samplesFrom_succ (hstart : start < lagTrackerBufferSize) : samplesFrom buffer start (count + 1) =
      buffer start :: samplesFrom buffer ((start + 1) % lagTrackerBufferSize) count := by
  rw [samplesFrom, List.range_succ_eq_map, List.map_cons, List.map_map, Nat.add_zero, Nat.mod_eq_of_lt hstart]
  congr 1
  apply List.map_congr_left
  intro k _
  rw [Function.comp_apply, Nat.mod_add_mod, Nat.succ_eq_add_one, Nat.add_assoc, Nat.add_comm 1 k]

theorem samplesFrom_concat : samplesFrom buffer start (count + 1) =
    samplesFrom buffer start count ++ [buffer ((start + count) % lagTrackerBufferSize)] := by
  rw [samplesFrom, List.range_succ, List.map_append]
  rfl

theorem samplesFrom_update {slot : Nat} (w : WalTimeSample)
    (h : ∀ k < count, (start + k) % lagTrackerBufferSize ≠ slot) :
    samplesFrom (Function.update buffer slot w) start count = samplesFrom buffer start count := by
  apply List.map_congr_left
  intro k hk
  exact Function.update_of_ne (h k (List.mem_range.mp hk)) w buffer

theorem InRing.count_lt (h : InRing t) (head : Mode) : unreadCount t head < lagTrackerBufferSize := by
  have hw := h.write
  unfold unreadCount lagTrackerBufferSize
  omega

theorem InRing.writeHead_eq (h : InRing t) (head : Mode) :
    t.writeHead = (t.readHeads head + unreadCount t head) % lagTrackerBufferSize := by
  have hw := h.write
  have hr := h.read head
  unfold unreadCount
  unfold lagTrackerBufferSize at hw hr ⊢
  omega

theorem unreadCount_eq {c : Nat} (hr : t.readHeads head < lagTrackerBufferSize) (hc : c < lagTrackerBufferSize)
    (hw : t.writeHead = (t.readHeads head + c) % lagTrackerBufferSize) : unreadCount t head = c := by
  unfold unreadCount
  unfold lagTrackerBufferSize at hr hc hw ⊢
  omega

theorem InRing.drained_iff (h : InRing t) : t.readHeads head = t.writeHead ↔ unread t head = [] := by
  have hw := h.write
  have hr := h.read head
  rw [← List.length_eq_zero_iff, unread, length_samplesFrom]
  unfold unreadCount
  unfold lagTrackerBufferSize at hw hr ⊢
  omega

theorem lagTrackerWrite_inRing (h : InRing t) (lsn : Nat) (time : Int) : InRing (lagTrackerWrite true t lsn time) := by
  unfold lagTrackerWrite
  split
  · exact h
  · split
    · exact h
    · split
      · exact ⟨h.write, h.read⟩
      · exact ⟨Nat.mod_lt _ (Nat.succ_pos _), h.read⟩

theorem lagTrackerWrite_lastRead (t : LagTracker) (lsn : Nat) (time : Int) :
    (lagTrackerWrite true t lsn time).lastRead = t.lastRead := by
  unfold lagTrackerWrite
  split_ifs <;> rfl

theorem lagTrackerWrite_lastLsn (t : LagTracker) (lsn : Nat) (time : Int) :
    (lagTrackerWrite true t lsn time).lastLsn = lsn := by
  unfold lagTrackerWrite
  split_ifs with _ hsame
  · contradiction
  · exact hsame
  all_goals rfl

theorem unread_write (h : InRing t) (hnew : t.lastLsn ≠ lsn) (hroom : ¬ bufferFull t) (time : Int)
    (head : Mode) : unread (lagTrackerWrite true t lsn time) head = unread t head ++ [⟨lsn, time⟩] := by
  have hcount := h.count_lt head
  have hwrite := h.writeHead_eq head
  have hread := h.read head
  have hfree : (t.writeHead + 1) % lagTrackerBufferSize ≠ t.readHeads head := fun heq => hroom ⟨head, heq⟩
  have htracker : lagTrackerWrite true t lsn time =
      { t with
        lastLsn := lsn
        buffer := Function.update t.buffer t.writeHead ⟨lsn, time⟩
        writeHead := (t.writeHead + 1) % lagTrackerBufferSize } := by
    rw [lagTrackerWrite, if_neg (by decide), if_neg hnew, if_neg hroom]
  have hsucc : unreadCount (lagTrackerWrite true t lsn time) head = unreadCount t head + 1 := by
    rw [htracker]
    have hfits : unreadCount t head + 1 < lagTrackerBufferSize := by
      unfold lagTrackerBufferSize at *
      omega
    refine unreadCount_eq hread hfits ?_
    change (t.writeHead + 1) % lagTrackerBufferSize =
      (t.readHeads head + (unreadCount t head + 1)) % lagTrackerBufferSize
    rw [hwrite, Nat.mod_add_mod, Nat.add_assoc]
  rw [unread, unread, hsucc, htracker, samplesFrom_concat]
  dsimp only
  rw [← hwrite, samplesFrom_update, Function.update_self]
  intro k hk
  unfold lagTrackerBufferSize at *
  omega

theorem unread_overwrite (h : InRing t) (hnew : t.lastLsn ≠ lsn) (hfull : bufferFull t) (time : Int)
    (head : Mode) : unread (lagTrackerWrite true t lsn time) head =
      if unread t head = [] then [] else (unread t head).dropLast ++ [⟨lsn, time⟩] := by
  have hcount := h.count_lt head
  have hwrite := h.writeHead_eq head
  have hread := h.read head
  have hin := h.write
  obtain ⟨slot, hslot, hback⟩ : ∃ slot, lagTrackerWrite true t lsn time =
      { t with lastLsn := lsn, buffer := Function.update t.buffer slot ⟨lsn, time⟩ } ∧
        slot = (t.writeHead + (lagTrackerBufferSize - 1)) % lagTrackerBufferSize := by
    refine ⟨_, by rw [lagTrackerWrite, if_neg (by decide), if_neg hnew, if_pos hfull], ?_⟩
    unfold lagTrackerBufferSize at *
    split <;> omega
  have hsame : unread (lagTrackerWrite true t lsn time) head =
      samplesFrom (Function.update t.buffer slot ⟨lsn, time⟩) (t.readHeads head) (unreadCount t head) := by
    rw [hslot]
    rfl
  rw [hsame]
  rcases hc : unreadCount t head with _ | c
  · rw [if_pos (by rw [unread, hc]; rfl)]
    rfl
  · have hlast : slot = (t.readHeads head + c) % lagTrackerBufferSize := by
      unfold lagTrackerBufferSize at *
      omega
    have hunread : unread t head =
        samplesFrom t.buffer (t.readHeads head) c ++ [t.buffer ((t.readHeads head + c) % lagTrackerBufferSize)] := by
      rw [unread, hc, samplesFrom_concat]
    rw [hunread, if_neg (List.append_ne_nil_of_right_ne_nil _ (List.cons_ne_nil _ _)), List.dropLast_concat,
      samplesFrom_concat, samplesFrom_update, ← hlast, Function.update_self]
    intro k hk
    unfold lagTrackerBufferSize at *
    omega

theorem takeWhile_getLast_cons {α : Type*} {p : α → Bool} {a : α} {l : List α} (d : α) (ha : p a = true) :
    ((a :: l).takeWhile p).getLast?.getD d = (l.takeWhile p).getLast?.getD a := by
  rw [List.takeWhile_cons_of_pos ha, List.getLast?_cons]
  rfl

theorem readSamples_spec (h : InRing t) (lsn fuel : Nat) (hfuel : unreadCount t head < fuel) (time : Int) :
    ∃ t', readSamples head lsn fuel t time =
        (t', ((unread t head).takeWhile (reached lsn)).getLast?.elim time WalTimeSample.time) ∧
      InRing t' ∧ t'.lastLsn = t.lastLsn ∧ unread t' head = (unread t head).dropWhile (reached lsn) ∧
      t'.lastRead head = ((unread t head).takeWhile (reached lsn)).getLast?.getD (t.lastRead head) ∧
      ∀ i ≠ head, unread t' i = unread t i ∧ t'.lastRead i = t.lastRead i := by
  induction fuel generalizing t time with
  | zero => exact absurd hfuel (Nat.not_lt_zero _)
  | succ fuel ih =>
    have hcount := h.count_lt head
    have hwrite := h.writeHead_eq head
    have hread := h.read head
    rw [readSamples]
    rcases hc : unreadCount t head with _ | c
    · -- the head stands where the next sample will be written
      have hnil : unread t head = [] := by rw [unread, hc]; rfl
      rw [if_neg fun hgo => hgo.1 (h.drained_iff.mpr hnil), hnil]
      exact ⟨t, rfl, h, rfl, hnil, rfl, fun i _ => ⟨rfl, rfl⟩⟩
    · have hcons : unread t head = t.buffer (t.readHeads head) ::
          samplesFrom t.buffer ((t.readHeads head + 1) % lagTrackerBufferSize) c := by
        rw [unread, hc, samplesFrom_succ hread]
      have hne : t.readHeads head ≠ t.writeHead := fun heq => by
        rw [h.drained_iff.mp heq] at hcons
        cases hcons
      split
      · next hgo =>
        have hsample : reached lsn (t.buffer (t.readHeads head)) = true := decide_eq_true hgo.2
        set s : LagTracker :=
          { t with
            lastRead := Function.update t.lastRead head (t.buffer (t.readHeads head))
            readHeads := Function.update t.readHeads head ((t.readHeads head + 1) % lagTrackerBufferSize) } with hs
        have hstep : s.readHeads head = (t.readHeads head + 1) % lagTrackerBufferSize := Function.update_self _ _ _
        have hs_ring : InRing s := by
          refine ⟨h.write, fun i => ?_⟩
          by_cases hi : i = head
          · rw [hi, hstep]
            exact Nat.mod_lt _ (Nat.succ_pos _)
          · rw [hs]
            dsimp only
            rw [Function.update_of_ne hi]
            exact h.read i
        have hs_count : unreadCount s head = c := by
          refine unreadCount_eq (hs_ring.read head) (by omega) ?_
          change t.writeHead = (s.readHeads head + c) % lagTrackerBufferSize
          rw [hstep, hwrite, hc, Nat.mod_add_mod, Nat.add_assoc, Nat.add_comm 1 c]
        have hs_unread : unread s head = samplesFrom t.buffer ((t.readHeads head + 1) % lagTrackerBufferSize) c := by
          rw [unread, hs_count, hstep]
        obtain ⟨t', heq, hring, hlsn, hunread, hlast, hother⟩ := ih hs_ring (by omega)
          (t.buffer (t.readHeads head)).time
        have hs_last : s.lastRead head = t.buffer (t.readHeads head) := Function.update_self _ _ _
        refine ⟨t', heq.trans ?_, hring, hlsn, hunread.trans ?_, hlast.trans ?_, fun i hi => ?_⟩
        · rw [hcons, hs_unread, List.takeWhile_cons_of_pos hsample, List.getLast?_cons]
          cases (List.takeWhile _ _).getLast? <;> rfl
        · rw [hcons, hs_unread, List.dropWhile_cons_of_pos hsample]
        · rw [hcons, hs_unread, hs_last, takeWhile_getLast_cons _ hsample]
        · obtain ⟨hui, hli⟩ := hother i hi
          refine ⟨hui.trans ?_, hli.trans (Function.update_of_ne hi _ _)⟩
          have hri : s.readHeads i = t.readHeads i := Function.update_of_ne hi _ _
          rw [unread, unread, unreadCount, unreadCount, hri]
      · next hstop =>
        have hsample : ¬ reached lsn (t.buffer (t.readHeads head)) = true := fun hle =>
          hstop ⟨hne, of_decide_eq_true hle⟩
        refine ⟨t, ?_, h, rfl, ?_, ?_, fun i _ => ⟨rfl, rfl⟩⟩
        · rw [hcons, List.takeWhile_cons_of_neg hsample]
          rfl
        · rw [hcons, List.dropWhile_cons_of_neg hsample]
        · rw [hcons, List.takeWhile_cons_of_neg hsample]
          rfl

theorem clearLastRead_inRing (h : InRing t) : InRing (clearLastRead t head) := by
  unfold clearLastRead
  split
  · exact ⟨h.write, h.read⟩
  · exact h

theorem clearLastRead_heads (t : LagTracker) (head : Mode) :
    (clearLastRead t head).readHeads = t.readHeads ∧ (clearLastRead t head).writeHead = t.writeHead ∧
      (clearLastRead t head).buffer = t.buffer ∧ (clearLastRead t head).lastLsn = t.lastLsn := by
  unfold clearLastRead
  split <;> exact ⟨rfl, rfl, rfl, rfl⟩

theorem unread_clearLastRead (t : LagTracker) (head i : Mode) : unread (clearLastRead t head) i = unread t i := by
  obtain ⟨hread, hwrite, hbuffer, -⟩ := clearLastRead_heads t head
  rw [unread, unread, unreadCount, unreadCount, hread, hwrite, hbuffer]

theorem lagTrackerRead_spec (h : InRing t) (head : Mode) (lsn : Nat)
    (interpolate : WalTimeSample → WalTimeSample → Nat → Int) (now : Int) :
    ∃ t', lagTrackerRead interpolate t head lsn now = (t', lagOf interpolate t' head lsn now
          (((unread t head).takeWhile (reached lsn)).getLast?.elim 0 WalTimeSample.time)) ∧
      InRing t' ∧ t'.lastLsn = t.lastLsn ∧ unread t' head = (unread t head).dropWhile (reached lsn) ∧
      (unread t' head = [] → (t'.lastRead head).time = 0) ∧
      (unread t' head ≠ [] →
        t'.lastRead head = ((unread t head).takeWhile (reached lsn)).getLast?.getD (t.lastRead head)) ∧
      ∀ i ≠ head, unread t' i = unread t i ∧ t'.lastRead i = t.lastRead i := by
  obtain ⟨t₁, hloop, hring, hlsn, hunread, hlast, hother⟩ :=
    readSamples_spec h lsn lagTrackerBufferSize (h.count_lt head) 0
  have hclear := unread_clearLastRead t₁ head
  refine ⟨clearLastRead t₁ head, by rw [lagTrackerRead, hloop], clearLastRead_inRing hring,
    (clearLastRead_heads t₁ head).2.2.2.trans hlsn, (hclear head).trans hunread, fun hnil => ?_, fun hne => ?_,
    fun i hi => ⟨(hclear i).trans (hother i hi).1, ?_⟩⟩
  · rw [hclear] at hnil
    rw [clearLastRead, if_pos (hring.drained_iff.mpr hnil)]
    simp only [Function.update_self]
  · rw [hclear] at hne
    rw [clearLastRead, if_neg fun heq => hne (hring.drained_iff.mp heq)]
    exact hlast
  · refine Eq.trans ?_ (hother i hi).2
    unfold clearLastRead
    split
    · exact Function.update_of_ne hi _ _
    · rfl

theorem InRing.next_sample (h : InRing t) {w : WalTimeSample} {rest : List WalTimeSample}
    (hunread : unread t head = w :: rest) : t.buffer (t.readHeads head) = w := by
  rcases hc : unreadCount t head with _ | c
  · rw [unread, hc] at hunread
    cases hunread
  · rw [unread, hc, samplesFrom_succ (h.read head)] at hunread
    exact (List.cons.inj hunread).1

end

inductive Call
  | write (lsn : Nat) (time : Int)
  | read (head : Mode) (lsn : Nat) (now : Int)

structure Session where
  tracker : LagTracker
  clock : Int
  written : Option Nat
  asked : Mode → Nat
  /-- The LSNs recorded since the head last drained the ring. -/
  since : Mode → List Nat

def Timed (time : Int) : Prop := 0 < time ∧ time ≤ 2 ^ 53

def Interpolates (interpolate : WalTimeSample → WalTimeSample → Nat → Int) : Prop :=
  ∀ prev next lsn, prev.lsn ≤ lsn → lsn < next.lsn → Timed prev.time → Timed next.time → prev.time ≤ next.time →
    prev.time ≤ interpolate prev next lsn ∧ interpolate prev next lsn ≤ next.time

namespace Session

variable (interpolate : WalTimeSample → WalTimeSample → Nat → Int)

def start (clock : Int) : Session where
  tracker := ⟨0, fun _ => ⟨0, 0⟩, 0, fun _ => 0, fun _ => ⟨0, 0⟩⟩
  clock := clock
  written := none
  asked := fun _ => 0
  since := fun _ => []

def Allows (s : Session) : Call → Prop
  | .write lsn time => (∀ l ∈ s.written, l < lsn) ∧ s.clock ≤ time
  | .read head lsn now => s.asked head ≤ lsn ∧ s.clock ≤ now

def next (s : Session) : Call → Session
  | .write lsn time =>
    { s with
      tracker := lagTrackerWrite true s.tracker lsn time
      clock := time
      written := some lsn
      since := fun head => if s.tracker.lastLsn = lsn then s.since head else s.since head ++ [lsn] }
  | .read head lsn now =>
    { s with
      tracker := (lagTrackerRead interpolate s.tracker head lsn now).1
      clock := now
      asked := Function.update s.asked head lsn
      since := fun i =>
        if i = head ∧ unread (lagTrackerRead interpolate s.tracker head lsn now).1 head = [] then [] else s.since i }

def Overruns (s : Session) : Prop :=
  bufferFull s.tracker ∧ ∃ head, s.tracker.readHeads head = s.tracker.writeHead

def Meets (s : Session) : Call → Prop
  | .write lsn time => s.tracker.lastLsn ≠ lsn → Timed time ∧ ¬ s.Overruns
  | .read .. => True

def Step (s : Session) (c : Call) (s' : Session) : Prop := s.Allows c ∧ s' = s.next interpolate c

structure Faithful (s : Session) : Prop where
  increasing : ∀ head, (unread s.tracker head).Pairwise fun a b => a.lsn < b.lsn
  passed : ∀ head lsn now, s.Allows (.read head lsn now) →
    ∀ w ∈ ((unread s.tracker head).filter (reached lsn)).getLast?,
      (lagTrackerRead interpolate s.tracker head lsn now).2 = now - w.time
  found : ∀ head lsn now, s.Allows (.read head lsn now) → (∃ l ∈ s.since head, l ≤ lsn) →
    unread s.tracker head ≠ [] ∧ (lagTrackerRead interpolate s.tracker head lsn now).2 ≠ -1

def trail (t : LagTracker) (head : Mode) : List WalTimeSample :=
  (if (t.lastRead head).time = 0 then [] else [t.lastRead head]) ++ unread t head

structure Inv (s : Session) : Prop where
  ring : InRing s.tracker
  last : s.tracker.lastLsn = s.written.getD 0
  order : ∀ head, (trail s.tracker head).Pairwise fun a b => a.lsn < b.lsn ∧ a.time ≤ b.time
  known : ∀ head, ∀ w ∈ trail s.tracker head, w.lsn ≤ s.tracker.lastLsn ∧ w.time ≤ s.clock ∧ Timed w.time
  asked : ∀ head, (s.tracker.lastRead head).time ≠ 0 → (s.tracker.lastRead head).lsn ≤ s.asked head
  since : ∀ head, s.since head ≠ [] → unread s.tracker head ≠ []

variable {interpolate} {s : Session} {head : Mode} {lsn : Nat} {time now : Int}

theorem start_ring (clock : Int) : InRing (start clock).tracker := ⟨Nat.succ_pos _, fun _ => Nat.succ_pos _⟩

theorem start_trail (clock : Int) (head : Mode) : trail (start clock).tracker head = [] := by
  rw [trail, (start_ring clock).drained_iff.mp rfl, List.append_nil]
  exact if_pos rfl

theorem start_inv (clock : Int) : (start clock).Inv where
  ring := start_ring clock
  last := rfl
  order head := by
    rw [start_trail]
    exact .nil
  known head w hw := by
    rw [start_trail] at hw
    cases hw
  asked _ h := absurd rfl h
  since _ h := absurd rfl h

theorem Inv.lt_of_new (h : s.Inv) (hallows : s.Allows (.write lsn time)) (hnew : s.tracker.lastLsn ≠ lsn) :
    s.tracker.lastLsn < lsn := by
  have hlast := h.last
  rcases hw : s.written with _ | l
  · rw [hw, Option.getD_none] at hlast
    omega
  · rw [hw, Option.getD_some] at hlast
    rw [hlast]
    exact hallows.1 l hw

theorem Inv.write_trail (h : s.Inv) (hnew : s.tracker.lastLsn ≠ lsn) (hover : ¬ s.Overruns) (time : Int) (head : Mode) :
    ∃ kept, kept.Sublist (trail s.tracker head) ∧
      trail (lagTrackerWrite true s.tracker lsn time) head = kept ++ [⟨lsn, time⟩] ∧
        unread (lagTrackerWrite true s.tracker lsn time) head ≠ [] := by
  have hread := lagTrackerWrite_lastRead s.tracker lsn time
  by_cases hfull : bufferFull s.tracker
  · have hsome : unread s.tracker head ≠ [] := fun hnil =>
      hover ⟨hfull, head, h.ring.drained_iff.mpr hnil⟩
    have hunread := unread_overwrite h.ring hnew hfull time head
    rw [if_neg hsome] at hunread
    refine ⟨_, (List.Sublist.refl _).append (List.dropLast_sublist (unread s.tracker head)), ?_, ?_⟩
    · rw [trail, hread, hunread, List.append_assoc]
    · rw [hunread]
      exact List.append_ne_nil_of_right_ne_nil _ (List.cons_ne_nil _ _)
  · have hunread := unread_write h.ring hnew hfull time head
    refine ⟨_, List.Sublist.refl _, ?_, ?_⟩
    · rw [trail, trail, hread, hunread, List.append_assoc]
    · rw [hunread]
      exact List.append_ne_nil_of_right_ne_nil _ (List.cons_ne_nil _ _)

theorem Inv.write (h : s.Inv) (hallows : s.Allows (.write lsn time)) (hmeets : s.Meets (.write lsn time)) :
    (s.next interpolate (.write lsn time)).Inv := by
  have hlast := lagTrackerWrite_lastLsn s.tracker lsn time
  by_cases hnew : s.tracker.lastLsn = lsn
  · -- nothing is recorded
    have hsame : lagTrackerWrite true s.tracker lsn time = s.tracker := by
      rw [lagTrackerWrite, if_neg (by decide), if_pos hnew]
    constructor <;> simp only [next, hsame, if_pos hnew]
    · exact h.ring
    · exact hnew
    · exact h.order
    · intro head w hw
      obtain ⟨hlsn, htime, htimed⟩ := h.known head w hw
      exact ⟨hlsn, htime.trans hallows.2, htimed⟩
    · exact h.asked
    · exact h.since
  · obtain ⟨htimed, hover⟩ := hmeets hnew
    have hlt := h.lt_of_new hallows hnew
    have hread := lagTrackerWrite_lastRead s.tracker lsn time
    constructor <;> simp only [next]
    · exact lagTrackerWrite_inRing h.ring lsn time
    · exact hlast
    · intro head
      obtain ⟨kept, hkept, htrail, -⟩ := h.write_trail hnew hover time head
      rw [htrail]
      refine List.pairwise_append.mpr ⟨(h.order head).sublist hkept, List.pairwise_singleton _ _, fun a ha b hb => ?_⟩
      obtain ⟨hlsn, htime, -⟩ := h.known head a (hkept.subset ha)
      rw [List.mem_singleton.mp hb]
      exact ⟨lt_of_le_of_lt hlsn hlt, htime.trans hallows.2⟩
    · intro head w hw
      obtain ⟨kept, hkept, htrail, -⟩ := h.write_trail hnew hover time head
      rw [htrail] at hw
      rw [hlast]
      rcases List.mem_append.mp hw with hold | hone
      · obtain ⟨hlsn, htime, htimed⟩ := h.known head w (hkept.subset hold)
        exact ⟨hlsn.trans hlt.le, htime.trans hallows.2, htimed⟩
      · rw [List.mem_singleton.mp hone]
        exact ⟨le_rfl, le_rfl, htimed⟩
    · rw [hread]
      exact h.asked
    · intro head _
      obtain ⟨kept, -, -, hne⟩ := h.write_trail hnew hover time head
      exact hne

theorem read_trail {t : LagTracker} (hunread : unread t head = (unread s.tracker head).dropWhile (reached lsn))
    (hclear : unread t head = [] → (t.lastRead head).time = 0)
    (hlast : unread t head ≠ [] → t.lastRead head =
      ((unread s.tracker head).takeWhile (reached lsn)).getLast?.getD (s.tracker.lastRead head)) :
    (trail t head).Sublist (trail s.tracker head) := by
  rcases hrest : unread t head with _ | ⟨w, rest⟩
  · rw [trail, hrest, if_pos (hclear hrest)]
    exact List.nil_sublist _
  · have hsplit := List.takeWhile_append_dropWhile (p := reached lsn) (l := unread s.tracker head)
    rw [← hunread, hrest] at hsplit
    have hread := hlast (by rw [hrest]; exact List.cons_ne_nil _ _)
    rw [trail, trail, hrest, ← hsplit, hread]
    rcases List.eq_nil_or_concat ((unread s.tracker head).takeWhile (reached lsn)) with hnil | ⟨init, v, hconcat⟩
    · rw [hnil]
      exact List.Sublist.refl _
    · rw [hconcat, List.concat_eq_append, List.getLast?_concat, Option.getD_some, List.append_assoc]
      have hkept : (if v.time = 0 then [] else [v] : List WalTimeSample).Sublist [v] := by
        split
        · exact List.nil_sublist _
        · exact List.Sublist.refl _
      exact ((hkept.append (List.Sublist.refl _)).trans (List.sublist_append_right init _)).trans
        (List.sublist_append_right _ _)

theorem Inv.read (interpolate : WalTimeSample → WalTimeSample → Nat → Int) (h : s.Inv) (hallows : s.Allows (.read head lsn now)) :
    (s.next interpolate (.read head lsn now)).Inv := by
  obtain ⟨t, ht, hring, hlsn, hunread, hclear, hlast, hother⟩ :=
    lagTrackerRead_spec h.ring head lsn interpolate now
  have hsub : ∀ i, (trail t i).Sublist (trail s.tracker i) := by
    intro i
    by_cases hi : i = head
    · rw [hi]
      exact read_trail hunread hclear hlast
    · rw [trail, trail, (hother i hi).1, (hother i hi).2]
  constructor <;> simp only [next, ht]
  · exact hring
  · rw [hlsn]
    exact h.last
  · exact fun i => (h.order i).sublist (hsub i)
  · intro i w hw
    obtain ⟨hle, htime, htimed⟩ := h.known i w ((hsub i).subset hw)
    exact ⟨hlsn ▸ hle, htime.trans hallows.2, htimed⟩
  · intro i htime
    by_cases hi : i = head
    · subst hi
      rw [Function.update_self]
      have hread := hlast fun hnil => htime (hclear hnil)
      rcases hlook : ((unread s.tracker i).takeWhile (reached lsn)).getLast? with _ | w
      · rw [hlook, Option.getD_none] at hread
        rw [hread] at htime ⊢
        exact (h.asked i htime).trans hallows.1
      · rw [hlook, Option.getD_some] at hread
        rw [hread]
        have hreached : reached lsn w = true := List.mem_takeWhile_imp (List.mem_of_getLast? hlook)
        exact of_decide_eq_true hreached
    · rw [Function.update_of_ne hi]
      rw [(hother i hi).2] at htime ⊢
      exact h.asked i htime
  · intro i hne
    by_cases hi : i = head
    · subst hi
      intro hnil
      exact hne (if_pos ⟨rfl, hnil⟩)
    · rw [if_neg fun hboth => hi hboth.1] at hne
      rw [(hother i hi).1]
      exact h.since i hne

theorem takeWhile_eq_filter {l : List WalTimeSample} (h : l.Pairwise fun a b => a.lsn < b.lsn) :
    l.takeWhile (reached lsn) = l.filter (reached lsn) := by
  induction h with
  | nil => rfl
  | @cons w l hlt _ ih =>
    rw [List.takeWhile_cons, List.filter_cons, ih]
    split
    · rfl
    · next hnot =>
      have hlater : ∀ v ∈ l, ¬ reached lsn v = true := fun v hv hle =>
        hnot (decide_eq_true ((hlt v hv).le.trans (of_decide_eq_true hle)))
      exact (List.filter_eq_nil_iff.mpr hlater).symm

theorem Inv.unread_order (h : s.Inv) (head : Mode) :
    (unread s.tracker head).Pairwise fun a b => a.lsn < b.lsn ∧ a.time ≤ b.time :=
  (h.order head).sublist (List.sublist_append_right _ _)

theorem Inv.passed (interpolate : WalTimeSample → WalTimeSample → Nat → Int) (h : s.Inv) (hallows : s.Allows (.read head lsn now)) {w : WalTimeSample}
    (hw : ((unread s.tracker head).takeWhile (reached lsn)).getLast? = some w) :
    (lagTrackerRead interpolate s.tracker head lsn now).2 = now - w.time ∧ w.time ≤ now := by
  obtain ⟨t, ht, -⟩ := lagTrackerRead_spec h.ring head lsn interpolate now
  have hmem : w ∈ unread s.tracker head := List.takeWhile_subset _ (List.mem_of_getLast? hw)
  obtain ⟨-, htime, htimed⟩ := h.known head w (List.mem_append_right _ hmem)
  have hnow : w.time ≤ now := htime.trans hallows.2
  have hpos := htimed.1
  rw [ht, hw, Option.elim_some, lagOf, if_neg (by omega), if_neg (by omega)]
  exact ⟨rfl, hnow⟩

theorem Inv.waiting (hinterp : Interpolates interpolate) (h : s.Inv) (hallows : s.Allows (.read head lsn now))
    (hnone : ((unread s.tracker head).takeWhile (reached lsn)).getLast? = none)
    (hsome : unread s.tracker head ≠ []) : 0 ≤ (lagTrackerRead interpolate s.tracker head lsn now).2 := by
  obtain ⟨t, ht, hring, -, hunread, -, hlast, -⟩ :=
    lagTrackerRead_spec h.ring head lsn interpolate now
  have hnil := List.getLast?_eq_none_iff.mp hnone
  have hsame : unread t head = unread s.tracker head := by
    have hsplit := List.takeWhile_append_dropWhile (p := reached lsn) (l := unread s.tracker head)
    rw [hnil, List.nil_append] at hsplit
    rw [hunread, hsplit]
  have hread : t.lastRead head = s.tracker.lastRead head := by
    have heq := hlast (by rwa [hsame])
    rwa [hnone, Option.getD_none] at heq
  obtain ⟨w, rest, hcons⟩ := List.exists_cons_of_ne_nil hsome
  have hnext : t.buffer (t.readHeads head) = w := hring.next_sample (hsame.trans hcons)
  have hmem : w ∈ unread s.tracker head := by
    rw [hcons]
    exact List.mem_cons_self
  have hahead : lsn < w.lsn := by
    rw [hcons] at hnil
    have hnot : ¬ reached lsn w = true := fun hle => by
      rw [List.takeWhile_cons_of_pos hle] at hnil
      cases hnil
    exact Nat.lt_of_not_le fun hle => hnot (decide_eq_true hle)
  obtain ⟨-, htime, htimed⟩ := h.known head w (List.mem_append_right _ hmem)
  have hnow : w.time ≤ now := htime.trans hallows.2
  have hpos := htimed.1
  have hdrained : t.readHeads head ≠ t.writeHead := fun heq =>
    hsome (hsame.symm.trans (hring.drained_iff.mp heq))
  rw [ht, hnone, Option.elim_none]
  dsimp only
  rw [lagOf, if_neg (by omega), if_pos rfl, if_neg hdrained, hnext, hread]
  dsimp only
  split
  · next hprev =>
    have hmine : s.tracker.lastRead head ∈ trail s.tracker head := by
      rw [trail, if_neg hprev]
      exact List.mem_append_left _ (List.mem_singleton_self _)
    have hbefore := h.order head
    rw [trail, if_neg hprev] at hbefore
    obtain ⟨-, hle⟩ := (List.pairwise_append.mp hbefore).2.2 _ (List.mem_singleton_self _) w hmem
    have hasked := (h.asked head hprev).trans hallows.1
    obtain ⟨-, hupper⟩ := hinterp _ w lsn hasked hahead (h.known head _ hmine).2.2 htimed hle
    rw [if_neg (by omega), if_neg (by omega)]
    omega
  · omega

theorem Inv.faithful (hinterp : Interpolates interpolate) (h : s.Inv) : s.Faithful interpolate where
  increasing head := (h.unread_order head).imp And.left
  passed head lsn now hallows w hw := by
    rw [← takeWhile_eq_filter ((h.unread_order head).imp And.left)] at hw
    exact (h.passed interpolate hallows hw).1
  found head lsn now hallows := by
    rintro ⟨l, hl, -⟩
    have hsome := h.since head (List.ne_nil_of_mem hl)
    refine ⟨hsome, ?_⟩
    rcases hlook : ((unread s.tracker head).takeWhile (reached lsn)).getLast? with _ | w
    · have hlag := h.waiting hinterp hallows hlook hsome
      omega
    · obtain ⟨hlag, hnow⟩ := h.passed interpolate hallows hlook
      omega

theorem Inv.lost (interpolate : WalTimeSample → WalTimeSample → Nat → Int) (h : s.Inv) (time : Int) (hnew : s.tracker.lastLsn ≠ lsn) (hover : s.Overruns) :
    ¬ (s.next interpolate (.write lsn time)).Faithful interpolate := by
  obtain ⟨hfull, head, hdrained⟩ := hover
  intro hfaithful
  have hunread := unread_overwrite h.ring hnew hfull time head
  rw [if_pos (h.ring.drained_iff.mp hdrained)] at hunread
  refine (hfaithful.found head (max (s.asked head) lsn) time ⟨le_max_left _ _, le_rfl⟩ ⟨lsn, ?_, le_max_right _ _⟩).1
    hunread
  simp only [next, if_neg hnew]
  exact List.mem_append_right _ (List.mem_singleton_self _)

theorem steps_inv {clock : Int} {calls : List Call}
    (hrun : Lib.Steps (fun s c s' => s.Meets c ∧ Step interpolate s c s') (start clock) calls s) : s.Inv := by
  refine hrun.invariant (P := Inv) ?_ (start_inv clock)
  rintro s c s' hinv ⟨hmeets, hallows, rfl⟩
  cases c with
  | write lsn time => exact hinv.write hallows hmeets
  | read head lsn now => exact hinv.read interpolate hallows

/-- The readers keep their samples in every run in which no new LSN is written over a head that has drained a full ring,
and the first such write breaks the promise. -/
theorem lagTracker_faithful (hinterp : Interpolates interpolate) {clock : Int} {calls : List Call}
    (hrun : Lib.Steps (fun s c s' => s.Meets c ∧ Step interpolate s c s') (start clock) calls s) :
    s.Faithful interpolate ∧ ∀ lsn time, s.Allows (.write lsn time) → s.tracker.lastLsn ≠ lsn → Timed time →
        ((s.next interpolate (.write lsn time)).Faithful interpolate ↔ ¬ s.Overruns) := by
  have hinv := steps_inv hrun
  refine ⟨hinv.faithful hinterp, fun lsn time hallows hnew htimed => ⟨fun hfaithful hover => ?_, fun hover => ?_⟩⟩
  · exact hinv.lost interpolate time hnew hover hfaithful
  · exact (hinv.write hallows fun _ => ⟨htimed, hover⟩).faithful hinterp

/-- As the source does it, in whole numbers. -/
def proportional (prev next : WalTimeSample) (lsn : Nat) : Int :=
  prev.time + (next.time - prev.time) * (lsn - prev.lsn : Nat) / (next.lsn - prev.lsn : Nat)

theorem interpolates_proportional : Interpolates proportional := by
  intro prev next lsn hprev hnext _ _ hle
  have hden : (0 : Int) < (next.lsn - prev.lsn : Nat) := by omega
  have hgap : 0 ≤ next.time - prev.time := by omega
  have hpart : ((lsn - prev.lsn : Nat) : Int) ≤ (next.lsn - prev.lsn : Nat) := by omega
  have hlow : 0 ≤ (next.time - prev.time) * (lsn - prev.lsn : Nat) / (next.lsn - prev.lsn : Nat) :=
    Int.ediv_nonneg (Int.mul_nonneg hgap (Int.natCast_nonneg _)) hden.le
  have hhigh : (next.time - prev.time) * (lsn - prev.lsn : Nat) / (next.lsn - prev.lsn : Nat) ≤ next.time - prev.time :=
    Int.ediv_le_of_le_mul hden (Int.mul_le_mul_of_nonneg_left hpart hgap)
  unfold proportional
  omega

theorem start_write : (start 1).Meets (.write 5 10) ∧ Step proportional (start 1) (.write 5 10)
    ((start 1).next proportional (.write 5 10)) := by
  refine ⟨fun _ => ⟨by unfold Timed; omega, fun hover => ?_⟩, ⟨fun l hl => ?_, by decide⟩, rfl⟩
  · obtain ⟨head, hhead⟩ := hover.1
    cases hhead
  · cases hl

theorem lagTracker_faithful_write : ((start 1).next proportional (.write 5 10)).Faithful proportional ∧
    ∀ lsn time, ((start 1).next proportional (.write 5 10)).Allows (.write lsn time) →
      ((start 1).next proportional (.write 5 10)).tracker.lastLsn ≠ lsn → Timed time →
      ((((start 1).next proportional (.write 5 10)).next proportional (.write lsn time)).Faithful proportional ↔
        ¬ ((start 1).next proportional (.write 5 10)).Overruns) :=
  lagTracker_faithful interpolates_proportional (.cons start_write (.nil _))

structure Filled (n : Nat) (s : Session) : Prop where
  written : s.tracker.writeHead = n
  unread : ∀ head, s.tracker.readHeads head = 0
  last : s.tracker.lastLsn = n
  recorded : s.written.getD 0 = n
  clock : s.clock = 1
  asked : ∀ head, s.asked head = 0

theorem filled_steps (m : Nat) : ∀ {n : Nat} {s : Session}, Filled n s → n + m < lagTrackerBufferSize →
    ∃ calls s', Lib.Steps (fun s c s' => s.Meets c ∧ Step proportional s c s') s calls s' ∧ Filled (n + m) s' := by
  induction m with
  | zero => exact fun h _ => ⟨[], _, .nil _, h⟩
  | succ m ih =>
    intro n s h hroom
    have hroom' : (n + 1) % lagTrackerBufferSize = n + 1 := Nat.mod_eq_of_lt (by omega)
    have hfree : ¬ bufferFull s.tracker := by
      rintro ⟨head, hhead⟩
      rw [h.written, h.unread, hroom'] at hhead
      cases hhead
    have hnew : s.tracker.lastLsn ≠ n + 1 := by
      rw [h.last]
      exact Nat.ne_of_lt (Nat.lt_succ_self n)
    have hmeets : s.Meets (.write (n + 1) 1) := fun _ => ⟨by unfold Timed; omega, fun hover => hfree hover.1⟩
    have hallows : s.Allows (.write (n + 1) 1) := by
      refine ⟨fun l hl => ?_, h.clock.le⟩
      have heq := h.recorded
      rw [Option.mem_def.mp hl, Option.getD_some] at heq
      omega
    have hfilled : Filled (n + 1) (s.next proportional (.write (n + 1) 1)) := by
      constructor <;> simp only [next, lagTrackerWrite, if_neg hnew, if_neg hfree, Bool.not_true, Bool.false_eq_true,
        if_false]
      · rw [h.written, hroom']
      · exact h.unread
      · rfl
      · exact h.asked
    obtain ⟨calls, s', hrun, hend⟩ := ih hfilled (by omega)
    rw [Nat.add_right_comm] at hend
    exact ⟨_, s', .cons ⟨hmeets, hallows, rfl⟩ hrun, hend⟩

/-- A ring of 8191 samples is full when the flush and the apply head have read none of them. -/
theorem sample_lost : ¬ ∀ interpolate, Interpolates interpolate → ∀ clock calls s,
    Lib.Steps (Step interpolate) (start clock) calls s → s.Faithful interpolate := by
  intro hclaim
  obtain ⟨calls, s, hrun, hfilled⟩ := filled_steps 8191 (n := 0) (s := start 1)
    ⟨rfl, fun _ => rfl, rfl, rfl, rfl, fun _ => rfl⟩ (by decide)
  have hinv := steps_inv hrun
  -- the write head reads everything
  have hallows : s.Allows (.read .write 8191 1) := ⟨by rw [hfilled.asked]; exact Nat.zero_le _, hfilled.clock.le⟩
  obtain ⟨t, ht, hring, hlsn, hunread, -, -, hother⟩ :=
    lagTrackerRead_spec hinv.ring .write 8191 proportional 1
  have hdrained : unread t .write = [] := by
    rw [hunread, List.dropWhile_eq_nil_iff]
    intro w hw
    have hle := (hinv.known .write w (List.mem_append_right _ hw)).1
    rw [hfilled.last] at hle
    exact decide_eq_true hle
  have hcount : unreadCount t .apply = 8191 := by
    have hlength := congrArg List.length (hother .apply (by decide)).1
    rw [unread, unread, length_samplesFrom, length_samplesFrom] at hlength
    rw [hlength, unreadCount, hfilled.written, hfilled.unread]
    rfl
  have hfull : bufferFull t := by
    refine ⟨.apply, ?_⟩
    have hin := hring.read .apply
    rw [hring.writeHead_eq .apply, hcount]
    unfold lagTrackerBufferSize at *
    omega
  have hsecond := hinv.read proportional hallows
  have htracker : (s.next proportional (.read .write 8191 1)).tracker = t := by simp only [next, ht]
  have hwrite : (s.next proportional (.read .write 8191 1)).Allows (.write 8192 1) := by
    refine ⟨fun l hl => ?_, le_rfl⟩
    have heq := hfilled.recorded
    rw [show s.written = some l from hl, Option.getD_some] at heq
    omega
  have hnew : (s.next proportional (.read .write 8191 1)).tracker.lastLsn ≠ 8192 := by
    rw [htracker, hlsn, hfilled.last]
    decide
  refine hsecond.lost proportional 1 hnew ?_ ?_
  · rw [Overruns, htracker]
    exact ⟨hfull, .write, hring.drained_iff.mpr hdrained⟩
  · refine hclaim _ interpolates_proportional 1 (calls ++ [.read .write 8191 1, .write 8192 1]) _ ?_
    refine (hrun.mono fun hstep => hstep.2).append (.cons ⟨hallows, rfl⟩ (.cons ⟨hwrite, rfl⟩ (.nil _)))

end Session

end CdcKafka.WalSender
