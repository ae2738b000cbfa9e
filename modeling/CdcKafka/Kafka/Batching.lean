import CdcKafka.Lib.Checked

/-! Handing a document to librdkafka: `kafka_send_optimized`, over every sequence of
outcomes of `rd_kafka_produce` and `rd_kafka_flush`. -/

namespace CdcKafka.Kafka
open CdcKafka.Lib

def respErrNoError : Int := 0
def respErrQueueFull : Int := -184

/-- What a call of `rd_kafka_produce` did. The reason of a failure is not returned:
`rd_kafka_last_error` tells it. -/
inductive Outcome
  | enqueued
  | failed (lastError : Int)
deriving DecidableEq

def Outcome.returnCode : Outcome → Int
  | .enqueued => 0
  | .failed _ => -1

structure Library where
  produce : Nat → Outcome
  flush : Nat → Int
  err2str : Int → String

structure Message where
  text : CStr
  fits : text.bytes.length < 2 ^ 63
deriving DecidableEq

structure Queued where
  payload : CStr
  len : Nat
deriving DecidableEq

inductive Level
  | log
  | warning
deriving DecidableEq

/-- The static counters of the sender, the library's queue with every message it has
accepted, the calls made and the reports written. -/
structure Sender where
  messageCount : Int
  maxMessageCount : Int
  localMemoryUsage : Int
  maxMemoryKbytes : Int
  queue : List Queued
  produceCalls : Nat
  flushCalls : Nat
  pollCalls : Nat
  lastError : Int
  reports : List (Level × String)
deriving DecidableEq

def Sender.ereport (s : Sender) (level : Level) (text : String) : Sender :=
  { s with reports := s.reports ++ [(level, text)] }

def rdKafkaProduce (lib : Library) (s : Sender) (payload : CStr) (len : Nat) : Int × Sender :=
  match lib.produce s.produceCalls with
  | .enqueued => (Outcome.returnCode .enqueued,
      { s with produceCalls := s.produceCalls + 1, queue := s.queue ++ [⟨payload, len⟩] })
  | .failed e => (Outcome.returnCode (.failed e), { s with produceCalls := s.produceCalls + 1, lastError := e })

def rdKafkaFlush (lib : Library) (s : Sender) : Int × Sender :=
  (lib.flush s.flushCalls, { s with flushCalls := s.flushCalls + 1 })

def rdKafkaPoll (s : Sender) : Sender := { s with pollCalls := s.pollCalls + 1 }

def maxRetryAttempts : Nat := 10

def toInt32 (n : Int) : Int := (n + 2 ^ 31) % 2 ^ 32 - 2 ^ 31

def msgLen (msg : CStr) : Int := toInt32 msg.bytes.length

def estimatedSize (msg : CStr) : Int := toInt32 (msgLen msg + 100)

/-- The flush made in advance when a counter has reached its limit. A flush that timed
out is reported and the message is tried all the same. -/
def forcedFlush (lib : Library) (s : Sender) : Sender :=
  let (result, s) := rdKafkaFlush lib s
  let s := { s with messageCount := 0 }
  if result ≠ 0 then
    s.ereport .warning "Kafka queue is full, forced flush timed out. Proceeding with risk."
  else s

def checkCounters (lib : Library) (s : Sender) (estimated : Int) : Sender :=
  if s.maxMessageCount ≤ s.messageCount ∨
      s.maxMemoryKbytes * 1024 ≤ s.localMemoryUsage + estimated then
    forcedFlush lib s
  else s

inductive Leave
  | done (err : Int)
  | returned
  | raised (text : String)
deriving DecidableEq

def flushFull (lib : Library) (s : Sender) : Sender :=
  let (_, s) := rdKafkaFlush lib (s.ereport .log "Kafka internal queue full, forcing flush...")
  rdKafkaPoll { s with messageCount := 0 }

def produceLoop (lib : Library) (msg : CStr) (s : Sender) (retries : Nat) : Sender × Leave :=
  let (err, s) := rdKafkaProduce lib s msg (sizeT (msgLen msg))
  if err = respErrQueueFull then
    if maxRetryAttempts < retries + 1 then
      (flushFull lib s, .raised ("Failed to send after " ++ toString maxRetryAttempts ++
        " forced flushes. Aborting."))
    else produceLoop lib msg (flushFull lib s) (retries + 1)
  else if err ≠ respErrNoError then
    (s.ereport .log ("Produce failed: " ++ lib.err2str err), .returned)
  else (s, .done err)
termination_by maxRetryAttempts - retries

inductive Exit
  | returned
  | raised (text : String)
deriving DecidableEq

def countMessage (s : Sender) (estimated : Int) : Sender :=
  let s := { s with messageCount := s.messageCount + 1,
                    localMemoryUsage := s.localMemoryUsage + estimated }
  if s.messageCount % 10 = 0 then rdKafkaPoll s else s

def afterLoop (estimated : Int) : Sender × Leave → Sender × Exit
  | (s, .raised text) => (s, .raised text)
  | (s, .returned) => (s, .returned)
  | (s, .done err) =>
    if err = respErrNoError then (countMessage s estimated, .returned) else (s, .returned)

def kafkaSendOptimized (lib : Library) (s : Sender) (rk rkt : Bool) (msg : Option CStr) :
    Sender × Exit :=
  match rk, rkt, msg with
  | true, true, some msg =>
    afterLoop (estimatedSize msg) (produceLoop lib msg (checkCounters lib s (estimatedSize msg)) 0)
  | _, _, _ => (s.ereport .log "ERROR: Invalid parameters", .returned)

@[simp] theorem forcedFlush_queue (lib : Library) (s : Sender) :
    (forcedFlush lib s).queue = s.queue := by
  simp only [forcedFlush, apply_ite Sender.queue]
  exact ite_id s.queue

@[simp] theorem forcedFlush_produceCalls (lib : Library) (s : Sender) :
    (forcedFlush lib s).produceCalls = s.produceCalls := by
  simp only [forcedFlush, apply_ite Sender.produceCalls]
  exact ite_id s.produceCalls

@[simp] theorem checkCounters_queue (lib : Library) (s : Sender) (n : Int) :
    (checkCounters lib s n).queue = s.queue := by
  simp only [checkCounters, apply_ite Sender.queue, forcedFlush_queue, ite_id]

@[simp] theorem checkCounters_produceCalls (lib : Library) (s : Sender) (n : Int) :
    (checkCounters lib s n).produceCalls = s.produceCalls := by
  simp only [checkCounters, apply_ite Sender.produceCalls, forcedFlush_produceCalls, ite_id]

@[simp] theorem countMessage_queue (s : Sender) (n : Int) : (countMessage s n).queue = s.queue := by
  simp only [countMessage, apply_ite Sender.queue, rdKafkaPoll, ite_id]

theorem returnCode_ne_queueFull (o : Outcome) : o.returnCode ≠ respErrQueueFull := by
  cases o with
  | enqueued => decide
  | failed e => exact (by decide : (-1 : Int) ≠ -184)

theorem produceLoop_enqueued {lib : Library} {msg : CStr} {s : Sender} (retries : Nat)
    (h : lib.produce s.produceCalls = .enqueued) :
    produceLoop lib msg s retries = ({ s with
      produceCalls := s.produceCalls + 1
      queue := s.queue ++ [⟨msg, sizeT (msgLen msg)⟩] }, .done respErrNoError) := by
  have hne : Outcome.returnCode .enqueued ≠ respErrQueueFull := returnCode_ne_queueFull _
  have he : Outcome.returnCode .enqueued = respErrNoError := rfl
  rw [produceLoop]
  simp only [rdKafkaProduce, h]
  rw [if_neg hne, if_neg (not_not_intro he), he]

theorem produceLoop_failed {lib : Library} {msg : CStr} {s : Sender} {e : Int} (retries : Nat)
    (h : lib.produce s.produceCalls = .failed e) :
    produceLoop lib msg s retries = (Sender.ereport { s with produceCalls := s.produceCalls + 1, lastError := e } .log
      ("Produce failed: " ++ lib.err2str (-1)), .returned) := by
  have hne : Outcome.returnCode (.failed e) ≠ respErrQueueFull := returnCode_ne_queueFull _
  have he : Outcome.returnCode (.failed e) ≠ respErrNoError := (by decide : (-1 : Int) ≠ 0)
  rw [produceLoop]
  simp only [rdKafkaProduce, h]
  rw [if_neg hne, if_pos he]
  rfl

theorem sizeT_msgLen_iff (m : Message) :
    sizeT (msgLen m.text) = m.text.bytes.length ↔ m.text.bytes.length < 2 ^ 31 := by
  have hm := m.fits
  generalize hn : m.text.bytes.length = n at hm
  -- `int` and `size_t` agree with the length below the sign bit and nowhere else
  rw [sizeT, msgLen, toInt32, hn]
  omega

def Delivers (s : Sender) (msg : Message) (r : Sender × Exit) : Prop :=
  (∃ text, r.2 = .raised text) ∨ r.1.queue = s.queue ++ [⟨msg.text, msg.text.bytes.length⟩]

theorem kafkaSendOptimized_enqueued {lib : Library} {s : Sender} {msg : CStr}
    (h : lib.produce s.produceCalls = .enqueued) :
    (kafkaSendOptimized lib s true true (some msg)).2 = .returned ∧
      (kafkaSendOptimized lib s true true (some msg)).1.queue = s.queue ++ [⟨msg, sizeT (msgLen msg)⟩] := by
  have hc : lib.produce (checkCounters lib s (estimatedSize msg)).produceCalls = .enqueued := by
    rw [checkCounters_produceCalls, h]
  simp only [kafkaSendOptimized]
  rw [produceLoop_enqueued 0 hc]
  simp only [afterLoop, if_true, countMessage_queue, checkCounters_queue, and_self]

theorem kafkaSendOptimized_failed {lib : Library} {s : Sender} {msg : CStr} {e : Int}
    (h : lib.produce s.produceCalls = .failed e) :
    (kafkaSendOptimized lib s true true (some msg)).2 = .returned ∧
      (kafkaSendOptimized lib s true true (some msg)).1.queue = s.queue := by
  have hc : lib.produce (checkCounters lib s (estimatedSize msg)).produceCalls = .failed e := by
    rw [checkCounters_produceCalls, h]
  simp only [kafkaSendOptimized]
  rw [produceLoop_failed 0 hc]
  simp only [afterLoop, Sender.ereport, checkCounters_queue, and_self]

theorem kafkaSendOptimized_invalid {lib : Library} {s : Sender} {rk rkt : Bool} {msg : CStr}
    (h : ¬(rk = true ∧ rkt = true)) :
    (kafkaSendOptimized lib s rk rkt (some msg)).2 = .returned ∧
      (kafkaSendOptimized lib s rk rkt (some msg)).1.queue = s.queue := by
  cases rk <;> cases rkt
  case true.true => exact absurd ⟨rfl, rfl⟩ h
  all_goals exact ⟨rfl, rfl⟩

theorem not_delivers_of_unchanged {s : Sender} {msg : Message} {r : Sender × Exit}
    (h : r.2 = .returned ∧ r.1.queue = s.queue) : ¬Delivers s msg r := by
  rintro (⟨text, ht⟩ | hq)
  · rw [h.1] at ht
    cases ht
  · rw [h.2] at hq
    exact absurd hq.symm (by simp)

/-- A message is delivered, or an error raised, exactly when the handles are set, the
message is below 2 GiB and the first `rd_kafka_produce` accepts it. -/
theorem kafkaSendOptimized_delivers_iff (lib : Library) (s : Sender) (rk rkt : Bool) (msg : Message) :
    Delivers s msg (kafkaSendOptimized lib s rk rkt (some msg.text)) ↔
      (rk = true ∧ rkt = true) ∧ msg.text.bytes.length < 2 ^ 31 ∧ lib.produce s.produceCalls = .enqueued := by
  by_cases hh : ¬(rk = true ∧ rkt = true)
  · have hn : _ ∧ (kafkaSendOptimized lib s rk rkt (some msg.text)).1.queue = s.queue :=
      kafkaSendOptimized_invalid hh
    exact iff_of_false (not_delivers_of_unchanged hn) fun h => hh h.1
  obtain ⟨rfl, rfl⟩ := not_not.mp hh
  cases ho : lib.produce s.produceCalls with
  | failed e =>
    have hn : _ ∧ (kafkaSendOptimized lib s true true (some msg.text)).1.queue = s.queue :=
      kafkaSendOptimized_failed ho
    exact iff_of_false (not_delivers_of_unchanged hn) fun h => by cases h.2.2
  | enqueued =>
    obtain ⟨hr, hq⟩ : _ ∧ (kafkaSendOptimized lib s true true (some msg.text)).1.queue =
        s.queue ++ [⟨msg.text, sizeT (msgLen msg.text)⟩] := kafkaSendOptimized_enqueued ho
    constructor
    · rintro (⟨text, ht⟩ | hd)
      · rw [hr] at ht
        cases ht
      · rw [hq] at hd
        have hl : sizeT (msgLen msg.text) = msg.text.bytes.length := by simpa using hd
        exact ⟨⟨rfl, rfl⟩, (sizeT_msgLen_iff msg).mp hl, rfl⟩
    · rintro ⟨-, hlen, -⟩
      exact .inr (by rw [hq, (sizeT_msgLen_iff msg).mpr hlen])

def fullOnce : Library where
  produce := fun n => if n = 0 then .failed respErrQueueFull else .enqueued
  flush := fun _ => 0
  err2str := fun _ => "Local: Unknown error"

def fresh : Sender where
  messageCount := 0
  maxMessageCount := 100000
  localMemoryUsage := 0
  maxMemoryKbytes := 1048576
  queue := []
  produceCalls := 0
  flushCalls := 0
  pollCalls := 0
  lastError := 0
  reports := []

/-- Where the queue is full at the only attempt, nothing is raised and nothing enqueued. -/
theorem full_queue_drops_message : ¬Delivers fresh ⟨CStr.lit ['z'], by decide⟩
      (kafkaSendOptimized fullOnce fresh true true (some (CStr.lit ['z']))) := by
  apply not_delivers_of_unchanged
  exact kafkaSendOptimized_failed (e := respErrQueueFull) rfl

end CdcKafka.Kafka

/-! When `kafka_send_optimized` flushes in advance: the static counters of the sender, compared
over whole runs with what was sent since the last of these flushes. -/

namespace CdcKafka.Kafka
open CdcKafka.Lib

def Sender.start (maxMessageCount maxMemoryKbytes : Int) : Sender where
  messageCount := 0
  maxMessageCount := maxMessageCount
  localMemoryUsage := 0
  maxMemoryKbytes := maxMemoryKbytes
  queue := []
  produceCalls := 0
  flushCalls := 0
  pollCalls := 0
  lastError := 0
  reports := []

structure Call where
  rk : Bool
  rkt : Bool
  msg : Option Message

def Call.message? (c : Call) : Option Message := if c.rk && c.rkt then c.msg else none

def send (lib : Library) (s : Sender) (c : Call) : Sender :=
  (kafkaSendOptimized lib s c.rk c.rkt (c.msg.map Message.text)).1

def Sender.Due (s : Sender) (m : Message) : Prop :=
  s.maxMessageCount ≤ s.messageCount ∨ s.maxMemoryKbytes * 1024 ≤ s.localMemoryUsage + estimatedSize m.text

structure Sent where
  messages : Int
  bytes : Int

def Sent.none : Sent := ⟨0, 0⟩

def Sent.Passes (l : Sent) (s : Sender) (m : Message) : Prop :=
  s.maxMessageCount ≤ l.messages ∨ s.maxMemoryKbytes * 1024 ≤ l.bytes + estimatedSize m.text

def Sent.count (l : Sent) (lib : Library) (s : Sender) (m : Message) : Sent :=
  match lib.produce s.produceCalls with
  | .enqueued => ⟨l.messages + 1, l.bytes + estimatedSize m.text⟩
  | .failed _ => l

def Flushes (lib : Library) (s : Sender) (c : Call) : Prop := (send lib s c).flushCalls ≠ s.flushCalls

instance (lib : Library) (s : Sender) (c : Call) : Decidable (Flushes lib s c) :=
  inferInstanceAs (Decidable (_ ≠ _))

def Sent.after (l : Sent) (lib : Library) (s : Sender) (c : Call) : Sent :=
  match c.message? with
  | .none => l
  | some m => (if Flushes lib s c then Sent.none else l).count lib s m

/-- The flushes of a run are those that what was sent since the last one asks for, and leave both
counters at zero. -/
def Batches (lib : Library) : Sender → Sent → List Call → Prop
  | _, _, [] => True
  | s, l, c :: cs =>
    (Flushes lib s c ↔ ∃ m, c.message? = some m ∧ l.Passes s m) ∧ (∀ m, c.message? = some m → Flushes lib s c →
        (forcedFlush lib s).messageCount = 0 ∧ (forcedFlush lib s).localMemoryUsage = 0) ∧
      Batches lib (send lib s c) (l.after lib s c) cs

def FlushesUncounted (lib : Library) : Sender → List Call → Prop
  | _, [] => True
  | s, c :: cs =>
    (∀ m, c.message? = some m → s.Due m → s.localMemoryUsage = 0) ∧ FlushesUncounted lib (send lib s c) cs

variable {lib : Library} {s : Sender} {c : Call} {m : Message}

@[simp] theorem forcedFlush_messageCount (lib : Library) (s : Sender) : (forcedFlush lib s).messageCount = 0 := by
  simp only [forcedFlush, apply_ite Sender.messageCount]
  exact ite_id _

@[simp] theorem forcedFlush_localMemoryUsage (lib : Library) (s : Sender) :
    (forcedFlush lib s).localMemoryUsage = s.localMemoryUsage := by
  simp only [forcedFlush, apply_ite Sender.localMemoryUsage]
  exact ite_id _

@[simp] theorem forcedFlush_flushCalls (lib : Library) (s : Sender) :
    (forcedFlush lib s).flushCalls = s.flushCalls + 1 := by
  simp only [forcedFlush, apply_ite Sender.flushCalls]
  exact ite_id _

@[simp] theorem countMessage_messageCount (s : Sender) (n : Int) :
    (countMessage s n).messageCount = s.messageCount + 1 := by
  simp only [countMessage, rdKafkaPoll]
  split <;> rfl

@[simp] theorem countMessage_localMemoryUsage (s : Sender) (n : Int) :
    (countMessage s n).localMemoryUsage = s.localMemoryUsage + n := by
  simp only [countMessage, rdKafkaPoll]
  split <;> rfl

@[simp] theorem countMessage_maxMemoryKbytes (s : Sender) (n : Int) :
    (countMessage s n).maxMemoryKbytes = s.maxMemoryKbytes := by
  simp only [countMessage, rdKafkaPoll]
  split <;> rfl

@[simp] theorem countMessage_flushCalls (s : Sender) (n : Int) : (countMessage s n).flushCalls = s.flushCalls := by
  simp only [countMessage, rdKafkaPoll]
  split <;> rfl

theorem checkCounters_of_due (h : s.Due m) : checkCounters lib s (estimatedSize m.text) = forcedFlush lib s := if_pos h

theorem checkCounters_of_not_due (h : ¬s.Due m) : checkCounters lib s (estimatedSize m.text) = s := if_neg h

theorem send_of_none (lib : Library) (s : Sender) (h : c.message? = none) :
    (send lib s c).messageCount = s.messageCount ∧ (send lib s c).localMemoryUsage = s.localMemoryUsage ∧
      (send lib s c).flushCalls = s.flushCalls := by
  obtain ⟨rk, rkt, msg⟩ := c
  cases rk <;> cases rkt <;> cases msg
  case true.true.some m => cases h
  all_goals exact ⟨rfl, rfl, rfl⟩

structure Counts (lib : Library) (s t u : Sender) (m : Message) : Prop where
  messages : u.messageCount = (Sent.count ⟨t.messageCount, t.localMemoryUsage⟩ lib s m).messages
  bytes : u.localMemoryUsage = (Sent.count ⟨t.messageCount, t.localMemoryUsage⟩ lib s m).bytes
  flushCalls : u.flushCalls = t.flushCalls
  limit : u.maxMemoryKbytes = t.maxMemoryKbytes

theorem send_of_some (lib : Library) (s : Sender) (h : c.message? = some m) :
    Counts lib s (checkCounters lib s (estimatedSize m.text)) (send lib s c) m := by
  obtain ⟨rk, rkt, msg⟩ := c
  have hset : rk = true ∧ rkt = true ∧ msg = some m := by
    cases rk <;> cases rkt
    case true.true => exact ⟨rfl, rfl, h⟩
    all_goals cases h
  obtain ⟨rfl, rfl, rfl⟩ := hset
  have hsend : send lib s ⟨true, true, some m⟩ = (afterLoop (estimatedSize m.text)
        (produceLoop lib m.text (checkCounters lib s (estimatedSize m.text)) 0)).1 := rfl
  have hcalls := checkCounters_produceCalls lib s (estimatedSize m.text)
  generalize checkCounters lib s (estimatedSize m.text) = t at hsend hcalls ⊢
  cases hproduce : lib.produce s.produceCalls with
  | enqueued =>
    rw [hsend, produceLoop_enqueued 0 (by rw [hcalls, hproduce])]
    refine ⟨?_, ?_, countMessage_flushCalls _ _, countMessage_maxMemoryKbytes _ _⟩
    · rw [Sent.count, hproduce]
      exact countMessage_messageCount _ _
    · rw [Sent.count, hproduce]
      exact countMessage_localMemoryUsage _ _
  | failed e =>
    rw [hsend, produceLoop_failed 0 (by rw [hcalls, hproduce])]
    refine ⟨?_, ?_, rfl, rfl⟩
    · rw [Sent.count, hproduce]
      rfl
    · rw [Sent.count, hproduce]
      rfl

theorem flushes_iff (lib : Library) (s : Sender) (c : Call) : Flushes lib s c ↔ ∃ m, c.message? = some m ∧ s.Due m := by
  cases hm : c.message? with
  | none =>
    have hsame := (send_of_none lib s hm).2.2
    refine iff_of_false (fun h => h hsame) ?_
    rintro ⟨m, hm', -⟩
    cases hm'
  | some m =>
    have hcalls := (send_of_some lib s hm).flushCalls
    constructor
    · intro hflush
      refine ⟨m, rfl, ?_⟩
      by_contra hdue
      rw [checkCounters_of_not_due hdue] at hcalls
      exact hflush hcalls
    · rintro ⟨m', hm', hdue⟩
      obtain rfl := Option.some.inj hm'
      rw [checkCounters_of_due hdue, forcedFlush_flushCalls] at hcalls
      rw [Flushes, hcalls]
      exact Nat.succ_ne_self _

/-- The counters are those of the record. -/
structure Tracks (s : Sender) (l : Sent) : Prop where
  messages : s.messageCount = l.messages
  bytes : s.localMemoryUsage = l.bytes

theorem Tracks.due_iff {l : Sent} (h : Tracks s l) (m : Message) : s.Due m ↔ l.Passes s m := by
  rw [Sender.Due, Sent.Passes, h.messages, h.bytes]

theorem Tracks.send {l : Sent} (h : Tracks s l) (c : Call)
    (hcounted : ∀ m, c.message? = some m → s.Due m → s.localMemoryUsage = 0) :
    Tracks (Kafka.send lib s c) (l.after lib s c) := by
  cases hm : c.message? with
  | none =>
    obtain ⟨hmessages, hbytes, -⟩ := send_of_none lib s hm
    rw [Sent.after, hm]
    exact ⟨hmessages.trans h.messages, hbytes.trans h.bytes⟩
  | some m =>
    obtain ⟨hmessages, hbytes, -, -⟩ := send_of_some lib s hm
    -- the counters that the message is added to are those of the record
    have hbase : Sent.mk (checkCounters lib s (estimatedSize m.text)).messageCount
        (checkCounters lib s (estimatedSize m.text)).localMemoryUsage = if Flushes lib s c then Sent.none else l := by
      by_cases hdue : s.Due m
      · rw [checkCounters_of_due hdue, if_pos ((flushes_iff lib s c).mpr ⟨m, hm, hdue⟩), forcedFlush_messageCount,
          forcedFlush_localMemoryUsage, hcounted m hm hdue]
        rfl
      · have hstay : ¬Flushes lib s c := by
          intro hflush
          obtain ⟨m', hm', hdue'⟩ := (flushes_iff lib s c).mp hflush
          rw [hm] at hm'
          obtain rfl := Option.some.inj hm'
          exact hdue hdue'
        rw [checkCounters_of_not_due hdue, if_neg hstay, h.messages, h.bytes]
    rw [hbase] at hmessages hbytes
    rw [Sent.after, hm]
    exact ⟨hmessages, hbytes⟩

theorem batches_iff {l : Sent} (h : Tracks s l) (cs : List Call) : Batches lib s l cs ↔ FlushesUncounted lib s cs := by
  induction cs generalizing s l with
  | nil => exact Iff.rfl
  | cons c cs ih =>
    have hagree : Flushes lib s c ↔ ∃ m, c.message? = some m ∧ l.Passes s m := by
      simp only [flushes_iff, h.due_iff]
    constructor
    · rintro ⟨-, hzero, hrest⟩
      have hcounted : ∀ m, c.message? = some m → s.Due m → s.localMemoryUsage = 0 := by
        intro m hm hdue
        have hflushed := (hzero m hm ((flushes_iff lib s c).mpr ⟨m, hm, hdue⟩)).2
        rwa [forcedFlush_localMemoryUsage] at hflushed
      exact ⟨hcounted, (ih (h.send c hcounted)).mp hrest⟩
    · rintro ⟨hcounted, hrest⟩
      refine ⟨hagree, fun m hm hflush => ⟨forcedFlush_messageCount lib s, ?_⟩, (ih (h.send c hcounted)).mpr hrest⟩
      obtain ⟨m', hm', hdue⟩ := (flushes_iff lib s c).mp hflush
      rw [forcedFlush_localMemoryUsage]
      exact hcounted m' hm' hdue

/-- From the start of the process, the flushes follow what was sent since the last of them exactly
where none is due after bytes were counted: they are never taken off again. -/
theorem batches_start_iff (lib : Library) (maxMessageCount maxMemoryKbytes : Int) (cs : List Call) :
    Batches lib (Sender.start maxMessageCount maxMemoryKbytes) Sent.none cs ↔
      FlushesUncounted lib (Sender.start maxMessageCount maxMemoryKbytes) cs :=
  batches_iff ⟨rfl, rfl⟩ cs

def accepting : Library where
  produce := fun _ => .enqueued
  flush := fun _ => 0
  err2str := fun _ => ""

def letters (n : Nat) (h : n < 2 ^ 63) : Message where
  text := ⟨List.replicate n 0x61, fun b hb => by rw [List.eq_of_mem_replicate hb]; decide⟩
  fits := by simpa using h

theorem estimatedSize_letters {n : Nat} (h : n < 2 ^ 30) :
    estimatedSize (letters n (Nat.lt_trans h (by decide))).text = n + 100 := by
  have hlength : (letters n (Nat.lt_trans h (by decide))).text.bytes.length = n := List.length_replicate
  rw [estimatedSize, msgLen, hlength, toInt32, toInt32]
  omega

/-- With a limit of 1 kB the second of two messages of 424 bytes is due for a flush while the first is
counted. -/
theorem second_message_counted_on : ¬ ∀ (lib : Library) (maxMessageCount maxMemoryKbytes : Int) (cs : List Call),
      Batches lib (Sender.start maxMessageCount maxMemoryKbytes) Sent.none cs := by
  intro h
  have hsize := estimatedSize_letters (n := 424) (by decide)
  generalize letters 424 _ = m at hsize
  have hrun := h accepting 1000 1 [⟨true, true, some m⟩, ⟨true, true, some m⟩]
  rw [batches_iff ⟨rfl, rfl⟩] at hrun
  obtain ⟨-, hsecond, -⟩ := hrun
  have hfirst : ¬(Sender.start 1000 1).Due m := by
    rintro (hmessages | hbytes)
    · exact absurd hmessages (by decide)
    · rw [hsize] at hbytes
      exact absurd hbytes (by decide)
  have hcounts :
      Counts accepting (Sender.start 1000 1) _ (send accepting (Sender.start 1000 1) ⟨true, true, some m⟩) m :=
    send_of_some accepting (Sender.start 1000 1) rfl
  rw [checkCounters_of_not_due hfirst] at hcounts
  have husage :
      (send accepting (Sender.start 1000 1) ⟨true, true, some m⟩).localMemoryUsage = 0 + estimatedSize m.text :=
    hcounts.bytes
  have hlimit : (send accepting (Sender.start 1000 1) ⟨true, true, some m⟩).maxMemoryKbytes = 1 := hcounts.limit
  have hdue : (send accepting (Sender.start 1000 1) ⟨true, true, some m⟩).Due m := by
    right
    rw [hlimit, husage, hsize]
    decide
  have hzero := hsecond m rfl hdue
  rw [husage, hsize] at hzero
  exact absurd hzero (by decide)

end CdcKafka.Kafka
