import CdcKafka.Xlog.DecodeQueue
import CdcKafka.Xlog.Valid

/-! The decode buffer never overwrites a live record: the records of the queue that are in it
are laid out in a circle, whatever is read ahead, returned and released. -/

namespace CdcKafka.Xlog

open CdcKafka.Lib

variable {layout : Layout} {s : DecodeReader} {decoded : Decoded}

def DecodeReader.live (s : DecodeReader) : List Block := s.decodeQueue.filterMap Decoded.block

def DecodeReader.Ring (s : DecodeReader) : Prop :=
  Circular s.decodeBufferSize s.decodeBufferHead s.decodeBufferTail s.live

structure DecodeReader.Good (s : DecodeReader) : Prop where
  ring : s.Ring
  unbuffered : s.hasBuffer = false → s.decodeQueue = []
  record : ∀ d, s.record = some d → s.decodeQueue.head? = some d

theorem DecodeReader.good_start (hasBuffer : Bool) (size : Nat) (recPtr : UInt64) :
    (DecodeReader.start hasBuffer size recPtr).Good where
  ring := Circular.nil size
  unbuffered := fun _ => rfl
  record := fun d h => by cases h

structure SameQueue (s s' : DecodeReader) : Prop where
  hasBuffer : s'.hasBuffer = s.hasBuffer
  size : s'.decodeBufferSize = s.decodeBufferSize
  head : s'.decodeBufferHead = s.decodeBufferHead
  tail : s'.decodeBufferTail = s.decodeBufferTail
  queue : s'.decodeQueue = s.decodeQueue
  record : s'.record = s.record

theorem DecodeReader.Good.congr {s' : DecodeReader} (hs : s.Good) (h : SameQueue s s') : s'.Good where
  ring := by
    rw [Ring, live, h.size, h.head, h.tail, h.queue]
    exact hs.ring
  unbuffered := by
    rw [h.hasBuffer, h.queue]
    exact hs.unbuffered
  record := by
    rw [h.record, h.queue]
    exact hs.record

theorem allocateBuffer_good (hs : s.Good) : (allocateBuffer s).Good := by
  rw [allocateBuffer]
  split
  · exact hs
  · next hnone =>
    have hqueue : s.decodeQueue = [] := hs.unbuffered (Bool.eq_false_of_not_eq_true hnone)
    refine ⟨?_, (fun h => by cases h), hs.record⟩
    rw [DecodeReader.Ring, DecodeReader.live]
    dsimp only
    rw [hqueue]
    exact Circular.nil _

theorem allocateBuffer_queue (s : DecodeReader) :
    (allocateBuffer s).decodeQueue = s.decodeQueue ∧ (allocateBuffer s).record = s.record := by
  rw [allocateBuffer]
  split <;> exact ⟨rfl, rfl⟩

theorem allocateBuffer_hasBuffer (s : DecodeReader) : (allocateBuffer s).hasBuffer = true := by
  rw [allocateBuffer]
  split
  · next h => exact h
  · rfl

theorem push_of_findSpace {required off size : Nat} (hs : s.Ring) (h : findSpace s required = some off)
    (hsize : size ≤ required) :
    Circular s.decodeBufferSize s.decodeBufferHead (if off = 0 then size else s.decodeBufferTail + size)
      (s.live ++ [(off, size)]) := by
  have hend :
      off = s.decodeBufferTail → (if off = 0 then size else s.decodeBufferTail + size) = s.decodeBufferTail + size := by
    intro hoff
    split <;> omega
  rw [findSpace] at h
  split at h
  · next hle =>
    have htail := (hs.straight hle).2
    split at h
    · -- between the tail and the end
      cases h
      rw [hend rfl]
      exact hs.push_end hle (by omega)
    · split at h
      · -- between the start and the head
        cases h
        rw [if_pos rfl]
        exact hs.push_start hle (by omega)
      · cases h
  · split at h
    · -- between the tail and the head
      cases h
      rw [hend rfl]
      exact hs.push_between (by omega)
    · cases h

def Free (s : DecodeReader) (space : Space) (required : Nat) : Prop :=
  s.hasBuffer = true ∧ ∀ off, space = .buffer off → findSpace s required = some off

theorem alloc_good (layout : Layout) (hs : s.Good) (xlTotLen : Nat) (allowOversized : Bool) :
    (xLogReadRecordAlloc layout s xlTotLen allowOversized).1 = allocateBuffer s ∧
    (xLogReadRecordAlloc layout s xlTotLen allowOversized).1.Good ∧
    Free (allocateBuffer s) (xLogReadRecordAlloc layout s xlTotLen allowOversized).2
      (decodeXLogRecordRequiredSpace layout xlTotLen) := by
  have hgood := allocateBuffer_good hs
  have hbuffer := allocateBuffer_hasBuffer s
  rw [xLogReadRecordAlloc]
  cases hspace : findSpace (allocateBuffer s) (decodeXLogRecordRequiredSpace layout xlTotLen) with
  | some off => exact ⟨rfl, hgood, hbuffer, fun off' h => by cases h; exact hspace⟩
  | none =>
    refine ⟨rfl, hgood, hbuffer, ?_⟩
    intro off' h
    dsimp only at h
    split at h <;> cases h

theorem enqueue_good {required : Nat} {space : Space} (hs : s.Good) (hfree : Free s space required)
    (hplace : decoded.place = space.place) (hsize : decoded.size ≤ required) : (enqueue s decoded).Good where
  ring := by
    rw [DecodeReader.Ring, DecodeReader.live, enqueue]
    dsimp only
    rw [List.filterMap_append]
    cases space with
    | buffer off =>
      have hoff : decoded.place = some off := hplace
      have hblock : decoded.block = some (off, decoded.size) := by rw [Decoded.block, hoff, Option.map_some]
      rw [hoff, List.filterMap_cons, hblock]
      exact push_of_findSpace hs.ring (hfree.2 off rfl) hsize
    | null =>
      have hoff : decoded.place = none := hplace
      have hblock : decoded.block = none := by rw [Decoded.block, hoff, Option.map_none]
      rw [hoff, List.filterMap_cons, hblock, List.filterMap_nil, List.append_nil]
      exact hs.ring
    | oversized =>
      have hoff : decoded.place = none := hplace
      have hblock : decoded.block = none := by rw [Decoded.block, hoff, Option.map_none]
      rw [hoff, List.filterMap_cons, hblock, List.filterMap_nil, List.append_nil]
      exact hs.ring
  unbuffered := fun h => by
    have htrue := hfree.1
    rw [show s.hasBuffer = false from h] at htrue
    cases htrue
  record := fun d hd => by
    show (s.decodeQueue ++ [decoded]).head? = some d
    rw [List.head?_append, hs.record d hd]
    rfl

def WholeRecord.Fits (r : WholeRecord) : Prop := ∀ d, decodeXLogRecord r.bytes = .ok d → d.stated < 2 ^ 32

theorem decodeInto_good {r : WholeRecord} {space : Space} (hs : s.Good) (hr : r.Fits)
    (hfree : Free s space (decodeXLogRecordRequiredSpace layout r.bytes.length)) (recPtr nextRecPtr : UInt64) :
    (decodeInto layout s space r recPtr nextRecPtr).1.Good := by
  have hmoved : DecodeReader.Good { s with decodeRecPtr := recPtr, nextRecPtr := nextRecPtr } :=
    hs.congr ⟨rfl, rfl, rfl, rfl, rfl, rfl⟩
  rw [decodeInto]
  by_cases hnull : space = .null
  · -- without space the allocation is made again, and there is space or the record is oversized
    obtain ⟨heq, hgood, hfree'⟩ := alloc_good layout hmoved r.bytes.length true
    rw [← heq] at hfree'
    dsimp only
    rw [if_pos hnull]
    cases hd : decodeXLogRecord r.bytes with
    | ok d => exact enqueue_good hgood hfree' rfl ((WholeRecord.checked_ok layout hd).1 (hr d hd)).2
    | error e => exact hgood.congr ⟨rfl, rfl, rfl, rfl, rfl, rfl⟩
  · dsimp only
    rw [if_neg hnull]
    cases hd : decodeXLogRecord r.bytes with
    | ok d => exact enqueue_good hmoved hfree rfl ((WholeRecord.checked_ok layout hd).1 (hr d hd)).2
    | error e => exact hmoved.congr ⟨rfl, rfl, rfl, rfl, rfl, rfl⟩

def Pages.Fit : Pages → Prop
  | .overwritten _ rest => rest.Fit
  | .whole r _ _ => r.Fits
  | _ => True

theorem failWith_good (hs : s.Good) (failure : Failure) : (failWith s failure).Good :=
  hs.congr ⟨rfl, rfl, rfl, rfl, rfl, rfl⟩

theorem xLogDecodeNextRecord_good (hs : s.Good) (nonblocking : Bool) {pages : Pages} (hpages : pages.Fit) :
    (xLogDecodeNextRecord layout s nonblocking pages).1.Good := by
  induction pages generalizing s with
  | wouldBlock => exact hs
  | fails failure => exact failWith_good hs failure
  | overwritten totLen rest ih =>
    obtain ⟨-, hgood, -⟩ := alloc_good layout hs totLen false
    rw [xLogDecodeNextRecord]
    dsimp only
    split
    · exact hgood
    · exact ih hgood hpages
  | cut totLen failure =>
    obtain ⟨-, hgood, -⟩ := alloc_good layout hs totLen false
    rw [xLogDecodeNextRecord]
    dsimp only
    split
    · exact hgood
    · cases failure with
      | none => exact hgood
      | some failure => exact failWith_good hgood failure
  | whole r recPtr nextRecPtr =>
    obtain ⟨heq, hgood, hfree⟩ := alloc_good layout hs r.bytes.length false
    rw [← heq] at hfree
    rw [xLogDecodeNextRecord]
    dsimp only
    split
    · exact hgood
    · exact decodeInto_good hgood hpages hfree recPtr nextRecPtr

theorem xLogReadAhead_good (hs : s.Good) (nonblocking : Bool) {pages : Pages} (hpages : pages.Fit) :
    (xLogReadAhead layout s nonblocking pages).1.Good := by
  rw [xLogReadAhead]
  split
  · exact hs
  · have hclean : DecodeReader.Good { s with errormsg := none } := hs.congr ⟨rfl, rfl, rfl, rfl, rfl, rfl⟩
    exact xLogDecodeNextRecord_good hclean nonblocking hpages

theorem findSome?_place (rest : List Decoded) :
    rest.findSome? (·.place) = (rest.filterMap Decoded.block).head?.map Prod.fst := by
  induction rest with
  | nil => rfl
  | cons d rest ih =>
    cases hplace : d.place with
    | none =>
      have hblock : d.block = none := by rw [Decoded.block, hplace, Option.map_none]
      rw [List.findSome?_cons, hplace, List.filterMap_cons_none hblock]
      exact ih
    | some off =>
      have hblock : d.block = some (off, d.size) := by rw [Decoded.block, hplace, Option.map_some]
      rw [List.findSome?_cons, hplace, List.filterMap_cons_some hblock]
      rfl

theorem xLogReleasePreviousRecord_good (hs : s.Good) : (xLogReleasePreviousRecord s).1.Good := by
  rw [xLogReleasePreviousRecord]
  cases hrecord : s.record with
  | none => exact hs
  | some d =>
    obtain ⟨rest, hqueue⟩ : ∃ rest, s.decodeQueue = d :: rest := List.head?_eq_some_iff.mp (hs.record d hrecord)
    have hring := hs.ring
    rw [DecodeReader.Ring, DecodeReader.live, hqueue] at hring
    dsimp only
    rw [hqueue, List.tail_cons]
    have hunbuffered : s.hasBuffer = false → rest = [] := by
      intro h
      have hempty := hs.unbuffered h
      rw [hqueue] at hempty
      cases hempty
    cases hplace : d.place with
    | none =>
      -- an oversized record leaves the buffer as it is
      have hblock : d.block = none := by rw [Decoded.block, hplace, Option.map_none]
      rw [List.filterMap_cons_none hblock] at hring
      exact ⟨hring, hunbuffered, fun d' h => by cases h⟩
    | some off =>
      have hblock : d.block = some (off, d.size) := by rw [Decoded.block, hplace, Option.map_some]
      rw [List.filterMap_cons_some hblock] at hring
      rw [Option.isNone_some, if_neg (by decide), releaseSpace, findSome?_place]
      dsimp only
      cases hrest : rest.filterMap Decoded.block with
      | nil =>
        refine ⟨?_, hunbuffered, fun d' h => by cases h⟩
        rw [DecodeReader.Ring, DecodeReader.live]
        dsimp only [List.head?_nil, Option.map_none]
        rw [hrest]
        exact Circular.nil _
      | cons y l =>
        rw [hrest] at hring
        refine ⟨?_, hunbuffered, fun d' h => by cases h⟩
        rw [DecodeReader.Ring, DecodeReader.live]
        dsimp only [List.head?_cons, Option.map_some]
        rw [hrest]
        exact hring.pop

theorem xLogNextRecord_nil (h : (xLogReleasePreviousRecord s).1.decodeQueue = []) :
    SameQueue (xLogReleasePreviousRecord s).1 (xLogNextRecord s).1 ∧ (xLogNextRecord s).2.1 = none := by
  rw [xLogNextRecord]
  split
  · split
    · exact ⟨⟨rfl, rfl, rfl, rfl, rfl, rfl⟩, rfl⟩
    · exact ⟨⟨rfl, rfl, rfl, rfl, rfl, rfl⟩, rfl⟩
  · next hcons =>
    rw [h] at hcons
    cases hcons

theorem xLogNextRecord_cons {rest : List Decoded} (h : (xLogReleasePreviousRecord s).1.decodeQueue = decoded :: rest) :
    (xLogNextRecord s).1 = { (xLogReleasePreviousRecord s).1 with
        record := some decoded, readRecPtr := decoded.lsn, endRecPtr := decoded.nextLsn } ∧
      (xLogNextRecord s).2.1 = some decoded := by
  rw [xLogNextRecord]
  split
  · next hnil =>
    rw [h] at hnil
    cases hnil
  · next hcons =>
    rw [h] at hcons
    cases hcons
    exact ⟨rfl, rfl⟩

theorem xLogNextRecord_good (hs : s.Good) : (xLogNextRecord s).1.Good := by
  have hreleased := xLogReleasePreviousRecord_good hs
  cases hqueue : (xLogReleasePreviousRecord s).1.decodeQueue with
  | nil => exact hreleased.congr (xLogNextRecord_nil hqueue).1
  | cons d rest =>
    rw [(xLogNextRecord_cons hqueue).1]
    refine ⟨hreleased.ring, hreleased.unbuffered, ?_⟩
    intro d' h
    cases h
    show (xLogReleasePreviousRecord s).1.decodeQueue.head? = some d
    rw [hqueue]
    rfl

structure Adds (s s' : DecodeReader) (decoded : Option Decoded) : Prop where
  queue : s'.decodeQueue = s.decodeQueue ++ decoded.toList
  record : s'.record = s.record

theorem Adds.refl (s : DecodeReader) : Adds s s none := ⟨(List.append_nil _).symm, rfl⟩

theorem Adds.after {s₁ s₂ : DecodeReader} {decoded : Option Decoded} (h : Adds s₁ s₂ decoded)
    (hqueue : s₁.decodeQueue = s.decodeQueue) (hrecord : s₁.record = s.record) : Adds s s₂ decoded where
  queue := by rw [h.queue, hqueue]
  record := h.record.trans hrecord

def newest (p : DecodeReader × PageReadResult) : Option Decoded :=
  if p.2 = .success then p.1.decodeQueue.getLast? else none

theorem alloc_queue (layout : Layout) (s : DecodeReader) (xlTotLen : Nat) (allowOversized : Bool) :
    (xLogReadRecordAlloc layout s xlTotLen allowOversized).1.decodeQueue = s.decodeQueue ∧
      (xLogReadRecordAlloc layout s xlTotLen allowOversized).1.record = s.record := by
  have hsame := allocateBuffer_queue s
  rw [xLogReadRecordAlloc]
  cases findSpace (allocateBuffer s) (decodeXLogRecordRequiredSpace layout xlTotLen) <;> exact hsame

theorem adds_decodeInto (layout : Layout) (s : DecodeReader) (space : Space) (r : WholeRecord) (recPtr nextRecPtr : UInt64) :
    Adds s (decodeInto layout s space r recPtr nextRecPtr).1 (newest (decodeInto layout s space r recPtr nextRecPtr)) := by
  have henqueue : ∀ (s' : DecodeReader) (d : Decoded),
      Adds s' (enqueue s' d) (newest (enqueue s' d, PageReadResult.success)) := by
    intro s' d
    refine ⟨?_, rfl⟩
    rw [newest, if_pos rfl]
    dsimp only [enqueue]
    rw [List.getLast?_concat]
    rfl
  have hfail : ∀ (s' : DecodeReader) (e : ReaderError),
      Adds s' { s' with errormsg := some e, errormsgDeferred := true } none :=
    fun s' e => ⟨(List.append_nil _).symm, rfl⟩
  rw [decodeInto]
  by_cases hnull : space = .null
  · obtain ⟨hqueue, hrecord⟩ := alloc_queue layout { s with decodeRecPtr := recPtr, nextRecPtr := nextRecPtr } r.bytes.length true
    dsimp only
    rw [if_pos hnull]
    cases decodeXLogRecord r.bytes with
    | ok d => exact (henqueue _ _).after hqueue hrecord
    | error e => exact (hfail _ _).after hqueue hrecord
  · dsimp only
    rw [if_neg hnull]
    cases decodeXLogRecord r.bytes with
    | ok d => exact (henqueue _ _).after rfl rfl
    | error e => exact (hfail _ _).after rfl rfl

theorem adds_decodeNextRecord (layout : Layout) (s : DecodeReader) (nonblocking : Bool) (pages : Pages) :
    Adds s (xLogDecodeNextRecord layout s nonblocking pages).1 (newest (xLogDecodeNextRecord layout s nonblocking pages)) := by
  induction pages generalizing s with
  | wouldBlock => exact Adds.refl s
  | fails failure => exact ⟨(List.append_nil _).symm, rfl⟩
  | overwritten totLen rest ih =>
    obtain ⟨hqueue, hrecord⟩ := alloc_queue layout s totLen false
    rw [xLogDecodeNextRecord]
    dsimp only
    split
    · exact (Adds.refl _).after hqueue hrecord
    · exact (ih _).after hqueue hrecord
  | cut totLen failure =>
    obtain ⟨hqueue, hrecord⟩ := alloc_queue layout s totLen false
    rw [xLogDecodeNextRecord]
    dsimp only
    split
    · exact (Adds.refl _).after hqueue hrecord
    · cases failure with
      | none => exact (Adds.refl _).after hqueue hrecord
      | some failure =>
        have hfail : Adds (xLogReadRecordAlloc layout s totLen false).1
            (failWith (xLogReadRecordAlloc layout s totLen false).1 failure) none := ⟨(List.append_nil _).symm, rfl⟩
        exact hfail.after hqueue hrecord
  | whole r recPtr nextRecPtr =>
    obtain ⟨hqueue, hrecord⟩ := alloc_queue layout s r.bytes.length false
    rw [xLogDecodeNextRecord]
    dsimp only
    split
    · exact (Adds.refl _).after hqueue hrecord
    · exact (adds_decodeInto layout _ _ r recPtr nextRecPtr).after hqueue hrecord

theorem adds_readAhead (layout : Layout) (s : DecodeReader) (nonblocking : Bool) (pages : Pages) :
    Adds s (xLogReadAhead layout s nonblocking pages).1 (xLogReadAhead layout s nonblocking pages).2 := by
  rw [xLogReadAhead]
  split
  · exact Adds.refl s
  · exact (adds_decodeNextRecord layout { s with errormsg := none } nonblocking pages).after rfl rfl

theorem release_queue (s : DecodeReader) : (xLogReleasePreviousRecord s).1.record = none ∧
      (xLogReleasePreviousRecord s).1.decodeQueue = if s.record.isSome then s.decodeQueue.tail else s.decodeQueue := by
  rw [xLogReleasePreviousRecord]
  cases hrecord : s.record with
  | none => exact ⟨hrecord, rfl⟩
  | some d =>
    dsimp only
    split
    · exact ⟨rfl, rfl⟩
    · rw [releaseSpace]
      split <;> exact ⟨rfl, rfl⟩

def Session.Ordered (t : Session) : Prop :=
  ∃ released, t.decoded = released ++ t.reader.decodeQueue ∧ t.returned = released ++ t.reader.record.toList

theorem ordered_of_release {t : Session} (hgood : t.reader.Good) (ht : t.Ordered) :
    ∃ released, t.decoded = released ++ (xLogReleasePreviousRecord t.reader).1.decodeQueue ∧ t.returned = released := by
  obtain ⟨released, hdecoded, hreturned⟩ := ht
  obtain ⟨-, hqueue⟩ := release_queue t.reader
  cases hrecord : t.reader.record with
  | none =>
    rw [hrecord, Option.toList_none, List.append_nil] at hreturned
    rw [hrecord] at hqueue
    exact ⟨released, by rw [hqueue, hdecoded]; rfl, hreturned⟩
  | some d =>
    obtain ⟨rest, hrest⟩ := List.head?_eq_some_iff.mp (hgood.record d hrecord)
    rw [hrecord, hrest] at hqueue
    rw [hrecord] at hreturned
    have hrest' : (xLogReleasePreviousRecord t.reader).1.decodeQueue = rest := hqueue
    refine ⟨released ++ [d], ?_, hreturned⟩
    rw [hdecoded, hrest, hrest', List.append_assoc]
    rfl

theorem step_ordered (layout : Layout) {t : Session} (hgood : t.reader.Good) (ht : t.Ordered) (call : Call) :
    (t.step layout call).Ordered := by
  cases call with
  | readAhead nonblocking pages =>
    obtain ⟨released, hdecoded, hreturned⟩ := ht
    have hadds := adds_readAhead layout t.reader nonblocking pages
    refine ⟨released, ?_, ?_⟩
    · show t.decoded ++ (xLogReadAhead layout t.reader nonblocking pages).2.toList = _
      rw [hdecoded, List.append_assoc, ← hadds.queue]
      rfl
    · show t.returned = released ++ (xLogReadAhead layout t.reader nonblocking pages).1.record.toList
      rw [hadds.record, hreturned]
  | nextRecord =>
    obtain ⟨released, hdecoded, hreturned⟩ := ordered_of_release hgood ht
    obtain ⟨hrecord, -⟩ := release_queue t.reader
    cases hqueue : (xLogReleasePreviousRecord t.reader).1.decodeQueue with
    | nil =>
      obtain ⟨hsame, hnone⟩ := xLogNextRecord_nil hqueue
      refine ⟨released, ?_, ?_⟩
      · show t.decoded = released ++ (xLogNextRecord t.reader).1.decodeQueue
        rw [hsame.queue, hdecoded]
      · show t.returned ++ (xLogNextRecord t.reader).2.1.toList = released ++ (xLogNextRecord t.reader).1.record.toList
        rw [hsame.record, hnone, hrecord, hreturned]
    | cons d rest =>
      obtain ⟨hnext, hsome⟩ := xLogNextRecord_cons hqueue
      refine ⟨released, ?_, ?_⟩
      · show t.decoded = released ++ (xLogNextRecord t.reader).1.decodeQueue
        rw [hnext, hdecoded]
      · show t.returned ++ (xLogNextRecord t.reader).2.1.toList = released ++ (xLogNextRecord t.reader).1.record.toList
        rw [hnext, hsome, hreturned]
  | releasePreviousRecord =>
    obtain ⟨released, hdecoded, hreturned⟩ := ordered_of_release hgood ht
    obtain ⟨hrecord, -⟩ := release_queue t.reader
    refine ⟨released, hdecoded, ?_⟩
    show t.returned = released ++ (xLogReleasePreviousRecord t.reader).1.record.toList
    rw [hrecord, hreturned, Option.toList_none, List.append_nil]

/-- The records that are not oversized lie apart from each other and inside of the decode buffer,
and the head is the oldest of them, or the tail if there is none. -/
structure Intact (s : DecodeReader) : Prop where
  apart : s.live.Pairwise Apart
  inside : ∀ b ∈ s.live, b.1 + b.2 ≤ s.decodeBufferSize
  head : s.decodeBufferHead = (s.live.head?.map Prod.fst).getD s.decodeBufferTail

theorem DecodeReader.Good.intact (hs : s.Good) : Intact s where
  apart := hs.ring.apart
  inside := hs.ring.inside
  head := by
    have hring := hs.ring
    rw [Ring] at hring
    cases hlive : s.live with
    | nil =>
      rw [hlive] at hring
      exact hring.tail_of_nil
    | cons b l =>
      rw [hlive] at hring
      exact hring.head_eq

def Call.Fit : Call → Prop
  | .readAhead _ pages => pages.Fit
  | _ => True

theorem step_good (layout : Layout) {t : Session} (hgood : t.reader.Good) {call : Call} (hcall : call.Fit) :
    (t.step layout call).reader.Good := by
  cases call with
  | readAhead nonblocking pages => exact xLogReadAhead_good hgood nonblocking hcall
  | nextRecord => exact xLogNextRecord_good hgood
  | releasePreviousRecord => exact xLogReleasePreviousRecord_good hgood

theorem run_good (layout : Layout) {t : Session} (hgood : t.reader.Good) (ht : t.Ordered) {calls : List Call}
    (hcalls : ∀ call ∈ calls, call.Fit) : (t.run layout calls).reader.Good ∧ (t.run layout calls).Ordered := by
  induction calls generalizing t with
  | nil => exact ⟨hgood, ht⟩
  | cons call calls ih =>
    have hstep := step_good layout hgood (hcalls call List.mem_cons_self)
    have hordered := step_ordered layout hgood ht call
    exact ih hstep hordered fun call' h => hcalls call' (List.mem_cons_of_mem call h)

theorem Session.ordered_start (hasBuffer : Bool) (size : Nat) (recPtr : UInt64) :
    (Session.start hasBuffer size recPtr).Ordered := ⟨[], rfl, rfl⟩

/-- As long as no record states lengths whose sum wraps, no live record is overwritten, and the
records are returned in the order they were decoded in. -/
theorem live_records_intact (layout : Layout) (hasBuffer : Bool) (size : Nat) (recPtr : UInt64) (calls : List Call)
    (hcalls : ∀ call ∈ calls, call.Fit) :
    Intact ((Session.start hasBuffer size recPtr).run layout calls).reader ∧
      ((Session.start hasBuffer size recPtr).run layout calls).returned <+:
        ((Session.start hasBuffer size recPtr).run layout calls).decoded := by
  obtain ⟨hgood, released, hdecoded, hreturned⟩ := run_good layout
    (DecodeReader.good_start hasBuffer size recPtr) (Session.ordered_start hasBuffer size recPtr) hcalls
  refine ⟨hgood.intact, ?_⟩
  rw [hdecoded, hreturned]
  -- the record returned last is the head of the queue
  cases hrecord : ((Session.start hasBuffer size recPtr).run layout calls).reader.record with
  | none =>
    rw [Option.toList_none, List.append_nil]
    exact List.prefix_append _ _
  | some d =>
    obtain ⟨rest, hqueue⟩ := List.head?_eq_some_iff.mp (hgood.record d hrecord)
    rw [hqueue]
    exact ⟨rest, by rw [List.append_assoc]; rfl⟩

def smallRecord : WholeRecord where
  bytes := [27, 0, 0, 0, 0, 0, 0, 0, 0, 0, 0, 0, 0, 0, 0, 0, 0x10, 0, 0, 0, 0, 0, 0, 0, 255, 1, 7]
  totLen := by decide
  long := by decide

def readTwice : List Call :=
  [.readAhead true (.whole smallRecord 8232 8264), .readAhead true (.whole smallRecord 8264 8296), .nextRecord, .nextRecord]

theorem read_twice_intact : Intact ((Session.start false 0 8232).run ⟨88, 64⟩ readTwice).reader := by
  refine (live_records_intact ⟨88, 64⟩ false 0 8232 readTwice ?_).1
  have hfits : smallRecord.Fits := by
    intro d h
    obtain ⟨d', hd', hstated⟩ : ∃ d', decodeXLogRecord smallRecord.bytes = .ok d' ∧ d'.stated < 2 ^ 32 :=
      ⟨_, rfl, by decide⟩
    rw [hd'] at h
    cases h
    exact hstated
  intro call hcall
  rw [readTwice, List.mem_cons, List.mem_cons, List.mem_cons, List.mem_singleton] at hcall
  rcases hcall with rfl | rfl | rfl | rfl
  · exact hfits
  · exact hfits
  · trivial
  · trivial

def wrappingRecord : WholeRecord where
  bytes := [49, 0, 0, 0, 0, 0, 0, 0, 0, 0, 0, 0, 0, 0, 0, 0, 0xB0, 0, 0, 0, 106, 58, 2, 177] ++
    [0, 0x20, 1, 0, 1, 0, 0, 0, 2, 0, 0, 0, 3, 0, 0, 0, 0, 0, 0, 0, 254, 0xFF, 0xFF, 0xFF, 0xFF]
  totLen := by decide
  long := by decide

/-- With a valid header and checksum it is taken into a buffer of 64 kB as a record of 4 GB. -/
theorem wrapping_record_leaves_buffer : validXLogRecordHeader 8232 0 (readHeader wrappingRecord.bytes) true = .ok () ∧
      validXLogRecord wrappingRecord.bytes = .ok () ∧
      ¬Intact ((Session.start false 0 8232).run ⟨88, 64⟩ [.readAhead false (.whole wrappingRecord 8232 8288)]).reader := by
  refine ⟨by decide +kernel, by decide +kernel, ?_⟩
  intro hintact
  have hlive :
      ((Session.start false 0 8232).run ⟨88, 64⟩ [.readAhead false (.whole wrappingRecord 8232 8288)]).reader.live =
      [(0, 4294967456)] := rfl
  have hinside := hintact.inside
  rw [hlive] at hinside
  have hend : 0 + 4294967456 ≤ 65536 := hinside (0, 4294967456) List.mem_cons_self
  omega

end CdcKafka.Xlog
