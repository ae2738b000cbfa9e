import CdcKafka.Xact.RoundTrip
import CdcKafka.Xlog.RoundTrip

/-! Commit and abort records in the WAL: what is inserted is decoded again, and parsed as it was logged. -/

namespace CdcKafka.Xact
open Lib Xlog

def rmXactId : UInt8 := 1

/-- The end of `XactLogCommitRecord` and of `XactLogAbortRecord`; no buffer is registered. -/
def XactRecord.insert (r : XactRecord) (ins : Insertion) : Except AssembleError Assembled :=
  xLogRecordAssemble { ins with rmid := rmXactId, info := r.info, includeOrigin := true } ⟨[], Nat.zero_le _⟩ r.data

variable {r : XactRecord} {ins : Insertion} {a : Assembled}

theorem hasInfo_checked (info : UInt8) (check : Bool) :
    (info ||| flag check xlrCheckConsistency) &&& xlogXactHasInfo = info &&& xlogXactHasInfo := by
  have hbits : ∀ b : BitVec 8, (b ||| 2#8) &&& 128#8 = b &&& 128#8 := by decide
  cases check with
  | false => rw [flag, if_neg Bool.false_ne_true, UInt8.or_zero]
  | true => exact UInt8.eq_of_toBitVec_eq (hbits info.toBitVec)

theorem header_of_ok {regs : RegisteredBuffers} {mainrdata : Bytes} (h : xLogRecordAssemble ins regs mainrdata = .ok a) :
    a.header.info = ins.recordInfo ∧ a.header.rmid = ins.rmid := by
  rw [xLogRecordAssemble] at h
  split at h
  · cases h
  · dsimp only at h
    split at h
    · cases h
    · cases h
      exact ⟨rfl, rfl⟩

theorem XactRecord.decoded (h : r.insert ins = .ok a) :
    ∃ d, decodeXLogRecord a.bytes = .ok d ∧ d.header.rmid = rmXactId ∧ d.mainData = r.data ∧
      d.header.info &&& xlogXactHasInfo = r.info &&& xlogXactHasInfo := by
  obtain ⟨hinfo, hrmid⟩ := header_of_ok h
  refine ⟨_, decodeXLogRecord_assembled h, hrmid, rfl, ?_⟩
  show a.header.info &&& _ = _
  rw [hinfo]
  exact hasInfo_checked r.info ins.consistencyChecking

theorem parseCommitRecord_congr {info info' : UInt8} (h : info &&& xlogXactHasInfo = info' &&& xlogXactHasInfo) :
    parseCommitRecord info = parseCommitRecord info' := by
  rw [parseCommitRecord, parseCommitRecord, h]

theorem parseAbortRecord_congr {info info' : UInt8} (h : info &&& xlogXactHasInfo = info' &&& xlogXactHasInfo) :
    parseAbortRecord info = parseAbortRecord info' := by
  rw [parseAbortRecord, parseAbortRecord, h]

/-- A commit or an abort record that is accepted into the WAL is decoded as a record of the transaction manager, which
is parsed to its end and gives what was logged. -/
theorem logged_xact_parsed (s : Session) (ins : Insertion) :
    (∀ args a, (xactLogCommitRecord s args).insert ins = .ok a → ∃ d, decodeXLogRecord a.bytes = .ok d ∧
      d.header.rmid = rmXactId ∧ parseCommitRecord d.header.info d.mainData = .ok (parsedCommit s args, [])) ∧
    ∀ args a, (xactLogAbortRecord s args).insert ins = .ok a → ∃ d, decodeXLogRecord a.bytes = .ok d ∧
      d.header.rmid = rmXactId ∧ parseAbortRecord d.header.info d.mainData = .ok (parsedAbort s args, []) := by
  constructor
  · intro args a h
    obtain ⟨d, hdecode, hrmid, hdata, hinfo⟩ := XactRecord.decoded h
    have hread := reads_commitRecord s args []
    rw [List.append_nil, ← parseCommitRecord_congr hinfo, ← hdata] at hread
    exact ⟨d, hdecode, hrmid, hread⟩
  · intro args a h
    obtain ⟨d, hdecode, hrmid, hdata, hinfo⟩ := XactRecord.decoded h
    have hread := reads_abortRecord s args []
    rw [List.append_nil, ← parseAbortRecord_congr hinfo, ← hdata] at hread
    exact ⟨d, hdecode, hrmid, hread⟩

def quietSession : Session := ⟨false, false, true, 5, 1663, 0, 0, 0⟩

def commitWithChild : CommitArgs :=
  ⟨⟨7, ⟨[11], by decide⟩, ⟨[], by decide⟩, ⟨[], by decide⟩, 0, 0, ⟨CStr.lit [], by decide⟩⟩, ⟨[], by decide⟩, false⟩

theorem logged_xact_parsed_child : ∃ a d, (xactLogCommitRecord quietSession commitWithChild).insert imagedInsertion =
    .ok a ∧ decodeXLogRecord a.bytes = .ok d ∧
    parseCommitRecord d.header.info d.mainData = .ok (parsedCommit quietSession commitWithChild, []) := by
  obtain ⟨d, hdecode, -, hparse⟩ := (logged_xact_parsed quietSession imagedInsertion).1 commitWithChild _ rfl
  exact ⟨_, d, rfl, hdecode, hparse⟩

end CdcKafka.Xact
