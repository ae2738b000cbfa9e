import CdcKafka.Proto.Message

/-! The messages as the publisher writes them, and that the readers of the apply worker get
back what was written. -/

namespace CdcKafka.Proto
open CdcKafka.Lib CdcKafka.Event

def sendString (s : CStr) : Bytes := s.bytes ++ [0]

def sendXid (xid : Nat) : Bytes := if xid = 0 then [] else encodeBE 4 xid

def writeBegin (d : LogicalRepBeginData) : Bytes :=
  LogicalRepMsgType.begin.toByte :: (encodeBE 8 d.finalLsn ++ (encodeBE 8 d.committime ++ encodeBE 4 d.xid))

def commitFields (d : LogicalRepCommitData) : Bytes :=
  [0] ++ (encodeBE 8 d.commitLsn ++ (encodeBE 8 d.endLsn ++ encodeBE 8 d.committime))

def writeCommit (d : LogicalRepCommitData) : Bytes :=
  LogicalRepMsgType.commit.toByte :: commitFields d

def writeBeginPrepare (prepareLsn endLsn prepareTime xid : Nat) (gid : CStr) : Bytes :=
  LogicalRepMsgType.beginPrepare.toByte :: (encodeBE 8 prepareLsn ++ (encodeBE 8 endLsn ++ (encodeBE 8 prepareTime ++
      (encodeBE 4 xid ++ sendString gid))))

def writePrepareCommon (kind : LogicalRepMsgType) (prepareLsn endLsn prepareTime xid : Nat)
    (gid : CStr) : Bytes :=
  kind.toByte :: ([0] ++ (encodeBE 8 prepareLsn ++ (encodeBE 8 endLsn ++
    (encodeBE 8 prepareTime ++ (encodeBE 4 xid ++ sendString gid)))))

def writePrepare : Nat → Nat → Nat → Nat → CStr → Bytes := writePrepareCommon .prepare

def writeStreamPrepare : Nat → Nat → Nat → Nat → CStr → Bytes := writePrepareCommon .streamPrepare

def writeRollbackPrepared (prepareEndLsn rollbackEndLsn prepareTime rollbackTime xid : Nat)
    (gid : CStr) : Bytes :=
  LogicalRepMsgType.rollbackPrepared.toByte ::
    ([0] ++ (encodeBE 8 prepareEndLsn ++ (encodeBE 8 rollbackEndLsn ++ (encodeBE 8 prepareTime ++
      (encodeBE 8 rollbackTime ++ (encodeBE 4 xid ++ sendString gid))))))

def writeCommitPrepared (commitLsn endLsn commitTime xid : Nat) (gid : CStr) : Bytes :=
  LogicalRepMsgType.commitPrepared.toByte ::
    ([0] ++ (encodeBE 8 commitLsn ++ (encodeBE 8 endLsn ++ (encodeBE 8 commitTime ++
      (encodeBE 4 xid ++ sendString gid)))))

def writeStreamStart (xid : Nat) (firstSegment : Bool) : Bytes :=
  LogicalRepMsgType.streamStart.toByte :: (encodeBE 4 xid ++ [if firstSegment then 1 else 0])

def writeStreamStop : Bytes := [LogicalRepMsgType.streamStop.toByte]

def writeStreamCommit (xid : Nat) (d : LogicalRepCommitData) : Bytes :=
  LogicalRepMsgType.streamCommit.toByte :: (encodeBE 4 xid ++ commitFields d)

def writeStreamAbort (xid subxid abortLsn abortTime : Nat) (writeAbortInfo : Bool) : Bytes :=
  LogicalRepMsgType.streamAbort.toByte :: (encodeBE 4 xid ++ (encodeBE 4 subxid ++
    if writeAbortInfo then encodeBE 8 abortLsn ++ encodeBE 8 abortTime else []))

def writeColumn : Column → Bytes
  | .null => [byteOf 'n']
  | .unchanged => [byteOf 'u']
  | .text value => [byteOf 't'] ++ (encodeBE 4 value.length ++ value)
  | .binary value => [byteOf 'b'] ++ (encodeBE 4 value.length ++ value)

def writeTuple (tup : TupleData) : Bytes := encodeBE 2 tup.length ++ tup.flatMap writeColumn

def writeInsert (xid relid : Nat) (newtup : TupleData) : Bytes :=
  LogicalRepMsgType.insert.toByte :: (sendXid xid ++ (encodeBE 4 relid ++ ([byteOf 'N'] ++ writeTuple newtup)))

inductive OldTuple
  | none
  | key (tup : TupleData)
  | full (tup : TupleData)
deriving DecidableEq

def OldTuple.tuple : OldTuple → Option TupleData
  | .none => .none
  | .key tup | .full tup => some tup

def OldTuple.write : OldTuple → Bytes
  | .none => []
  | .key tup => [byteOf 'K'] ++ writeTuple tup
  | .full tup => [byteOf 'O'] ++ writeTuple tup

def writeTruncate (xid : Nat) (relids : List Nat) (cascade restartSeqs : Bool) : Bytes :=
  LogicalRepMsgType.truncate.toByte :: (sendXid xid ++ (encodeBE 4 relids.length ++
    (encodeBE 1 ((if cascade then 1 else 0) + if restartSeqs then 2 else 0) ++
      relids.flatMap (encodeBE 4))))

def pgCatalog : CStr := CStr.lit ['p', 'g', '_', 'c', 'a', 't', 'a', 'l', 'o', 'g']

structure Attr where
  attname : CStr
  flags : UInt8
  atttypid : Nat
  atttypmod : Nat
deriving DecidableEq

def Attr.write (a : Attr) : Bytes :=
  [a.flags] ++ (sendString a.attname ++ (encodeBE 4 a.atttypid ++ encodeBE 4 a.atttypmod))

def writeNamespace (nspname : CStr) : Bytes :=
  sendString (if nspname = pgCatalog then CStr.lit [] else nspname)

def writeRel (xid relid : Nat) (nspname relname : CStr) (replident : UInt8) (attrs : List Attr) :
    Bytes :=
  LogicalRepMsgType.relation.toByte :: (sendXid xid ++ (encodeBE 4 relid ++
    (writeNamespace nspname ++ (sendString relname ++ ([replident] ++
      (encodeBE 2 attrs.length ++ attrs.flatMap Attr.write))))))

theorem reads_getMsgByte (b : UInt8) : Reads getMsgByte [b] b := reads_byte .noDataLeft b

theorem reads_getMsgInt {w n : Nat} (h : n < 256 ^ w) : Reads (getMsgInt w) (encodeBE w n) n := by
  have hbytes := reads_bytes ProtoError.insufficientData (encodeBE w n)
  rw [length_encodeBE] at hbytes
  have hint : Reads (getMsgInt w) (encodeBE w n) (decodeBE (encodeBE w n)) := hbytes.map
  rwa [decodeBE_encodeBE h] at hint

theorem reads_int64 {n : Nat} (h : n < 2 ^ 64) : Reads getMsgInt64 (encodeBE 8 n) n :=
  reads_getMsgInt h

theorem reads_int32 {n : Nat} (h : n < 2 ^ 32) : Reads (getMsgInt 4) (encodeBE 4 n) n :=
  reads_getMsgInt h

theorem reads_getMsgString (s : CStr) : Reads getMsgString (sendString s) s :=
  reads_string ProtoError.invalidString s

theorem reads_copyMsgBytes (b : Bytes) : Reads (copyMsgBytes b.length) b b :=
  reads_bytes ProtoError.insufficientData b

theorem Reads.check {β : Type} {ok : Bool} {err : ProtoError} {f : Unit → MsgReader β} {e : Bytes}
    {b : β} (hok : ok = true) (h : Reads (f ()) e b) : Reads (Proto.check ok err >>= f) e b := by
  intro rest
  have hcheck : Proto.check ok err (e ++ rest) = .ok ((), e ++ rest) := by
    rw [Proto.check, if_pos hok]
  show (Proto.check ok err (e ++ rest) >>= fun p => f p.1 p.2) = .ok (b, rest)
  rw [hcheck]
  exact h rest

theorem Reads.flags {β : Type} {f : Unit → MsgReader β} {e : Bytes} {b : β} (h : Reads (f ()) e b) :
    Reads (readFlags >>= f) ([0] ++ e) b := by
  have hflags : Reads readFlags [0] () := (reads_getMsgByte 0).bind fun _ => rfl
  exact hflags.bind h

theorem gidOf_of_lt {s : CStr} (h : s.bytes.length < 200) : gidOf s = s.bytes :=
  List.take_of_length_le (Nat.le_of_lt_succ h)

theorem reads_begin {d : LogicalRepBeginData} (hlsn : d.finalLsn ≠ 0) (hfinal : d.finalLsn < 2 ^ 64)
    (htime : d.committime < 2 ^ 64) (hxid : d.xid < 2 ^ 32) :
    Reads readBegin (encodeBE 8 d.finalLsn ++ (encodeBE 8 d.committime ++ encodeBE 4 d.xid)) d := by
  refine (reads_int64 hfinal).bind (Reads.check (decide_eq_true hlsn) ?_)
  exact (reads_int64 htime).bind (reads_int32 hxid).map

theorem reads_commit {d : LogicalRepCommitData} (hcommit : d.commitLsn < 2 ^ 64)
    (hend : d.endLsn < 2 ^ 64) (htime : d.committime < 2 ^ 64) :
    Reads readCommit (commitFields d) d := by
  refine Reads.flags ?_
  exact (reads_int64 hcommit).bind ((reads_int64 hend).bind (reads_int64 htime).map)

theorem reads_beginPrepare {prepareLsn endLsn prepareTime xid : Nat} (gid : CStr)
    (hprepare : prepareLsn ≠ 0) (hend : endLsn ≠ 0) (hprepare' : prepareLsn < 2 ^ 64)
    (hend' : endLsn < 2 ^ 64) (htime : prepareTime < 2 ^ 64) (hxid : xid < 2 ^ 32) :
    Reads readBeginPrepare (encodeBE 8 prepareLsn ++ (encodeBE 8 endLsn ++ (encodeBE 8 prepareTime ++
      (encodeBE 4 xid ++ sendString gid))))
      { prepareLsn, endLsn, prepareTime, xid, gid := gidOf gid } := by
  refine (reads_int64 hprepare').bind (Reads.check (decide_eq_true hprepare) ?_)
  refine (reads_int64 hend').bind (Reads.check (decide_eq_true hend) ?_)
  exact (reads_int64 htime).bind ((reads_int32 hxid).bind (reads_getMsgString gid).map)

theorem reads_prepareCommon {prepareLsn endLsn prepareTime xid : Nat} (gid : CStr)
    (hprepare : prepareLsn ≠ 0) (hend : endLsn ≠ 0) (hxid : xid ≠ 0) (hprepare' : prepareLsn < 2 ^ 64)
    (hend' : endLsn < 2 ^ 64) (htime : prepareTime < 2 ^ 64) (hxid' : xid < 2 ^ 32) :
    Reads readPrepareCommon ([0] ++ (encodeBE 8 prepareLsn ++ (encodeBE 8 endLsn ++
      (encodeBE 8 prepareTime ++ (encodeBE 4 xid ++ sendString gid)))))
      { prepareLsn, endLsn, prepareTime, xid, gid := gidOf gid } := by
  refine Reads.flags ?_
  refine (reads_int64 hprepare').bind (Reads.check (decide_eq_true hprepare) ?_)
  refine (reads_int64 hend').bind (Reads.check (decide_eq_true hend) ?_)
  refine (reads_int64 htime).bind ((reads_int32 hxid').bind (Reads.check (decide_eq_true hxid) ?_))
  exact (reads_getMsgString gid).map

theorem reads_commitPrepared {commitLsn endLsn commitTime xid : Nat} (gid : CStr)
    (hcommit : commitLsn ≠ 0) (hend : endLsn ≠ 0) (hcommit' : commitLsn < 2 ^ 64)
    (hend' : endLsn < 2 ^ 64) (htime : commitTime < 2 ^ 64) (hxid : xid < 2 ^ 32) :
    Reads readCommitPrepared ([0] ++ (encodeBE 8 commitLsn ++ (encodeBE 8 endLsn ++
      (encodeBE 8 commitTime ++ (encodeBE 4 xid ++ sendString gid)))))
      { commitLsn, endLsn, commitTime, xid, gid := gidOf gid } := by
  refine Reads.flags ?_
  refine (reads_int64 hcommit').bind (Reads.check (decide_eq_true hcommit) ?_)
  refine (reads_int64 hend').bind (Reads.check (decide_eq_true hend) ?_)
  exact (reads_int64 htime).bind ((reads_int32 hxid).bind (reads_getMsgString gid).map)

theorem reads_rollbackPrepared {prepareEndLsn rollbackEndLsn prepareTime rollbackTime xid : Nat}
    (gid : CStr) (hprepare : prepareEndLsn ≠ 0) (hrollback : rollbackEndLsn ≠ 0)
    (hprepare' : prepareEndLsn < 2 ^ 64) (hrollback' : rollbackEndLsn < 2 ^ 64)
    (htime : prepareTime < 2 ^ 64) (htime' : rollbackTime < 2 ^ 64) (hxid : xid < 2 ^ 32) :
    Reads readRollbackPrepared ([0] ++ (encodeBE 8 prepareEndLsn ++ (encodeBE 8 rollbackEndLsn ++
      (encodeBE 8 prepareTime ++ (encodeBE 8 rollbackTime ++ (encodeBE 4 xid ++ sendString gid))))))
      { prepareEndLsn, rollbackEndLsn, prepareTime, rollbackTime, xid, gid := gidOf gid } := by
  refine Reads.flags ?_
  refine (reads_int64 hprepare').bind (Reads.check (decide_eq_true hprepare) ?_)
  refine (reads_int64 hrollback').bind (Reads.check (decide_eq_true hrollback) ?_)
  refine (reads_int64 htime).bind ((reads_int64 htime').bind ?_)
  exact (reads_int32 hxid).bind (reads_getMsgString gid).map

theorem reads_streamStart {xid : Nat} (hxid : xid < 2 ^ 32) (firstSegment : Bool) :
    Reads readStreamStart (encodeBE 4 xid ++ [if firstSegment then 1 else 0]) (xid, firstSegment) := by
  have hstart : Reads readStreamStart (encodeBE 4 xid ++ [if firstSegment then 1 else 0])
      (xid, decide ((if firstSegment then 1 else 0 : UInt8) = 1)) :=
    (reads_int32 hxid).bind (reads_getMsgByte _).map
  cases firstSegment with
  | true => exact hstart
  | false => exact hstart

theorem reads_streamCommit {xid : Nat} {d : LogicalRepCommitData} (hxid : xid < 2 ^ 32)
    (hcommit : d.commitLsn < 2 ^ 64) (hend : d.endLsn < 2 ^ 64) (htime : d.committime < 2 ^ 64) :
    Reads readStreamCommit (encodeBE 4 xid ++ commitFields d) (xid, d) :=
  (reads_int32 hxid).bind (reads_commit hcommit hend htime).map

theorem reads_streamAbort {xid subxid abortLsn abortTime : Nat} (hxid : xid < 2 ^ 32)
    (hsubxid : subxid < 2 ^ 32) (hlsn : abortLsn < 2 ^ 64) (htime : abortTime < 2 ^ 64) (info : Bool) :
    Reads (readStreamAbort info) (encodeBE 4 xid ++ (encodeBE 4 subxid ++
      if info then encodeBE 8 abortLsn ++ encodeBE 8 abortTime else []))
      { xid, subxid, abortLsn := if info then abortLsn else 0,
        abortTime := if info then abortTime else 0 } := by
  refine (reads_int32 hxid).bind ((reads_int32 hsubxid).bind ?_)
  cases info with
  | true => exact (reads_int64 hlsn).bind (reads_int64 htime).map
  | false => exact Reads.pure _

def Column.Fits : Column → Prop
  | .null | .unchanged => True
  | .text value | .binary value => value.length < 2 ^ 32

theorem reads_column {c : Column} (h : Column.Fits c) : Reads readColumn (writeColumn c) c := by
  cases c with
  | null => exact (reads_getMsgByte (byteOf 'n')).bind (Reads.pure Column.null)
  | unchanged => exact (reads_getMsgByte (byteOf 'u')).bind (Reads.pure Column.unchanged)
  | text value =>
    refine (reads_getMsgByte (byteOf 't')).bind ?_
    exact (reads_int32 h).bind (reads_copyMsgBytes value).map
  | binary value =>
    refine (reads_getMsgByte (byteOf 'b')).bind ?_
    exact (reads_int32 h).bind (reads_copyMsgBytes value).map

theorem reads_tuple {tup : TupleData} (hlength : tup.length < 2 ^ 16)
    (h : ∀ c ∈ tup, Column.Fits c) : Reads readTuple (writeTuple tup) tup :=
  (reads_getMsgInt hlength).bind (reads_many fun c hc => reads_column (h c hc))

theorem reads_insert {relid : Nat} {tup : TupleData} (hrelid : relid < 2 ^ 32)
    (htup : Reads readTuple (writeTuple tup) tup) :
    Reads readInsert (encodeBE 4 relid ++ ([byteOf 'N'] ++ writeTuple tup)) (relid, tup) := by
  refine (reads_int32 hrelid).bind ((reads_getMsgByte _).bind (Reads.check rfl ?_))
  exact htup.map

theorem reads_update {relid : Nat} {oldtup : OldTuple} {newtup : TupleData} (hrelid : relid < 2 ^ 32)
    (hold : ∀ tup, oldtup.tuple = some tup → Reads readTuple (writeTuple tup) tup)
    (hnew : Reads readTuple (writeTuple newtup) newtup) :
    Reads readUpdate (encodeBE 4 relid ++ (oldtup.write ++ ([byteOf 'N'] ++ writeTuple newtup)))
      (relid, oldtup.tuple, newtup) := by
  refine (reads_int32 hrelid).bind ?_
  cases oldtup with
  | none =>
    refine (reads_getMsgByte (byteOf 'N')).bind (Reads.check rfl ?_)
    exact hnew.map
  | key tup | full tup =>
    show Reads _ ([_] ++ writeTuple tup ++ ([byteOf 'N'] ++ writeTuple newtup)) _
    rw [List.append_assoc]
    refine (reads_getMsgByte _).bind (Reads.check rfl ?_)
    refine (hold tup rfl).bind ((reads_getMsgByte _).bind (Reads.check rfl ?_))
    exact hnew.map

theorem reads_delete {relid : Nat} {oldtup : TupleData} (hrelid : relid < 2 ^ 32)
    (replidentFull : Bool) (hold : Reads readTuple (writeTuple oldtup) oldtup) :
    Reads readDelete (encodeBE 4 relid ++ ([byteOf (if replidentFull then 'O' else 'K')] ++
      writeTuple oldtup)) (relid, oldtup) := by
  refine (reads_int32 hrelid).bind ((reads_getMsgByte _).bind (Reads.check ?_ hold.map))
  cases replidentFull with
  | true => rfl
  | false => rfl

theorem reads_truncate {relids : List Nat} (hlength : relids.length < 2 ^ 31)
    (hrelids : ∀ relid ∈ relids, relid < 2 ^ 32) (cascade restartSeqs : Bool) :
    Reads readTruncate (encodeBE 4 relids.length ++
      (encodeBE 1 ((if cascade then 1 else 0) + if restartSeqs then 2 else 0) ++
        relids.flatMap (encodeBE 4))) (relids, cascade, restartSeqs) := by
  have hflags : (if cascade then 1 else 0) + (if restartSeqs then 2 else 0) < 256 ^ 1 := by
    cases cascade <;> cases restartSeqs <;> decide
  have hmany := reads_many fun relid hrelid => reads_int32 (hrelids relid hrelid)
  refine (reads_int32 (by omega)).bind ((reads_getMsgInt hflags).bind ?_)
  rw [if_pos hlength]
  have hpair := hmany.map (f := fun relids => (relids,
    decide (((if cascade then 1 else 0) + if restartSeqs then 2 else 0) % 2 = 1),
    decide (((if cascade then 1 else 0) + if restartSeqs then 2 else 0) / 2 % 2 = 1)))
  cases cascade <;> cases restartSeqs <;> exact hpair

theorem reads_namespace {nspname : CStr} (hne : nspname.bytes ≠ []) :
    Reads readNamespace (writeNamespace nspname) nspname := by
  have hread := (reads_getMsgString (if nspname = pgCatalog then CStr.lit [] else nspname)).map
    (f := fun nspname => if nspname.bytes = [] then pgCatalog else nspname)
  by_cases hcatalog : nspname = pgCatalog
  · subst hcatalog
    exact hread
  · rw [if_neg hcatalog, if_neg hne] at hread
    have hwrite : writeNamespace nspname = sendString nspname := by
      rw [writeNamespace, if_neg hcatalog]
    rw [hwrite]
    exact hread

theorem reads_attr {a : Attr} (htyp : a.atttypid < 2 ^ 32) (hmod : a.atttypmod < 2 ^ 32) :
    Reads readAttr a.write (a.attname, a.flags, a.atttypid) := by
  refine (reads_getMsgByte a.flags).bind ((reads_getMsgString a.attname).bind ?_)
  exact (reads_int32 htyp).bind (reads_int32 hmod).map

def relationOf (relid : Nat) (nspname relname : CStr) (replident : UInt8) (attrs : List Attr) :
    LogicalRepRelation where
  remoteid := relid
  remoterel := { nspname, relname, attnames := attrs.map (·.attname) }
  replident := replident
  atttyps := attrs.map (·.atttypid)
  attkeys := attkeysOf (attrs.map (·.flags))

theorem reads_rel {relid : Nat} {nspname relname : CStr} {replident : UInt8} {attrs : List Attr}
    (hrelid : relid < 2 ^ 32) (hne : nspname.bytes ≠ []) (hlength : attrs.length < 2 ^ 16)
    (hattrs : ∀ a ∈ attrs, a.atttypid < 2 ^ 32 ∧ a.atttypmod < 2 ^ 32) :
    Reads readRel (encodeBE 4 relid ++ (writeNamespace nspname ++ (sendString relname ++
      ([replident] ++ (encodeBE 2 attrs.length ++ attrs.flatMap Attr.write)))))
      (relationOf relid nspname relname replident attrs) := by
  have hmany : Reads (readMany readAttr attrs.length) (attrs.flatMap Attr.write)
      (attrs.map fun a => (a.attname, a.flags, a.atttypid)) :=
    reads_many_map fun a ha => reads_attr (hattrs a ha).1 (hattrs a ha).2
  refine (reads_int32 hrelid).bind ((reads_namespace hne).bind ?_)
  refine (reads_getMsgString relname).bind ((reads_getMsgByte replident).bind ?_)
  refine (reads_getMsgInt hlength).bind ?_
  have hrel := hmany.map (f := fun attrs => ({
    remoteid := relid,
    remoterel := { nspname, relname, attnames := attrs.map (·.1) }, replident := replident,
    atttyps := attrs.map (·.2.2), attkeys := attkeysOf (attrs.map (·.2.1)) } : LogicalRepRelation))
  simp only [List.map_map] at hrel
  exact hrel

theorem reads_typ {typoid : Nat} {nspname : CStr} (typname : CStr) (htyp : typoid < 2 ^ 32) (hne : nspname.bytes ≠ []) :
    Reads readTyp (encodeBE 4 typoid ++ (writeNamespace nspname ++ sendString typname)) (typoid, nspname, typname) := by
  refine (reads_int32 htyp).bind ((reads_namespace hne).bind ?_)
  exact (reads_getMsgString typname).map

end CdcKafka.Proto
