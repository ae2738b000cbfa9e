import CdcKafka.Lib.CLayout
import CdcKafka.Xlog.Record

/-! Commit and abort records: `XactLogCommitRecord` and `XactLogAbortRecord` of `xact.c`, and
`ParseCommitRecord` and `ParseAbortRecord` of `xactdesc.c`. -/

namespace CdcKafka.Xact
open CdcKafka.Lib CdcKafka.Xlog

def xlogXactCommit : UInt8 := 0x00
def xlogXactAbort : UInt8 := 0x20
def xlogXactCommitPrepared : UInt8 := 0x30
def xlogXactAbortPrepared : UInt8 := 0x40
def xlogXactHasInfo : UInt8 := 0x80
def xlrSpecialRelUpdate : UInt8 := 0x01

def xactXinfoHasDbinfo : UInt32 := 0x1
def xactXinfoHasSubxacts : UInt32 := 0x2
def xactXinfoHasRelfilelocators : UInt32 := 0x4
def xactXinfoHasInvals : UInt32 := 0x8
def xactXinfoHasTwophase : UInt32 := 0x10
def xactXinfoHasOrigin : UInt32 := 0x20
def xactXinfoHasAeLocks : UInt32 := 0x40
def xactXinfoHasGid : UInt32 := 0x80
def xactXinfoHasDroppedStats : UInt32 := 0x100
def xactCompletionApplyFeedback : UInt32 := 0x20000000
def xactCompletionUpdateRelcacheFile : UInt32 := 0x40000000
def xactCompletionForceSyncCommit : UInt32 := 0x80000000

def xactFlagsAcquiredAccessExclusiveLock : UInt32 := 0x2

def addFlag (p : Bool) (flag xinfo : UInt32) : UInt32 := if p then xinfo ||| flag else xinfo

def hasFlag (xinfo flag : UInt32) : Bool := xinfo &&& flag != 0

def maxAllocSize : Nat := 0x3fffffff

structure PallocArray {α : Type} (l : CLayout α) where
  elems : List α
  fits : elems.length * l.size ≤ maxAllocSize

def gidSize : Nat := 200

structure Gid where
  str : CStr
  lt_gidSize : str.bytes.length < gidSize

abbrev XidLayout : CLayout UInt32 := .u32

def RelFileLocator.layout : CLayout RelFileLocator :=
  (CLayout.u32.pair (CLayout.u32.pair .u32)).map (fun p => ⟨p.1, p.2.1, p.2.2⟩)
    (fun r => (r.spcOid, r.dbOid, r.relNumber)) fun _ => rfl

structure StatsItem where
  kind : Int32
  dboid : UInt32
  objidLo : UInt32
  objidHi : UInt32
deriving DecidableEq

def StatsItem.layout : CLayout StatsItem :=
  (CLayout.i32.pair (CLayout.u32.pair (CLayout.u32.pair .u32))).map (fun p => ⟨p.1, p.2.1, p.2.2.1, p.2.2.2⟩)
    (fun s => (s.kind, s.dboid, s.objidLo, s.objidHi)) fun _ => rfl

abbrev SharedInvalidationMessage := { b : Bytes // b.length = 16 }

def SharedInvalidationMessage.layout : CLayout SharedInvalidationMessage := .raw 16

structure Session where
  forceSyncCommit : Bool
  /-- `synchronous_commit >= SYNCHRONOUS_COMMIT_REMOTE_APPLY` -/
  remoteApply : Bool
  xLogLogicalInfoActive : Bool
  myDatabaseId : UInt32
  myDatabaseTableSpace : UInt32
  replOriginSessionOrigin : UInt16
  replOriginSessionOriginLsn : UInt64
  replOriginSessionOriginTimestamp : Int64

structure XactArgs where
  xactTime : Int64
  subxacts : PallocArray XidLayout
  rels : PallocArray RelFileLocator.layout
  droppedstats : PallocArray StatsItem.layout
  xactflags : UInt32
  twophaseXid : UInt32
  /-- Read only if `twophaseXid` is valid. -/
  twophaseGid : Gid

structure CommitArgs extends XactArgs where
  msgs : PallocArray SharedInvalidationMessage.layout
  relcacheInval : Bool

structure XactRecord where
  info : UInt8
  data : Bytes
deriving DecidableEq

def xLogRegisterData (data : Bytes) (len : Nat) : Bytes := data.take (len % 2 ^ 32)

def registerArray {α : Type} (l : CLayout α) (a : PallocArray l) : Bytes :=
  encodeLE 4 a.elems.length ++ xLogRegisterData (a.elems.flatMap l.bytes) (a.elems.length * l.size)

namespace XactArgs

def isTwophase (args : XactArgs) : Bool := args.twophaseXid != 0

def registerGid (args : XactArgs) : Bytes :=
  xLogRegisterData (args.twophaseGid.str.bytes ++ [0]) (args.twophaseGid.str.bytes.length + 1)

end XactArgs

def Session.hasOrigin (s : Session) : Bool := s.replOriginSessionOrigin != 0

def dbinfoLayout : CLayout (UInt32 × UInt32) := CLayout.u32.pair .u32
def originLayout : CLayout (UInt64 × Int64) := CLayout.u64.pair .i64

def Session.dbinfo (s : Session) : UInt32 × UInt32 := (s.myDatabaseId, s.myDatabaseTableSpace)

def Session.origin (s : Session) : UInt64 × Int64 :=
  (s.replOriginSessionOriginLsn, s.replOriginSessionOriginTimestamp)

def commitXinfo (s : Session) (args : CommitArgs) : UInt32 :=
  let xinfo : UInt32 := 0
  let xinfo := addFlag args.relcacheInval xactCompletionUpdateRelcacheFile xinfo
  let xinfo := addFlag s.forceSyncCommit xactCompletionForceSyncCommit xinfo
  let xinfo := addFlag (hasFlag args.xactflags xactFlagsAcquiredAccessExclusiveLock)
    xactXinfoHasAeLocks xinfo
  let xinfo := addFlag s.remoteApply xactCompletionApplyFeedback xinfo
  let xinfo := addFlag (args.msgs.elems ≠ [] || s.xLogLogicalInfoActive) xactXinfoHasDbinfo xinfo
  let xinfo := addFlag (args.subxacts.elems ≠ []) xactXinfoHasSubxacts xinfo
  let xinfo := addFlag (args.rels.elems ≠ []) xactXinfoHasRelfilelocators xinfo
  let xinfo := addFlag (args.droppedstats.elems ≠ []) xactXinfoHasDroppedStats xinfo
  let xinfo := addFlag (args.msgs.elems ≠ []) xactXinfoHasInvals xinfo
  let xinfo := addFlag args.isTwophase xactXinfoHasTwophase xinfo
  let xinfo := addFlag (args.isTwophase && s.xLogLogicalInfoActive) xactXinfoHasGid xinfo
  addFlag s.hasOrigin xactXinfoHasOrigin xinfo

def abortXinfo (s : Session) (args : XactArgs) : UInt32 :=
  let xinfo : UInt32 := 0
  let xinfo := addFlag (hasFlag args.xactflags xactFlagsAcquiredAccessExclusiveLock)
    xactXinfoHasAeLocks xinfo
  let xinfo := addFlag (args.subxacts.elems ≠ []) xactXinfoHasSubxacts xinfo
  let xinfo := addFlag (args.rels.elems ≠ []) xactXinfoHasRelfilelocators xinfo
  let xinfo := addFlag (args.droppedstats.elems ≠ []) xactXinfoHasDroppedStats xinfo
  let xinfo := addFlag args.isTwophase xactXinfoHasTwophase xinfo
  let xinfo := addFlag (args.isTwophase && s.xLogLogicalInfoActive) xactXinfoHasGid xinfo
  let xinfo := addFlag (args.isTwophase && s.xLogLogicalInfoActive) xactXinfoHasDbinfo xinfo
  addFlag s.hasOrigin xactXinfoHasOrigin xinfo

def recordInfo (op : UInt8) (hasRels : Bool) (xinfo : UInt32) : UInt8 :=
  let info := if hasRels then op ||| xlrSpecialRelUpdate else op
  if xinfo ≠ 0 then info ||| xlogXactHasInfo else info

def xactLogCommitRecord (s : Session) (args : CommitArgs) : XactRecord :=
  let xinfo := commitXinfo s args
  { info := recordInfo (if args.isTwophase then xlogXactCommitPrepared else xlogXactCommit)
      (args.rels.elems ≠ []) xinfo
    data :=
      CLayout.i64.bytes args.xactTime ++
      (if xinfo != 0 then CLayout.u32.bytes xinfo else []) ++
      (if hasFlag xinfo xactXinfoHasDbinfo then dbinfoLayout.bytes s.dbinfo else []) ++
      (if hasFlag xinfo xactXinfoHasSubxacts then registerArray _ args.subxacts else []) ++
      (if hasFlag xinfo xactXinfoHasRelfilelocators then registerArray _ args.rels else []) ++
      (if hasFlag xinfo xactXinfoHasDroppedStats then registerArray _ args.droppedstats
        else []) ++
      (if hasFlag xinfo xactXinfoHasInvals then registerArray _ args.msgs else []) ++
      (if hasFlag xinfo xactXinfoHasTwophase then
        CLayout.u32.bytes args.twophaseXid ++ (if hasFlag xinfo xactXinfoHasGid then args.registerGid else [])
        else []) ++
      (if hasFlag xinfo xactXinfoHasOrigin then originLayout.bytes s.origin else []) }

def xactLogAbortRecord (s : Session) (args : XactArgs) : XactRecord :=
  let xinfo := abortXinfo s args
  { info := recordInfo (if args.isTwophase then xlogXactAbortPrepared else xlogXactAbort)
      (args.rels.elems ≠ []) xinfo
    data :=
      CLayout.i64.bytes args.xactTime ++
      (if xinfo != 0 then CLayout.u32.bytes xinfo else []) ++
      (if hasFlag xinfo xactXinfoHasDbinfo then dbinfoLayout.bytes s.dbinfo else []) ++
      (if hasFlag xinfo xactXinfoHasSubxacts then registerArray _ args.subxacts else []) ++
      (if hasFlag xinfo xactXinfoHasRelfilelocators then registerArray _ args.rels else []) ++
      (if hasFlag xinfo xactXinfoHasDroppedStats then registerArray _ args.droppedstats
        else []) ++
      (if hasFlag xinfo xactXinfoHasTwophase then
        CLayout.u32.bytes args.twophaseXid ++ (if hasFlag xinfo xactXinfoHasGid then args.registerGid else [])
        else []) ++
      (if hasFlag xinfo xactXinfoHasOrigin then originLayout.bytes s.origin else []) }

structure XactParsedAbort where
  xactTime : Int64
  xinfo : UInt32
  dbId : UInt32
  tsId : UInt32
  nsubxacts : Nat
  subxacts : List UInt32
  nrels : Nat
  xlocators : List RelFileLocator
  nstats : Nat
  stats : List StatsItem
  twophaseXid : UInt32
  twophaseGid : Bytes
  originLsn : UInt64
  originTimestamp : Int64
deriving DecidableEq

structure XactParsedCommit extends XactParsedAbort where
  nmsgs : Nat
  msgs : List SharedInvalidationMessage
deriving DecidableEq

inductive ParseError
  /-- The parser would read behind the main data. -/
  | outside
deriving DecidableEq

abbrev Parser := Reader ParseError

def readXid : Parser UInt32 := CLayout.u32.read .outside

def readArray {α : Type} (l : CLayout α) : Parser (Nat × List α) := l.readCounted .outside

/-- The transaction of two phases, and its gid where it is there: `strlcpy` copies as much of it as
fits into `twophase_gid`. -/
def readTwophase (hasGid : Bool) : Parser (UInt32 × Bytes) := do
  let xid ← readXid
  let gid ← readPart hasGid (do
    let gid ← readString .outside
    pure (gid.bytes.take (gidSize - 1))) []
  pure (xid, gid)

def parseCommitRecord (info : UInt8) : Parser XactParsedCommit := do
  let xactTime ← CLayout.i64.read .outside
  let xinfo ← readPart (info &&& xlogXactHasInfo != 0) (CLayout.u32.read .outside) 0
  let db ← readPart (hasFlag xinfo xactXinfoHasDbinfo) (dbinfoLayout.read .outside) (0, 0)
  let sub ← readPart (hasFlag xinfo xactXinfoHasSubxacts) (readArray XidLayout) (0, [])
  let rels ← readPart (hasFlag xinfo xactXinfoHasRelfilelocators)
    (readArray RelFileLocator.layout) (0, [])
  let stats ← readPart (hasFlag xinfo xactXinfoHasDroppedStats) (readArray StatsItem.layout)
    (0, [])
  let msgs ← readPart (hasFlag xinfo xactXinfoHasInvals)
    (readArray SharedInvalidationMessage.layout) (0, [])
  let twophase ← readPart (hasFlag xinfo xactXinfoHasTwophase)
    (readTwophase (hasFlag xinfo xactXinfoHasGid)) (0, [])
  let origin ← readPart (hasFlag xinfo xactXinfoHasOrigin) (originLayout.read .outside) (0, 0)
  pure { xactTime, xinfo, dbId := db.1, tsId := db.2, nsubxacts := sub.1, subxacts := sub.2,
         nrels := rels.1, xlocators := rels.2, nstats := stats.1, stats := stats.2,
         nmsgs := msgs.1, msgs := msgs.2, twophaseXid := twophase.1, twophaseGid := twophase.2,
         originLsn := origin.1, originTimestamp := origin.2 }

def parseAbortRecord (info : UInt8) : Parser XactParsedAbort := do
  let xactTime ← CLayout.i64.read .outside
  let xinfo ← readPart (info &&& xlogXactHasInfo != 0) (CLayout.u32.read .outside) 0
  let db ← readPart (hasFlag xinfo xactXinfoHasDbinfo) (dbinfoLayout.read .outside) (0, 0)
  let sub ← readPart (hasFlag xinfo xactXinfoHasSubxacts) (readArray XidLayout) (0, [])
  let rels ← readPart (hasFlag xinfo xactXinfoHasRelfilelocators)
    (readArray RelFileLocator.layout) (0, [])
  let stats ← readPart (hasFlag xinfo xactXinfoHasDroppedStats) (readArray StatsItem.layout)
    (0, [])
  let twophase ← readPart (hasFlag xinfo xactXinfoHasTwophase)
    (readTwophase (hasFlag xinfo xactXinfoHasGid)) (0, [])
  let origin ← readPart (hasFlag xinfo xactXinfoHasOrigin) (originLayout.read .outside) (0, 0)
  pure { xactTime, xinfo, dbId := db.1, tsId := db.2, nsubxacts := sub.1, subxacts := sub.2,
         nrels := rels.1, xlocators := rels.2, nstats := stats.1, stats := stats.2,
         twophaseXid := twophase.1, twophaseGid := twophase.2,
         originLsn := origin.1, originTimestamp := origin.2 }

end CdcKafka.Xact
