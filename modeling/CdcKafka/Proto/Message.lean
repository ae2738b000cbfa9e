import CdcKafka.Event.RowJson
import CdcKafka.Lib.Wire

/-! The messages of the logical replication protocol as the apply worker reads them. -/

namespace CdcKafka.Proto
open CdcKafka.Lib CdcKafka.Event

inductive LogicalRepMsgType
  | begin | commit | origin | insert | update | delete | truncate | relation | type | message
  | beginPrepare | prepare | commitPrepared | rollbackPrepared
  | streamStart | streamStop | streamCommit | streamAbort | streamPrepare
deriving DecidableEq

def LogicalRepMsgType.char : LogicalRepMsgType → Char
  | begin => 'B'
  | commit => 'C'
  | origin => 'O'
  | insert => 'I'
  | update => 'U'
  | delete => 'D'
  | truncate => 'T'
  | relation => 'R'
  | type => 'Y'
  | message => 'M'
  | beginPrepare => 'b'
  | prepare => 'P'
  | commitPrepared => 'K'
  | rollbackPrepared => 'r'
  | streamStart => 'S'
  | streamStop => 'E'
  | streamCommit => 'c'
  | streamAbort => 'A'
  | streamPrepare => 'p'

def byteOf (c : Char) : UInt8 := UInt8.ofNat c.toNat

def LogicalRepMsgType.toByte (t : LogicalRepMsgType) : UInt8 := byteOf t.char

def LogicalRepMsgType.all : List LogicalRepMsgType :=
  [begin, commit, origin, insert, update, delete, truncate, relation, type, message,
   beginPrepare, prepare, commitPrepared, rollbackPrepared,
   streamStart, streamStop, streamCommit, streamAbort, streamPrepare]

def LogicalRepMsgType.ofByte (b : UInt8) : Option LogicalRepMsgType :=
  LogicalRepMsgType.all.find? fun t => t.toByte = b

@[simp] theorem LogicalRepMsgType.ofByte_toByte (t : LogicalRepMsgType) :
    LogicalRepMsgType.ofByte t.toByte = some t := by
  cases t <;> decide

inductive ProtoError
  | noDataLeft
  | insufficientData
  | invalidString
  | unrecognizedFlags (flags : UInt8)
  | finalLsnNotSet
  | prepareLsnNotSet
  | endLsnNotSet
  | commitLsnNotSet
  | prepareEndLsnNotSet
  | rollbackEndLsnNotSet
  | invalidTwoPhaseXid
  | expectedNewTuple (action : UInt8)
  | expectedTuple (action : UInt8)
  | unrecognizedRepresentation (kind : UInt8)
deriving DecidableEq

abbrev MsgReader := Reader ProtoError

def getMsgByte : MsgReader UInt8 := readByte .noDataLeft

def getMsgInt (b : Nat) : MsgReader Nat := do
  let n ← readBytes .insufficientData b
  pure (decodeBE n)

def getMsgInt64 : MsgReader Nat := getMsgInt 8

def getMsgString : MsgReader CStr := readString .invalidString

def copyMsgBytes (datalen : Nat) : MsgReader Bytes := readBytes .insufficientData datalen

def check (ok : Bool) (err : ProtoError) : MsgReader Unit := fun s =>
  if ok then .ok ((), s) else .error err

def gidOf (s : CStr) : Bytes := s.bytes.take 199

structure LogicalRepBeginData where
  finalLsn : Nat
  committime : Nat
  xid : Nat
deriving DecidableEq

structure LogicalRepCommitData where
  commitLsn : Nat
  endLsn : Nat
  committime : Nat
deriving DecidableEq

structure LogicalRepPreparedTxnData where
  prepareLsn : Nat
  endLsn : Nat
  prepareTime : Nat
  xid : Nat
  gid : Bytes
deriving DecidableEq

structure LogicalRepCommitPreparedTxnData where
  commitLsn : Nat
  endLsn : Nat
  commitTime : Nat
  xid : Nat
  gid : Bytes
deriving DecidableEq

structure LogicalRepRollbackPreparedTxnData where
  prepareEndLsn : Nat
  rollbackEndLsn : Nat
  prepareTime : Nat
  rollbackTime : Nat
  xid : Nat
  gid : Bytes
deriving DecidableEq

structure LogicalRepStreamAbortData where
  xid : Nat
  subxid : Nat
  abortLsn : Nat
  abortTime : Nat
deriving DecidableEq

def readBegin : MsgReader LogicalRepBeginData := do
  let finalLsn ← getMsgInt64
  check (finalLsn ≠ 0) .finalLsnNotSet
  let committime ← getMsgInt64
  let xid ← getMsgInt 4
  pure { finalLsn, committime, xid }

def readFlags : MsgReader Unit := do
  let flags ← getMsgByte
  check (flags = 0) (.unrecognizedFlags flags)

def readCommit : MsgReader LogicalRepCommitData := do
  readFlags
  let commitLsn ← getMsgInt64
  let endLsn ← getMsgInt64
  let committime ← getMsgInt64
  pure { commitLsn, endLsn, committime }

def readBeginPrepare : MsgReader LogicalRepPreparedTxnData := do
  let prepareLsn ← getMsgInt64
  check (prepareLsn ≠ 0) .prepareLsnNotSet
  let endLsn ← getMsgInt64
  check (endLsn ≠ 0) .endLsnNotSet
  let prepareTime ← getMsgInt64
  let xid ← getMsgInt 4
  let gid ← getMsgString
  pure { prepareLsn, endLsn, prepareTime, xid, gid := gidOf gid }

def readPrepareCommon : MsgReader LogicalRepPreparedTxnData := do
  readFlags
  let prepareLsn ← getMsgInt64
  check (prepareLsn ≠ 0) .prepareLsnNotSet
  let endLsn ← getMsgInt64
  check (endLsn ≠ 0) .endLsnNotSet
  let prepareTime ← getMsgInt64
  let xid ← getMsgInt 4
  check (xid ≠ 0) .invalidTwoPhaseXid
  let gid ← getMsgString
  pure { prepareLsn, endLsn, prepareTime, xid, gid := gidOf gid }

def readCommitPrepared : MsgReader LogicalRepCommitPreparedTxnData := do
  readFlags
  let commitLsn ← getMsgInt64
  check (commitLsn ≠ 0) .commitLsnNotSet
  let endLsn ← getMsgInt64
  check (endLsn ≠ 0) .endLsnNotSet
  let commitTime ← getMsgInt64
  let xid ← getMsgInt 4
  let gid ← getMsgString
  pure { commitLsn, endLsn, commitTime, xid, gid := gidOf gid }

def readRollbackPrepared : MsgReader LogicalRepRollbackPreparedTxnData := do
  readFlags
  let prepareEndLsn ← getMsgInt64
  check (prepareEndLsn ≠ 0) .prepareEndLsnNotSet
  let rollbackEndLsn ← getMsgInt64
  check (rollbackEndLsn ≠ 0) .rollbackEndLsnNotSet
  let prepareTime ← getMsgInt64
  let rollbackTime ← getMsgInt64
  let xid ← getMsgInt 4
  let gid ← getMsgString
  pure { prepareEndLsn, rollbackEndLsn, prepareTime, rollbackTime, xid, gid := gidOf gid }

def readStreamStart : MsgReader (Nat × Bool) := do
  let xid ← getMsgInt 4
  let firstSegment ← getMsgByte
  pure (xid, firstSegment = 1)

def readStreamCommit : MsgReader (Nat × LogicalRepCommitData) := do
  let xid ← getMsgInt 4
  let commitData ← readCommit
  pure (xid, commitData)

def readStreamAbort (readAbortInfo : Bool) : MsgReader LogicalRepStreamAbortData := do
  let xid ← getMsgInt 4
  let subxid ← getMsgInt 4
  if readAbortInfo then do
    let abortLsn ← getMsgInt64
    let abortTime ← getMsgInt64
    pure { xid, subxid, abortLsn, abortTime }
  else
    pure { xid, subxid, abortLsn := 0, abortTime := 0 }

structure LogicalRepRelation where
  remoteid : Nat
  remoterel : RemoteRel
  replident : UInt8
  atttyps : List Nat
  attkeys : List Nat
deriving DecidableEq

def readColumn : MsgReader Column := do
  let kind ← getMsgByte
  if kind = byteOf 'n' then pure .null
  else if kind = byteOf 'u' then pure .unchanged
  else if kind = byteOf 't' then do
    let len ← getMsgInt 4
    let value ← copyMsgBytes len
    pure (.text value)
  else if kind = byteOf 'b' then do
    let len ← getMsgInt 4
    let value ← copyMsgBytes len
    pure (.binary value)
  else throw (.unrecognizedRepresentation kind)

def readTuple : MsgReader TupleData := do
  let natts ← getMsgInt 2
  readMany readColumn natts

def readInsert : MsgReader (Nat × TupleData) := do
  let relid ← getMsgInt 4
  let action ← getMsgByte
  check (action = byteOf 'N') (.expectedNewTuple action)
  let newtup ← readTuple
  pure (relid, newtup)

def readUpdate : MsgReader (Nat × Option TupleData × TupleData) := do
  let relid ← getMsgInt 4
  let action ← getMsgByte
  check (action = byteOf 'K' || action = byteOf 'O' || action = byteOf 'N') (.expectedTuple action)
  if action = byteOf 'K' ∨ action = byteOf 'O' then do
    let oldtup ← readTuple
    let action ← getMsgByte
    check (action = byteOf 'N') (.expectedNewTuple action)
    let newtup ← readTuple
    pure (relid, some oldtup, newtup)
  else do
    let newtup ← readTuple
    pure (relid, none, newtup)

def readDelete : MsgReader (Nat × TupleData) := do
  let relid ← getMsgInt 4
  let action ← getMsgByte
  check (action = byteOf 'K' || action = byteOf 'O') (.expectedTuple action)
  let oldtup ← readTuple
  pure (relid, oldtup)

/-- The relations, and the flags CASCADE and RESTART IDENTITY. `nrelids` is an `int`: the loop does
not run for a count from 2^31 on. -/
def readTruncate : MsgReader (List Nat × Bool × Bool) := do
  let nrelids ← getMsgInt 4
  let flags ← getMsgInt 1
  let relids ← readMany (getMsgInt 4) (if nrelids < 2 ^ 31 then nrelids else 0)
  pure (relids, flags % 2 = 1, flags / 2 % 2 = 1)

def readNamespace : MsgReader CStr := do
  let nspname ← getMsgString
  pure (if nspname.bytes = [] then CStr.lit ['p', 'g', '_', 'c', 'a', 't', 'a', 'l', 'o', 'g']
    else nspname)

def readAttr : MsgReader (CStr × UInt8 × Nat) := do
  let flags ← getMsgByte
  let attname ← getMsgString
  let atttyp ← getMsgInt 4
  let _mode ← getMsgInt 4
  pure (attname, flags, atttyp)

def isReplicaIdentity (flags : UInt8) : Bool := flags.toNat % 2 = 1

def attkeysOf (flags : List UInt8) : List Nat :=
  (flags.zipIdx.filter fun p => isReplicaIdentity p.1).map (·.2)

def readRel : MsgReader LogicalRepRelation := do
  let remoteid ← getMsgInt 4
  let nspname ← readNamespace
  let relname ← getMsgString
  let replident ← getMsgByte
  let natts ← getMsgInt 2
  let attrs ← readMany readAttr natts
  pure { remoteid, remoterel := { nspname, relname, attnames := attrs.map (·.1) }, replident,
         atttyps := attrs.map (·.2.2), attkeys := attkeysOf (attrs.map (·.2.1)) }

def readTyp : MsgReader (Nat × CStr × CStr) := do
  let remoteid ← getMsgInt 4
  let nspname ← readNamespace
  let typname ← getMsgString
  pure (remoteid, nspname, typname)

end CdcKafka.Proto
