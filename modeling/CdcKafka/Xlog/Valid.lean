import CdcKafka.Xlog.Record

/-! `ValidXLogRecordHeader` and `ValidXLogRecord`: what is checked of a record before it is decoded. -/

namespace CdcKafka.Xlog

open CdcKafka.Lib

def crc32cPolynomial : UInt32 := 0x82F63B78

def crc32cShift (crc : UInt32) : UInt32 :=
  if crc &&& 1 = 0 then crc >>> 1 else (crc >>> 1) ^^^ crc32cPolynomial

def crc32cTable (i : UInt32) : UInt32 :=
  crc32cShift (crc32cShift (crc32cShift (crc32cShift (crc32cShift (crc32cShift (crc32cShift (crc32cShift i)))))))

def crc32cByte (crc : UInt32) (x : UInt8) : UInt32 := crc32cTable ((crc ^^^ x.toUInt32) &&& 0xFF) ^^^ (crc >>> 8)

def compCrc32c (crc : UInt32) (data : Bytes) : UInt32 := data.foldl crc32cByte crc

def initCrc32c : UInt32 := 0xFFFFFFFF

def finCrc32c (crc : UInt32) : UInt32 := crc ^^^ 0xFFFFFFFF

def rmMaxBuiltinId : Nat := 21
def rmMinCustomId : Nat := 128

def rmgrIdIsValid (rmid : UInt8) : Bool := rmid.toNat ≤ rmMaxBuiltinId || rmMinCustomId ≤ rmid.toNat

inductive RecordError
  /-- "invalid record length: expected at least, got" -/
  | invalidRecordLength (totLen : Nat)
  /-- "invalid resource manager ID" -/
  | invalidResourceManager (rmid : UInt8)
  /-- "record with incorrect prev-link" -/
  | incorrectPrevLink (prev : UInt64)
  /-- "incorrect resource manager data checksum in record" -/
  | incorrectChecksum
deriving DecidableEq

def prevLinkOk (recPtr prevRecPtr : UInt64) (record : XLogRecord) (randAccess : Bool) : Bool :=
  if randAccess then record.prev < recPtr else record.prev == prevRecPtr

def validXLogRecordHeader (recPtr prevRecPtr : UInt64) (record : XLogRecord) (randAccess : Bool) :
    Except RecordError Unit :=
  if record.totLen < sizeOfXLogRecord then .error (.invalidRecordLength record.totLen)
  else if !rmgrIdIsValid record.rmid then .error (.invalidResourceManager record.rmid)
  else if !prevLinkOk recPtr prevRecPtr record randAccess then .error (.incorrectPrevLink record.prev)
  else .ok ()

def recordCrc (record : Bytes) : UInt32 :=
  finCrc32c (compCrc32c (compCrc32c initCrc32c (record.drop sizeOfXLogRecord)) (record.take 20))

def validXLogRecord (record : Bytes) : Except RecordError Unit :=
  if (readHeader record).crc = recordCrc record then .ok () else .error .incorrectChecksum

end CdcKafka.Xlog
