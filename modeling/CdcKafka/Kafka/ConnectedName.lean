import Mathlib.Data.List.Infix
import CdcKafka.Lib.CharArray
import CdcKafka.Libpq.ConnectionString

/-! `get_dbname_from_conninfo`, and the fixed buffers that it and its callers fill: those of
`CopyJsonInfo` and of the apply worker. -/

namespace CdcKafka.Kafka
open CdcKafka.Lib

def strstr (s key : Bytes) : Option Bytes :=
  if key.isPrefixOf s then some s
  else
    match s with
    | [] => none
    | _ :: rest => strstr rest key

def dbnameKey : Bytes := ascii ['d', 'b', 'n', 'a', 'm', 'e', '=']

def endsName (c : UInt8) : Bool := c == 0x20 || c == 0x09 || c == 0x0a || c == 0x0d

def dbnameText (conninfo : CStr) : Option Bytes :=
  (strstr conninfo.bytes dbnameKey).map fun start => (start.drop dbnameKey.length).takeWhile fun c => !endsName c

def getDbnameFromConninfo {size : Nat} (conninfo : CStr) (outDbname : CharArray size) (maxLen : Nat) :
    Option (CharArray size) := do
  let outDbname ← outDbname.memset maxLen
  match dbnameText conninfo with
  | none => some outDbname
  | some text =>
    if maxLen ≤ text.length then
      if maxLen = 0 then none else outDbname.strncpy text (maxLen - 1)
    else outDbname.strncpy text text.length

structure CopyJsonInfo where
  dbname : CharArray 64
  tableName : CharArray 128
  kafkaServer : CharArray 64

def CopyJsonInfo.static : CopyJsonInfo := ⟨.zero 64, .zero 128, .zero 64⟩

def formatTable {size : Nat} (a : CharArray size) (nspname relname : CStr) : Option (CharArray size) :=
  a.write ((CStr.joinDot size nspname relname).bytes ++ [0])

def CopyJsonInfo.copyTable (info : CopyJsonInfo) (conninfo kafkaServer nspname relname : CStr) : Option CopyJsonInfo := do
  let dbname ← getDbnameFromConninfo conninfo info.dbname conninfo.bytes.length
  let kafkaServer ← info.kafkaServer.strncpy kafkaServer.bytes kafkaServer.bytes.length
  let tableName ← formatTable info.tableName nspname relname
  pure ⟨dbname, tableName, kafkaServer⟩

structure ApplyBuffers where
  applyDbname : CharArray 64
  tableName : CharArray 128

def ApplyBuffers.static : ApplyBuffers := ⟨.zero 64, .zero 128⟩

def ApplyBuffers.insertToJson (buffers : ApplyBuffers) (conninfo nspname relname : CStr) : Option ApplyBuffers := do
  let applyDbname ← getDbnameFromConninfo conninfo buffers.applyDbname conninfo.bytes.length
  let tableName ← formatTable buffers.tableName nspname relname
  pure ⟨applyDbname, tableName⟩

structure FirstPlace (s key earlier start : Bytes) : Prop where
  split : s = earlier ++ start
  begins : key <+: start
  first : ∀ before rest, s = before ++ key ++ rest → earlier.length ≤ before.length

theorem strstr_eq_some_iff {s key start : Bytes} :
    strstr s key = some start ↔ ∃ earlier, FirstPlace s key earlier start := by
  induction s with
  | nil =>
    rw [strstr]
    constructor
    · intro h
      split at h
      · next hkey =>
        obtain rfl := Option.some.inj h
        exact ⟨[], rfl, List.isPrefixOf_iff_prefix.mp hkey, fun _ _ _ => Nat.zero_le _⟩
      · cases h
    · rintro ⟨earlier, hsplit, hbegins, -⟩
      obtain ⟨-, rfl⟩ := List.append_eq_nil_iff.mp hsplit.symm
      exact if_pos (List.isPrefixOf_iff_prefix.mpr hbegins)
  | cons c s ih =>
    rw [strstr]
    by_cases hkey : key.isPrefixOf (c :: s) = true
    · rw [if_pos hkey]
      have hhere := List.isPrefixOf_iff_prefix.mp hkey
      constructor
      · intro h
        obtain rfl := Option.some.inj h
        exact ⟨[], rfl, hhere, fun _ _ _ => Nat.zero_le _⟩
      · rintro ⟨earlier, hsplit, -, hfirst⟩
        obtain ⟨rest, hrest⟩ := hhere
        have hempty := hfirst [] rest hrest.symm
        obtain rfl := List.eq_nil_of_length_eq_zero (Nat.le_zero.mp hempty)
        exact congrArg some hsplit
    · rw [if_neg hkey]
      refine ih.trans ⟨?_, ?_⟩
      · rintro ⟨earlier, rfl, hbegins, hfirst⟩
        refine ⟨c :: earlier, rfl, hbegins, ?_⟩
        intro before rest hsplit
        cases before with
        | nil => exact absurd (List.isPrefixOf_iff_prefix.mpr ⟨rest, hsplit.symm⟩) hkey
        | cons b before => exact Nat.succ_le_succ (hfirst before rest (List.cons.inj hsplit).2)
      · rintro ⟨earlier, hsplit, hbegins, hfirst⟩
        cases earlier with
        | nil =>
          obtain rfl : c :: s = start := hsplit
          exact absurd (List.isPrefixOf_iff_prefix.mpr hbegins) hkey
        | cons b earlier =>
          obtain ⟨rfl, rfl⟩ := List.cons.inj hsplit
          refine ⟨earlier, rfl, hbegins, ?_⟩
          intro before rest hsplit
          exact Nat.le_of_succ_le_succ (hfirst (c :: before) rest (congrArg (c :: ·) hsplit))

theorem length_dbnameText {conninfo : CStr} {text : Bytes} (h : dbnameText conninfo = some text) :
    text.length + dbnameKey.length ≤ conninfo.bytes.length := by
  rw [dbnameText, Option.map_eq_some_iff] at h
  obtain ⟨start, hstart, rfl⟩ := h
  obtain ⟨earlier, hsplit, hkey, -⟩ := strstr_eq_some_iff.mp hstart
  have hle : conninfo.bytes.length = earlier.length + start.length := by rw [hsplit, List.length_append]
  have hprefix := hkey.length_le
  have htake : ((start.drop dbnameKey.length).takeWhile fun c => !endsName c).length ≤
      (start.drop dbnameKey.length).length := (List.takeWhile_prefix _).length_le
  rw [List.length_drop] at htake
  omega

theorem getDbnameFromConninfo_length {size : Nat} (conninfo : CStr) (out : CharArray size) (hout : out.Terminated) :
    (∃ out', getDbnameFromConninfo conninfo out conninfo.bytes.length = some out' ∧ out'.Terminated) ↔
      conninfo.bytes.length ≤ size := by
  constructor
  · rintro ⟨out', hget, -⟩
    obtain ⟨out'', hset, -⟩ := Option.bind_eq_some_iff.mp hget
    exact (CharArray.memset_eq_some hset).1
  · intro hle
    obtain ⟨cleared, hset, hbytes⟩ := out.exists_memset hle
    rw [getDbnameFromConninfo, hset, Option.bind_eq_bind, Option.bind_some]
    cases htext : dbnameText conninfo with
    | none =>
      refine ⟨cleared, rfl, ?_⟩
      by_cases hempty : conninfo.bytes.length = 0
      · rw [CharArray.Terminated, hbytes, hempty]
        exact hout
      · rw [CharArray.Terminated, hbytes]
        exact List.mem_append_left _ (List.mem_replicate.mpr ⟨hempty, rfl⟩)
    | some text =>
      have hlength := length_dbnameText htext
      have hkey : dbnameKey.length = 7 := rfl
      obtain ⟨copied, hcopy, hcopied⟩ := cleared.exists_strncpy text (n := text.length) (by omega)
      dsimp only
      rw [if_neg (by omega), hcopy]
      refine ⟨copied, rfl, ?_⟩
      -- behind the name is what was cleared before
      rw [CharArray.Terminated, hcopied, hbytes, List.drop_append_of_le_length (by rw [List.length_replicate]; omega),
        List.drop_replicate]
      refine List.mem_append_right _ (List.mem_append_left _ ?_)
      exact List.mem_replicate.mpr ⟨by omega, rfl⟩

theorem formatTable_inside (a : CharArray 128) (nspname relname : CStr) :
    ∃ a', formatTable a nspname relname = some a' ∧ a'.Terminated := by
  have hlength : ((CStr.joinDot 128 nspname relname).bytes ++ [0]).length ≤ 128 := by
    rw [List.length_append, CStr.joinDot, List.length_take, List.length_singleton]
    omega
  obtain ⟨a', hwrite, hbytes⟩ := a.exists_write hlength
  refine ⟨a', hwrite, ?_⟩
  rw [CharArray.Terminated, hbytes]
  exact List.mem_append_left _ (List.mem_append_right _ (List.mem_singleton_self 0))

theorem zero_terminated {size : Nat} (h : 0 < size) : (CharArray.zero size).Terminated :=
  List.mem_replicate.mpr ⟨Nat.ne_of_gt h, rfl⟩

theorem kafkaServer_inside (kafkaServer : CStr) :
    (∃ a', (CharArray.zero 64).strncpy kafkaServer.bytes kafkaServer.bytes.length = some a' ∧ a'.Terminated) ↔
      kafkaServer.bytes.length ≤ 63 := by
  constructor
  · rintro ⟨a', hcopy, hterminated⟩
    obtain ⟨hle, hbytes⟩ := CharArray.strncpy_eq_some hcopy
    by_contra hlong
    have hfull : kafkaServer.bytes.length = 64 := by omega
    rw [List.take_of_length_le (Nat.le_refl _), Nat.sub_self, List.replicate_zero, List.append_nil,
      List.drop_of_length_le (by rw [(CharArray.zero 64).length_eq, hfull]), List.append_nil] at hbytes
    rw [CharArray.Terminated, hbytes] at hterminated
    exact kafkaServer.nonzero 0 hterminated rfl
  · intro hle
    obtain ⟨a', hcopy, hbytes⟩ :=
      (CharArray.zero 64).exists_strncpy kafkaServer.bytes (n := kafkaServer.bytes.length) (by omega)
    refine ⟨a', hcopy, ?_⟩
    rw [CharArray.Terminated, hbytes]
    apply List.mem_append_right
    rw [CharArray.zero, List.drop_replicate]
    exact List.mem_replicate.mpr ⟨by omega, rfl⟩

def Fits (conninfo kafkaServer nspname relname : CStr) : Prop :=
  (∃ info, CopyJsonInfo.static.copyTable conninfo kafkaServer nspname relname = some info ∧
      info.dbname.Terminated ∧ info.tableName.Terminated ∧ info.kafkaServer.Terminated) ∧
    ∃ buffers, ApplyBuffers.static.insertToJson conninfo nspname relname = some buffers ∧
      buffers.applyDbname.Terminated ∧ buffers.tableName.Terminated

theorem length_conninfo_of_copyTable {info info' : CopyJsonInfo} {conninfo kafkaServer nspname relname : CStr}
    (h : info.copyTable conninfo kafkaServer nspname relname = some info') : conninfo.bytes.length ≤ 64 := by
  obtain ⟨dbname, hget, -⟩ := Option.bind_eq_some_iff.mp h
  obtain ⟨cleared, hset, -⟩ := Option.bind_eq_some_iff.mp hget
  exact (CharArray.memset_eq_some hset).1

/-- The arrays are kept exactly with a conninfo of up to 64 bytes, whatever its dbname is, and a
`kafka_server` of up to 63. -/
theorem buffersFit_iff (conninfo kafkaServer nspname relname : CStr) : Fits conninfo kafkaServer nspname relname ↔
      conninfo.bytes.length ≤ 64 ∧ kafkaServer.bytes.length ≤ 63 := by
  have hdbname := getDbnameFromConninfo_length conninfo (.zero 64) (zero_terminated (by decide))
  have hserver := kafkaServer_inside kafkaServer
  constructor
  · rintro ⟨⟨info, hcopy, hterm, -, hserverTerm⟩, -⟩
    have hconninfo := length_conninfo_of_copyTable hcopy
    obtain ⟨dbname, -, hcopy⟩ := Option.bind_eq_some_iff.mp hcopy
    obtain ⟨server, hset, hcopy⟩ := Option.bind_eq_some_iff.mp hcopy
    obtain ⟨tableName, -, hcopy⟩ := Option.bind_eq_some_iff.mp hcopy
    obtain rfl := Option.some.inj hcopy
    exact ⟨hconninfo, hserver.mp ⟨server, hset, hserverTerm⟩⟩
  · rintro ⟨hconninfo, hoption⟩
    obtain ⟨dbname, hget, hterm⟩ := hdbname.mpr hconninfo
    obtain ⟨server, hset, hserverTerm⟩ := hserver.mpr hoption
    obtain ⟨tableName, htable, htableTerm⟩ := formatTable_inside (.zero 128) nspname relname
    refine ⟨⟨⟨dbname, tableName, server⟩, ?_, hterm, htableTerm, hserverTerm⟩, ⟨dbname, tableName⟩, ?_, hterm,
      htableTerm⟩
    · exact Option.bind_eq_some_iff.mpr ⟨dbname, hget, Option.bind_eq_some_iff.mpr
        ⟨server, hset, Option.bind_eq_some_iff.mpr ⟨tableName, htable, rfl⟩⟩⟩
    · exact Option.bind_eq_some_iff.mpr ⟨dbname, hget, Option.bind_eq_some_iff.mpr ⟨tableName, htable, rfl⟩⟩

def longConninfo : CStr where
  bytes := dbnameKey ++ List.replicate 58 0x61
  nonzero b hb := by
    rcases List.mem_append.mp hb with h | h
    · revert b
      decide +kernel
    · rw [List.eq_of_mem_replicate h]
      decide

theorem longConninfo_outside : ¬ ∀ conninfo kafkaServer nspname relname : CStr,
      nspname.bytes.length ≤ 63 → relname.bytes.length ≤ 63 → Fits conninfo kafkaServer nspname relname := by
  intro h
  obtain ⟨info, hcopy, -⟩ := (h longConninfo (.lit []) (.lit ['s']) (.lit ['t']) (by decide) (by decide)).1
  exact absurd (length_conninfo_of_copyTable hcopy) (by decide)

end CdcKafka.Kafka

/-! The name that the events are labelled with, and the database that libpq connects to with the same
connection string. -/

namespace CdcKafka.Kafka
open CdcKafka.Lib CdcKafka.Libpq

end CdcKafka.Kafka
