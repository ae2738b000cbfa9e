import CdcKafka.Lib.BackReference
import CdcKafka.Lib.CString

/-! `pglz_compress` and `pglz_decompress` of `pg_lzcompress.c`. -/

namespace CdcKafka.Xlog

open CdcKafka.Lib

structure PglzStrategy where
  minInputSize : Int
  maxInputSize : Int
  minCompRate : Int
  firstSuccessBy : Int
  matchSizeGood : Int
  matchSizeDrop : Int

def pglzStrategyDefault : PglzStrategy where
  minInputSize := 32
  maxInputSize := 0x7fffffff
  minCompRate := 25
  firstSuccessBy := 1024
  matchSizeGood := 128
  matchSizeDrop := 10

def pglzMaxMatch : Nat := 273

def pglzHistorySize : Nat := 4096

def charCode (b : UInt8) : Int32 := b.toInt8.toInt32

def pglzHistIdx (mask : Int32) : Bytes → Int32
  | a :: b :: c :: d :: _ =>
    ((charCode a <<< 6) ^^^ (charCode b <<< 4) ^^^ (charCode c <<< 2) ^^^ charCode d) &&& mask
  | a :: _ => charCode a &&& mask
  | [] => 0

abbrev PglzHistory := List (Int32 × Nat)

def pglzHistAdd (mask : Int32) (source : Bytes) (hist : PglzHistory) (dp : Nat) : PglzHistory :=
  ((pglzHistIdx mask (source.drop dp), dp) :: hist).take pglzHistorySize

def pglzHistAddMany (mask : Int32) (source : Bytes) : PglzHistory → Nat → Nat → PglzHistory
  | hist, _, 0 => hist
  | hist, dp, n + 1 => pglzHistAddMany mask source (pglzHistAdd mask source hist dp) (dp + 1) n

def matchLength : Nat → Bytes → Bytes → Nat
  | n + 1, a :: as, b :: bs => if a = b then matchLength n as bs + 1 else 0
  | _, _, _ => 0

def thisLength (len : Nat) (ip hp : Bytes) : Nat :=
  if 16 ≤ len then
    if ip.take len = hp.take len then len + matchLength (pglzMaxMatch - len) (ip.drop len) (hp.drop len) else 0
  else matchLength pglzMaxMatch ip hp

def traverse (source : Bytes) (dp goodDrop : Nat) : List Nat → Nat → Nat → Nat → Nat × Nat
  | [], _, len, off => (len, off)
  | hpos :: rest, goodMatch, len, off =>
    if 0x0fff ≤ dp - hpos then (len, off)
    else
      let thislen := thisLength len (source.drop dp) (source.drop hpos)
      let best := if len < thislen then (thislen, dp - hpos) else (len, off)
      if rest ≠ [] ∧ goodMatch ≤ best.1 then best
      else traverse source dp goodDrop rest (goodMatch - goodMatch * goodDrop / 100) best.1 best.2

def pglzFindMatch (source : Bytes) (hist : PglzHistory) (dp goodMatch goodDrop : Nat) (mask : Int32) :
    Option (Nat × Nat) :=
  let key := pglzHistIdx mask (source.drop dp)
  let found := traverse source dp goodDrop ((hist.filter fun e => e.1 = key).map (·.2)) goodMatch 0 0
  if 2 < found.1 then some found else none

/-- The output: what is before the control byte in work, this byte, the items behind it and the
bit of the next one. Before the first item `ctrlp` points to a dummy. -/
structure PglzOut where
  written : Bytes
  dummy : Bool
  ctrlb : UInt8
  items : Bytes
  ctrl : UInt8

namespace PglzOut

def empty : PglzOut := ⟨[], true, 0, [], 0⟩

def flush (o : PglzOut) : Bytes := if o.dummy then o.written else o.written ++ o.ctrlb :: o.items

def size (o : PglzOut) : Nat := o.flush.length

def outCtrl (o : PglzOut) : PglzOut := if o.ctrl = 0 then ⟨o.flush, false, 0, [], 1⟩ else o

def outLiteral (o : PglzOut) (byte : UInt8) : PglzOut :=
  let o := o.outCtrl
  { o with items := o.items ++ [byte], ctrl := o.ctrl <<< 1 }

def tagBytes (len off : Nat) : Bytes :=
  if 17 < len then
    [UInt8.ofNat (((off &&& 0xf00) >>> 4) ||| 0x0f), UInt8.ofNat (off &&& 0xff), UInt8.ofNat (len - 18)]
  else [UInt8.ofNat (((off &&& 0xf00) >>> 4) ||| (len - 3)), UInt8.ofNat (off &&& 0xff)]

def outTag (o : PglzOut) (len off : Nat) : PglzOut :=
  let o := o.outCtrl
  { o with ctrlb := o.ctrlb ||| o.ctrl, ctrl := o.ctrl <<< 1, items := o.items ++ tagBytes len off }

end PglzOut

theorem pglzFindMatch_pos {source : Bytes} {hist : PglzHistory} {dp goodMatch goodDrop len off : Nat} {mask : Int32}
    (h : pglzFindMatch source hist dp goodMatch goodDrop mask = some (len, off)) : 2 < len := by
  rw [pglzFindMatch] at h
  split at h
  · next hlong =>
    rw [Option.some.inj h] at hlong
    exact hlong
  · cases h

/-- What the strategy makes of the length of the source. -/
structure PglzLimits where
  goodMatch : Nat
  goodDrop : Nat
  resultMax : Nat
  firstSuccessBy : Int
  mask : Int32

def clamp (low high x : Int) : Nat := (if high < x then high else if x < low then low else x).toNat

def PglzStrategy.limits (strategy : PglzStrategy) (slen : Nat) : PglzLimits where
  goodMatch := clamp 17 pglzMaxMatch strategy.matchSizeGood
  goodDrop := clamp 0 100 strategy.matchSizeDrop
  resultMax :=
    let rate := 100 - clamp 0 99 strategy.minCompRate
    if 0x7fffffff / 100 < slen then slen / 100 * rate else slen * rate / 100
  firstSuccessBy := strategy.firstSuccessBy
  mask :=
    if slen < 128 then 511 else if slen < 256 then 1023 else if slen < 512 then 2047
    else if slen < 1024 then 4095 else 8191

def compressLoop (l : PglzLimits) (source : Bytes) (dp : Nat) (hist : PglzHistory) (o : PglzOut) (foundMatch : Bool) :
    Option PglzOut :=
  if hdp : dp < source.length then
    if l.resultMax ≤ o.size then none
    else if !foundMatch ∧ l.firstSuccessBy ≤ o.size then none
    else
      match h : pglzFindMatch source hist dp l.goodMatch l.goodDrop l.mask with
      | some (len, off) =>
        compressLoop l source (dp + len) (pglzHistAddMany l.mask source hist dp len) (o.outTag len off) true
      | none =>
        compressLoop l source (dp + 1) (pglzHistAdd l.mask source hist dp) (o.outLiteral source[dp]) foundMatch
  else some o
termination_by source.length - dp
decreasing_by
  · have hlen := pglzFindMatch_pos h
    omega
  · omega

def pglzCompress (source : Bytes) (strategy : PglzStrategy) : Option Bytes :=
  if strategy.matchSizeGood ≤ 0 ∨ source.length < strategy.minInputSize ∨ strategy.maxInputSize < source.length then none
  else
    let l := strategy.limits source.length
    match compressLoop l source 0 [] .empty false with
    | none => none
    | some o => if l.resultMax ≤ o.size then none else some o.flush

/-- The items behind a control byte, of which `bits` are left, and then the next control bytes;
the destination and what is left of the source, `none` where the data is corrupt. -/
def decompressItems (rawsize : Nat) : Bytes → Nat → UInt8 → Bytes → Option (Bytes × Bytes)
  | [], _, _, dest => some (dest, [])
  | b :: sp, bits, ctrl, dest =>
    if rawsize ≤ dest.length then some (dest, b :: sp)
    else
      match bits with
      | 0 => decompressItems rawsize sp 8 b dest
      | bits + 1 =>
        if ctrl &&& 1 = 0 then decompressItems rawsize sp bits (ctrl >>> 1) (dest ++ [b])
        else
          let len := (b &&& 0x0f).toNat + 3
          match sp with
          | [] => none
          | b' :: sp =>
            let off := ((b &&& 0xf0).toNat <<< 4) ||| b'.toNat
            if len = 18 then
              match sp with
              | [] => none
              | ext :: sp =>
                if off = 0 ∨ dest.length < off then none
                else
                  decompressItems rawsize sp bits (ctrl >>> 1)
                    (copyBack off (min (len + ext.toNat) (rawsize - dest.length)) dest)
            else if off = 0 ∨ dest.length < off then none
            else decompressItems rawsize sp bits (ctrl >>> 1) (copyBack off (min len (rawsize - dest.length)) dest)

def pglzDecompress (source : Bytes) (rawsize : Nat) (checkComplete : Bool) : Option Bytes :=
  match decompressItems rawsize source 0 0 [] with
  | none => none
  | some (dest, rest) => if checkComplete ∧ (dest.length ≠ rawsize ∨ rest ≠ []) then none else some dest

end CdcKafka.Xlog
