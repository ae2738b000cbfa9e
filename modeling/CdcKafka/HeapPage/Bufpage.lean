import CdcKafka.Lib.Blit

/-! Heap pages of `bufpage.c`: a header, an array of line pointers that ends at `pd_lower`, and the data that they point to. -/

namespace CdcKafka.HeapPage

open Lib

def BLCKSZ : ℕ := 8192

def SizeOfPageHeaderData : ℕ := 24

def sizeofItemIdData : ℕ := 4

def MaxHeapTuplesPerPage : ℕ := 291

def MaxOffsetNumber : ℕ := 2048

def InvalidOffsetNumber : ℕ := 0

def MAXALIGN (len : ℕ) : ℕ := (len + 7) / 8 * 8

inductive LpFlags where
  | unused
  | normal
  | redirect
  | dead
deriving DecidableEq

structure ItemIdData where
  lp_off : ℕ
  lp_flags : LpFlags
  lp_len : ℕ
deriving DecidableEq

namespace ItemIdData

def isUsed (lp : ItemIdData) : Bool := lp.lp_flags ≠ .unused

def hasStorage (lp : ItemIdData) : Bool := lp.lp_len ≠ 0

def setUnused : ItemIdData := ⟨0, .unused, 0⟩

def stored (lp : ItemIdData) : Bool := lp.isUsed && lp.hasStorage

end ItemIdData

abbrev Bytes := ℤ → UInt8

structure Page where
  pd_lower : ℕ
  pd_upper : ℕ
  pd_special : ℕ
  /-- the hint bit `PD_HAS_FREE_LINES` -/
  hasFreeLines : Bool
  /-- `pd_linp`, whose index is the offset number less one -/
  linp : ℕ → ItemIdData
  data : Bytes

def Page.maxOffsetNumber (page : Page) : ℕ :=
  if page.pd_lower ≤ SizeOfPageHeaderData then 0 else (page.pd_lower - SizeOfPageHeaderData) / sizeofItemIdData

structure Item where
  bytes : List UInt8
  alloc : bytes.length ≤ 1073741823

structure PaiFlags where
  overwrite : Bool
  isHeap : Bool

def offsetNumberIsValid (offsetNumber : ℕ) : Bool := offsetNumber ≠ InvalidOffsetNumber ∧ offsetNumber ≤ MaxOffsetNumber

def findFree (linp : ℕ → ItemIdData) (limit : ℕ) : ℕ :=
  (((List.range (limit - 1)).find? fun i => !(linp i).isUsed && !(linp i).hasStorage).map (· + 1)).getD limit

/-- Where an item is to be placed, and whether line pointers have to move; no result where it will not be placed. The hint
bit is cleared where it was wrong. -/
def selectOffset (page : Page) (offsetNumber : ℕ) (flags : PaiFlags) : Bool × Option (ℕ × Bool) :=
  let limit := page.maxOffsetNumber + 1
  if offsetNumberIsValid offsetNumber then
    if flags.overwrite then
      if offsetNumber < limit ∧ ((page.linp (offsetNumber - 1)).isUsed ∨ (page.linp (offsetNumber - 1)).hasStorage) then
        (page.hasFreeLines, none)
      else (page.hasFreeLines, some (offsetNumber, false))
    else (page.hasFreeLines, some (offsetNumber, decide (offsetNumber < limit)))
  else if page.hasFreeLines then
    let found := findFree page.linp limit
    (decide (found < limit), some (found, false))
  else (false, some (limit, false))

def setLinp (linp : ℕ → ItemIdData) (offsetNumber limit : ℕ) (needshuffle : Bool) (lp : ItemIdData) : ℕ → ItemIdData :=
  fun i =>
    if i = offsetNumber - 1 then lp
    else if needshuffle ∧ offsetNumber ≤ i ∧ i < limit then linp (i - 1)
    else linp i

def storeBytes (data : Bytes) (upper : ℤ) (bytes : List UInt8) : Bytes :=
  blit data upper (fun k => bytes.getD k.toNat 0) 0 bytes.length

/-- `PageAddItemExtended`: the page and the offset number that was used; no result where it ends with a `PANIC`. -/
def pageAddItemExtended (page : Page) (item : Item) (offsetNumber : ℕ) (flags : PaiFlags) : Option (Page × ℕ) :=
  if page.pd_lower < SizeOfPageHeaderData ∨ page.pd_upper < page.pd_lower ∨ page.pd_special < page.pd_upper ∨
      BLCKSZ < page.pd_special then none
  else
    let limit := page.maxOffsetNumber + 1
    let selected := selectOffset page offsetNumber flags
    let page := { page with hasFreeLines := selected.1 }
    match selected.2 with
    | none => some (page, InvalidOffsetNumber)
    | some (offsetNumber, needshuffle) =>
      if limit < offsetNumber then some (page, InvalidOffsetNumber)
      else if flags.isHeap ∧ MaxHeapTuplesPerPage < offsetNumber then some (page, InvalidOffsetNumber)
      else
        let lower := if offsetNumber = limit ∨ needshuffle then page.pd_lower + sizeofItemIdData else page.pd_lower
        let upper : ℤ := page.pd_upper - MAXALIGN item.bytes.length
        if upper < lower then some (page, InvalidOffsetNumber)
        else some ({ page with
          linp := setLinp page.linp offsetNumber limit needshuffle ⟨upper.toNat, .normal, item.bytes.length⟩
          data := storeBytes page.data upper item.bytes
          pd_lower := lower
          pd_upper := upper.toNat }, offsetNumber)

def markUnused (page : Page) (offsetNumber : ℕ) : Page :=
  if 1 ≤ offsetNumber ∧ offsetNumber ≤ page.maxOffsetNumber then
    { page with linp := Function.update page.linp (offsetNumber - 1) .setUnused }
  else page

structure ItemIdCompact where
  offsetindex : ℕ
  itemoff : ℕ
  alignedlen : ℕ
deriving DecidableEq

def ItemIdCompact.stop (it : ItemIdCompact) : ℤ := it.itemoff + it.alignedlen

/-- `memmove` and `memcpy` between buffers of `BLCKSZ` bytes; no result where a byte outside of them would be read or
written. -/
def moveBytes (dst : Bytes) (dstOff : ℤ) (src : Bytes) (srcOff n : ℤ) : Option Bytes :=
  if n = 0 ∨ 0 < n ∧ 0 ≤ dstOff ∧ dstOff + n ≤ BLCKSZ ∧ 0 ≤ srcOff ∧ srcOff + n ≤ BLCKSZ then
    some (blit dst dstOff src srcOff n)
  else none

structure Moves where
  data : Bytes
  linp : ℕ → ItemIdData
  upper : ℤ
  copyHead : ℤ
  copyTail : ℤ

def movePending (src : Bytes → Bytes) (s : Moves) : Option Bytes :=
  moveBytes s.data s.upper (src s.data) s.copyHead (s.copyTail - s.copyHead)

def setOff (linp : ℕ → ItemIdData) (offsetindex : ℕ) (upper : ℤ) : ℕ → ItemIdData :=
  Function.update linp offsetindex { linp offsetindex with lp_off := upper.toNat }

def takeItem (s : Moves) (it : ItemIdCompact) : Moves :=
  { s with
    upper := s.upper - it.alignedlen
    copyHead := it.itemoff
    linp := setOff s.linp it.offsetindex (s.upper - it.alignedlen) }

def compactLoop (src : Bytes → Bytes) : List ItemIdCompact → Moves → Option Moves
  | [], s => (movePending src s).map fun data => { s with data := data }
  | it :: its, s =>
    if s.copyHead ≠ it.stop then
      (movePending src s).bind fun data => compactLoop src its (takeItem { s with data := data, copyTail := it.stop } it)
    else compactLoop src its (takeItem s it)

def skipInPlace : List ItemIdCompact → ℤ → List ItemIdCompact × ℤ
  | [], upper => ([], upper)
  | it :: its, upper => if upper ≠ it.stop then (it :: its, upper) else skipInPlace its (upper - it.alignedlen)

/-- The end of the item at which `itemidptr` stands when the loop starts. -/
def firstStop (items moved : List ItemIdCompact) : ℤ :=
  match moved.head?.or items.getLast? with
  | some it => it.stop
  | none => 0

def copyToScratch (scratch data : Bytes) : List ItemIdCompact → Option Bytes
  | [] => some scratch
  | it :: its => (moveBytes scratch it.itemoff data it.itemoff it.alignedlen).bind fun scratch => copyToScratch scratch data its

def compactSkipped (items : List ItemIdCompact) (page : Page) (src : Bytes → Bytes) : Option Moves :=
  let skipped := skipInPlace items page.pd_special
  compactLoop src skipped.1 ⟨page.data, page.linp, skipped.2, firstStop items skipped.1, firstStop items skipped.1⟩

/-- The branches of `compactify_tuples`; `scratch` is the buffer of the second one as it was on the stack. -/
def compactMoves (items : List ItemIdCompact) (page : Page) (presorted : Bool) (scratch : Bytes) : Option Moves :=
  if presorted then compactSkipped items page id
  else if items.length < page.maxOffsetNumber / 4 then
    (copyToScratch scratch page.data items).bind fun copied =>
      compactLoop (fun _ => copied) items
        ⟨page.data, page.linp, page.pd_special, firstStop items items, firstStop items items⟩
  else
    (moveBytes scratch page.pd_upper page.data page.pd_upper ((skipInPlace items page.pd_special).2 - page.pd_upper)).bind
      fun copied => compactSkipped items page fun _ => copied

def compactifyTuples (items : List ItemIdCompact) (page : Page) (presorted : Bool) (scratch : Bytes) : Option Page :=
  (compactMoves items page presorted scratch).map fun s =>
    { page with data := s.data, linp := s.linp, pd_upper := s.upper.toNat }

structure Scan where
  linp : ℕ → ItemIdData
  items : List ItemIdCompact
  lastOffset : ℕ
  presorted : Bool
  totallen : ℕ
  nunused : ℕ
  finalusedlp : ℕ

inductive RepairError where
  | pagePointers (lower upper special : ℕ)
  | linePointer (offset : ℕ)
  | itemLengths (total available : ℕ)

def RepairError.text : RepairError → String
  | .pagePointers lower upper special =>
    "corrupted page pointers: lower = " ++ toString lower ++ ", upper = " ++ toString upper ++ ", special = " ++
      toString special
  | .linePointer offset => "corrupted line pointer: " ++ toString offset
  | .itemLengths total available =>
    "corrupted item lengths: total " ++ toString total ++ ", available space " ++ toString available

/-- The ways out of `PageRepairFragmentation`: the last one reads or writes outside of the page and the buffers. -/
inductive Repaired where
  | done (page : Page)
  | error (page : Page) (e : RepairError)
  | outside

inductive Scanned where
  | ok (s : Scan)
  | error (s : Scan) (offset : ℕ)
  | outside

/-- One line pointer. The item goes into `itemidbase`, which has `MaxHeapTuplesPerPage` entries, before it is checked. -/
def scanItem (page : Page) (s : Scan) (i : ℕ) : Scanned :=
  let lp := s.linp i
  if lp.isUsed then
    if lp.hasStorage then
      if MaxHeapTuplesPerPage ≤ s.items.length then .outside
      else
        let s' := { s with
          lastOffset := if lp.lp_off < s.lastOffset then lp.lp_off else s.lastOffset
          presorted := s.presorted && decide (lp.lp_off < s.lastOffset) }
        if lp.lp_off < page.pd_upper ∨ page.pd_special ≤ lp.lp_off then .error s' lp.lp_off
        else .ok { s' with
          items := s.items ++ [⟨i, lp.lp_off, MAXALIGN lp.lp_len⟩]
          totallen := s.totallen + MAXALIGN lp.lp_len
          finalusedlp := i + 1 }
    else .ok { s with finalusedlp := i + 1 }
  else .ok { s with linp := Function.update s.linp i .setUnused, nunused := s.nunused + 1 }

def scanItems (page : Page) : List ℕ → Scan → Scanned
  | [], s => .ok s
  | i :: is, s =>
    match scanItem page s i with
    | .ok s' => scanItems page is s'
    | .error s' off => .error s' off
    | .outside => .outside

def scanPage (page : Page) : Scanned :=
  scanItems page (List.range page.maxOffsetNumber) ⟨page.linp, [], page.pd_special, true, 0, 0, InvalidOffsetNumber⟩

def truncateLinp (page : Page) (nline : ℕ) (s : Scan) : Page :=
  if s.finalusedlp ≠ nline then
    { page with
      pd_lower := page.pd_lower - sizeofItemIdData * (nline - s.finalusedlp)
      hasFreeLines := decide (0 < s.nunused - (nline - s.finalusedlp)) }
  else { page with hasFreeLines := decide (0 < s.nunused) }

def headerSane (page : Page) : Prop :=
  SizeOfPageHeaderData ≤ page.pd_lower ∧ page.pd_lower ≤ page.pd_upper ∧ page.pd_upper ≤ page.pd_special ∧
    page.pd_special ≤ BLCKSZ ∧ page.pd_special = MAXALIGN page.pd_special

instance (page : Page) : Decidable (headerSane page) := inferInstanceAs (Decidable (_ ∧ _))

/-- `PageRepairFragmentation`; `scratch` is what stands on the stack. -/
def pageRepairFragmentation (page : Page) (scratch : Bytes) : Repaired :=
  if headerSane page then
    match scanPage page with
    | .outside => .outside
    | .error s off => .error { page with linp := s.linp } (.linePointer off)
    | .ok s =>
      if s.items = [] then
        .done (truncateLinp { page with linp := s.linp, pd_upper := page.pd_special } page.maxOffsetNumber s)
      else if page.pd_special - page.pd_lower < s.totallen then
        .error { page with linp := s.linp } (.itemLengths s.totallen (page.pd_special - page.pd_lower))
      else
        match compactifyTuples s.items { page with linp := s.linp } s.presorted scratch with
        | none => .outside
        | some compacted => .done (truncateLinp compacted page.maxOffsetNumber s)
  else .error page (.pagePointers page.pd_lower page.pd_upper page.pd_special)

end CdcKafka.HeapPage
