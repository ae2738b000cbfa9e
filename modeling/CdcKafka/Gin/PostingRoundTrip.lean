import CdcKafka.Lib.CLayout
import CdcKafka.Lib.Varbyte

/-! The compressed posting lists of `ginpostinglist.c`. -/

namespace CdcKafka.Gin

open CdcKafka.Lib

structure ItemPointerData where
  blkid : UInt32
  posid : UInt16
deriving DecidableEq

def maxHeapTuplesPerPageBits : Nat := 11

def maxBytesPerInteger : Nat := 7

theorem join_halves (n : UInt32) : (n >>> 16).toUInt16.toUInt32 <<< 16 ||| n.toUInt16.toUInt32 = n := by
  have hlt := n.toNat_lt
  have hhigh : ((n >>> 16).toUInt16.toUInt32 <<< 16).toNat = n.toNat / 2 ^ 16 * 2 ^ 16 := by
    rw [UInt32.toNat_shiftLeft, UInt16.toNat_toUInt32, UInt32.toNat_toUInt16, UInt32.toNat_shiftRight,
      Nat.shiftRight_eq_div_pow, Nat.shiftLeft_eq]
    change n.toNat / 2 ^ 16 % 2 ^ 16 * 2 ^ 16 % 2 ^ 32 = _
    omega
  have hlow : n.toUInt16.toUInt32.toNat = n.toNat % 2 ^ 16 := by
    rw [UInt16.toNat_toUInt32, UInt32.toNat_toUInt16]
  have hor := Nat.two_pow_add_eq_or_of_lt (Nat.mod_lt n.toNat (by decide : 0 < 2 ^ 16)) (n.toNat / 2 ^ 16)
  rw [← UInt32.toNat_inj, UInt32.toNat_or, hhigh, hlow, Nat.mul_comm, ← hor]
  omega

def ItemPointerData.layout : CLayout ItemPointerData :=
  (CLayout.u16.pair (CLayout.u16.pair CLayout.u16)).map (fun p => ⟨p.1.toUInt32 <<< 16 ||| p.2.1.toUInt32, p.2.2⟩)
    (fun ip => ((ip.blkid >>> 16).toUInt16, ip.blkid.toUInt16, ip.posid)) fun ip => by rw [join_halves]

def itemptrToUint64 (ip : ItemPointerData) : Nat := ip.blkid.toNat <<< maxHeapTuplesPerPageBits ||| ip.posid.toNat

def uint64ToItemptr (val : Nat) : ItemPointerData where
  posid := UInt16.ofNat (val &&& (1 <<< maxHeapTuplesPerPageBits - 1))
  blkid := UInt32.ofNat (val >>> maxHeapTuplesPerPageBits)

def shortalign (n : Nat) : Nat := (n + 1) / 2 * 2

def shortalignDown (n : Nat) : Nat := n / 2 * 2

structure GinPostingList where
  first : ItemPointerData
  nbytes : UInt16
  bytes : Bytes

def sizeOfHeader : Nat := 8

namespace GinPostingList

def header : CLayout (ItemPointerData × UInt16) := ItemPointerData.layout.pair CLayout.u16

def size (plist : GinPostingList) : Nat := sizeOfHeader + shortalign plist.nbytes.toNat

def image (plist : GinPostingList) : Bytes :=
  header.bytes (plist.first, plist.nbytes) ++ plist.bytes.take (shortalign plist.nbytes.toNat)

end GinPostingList

/-- The items behind the first, with `endptr - ptr` from what was written. Nothing is returned where a
write would be outside of the allocated struct or of `buf`. -/
def packItems (maxbytes : Nat) : List ItemPointerData → Nat → Bytes → Nat → Option (Bytes × Nat)
  | [], _, out, totalpacked => some (out, totalpacked)
  | ip :: ipd, prev, out, totalpacked =>
    let val := itemptrToUint64 ip
    let delta := encodeVarbyte ((val + 2 ^ 64 - prev) % 2 ^ 64)
    if maxBytesPerInteger ≤ maxbytes - out.length then
      if maxbytes < out.length + delta.length then none
      else packItems maxbytes ipd val (out ++ delta) (totalpacked + 1)
    else if maxBytesPerInteger < delta.length then none
    else if maxbytes - out.length < delta.length then some (out, totalpacked)
    else packItems maxbytes ipd val (out ++ delta) (totalpacked + 1)

def padBytes (nbytes : UInt16) (out : Bytes) : Bytes :=
  if nbytes.toNat ≠ shortalign nbytes.toNat then out.take nbytes.toNat ++ 0 :: out.drop (nbytes.toNat + 1) else out

def ginCompressPostingList (ipd : List ItemPointerData) (maxsize : Nat) : Option (GinPostingList × Nat) :=
  match ipd with
  | [] => none
  | first :: ipd =>
    if shortalignDown maxsize < sizeOfHeader then none
    else
      match packItems (shortalignDown maxsize - sizeOfHeader) ipd (itemptrToUint64 first) [] 1 with
      | none => none
      | some (out, totalpacked) =>
        let nbytes := UInt16.ofNat out.length
        some (⟨first, nbytes, padBytes nbytes out⟩, totalpacked)

structure ItemArray where
  items : List ItemPointerData
  nallocated : Nat

def ItemArray.push (a : ItemArray) (ip : ItemPointerData) : Option ItemArray :=
  let nallocated := if a.nallocated ≤ a.items.length then a.nallocated * 2 else a.nallocated
  if a.items.length < nallocated then some ⟨a.items ++ [ip], nallocated⟩ else none

def decodeVarbyte (ptr : Bytes) : Option (Nat × Bytes) := decodeVarbyteFrom (maxBytesPerInteger - 1) 0 0 ptr

def decodeItems (ptr : Bytes) (left val : Nat) (result : ItemArray) : Option ItemArray :=
  if left = 0 then some result
  else
    match _h : decodeVarbyte ptr with
    | none => none
    | some (delta, rest) =>
      let val := (val + delta) % 2 ^ 64
      result.push (uint64ToItemptr val) >>= fun result =>
        decodeItems rest (left - (ptr.length - rest.length)) val result
termination_by ptr.length
decreasing_by exact length_of_decodeVarbyteFrom _h

def decodeSegments (mem : Bytes) (len : Nat) (result : ItemArray) : Option ItemArray :=
  if len = 0 then some result
  else if _h : mem.length < sizeOfHeader then none
  else
    let segment := GinPostingList.header.ofBytes (mem.take sizeOfHeader)
    let size := sizeOfHeader + shortalign segment.2.toNat
    result.push segment.1 >>= fun result =>
      decodeItems (mem.drop sizeOfHeader) segment.2.toNat (itemptrToUint64 segment.1) result >>= fun result =>
        decodeSegments (mem.drop size) (len - size) result
termination_by mem.length
decreasing_by
  rw [List.length_drop]
  have hsize : sizeOfHeader = 8 := rfl
  omega

def ginPostingListDecodeAllSegments (mem : Bytes) (len : Nat) : Option (List ItemPointerData) :=
  if mem.length < sizeOfHeader then none
  else
    let nbytes := (GinPostingList.header.ofBytes (mem.take sizeOfHeader)).2
    (decodeSegments mem len ⟨[], nbytes.toNat * 2 + 1⟩).map (·.items)

def ginPostingListDecode (plist : GinPostingList) : Option (List ItemPointerData) :=
  ginPostingListDecodeAllSegments plist.image plist.size

end CdcKafka.Gin

/-! What a compressed posting list holds, and that it is decoded to the items that were written. -/

namespace CdcKafka.Gin

open CdcKafka.Lib

variable {ip first : ItemPointerData} {ipd : List ItemPointerData} {prev maxbytes maxsize : Nat} {a : ItemArray}

def ItemPointerData.Lt (ip ip' : ItemPointerData) : Prop :=
  ip.blkid < ip'.blkid ∨ ip.blkid = ip'.blkid ∧ ip.posid < ip'.posid

instance (ip ip' : ItemPointerData) : Decidable (ip.Lt ip') := inferInstanceAs (Decidable (_ ∨ _))

structure Increasing (ipd : List ItemPointerData) : Prop where
  sorted : ipd.Pairwise ItemPointerData.Lt
  offsets : ∀ ip ∈ ipd, ip.posid.toNat < 2 ^ maxHeapTuplesPerPageBits

theorem itemptrToUint64_eq (h : ip.posid.toNat < 2 ^ maxHeapTuplesPerPageBits) :
    itemptrToUint64 ip = ip.blkid.toNat * 2048 + ip.posid.toNat := by
  have hor := Nat.two_pow_add_eq_or_of_lt h ip.blkid.toNat
  rw [itemptrToUint64, Nat.shiftLeft_eq, Nat.mul_comm, ← hor, Nat.mul_comm]
  rfl

theorem itemptrToUint64_lt (h : ip.posid.toNat < 2 ^ maxHeapTuplesPerPageBits) : itemptrToUint64 ip < 2 ^ 43 := by
  have hblk := ip.blkid.toNat_lt
  have hpos : ip.posid.toNat < 2048 := h
  rw [itemptrToUint64_eq h]
  omega

theorem uint64ToItemptr_itemptr (h : ip.posid.toNat < 2 ^ maxHeapTuplesPerPageBits) :
    uint64ToItemptr (itemptrToUint64 ip) = ip := by
  have hpos : ip.posid.toNat < 2048 := h
  have hlow : (itemptrToUint64 ip) &&& (1 <<< maxHeapTuplesPerPageBits - 1) = ip.posid.toNat := by
    change itemptrToUint64 ip &&& (2 ^ 11 - 1) = _
    rw [Nat.and_two_pow_sub_one_eq_mod, itemptrToUint64_eq h]
    omega
  have hhigh : itemptrToUint64 ip >>> maxHeapTuplesPerPageBits = ip.blkid.toNat := by
    rw [Nat.shiftRight_eq_div_pow, itemptrToUint64_eq h]
    change (ip.blkid.toNat * 2048 + ip.posid.toNat) / 2048 = _
    omega
  rw [uint64ToItemptr, hlow, hhigh, UInt16.ofNat_toNat, UInt32.ofNat_toNat]

theorem lt_of_items {ip' : ItemPointerData} (h : ip.posid.toNat < 2 ^ maxHeapTuplesPerPageBits)
    (h' : ip'.posid.toNat < 2 ^ maxHeapTuplesPerPageBits) (hlt : ip.Lt ip') :
    itemptrToUint64 ip < itemptrToUint64 ip' := by
  have hpos : ip.posid.toNat < 2048 := h
  rw [itemptrToUint64_eq h, itemptrToUint64_eq h']
  rcases hlt with hblk | ⟨hblk, hpos'⟩
  · have hlt := UInt32.lt_iff_toNat_lt.mp hblk
    omega
  · have hlt := UInt16.lt_iff_toNat_lt.mp hpos'
    rw [hblk]
    omega

def Above : Nat → List ItemPointerData → Prop
  | _, [] => True
  | prev, ip :: ipd =>
    ip.posid.toNat < 2 ^ maxHeapTuplesPerPageBits ∧ prev < itemptrToUint64 ip ∧ Above (itemptrToUint64 ip) ipd

theorem Increasing.above (h : Increasing (first :: ipd)) : Above (itemptrToUint64 first) ipd := by
  induction ipd generalizing first with
  | nil => trivial
  | cons ip ipd ih =>
    obtain ⟨hfirst, hrest⟩ := List.pairwise_cons.mp h.sorted
    have hoffset := h.offsets ip (List.mem_cons_of_mem first List.mem_cons_self)
    refine ⟨hoffset, ?_, ih ⟨hrest, fun x hx => h.offsets x (List.mem_cons_of_mem first hx)⟩⟩
    exact lt_of_items (h.offsets first List.mem_cons_self) hoffset (hfirst ip List.mem_cons_self)

theorem Above.take {k : Nat} (h : Above prev ipd) : Above prev (ipd.take k) := by
  induction ipd generalizing prev k with
  | nil =>
    rw [List.take_nil]
    trivial
  | cons ip ipd ih =>
    cases k with
    | zero => trivial
    | succ k => exact ⟨h.1, h.2.1, ih h.2.2⟩

def packedFrom : Nat → List ItemPointerData → Bytes
  | _, [] => []
  | prev, ip :: ipd => encodeVarbyte (itemptrToUint64 ip - prev) ++ packedFrom (itemptrToUint64 ip) ipd

def packed : List ItemPointerData → Bytes
  | [] => []
  | first :: ipd => packedFrom (itemptrToUint64 first) ipd

def segmentSize (ipd : List ItemPointerData) : Nat := sizeOfHeader + shortalign (packed ipd).length

theorem delta_eq (h : Above prev (ip :: ipd)) :
    (itemptrToUint64 ip + 2 ^ 64 - prev) % 2 ^ 64 = itemptrToUint64 ip - prev := by
  have hlt := itemptrToUint64_lt h.1
  have hprev := h.2.1
  omega

theorem length_delta (h : Above prev (ip :: ipd)) :
    (encodeVarbyte (itemptrToUint64 ip - prev)).length ≤ maxBytesPerInteger := by
  have hlt := itemptrToUint64_lt h.1
  apply length_encodeVarbyte_le.mpr
  omega

theorem packItems_eq (h : Above prev ipd) (out : Bytes) (hout : out.length ≤ maxbytes) (total : Nat) :
    ∃ k ≤ ipd.length, packItems maxbytes ipd prev out total = some (out ++ packedFrom prev (ipd.take k), total + k) ∧
      out.length + (packedFrom prev (ipd.take k)).length ≤ maxbytes ∧
      (k < ipd.length → maxbytes < out.length + (packedFrom prev (ipd.take (k + 1))).length) := by
  induction ipd generalizing prev out total with
  | nil =>
    refine ⟨0, Nat.le_refl 0, ?_, hout, fun hlt => absurd hlt (Nat.lt_irrefl 0)⟩
    rw [packItems, List.take_nil, packedFrom, List.append_nil]
    rfl
  | cons ip ipd ih =>
    have hshort := length_delta h
    have hstep : packItems maxbytes (ip :: ipd) prev out total =
        if out.length + (encodeVarbyte (itemptrToUint64 ip - prev)).length ≤ maxbytes then
          packItems maxbytes ipd (itemptrToUint64 ip) (out ++ encodeVarbyte (itemptrToUint64 ip - prev)) (total + 1)
        else some (out, total) := by
      rw [packItems, delta_eq h]
      by_cases hroom : maxBytesPerInteger ≤ maxbytes - out.length
      · rw [if_pos hroom, if_neg (by omega), if_pos (by omega)]
      · rw [if_neg hroom, if_neg (Nat.not_lt.mpr hshort)]
        by_cases hfits : out.length + (encodeVarbyte (itemptrToUint64 ip - prev)).length ≤ maxbytes
        · rw [if_neg (by omega), if_pos hfits]
        · rw [if_pos (by omega), if_neg hfits]
    rw [hstep]
    by_cases hfits : out.length + (encodeVarbyte (itemptrToUint64 ip - prev)).length ≤ maxbytes
    · have hout' : (out ++ encodeVarbyte (itemptrToUint64 ip - prev)).length ≤ maxbytes := by
        rw [List.length_append]
        exact hfits
      obtain ⟨k, hk, hpack, hle, hnext⟩ := ih h.2.2 _ hout' (total + 1)
      rw [List.length_append] at hle hnext
      refine ⟨k + 1, Nat.succ_le_succ hk, ?_, ?_, fun hlt => ?_⟩
      · rw [if_pos hfits, hpack, List.take_succ_cons, packedFrom, List.append_assoc, Nat.add_right_comm, Nat.add_assoc]
      · rw [List.take_succ_cons, packedFrom, List.length_append, ← Nat.add_assoc]
        exact hle
      · rw [List.take_succ_cons, packedFrom, List.length_append, ← Nat.add_assoc]
        exact hnext (Nat.lt_of_succ_lt_succ hlt)
    · refine ⟨0, Nat.zero_le _, ?_, ?_, fun _ => ?_⟩
      · rw [if_neg hfits, List.take_zero, packedFrom, List.append_nil]
        rfl
      · rw [List.take_zero, packedFrom]
        exact hout
      · rw [List.take_succ_cons, packedFrom, List.take_zero, packedFrom, List.append_nil]
        exact Nat.not_le.mp hfits

structure Compressed (ipd : List ItemPointerData) (maxsize : Nat) (seg : GinPostingList) (n : Nat) : Prop where
  pos : 0 < n
  le : n ≤ ipd.length
  fits : segmentSize (ipd.take n) ≤ maxsize
  next : n < ipd.length → maxsize < segmentSize (ipd.take (n + 1))
  first : ipd.head? = some seg.first
  nbytes : seg.nbytes = UInt16.ofNat (packed (ipd.take n)).length
  bytes : seg.bytes = padBytes seg.nbytes (packed (ipd.take n))

theorem ginCompress_eq (h : Increasing ipd) (hne : ipd ≠ []) (hmax : sizeOfHeader ≤ maxsize) :
    ∃ seg n, ginCompressPostingList ipd maxsize = some (seg, n) ∧ Compressed ipd maxsize seg n := by
  cases ipd with
  | nil => exact absurd rfl hne
  | cons first ipd =>
    have hheader : sizeOfHeader = 8 := rfl
    have hdown : ¬shortalignDown maxsize < sizeOfHeader := by
      rw [shortalignDown]
      omega
    obtain ⟨k, hk, hpack, hle, hnext⟩ :=
      packItems_eq h.above [] (Nat.zero_le (shortalignDown maxsize - sizeOfHeader)) 1
    rw [List.nil_append, Nat.add_comm] at hpack
    rw [List.length_nil, shortalignDown] at hle hnext
    rw [shortalignDown] at hdown
    refine ⟨⟨first, UInt16.ofNat (packed (first :: ipd.take k)).length,
      padBytes (UInt16.ofNat (packed (first :: ipd.take k)).length) (packed (first :: ipd.take k))⟩, k + 1, ?_,
      Nat.succ_pos k, Nat.succ_le_succ hk, ?_, fun hlt => ?_, rfl, rfl, rfl⟩
    · rw [ginCompressPostingList]
      dsimp only
      rw [shortalignDown, if_neg hdown, ← shortalignDown, hpack]
      rfl
    · rw [List.take_succ_cons, segmentSize, packed, shortalign]
      omega
    · have hfar := hnext (Nat.lt_of_succ_lt_succ hlt)
      rw [List.take_succ_cons, segmentSize, packed, shortalign]
      omega

structure ItemArray.Room (a : ItemArray) : Prop where
  le : a.items.length ≤ a.nallocated
  pos : 0 < a.nallocated

theorem ItemArray.Room.push (h : a.Room) (ip : ItemPointerData) :
    ∃ a', a.push ip = some a' ∧ a'.items = a.items ++ [ip] ∧ a'.Room := by
  have hle := h.le
  have hpos := h.pos
  rw [ItemArray.push]
  by_cases hfull : a.nallocated ≤ a.items.length
  · rw [if_pos hfull, if_pos (by omega)]
    refine ⟨_, rfl, rfl, ?_, by dsimp only; omega⟩
    rw [List.length_append, List.length_singleton]
    dsimp only
    omega
  · rw [if_neg hfull, if_pos (by omega)]
    refine ⟨_, rfl, rfl, ?_, hpos⟩
    rw [List.length_append, List.length_singleton]
    dsimp only
    omega

theorem decodeItems_packed (h : Above prev ipd) (ha : a.Room) (rest : Bytes) :
    ∃ a', decodeItems (packedFrom prev ipd ++ rest) (packedFrom prev ipd).length prev a = some a' ∧
      a'.items = a.items ++ ipd ∧ a'.Room := by
  induction ipd generalizing prev a with
  | nil =>
    refine ⟨a, ?_, (List.append_nil _).symm, ha⟩
    rw [decodeItems]
    rfl
  | cons ip ipd ih =>
    obtain ⟨hoffset, hlt, hbehind⟩ := h
    have hval := itemptrToUint64_lt hoffset
    have hread : decodeVarbyte (packedFrom prev (ip :: ipd) ++ rest) =
        some (itemptrToUint64 ip - prev, packedFrom (itemptrToUint64 ip) ipd ++ rest) := by
      have hsmall : itemptrToUint64 ip - prev < 128 ^ (maxBytesPerInteger - 1 + 1) :=
        Nat.lt_of_lt_of_le (by omega) (by decide : 2 ^ 43 ≤ 128 ^ (maxBytesPerInteger - 1 + 1))
      have hnone : 0 < 2 ^ 0 := Nat.one_pos
      have hdecode := decodeVarbyteFrom_encode hsmall hnone (packedFrom (itemptrToUint64 ip) ipd ++ rest)
      rw [Nat.zero_add, pow_zero, Nat.mul_one] at hdecode
      rw [decodeVarbyte, packedFrom, List.append_assoc]
      exact hdecode
    have hsum : (prev + (itemptrToUint64 ip - prev)) % 2 ^ 64 = itemptrToUint64 ip := by omega
    have hleft : (packedFrom prev (ip :: ipd)).length - ((packedFrom prev (ip :: ipd) ++ rest).length -
        (packedFrom (itemptrToUint64 ip) ipd ++ rest).length) = (packedFrom (itemptrToUint64 ip) ipd).length := by
      rw [packedFrom, List.length_append, List.length_append, List.length_append, List.length_append]
      omega
    have hmore : (packedFrom prev (ip :: ipd)).length ≠ 0 := by
      have hpos := length_encodeVarbyte_pos (itemptrToUint64 ip - prev)
      rw [packedFrom, List.length_append]
      omega
    obtain ⟨a₁, hpush, hitems, hroom⟩ := ha.push ip
    obtain ⟨a₂, hdecode, hitems₂, hroom₂⟩ := ih hbehind hroom
    refine ⟨a₂, ?_, ?_, hroom₂⟩
    · rw [decodeItems.eq_def, if_neg hmore]
      split
      · next hnone =>
        rw [hread] at hnone
        cases hnone
      · next delta behind hsome =>
        rw [hread] at hsome
        cases hsome
        dsimp only
        rw [hsum, uint64ToItemptr_itemptr hoffset, hpush, hleft]
        exact hdecode
    · rw [hitems₂, hitems, List.append_assoc]
      rfl

structure Holds (seg : GinPostingList) (items : List ItemPointerData) : Prop where
  list : ∃ rest, items = seg.first :: rest ∧ Above (itemptrToUint64 seg.first) rest
  nbytes : seg.nbytes.toNat = (packed items).length
  image : ∃ pad, seg.image = GinPostingList.header.bytes (seg.first, seg.nbytes) ++ (packed items ++ pad)
  length : seg.image.length = seg.size

theorem length_padBytes (nbytes : UInt16) {out : Bytes} (h : nbytes.toNat = out.length) :
    ∃ pad, padBytes nbytes out = out ++ pad ∧ (out ++ pad).length = shortalign nbytes.toNat := by
  rw [padBytes]
  have hpad : shortalign nbytes.toNat = out.length ∨ shortalign nbytes.toNat = out.length + 1 := by
    rw [shortalign, h]
    omega
  by_cases hodd : nbytes.toNat ≠ shortalign nbytes.toNat
  · refine ⟨[0], ?_, ?_⟩
    · rw [if_pos hodd, h, List.take_length, List.drop_of_length_le (Nat.le_succ _)]
    · rw [List.length_append, List.length_singleton]
      omega
  · refine ⟨[], ?_, ?_⟩
    · rw [if_neg hodd, List.append_nil]
    · rw [List.append_nil]
      omega

theorem Compressed.holds {seg : GinPostingList} {n : Nat} (h : Compressed ipd maxsize seg n) (hinc : Increasing ipd)
    (hshort : (packed (ipd.take n)).length < 2 ^ 16) : Holds seg (ipd.take n) := by
  have hpos := h.pos
  have hnbytes : seg.nbytes.toNat = (packed (ipd.take n)).length := by
    rw [h.nbytes]
    exact UInt16.toNat_ofNat_of_lt hshort
  obtain ⟨pad, hpad, hlength⟩ := length_padBytes seg.nbytes hnbytes
  have himage : seg.image = GinPostingList.header.bytes (seg.first, seg.nbytes) ++ (packed (ipd.take n) ++ pad) := by
    rw [GinPostingList.image, h.bytes, hpad, List.take_of_length_le hlength.le]
  have hfirst := h.first
  cases ipd with
  | nil => cases hfirst
  | cons first ipd =>
    obtain ⟨k, rfl⟩ : ∃ k, n = k + 1 := ⟨n - 1, by omega⟩
    cases hfirst
    refine ⟨⟨_, rfl, hinc.above.take⟩, hnbytes, ⟨pad, himage⟩, ?_⟩
    rw [himage, List.length_append, GinPostingList.header.length_bytes, hlength]
    rfl

theorem header_of_append (p : ItemPointerData × UInt16) (rest : Bytes) :
    GinPostingList.header.ofBytes ((GinPostingList.header.bytes p ++ rest).take sizeOfHeader) = p := by
  have hlength : (GinPostingList.header.bytes p).length = sizeOfHeader := GinPostingList.header.length_bytes p
  rw [← hlength, List.take_left, GinPostingList.header.ofBytes_bytes]

theorem decodeSegments_images {segs : List (GinPostingList × List ItemPointerData)}
    (h : ∀ p ∈ segs, Holds p.1 p.2) (ha : a.Room) :
    ∃ a', decodeSegments (segs.flatMap (·.1.image)) (segs.flatMap (·.1.image)).length a = some a' ∧
      a'.items = a.items ++ segs.flatMap (·.2) ∧ a'.Room := by
  induction segs generalizing a with
  | nil =>
    refine ⟨a, ?_, (List.append_nil _).symm, ha⟩
    rw [decodeSegments]
    rfl
  | cons p segs ih =>
    obtain ⟨seg, items⟩ := p
    have hseg : Holds seg items := h _ List.mem_cons_self
    obtain ⟨pad, himage⟩ := hseg.image
    obtain ⟨behind, hitems, habove⟩ := hseg.list
    have hpacked : packed items = packedFrom (itemptrToUint64 seg.first) behind := by
      rw [hitems]
      rfl
    obtain ⟨a₁, hpush, hitems₁, hroom₁⟩ := ha.push seg.first
    obtain ⟨a₂, hdecode, hitems₂, hroom₂⟩ :=
      decodeItems_packed habove hroom₁ (pad ++ segs.flatMap (·.1.image))
    obtain ⟨a₃, hrest, hitems₃, hroom₃⟩ := ih (fun q hq => h q (List.mem_cons_of_mem _ hq)) hroom₂
    have hlength := hseg.length
    have hheader : (GinPostingList.header.bytes (seg.first, seg.nbytes)).length = sizeOfHeader :=
      GinPostingList.header.length_bytes _
    have hsize : seg.size = sizeOfHeader + shortalign seg.nbytes.toNat := rfl
    have hpos : 0 < sizeOfHeader := by decide
    have hmem : ((seg, items) :: segs).flatMap (·.1.image) = seg.image ++ segs.flatMap (·.1.image) := List.flatMap_cons
    have hbehind : (seg.image ++ segs.flatMap (·.1.image)).drop sizeOfHeader =
        packedFrom (itemptrToUint64 seg.first) behind ++ (pad ++ segs.flatMap (·.1.image)) := by
      rw [himage, hpacked, List.append_assoc, List.append_assoc, List.drop_left' hheader]
    have hread : GinPostingList.header.ofBytes ((seg.image ++ segs.flatMap (·.1.image)).take sizeOfHeader) =
        (seg.first, seg.nbytes) := by
      rw [himage, List.append_assoc]
      exact header_of_append _ _
    refine ⟨a₃, ?_, ?_, hroom₃⟩
    · rw [hmem, decodeSegments, if_neg (by rw [List.length_append]; omega),
        dif_neg (by rw [List.length_append]; omega), hread]
      dsimp only
      rw [hpush, hbehind, hseg.nbytes, hpacked]
      change (decodeItems _ _ _ a₁ >>= _) = _
      rw [hdecode, ← hpacked, ← hseg.nbytes, ← hsize, ← hlength, List.drop_left, List.length_append,
        Nat.add_sub_cancel_left]
      exact hrest
    · rw [hitems₃, hitems₂, hitems₁, List.flatMap_cons, List.append_assoc, List.append_assoc]
      dsimp only
      rw [hitems]
      rfl

theorem decodeAll_images {segs : List (GinPostingList × List ItemPointerData)} (h : ∀ p ∈ segs, Holds p.1 p.2)
    (hne : segs ≠ []) :
    ginPostingListDecodeAllSegments (segs.flatMap (·.1.image)) (segs.flatMap (·.1.image)).length =
      some (segs.flatMap (·.2)) := by
  have hlong : ¬(segs.flatMap (·.1.image)).length < sizeOfHeader := by
    cases segs with
    | nil => exact absurd rfl hne
    | cons p segs =>
      have hlength := (h p List.mem_cons_self).length
      rw [List.flatMap_cons, List.length_append, hlength, GinPostingList.size]
      omega
  rw [ginPostingListDecodeAllSegments, if_neg hlong]
  obtain ⟨a, hdecode, hitems, -⟩ := decodeSegments_images h
    (⟨Nat.zero_le _, Nat.succ_pos _⟩ : ItemArray.Room ⟨[], (GinPostingList.header.ofBytes
      ((segs.flatMap (·.1.image)).take sizeOfHeader)).2.toNat * 2 + 1⟩)
  dsimp only
  rw [hdecode, Option.map_some, hitems]
  rfl

theorem Holds.decode {seg : GinPostingList} {items : List ItemPointerData} (h : Holds seg items) :
    ginPostingListDecode seg = some items := by
  have hone : ∀ p ∈ [(seg, items)], Holds p.1 p.2 := by
    intro p hp
    rw [List.mem_singleton.mp hp]
    exact h
  have hall := decodeAll_images hone (List.cons_ne_nil _ _)
  rw [List.flatMap_singleton, List.flatMap_singleton, h.length] at hall
  exact hall

theorem length_packedFrom_take (prev k : Nat) (ipd : List ItemPointerData) :
    (packedFrom prev (ipd.take k)).length ≤ (packedFrom prev ipd).length := by
  induction ipd generalizing prev k with
  | nil => rw [List.take_nil]
  | cons ip ipd ih =>
    cases k with
    | zero => exact Nat.zero_le _
    | succ k =>
      rw [List.take_succ_cons, packedFrom, packedFrom, List.length_append, List.length_append]
      exact Nat.add_le_add_left (ih _ k) _

theorem length_packed_take (k : Nat) (ipd : List ItemPointerData) :
    (packed (ipd.take k)).length ≤ (packed ipd).length := by
  cases ipd with
  | nil => rw [List.take_nil]
  | cons first ipd =>
    cases k with
    | zero => exact Nat.zero_le _
    | succ k => exact length_packedFrom_take _ k ipd

/-- `nbytes` is not cut off: the struct is too small for that, or there are not so many items. -/
def CountFits (ipd : List ItemPointerData) (maxsize : Nat) : Prop :=
  maxsize ≤ sizeOfHeader + (2 ^ 16 - 1) ∨ (packed ipd).length < 2 ^ 16

theorem Compressed.short {seg : GinPostingList} {n : Nat} (h : Compressed ipd maxsize seg n)
    (hcount : CountFits ipd maxsize) : (packed (ipd.take n)).length < 2 ^ 16 := by
  rcases hcount with hmax | hpacked
  · have hfits := h.fits
    rw [segmentSize, shortalign] at hfits
    omega
  · exact Nat.lt_of_le_of_lt (length_packed_take n ipd) hpacked

theorem Holds.size_eq {seg : GinPostingList} {items : List ItemPointerData} (h : Holds seg items) :
    seg.size = segmentSize items := by
  rw [GinPostingList.size, h.nbytes, segmentSize]

/-- The segment has at most `maxsize` bytes and the first items, with the next one it would be too
large, and it is decoded to what it has. -/
def RoundTrips (ipd : List ItemPointerData) (maxsize : Nat) : Prop :=
  ∃ seg n, ginCompressPostingList ipd maxsize = some (seg, n) ∧ seg.size ≤ maxsize ∧ 0 < n ∧ n ≤ ipd.length ∧
    (n < ipd.length → maxsize < segmentSize (ipd.take (n + 1))) ∧ ginPostingListDecode seg = some (ipd.take n)

def WrittenFor (seg : GinPostingList) (items : List ItemPointerData) : Prop :=
  ∃ ipd maxsize n, Increasing ipd ∧ ipd ≠ [] ∧ sizeOfHeader < maxsize ∧ CountFits ipd maxsize ∧
    ginCompressPostingList ipd maxsize = some (seg, n) ∧ items = ipd.take n

theorem WrittenFor.holds {seg : GinPostingList} {items : List ItemPointerData} (h : WrittenFor seg items) :
    Holds seg items := by
  obtain ⟨ipd, maxsize, n, hinc, hne, hmax, hcount, hcompress, rfl⟩ := h
  obtain ⟨seg', n', hcompress', hseg⟩ := ginCompress_eq hinc hne hmax.le
  rw [hcompress'] at hcompress
  cases hcompress
  exact hseg.holds hinc (hseg.short hcount)

theorem posting_lists_round_trip :
    (∀ ipd maxsize, Increasing ipd → ipd ≠ [] → sizeOfHeader < maxsize → CountFits ipd maxsize →
      RoundTrips ipd maxsize) ∧
    ∀ segs : List (GinPostingList × List ItemPointerData), segs ≠ [] → (∀ p ∈ segs, WrittenFor p.1 p.2) →
      ginPostingListDecodeAllSegments (segs.flatMap (·.1.image)) (segs.flatMap (·.1.image)).length =
        some (segs.flatMap (·.2)) := by
  refine ⟨fun ipd maxsize hinc hne hmax hcount => ?_, fun segs hne hsegs => ?_⟩
  · obtain ⟨seg, n, hcompress, hseg⟩ := ginCompress_eq hinc hne hmax.le
    have hholds := hseg.holds hinc (hseg.short hcount)
    refine ⟨seg, n, hcompress, ?_, hseg.pos, hseg.le, hseg.next, hholds.decode⟩
    rw [hholds.size_eq]
    exact hseg.fits
  · exact decodeAll_images (fun p hp => (hsegs p hp).holds) hne

theorem posting_lists_round_trip_two : RoundTrips [⟨1, 1⟩, ⟨1, 2⟩] 10 := by
  apply posting_lists_round_trip.1
  · exact ⟨by decide, by decide⟩
  · decide
  · decide
  · exact .inl (by decide)

/-! ### More bytes than are counted -/

def blockStarts (k n : Nat) : List ItemPointerData := (List.range' k n).map fun b => ⟨UInt32.ofNat b, 1⟩

theorem blockStarts_succ (k n : Nat) : blockStarts k (n + 1) = ⟨UInt32.ofNat k, 1⟩ :: blockStarts (k + 1) n := by
  rw [blockStarts, List.range'_succ, List.map_cons, blockStarts]

theorem toNat_blkid {k : Nat} (hk : k < 2 ^ 32) : (UInt32.ofNat k).toNat = k := by
  rw [UInt32.toNat_ofNat']
  exact Nat.mod_eq_of_lt hk

theorem itemptr_blockStart {k : Nat} (hk : k < 2 ^ 32) : itemptrToUint64 ⟨UInt32.ofNat k, 1⟩ = k * 2048 + 1 := by
  have hoffset : (1 : UInt16).toNat < 2 ^ maxHeapTuplesPerPageBits := by decide
  rw [itemptrToUint64_eq hoffset]
  dsimp only
  rw [toNat_blkid hk]
  rfl

theorem increasing_blockStarts {k n : Nat} (h : k + n ≤ 2 ^ 32) : Increasing (blockStarts k n) where
  sorted := by
    rw [blockStarts, List.pairwise_map]
    have hsorted : (List.range' k n).Pairwise fun a b => a < b := List.pairwise_lt_range'
    refine hsorted.imp_of_mem fun ha hb hlt => .inl ?_
    rw [List.mem_range'_1] at ha hb
    rw [UInt32.lt_iff_toNat_lt]
    dsimp only
    rw [toNat_blkid (by omega), toNat_blkid (by omega)]
    exact hlt
  offsets := by
    intro ip hip
    obtain ⟨b, -, rfl⟩ := List.mem_map.mp hip
    have hoffset : (1 : UInt16).toNat < 2 ^ maxHeapTuplesPerPageBits := by decide
    exact hoffset

theorem length_packedFrom_blockStarts {k n : Nat} (h : k + n < 2 ^ 32) :
    (packedFrom (itemptrToUint64 ⟨UInt32.ofNat k, 1⟩) (blockStarts (k + 1) n)).length = 2 * n := by
  induction n generalizing k with
  | zero => rfl
  | succ n ih =>
    have hdelta : itemptrToUint64 ⟨UInt32.ofNat (k + 1), 1⟩ - itemptrToUint64 ⟨UInt32.ofNat k, 1⟩ = 2048 := by
      rw [itemptr_blockStart (by omega), itemptr_blockStart (by omega)]
      omega
    have hcode : (encodeVarbyte 2048).length = 2 := by
      rw [encodeVarbyte_large (by decide), encodeVarbyte_small (by decide)]
      rfl
    have htail := ih (by omega : k + 1 + n < 2 ^ 32)
    rw [blockStarts_succ, packedFrom, List.length_append, hdelta, hcode, htail]
    omega

theorem length_packed_blockStarts {n : Nat} (h : n < 2 ^ 32) : (packed (blockStarts 0 (n + 1))).length = 2 * n :=
  length_packedFrom_blockStarts (by omega)

theorem length_blockStarts (k n : Nat) : (blockStarts k n).length = n := by
  rw [blockStarts, List.length_map, List.length_range']

theorem compressed_blockStarts {n : Nat} (h : n < 2 ^ 32) (hroom : sizeOfHeader + shortalign (2 * n) ≤ maxsize) :
    ∃ seg, ginCompressPostingList (blockStarts 0 (n + 1)) maxsize = some (seg, n + 1) ∧
      seg.nbytes = UInt16.ofNat (2 * n) ∧ seg.first = ⟨0, 1⟩ := by
  have hinc : Increasing (blockStarts 0 (n + 1)) := increasing_blockStarts (by omega)
  have hne : blockStarts 0 (n + 1) ≠ [] := by
    rw [blockStarts_succ]
    exact List.cons_ne_nil _ _
  obtain ⟨seg, m, hcompress, hseg⟩ := ginCompress_eq hinc hne (Nat.le_trans (Nat.le_add_right _ _) hroom)
  have hall : m = n + 1 := by
    by_contra hne
    have hle := hseg.le
    rw [length_blockStarts] at hle
    have hnext := hseg.next (by rw [length_blockStarts]; omega)
    have hprefix := length_packed_take (m + 1) (blockStarts 0 (n + 1))
    rw [length_packed_blockStarts h] at hprefix
    rw [segmentSize] at hnext
    rw [shortalign] at hnext hroom
    omega
  subst hall
  refine ⟨seg, hcompress, ?_, ?_⟩
  · rw [hseg.nbytes, List.take_of_length_le (length_blockStarts 0 (n + 1)).le, length_packed_blockStarts h]
  · exact (Option.some.inj hseg.first).symm

theorem decode_uncounted {seg : GinPostingList} (h : seg.nbytes = 0) : ginPostingListDecode seg = some [seg.first] := by
  apply Holds.decode
  refine ⟨⟨[], rfl, trivial⟩, ?_, ⟨[], ?_⟩, ?_⟩
  · rw [h]
    rfl
  · rw [GinPostingList.image, h]
    rfl
  · rw [GinPostingList.image, GinPostingList.size, h, List.length_append, GinPostingList.header.length_bytes]
    rfl

/-- With 65536 bytes behind the first item none of them is counted. -/
theorem uncounted_items_lost : Increasing (blockStarts 0 32769) ∧ ¬RoundTrips (blockStarts 0 32769) 65544 := by
  refine ⟨increasing_blockStarts (by decide), ?_⟩
  rintro ⟨seg, n, hcompress, -, -, -, -, hdecode⟩
  obtain ⟨seg', hcompress', hnbytes, -⟩ :=
    compressed_blockStarts (by decide : 32768 < 2 ^ 32) (by decide : sizeOfHeader + shortalign (2 * 32768) ≤ 65544)
  rw [hcompress'] at hcompress
  cases hcompress
  rw [decode_uncounted hnbytes, List.take_of_length_le (length_blockStarts 0 32769).le] at hdecode
  have hlength := congrArg List.length (Option.some.inj hdecode)
  rw [length_blockStarts] at hlength
  cases hlength

end CdcKafka.Gin
