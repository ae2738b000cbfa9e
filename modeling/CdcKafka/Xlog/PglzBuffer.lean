import CdcKafka.Lib.Checked
import CdcKafka.Lib.Ring
import CdcKafka.Xlog.PglzInverse

/-! `pglz_compress` with the buffer it writes into, and the round trip through `pglz_decompress`. -/

namespace CdcKafka.Xlog

open CdcKafka.Lib

def pglzMaxOutput (dlen : Nat) : Nat := dlen + 4

/-- The buffer with `bp`, `ctrlp`, `ctrlb` and `ctrl`; without `ctrlp` it points to `ctrl_dummy`. -/
structure PglzDest where
  dest : Nat → UInt8
  bp : Nat
  ctrlp : Option Nat
  ctrlb : UInt8
  ctrl : UInt8

namespace PglzDest

-- The size of the buffer.
variable (size : Nat)

def start (dest : Nat → UInt8) : PglzDest := ⟨dest, 0, none, 0, 0⟩

def write (b : PglzDest) (off : Nat) (bytes : Bytes) : Except (Stop Unit) PglzDest := do
  store size off bytes.length
  pure { b with dest := put b.dest off bytes }

def writeCtrl (b : PglzDest) : Except (Stop Unit) PglzDest :=
  match b.ctrlp with
  | none => pure b
  | some p => b.write size p [b.ctrlb]

def outCtrl (b : PglzDest) : Except (Stop Unit) PglzDest :=
  if b.ctrl = 0 then do
    let b ← b.writeCtrl size
    pure { b with ctrlp := some b.bp, bp := b.bp + 1, ctrlb := 0, ctrl := 1 }
  else pure b

def append (b : PglzDest) (bytes : Bytes) : Except (Stop Unit) PglzDest := do
  let b ← b.write size b.bp bytes
  pure { b with bp := b.bp + bytes.length }

def outLiteral (b : PglzDest) (byte : UInt8) : Except (Stop Unit) PglzDest := do
  let b ← b.outCtrl size
  let b ← b.append size [byte]
  pure { b with ctrl := b.ctrl <<< 1 }

def outTag (b : PglzDest) (len off : Nat) : Except (Stop Unit) PglzDest := do
  let b ← b.outCtrl size
  append size { b with ctrlb := b.ctrlb ||| b.ctrl, ctrl := b.ctrl <<< 1 } (PglzOut.tagBytes len off)

end PglzDest

def compressLoopInto (size : Nat) (l : PglzLimits) (source : Bytes) (dp : Nat) (hist : PglzHistory) (b : PglzDest)
    (foundMatch : Bool) : Except (Stop Unit) (Option PglzDest) :=
  if hdp : dp < source.length then
    if l.resultMax ≤ b.bp then .ok none
    else if !foundMatch ∧ l.firstSuccessBy ≤ b.bp then .ok none
    else
      match h : pglzFindMatch source hist dp l.goodMatch l.goodDrop l.mask with
      | some (len, off) => do
        let b ← b.outTag size len off
        compressLoopInto size l source (dp + len) (pglzHistAddMany l.mask source hist dp len) b true
      | none => do
        let b ← b.outLiteral size source[dp]
        compressLoopInto size l source (dp + 1) (pglzHistAdd l.mask source hist dp) b foundMatch
  else .ok (some b)
termination_by source.length - dp
decreasing_by
  · have hlen := pglzFindMatch_pos h
    omega
  · omega

/-- `pglz_compress` into a buffer of this size: the size of the result with the buffer, or -1. -/
def pglzCompressInto (size : Nat) (dest : Nat → UInt8) (source : Bytes) (strategy : PglzStrategy) :
    Except (Stop Unit) (Option (Nat × (Nat → UInt8))) :=
  if strategy.matchSizeGood ≤ 0 ∨ source.length < strategy.minInputSize ∨ strategy.maxInputSize < source.length then .ok none
  else do
    let l := strategy.limits source.length
    match ← compressLoopInto size l source 0 [] (.start dest) false with
    | none => pure none
    | some b =>
      let b ← b.writeCtrl size
      pure (if l.resultMax ≤ b.bp then none else some (b.bp, b.dest))

structure InDest (b : PglzDest) (o : PglzOut) : Prop where
  bp : b.bp = o.size
  ctrlb : b.ctrlb = o.ctrlb
  ctrl : b.ctrl = o.ctrl
  ctrlp : b.ctrlp = if o.dummy then none else some o.written.length
  written : get b.dest 0 o.written.length = o.written
  items : get b.dest (o.written.length + 1) o.items.length = o.items
  fresh : o.dummy = true → o = .empty

theorem inDest_start (dest : Nat → UInt8) : InDest (.start dest) .empty := ⟨rfl, rfl, rfl, rfl, rfl, rfl, fun _ => rfl⟩

theorem size_of_real {o : PglzOut} (h : o.dummy = false) : o.size = o.written.length + 1 + o.items.length := by
  rw [PglzOut.size, PglzOut.flush, h, if_neg Bool.false_ne_true, List.length_append, List.length_cons]
  omega

variable {size : Nat} {b : PglzDest} {o : PglzOut}

theorem write_ok {off : Nat} {bytes : Bytes} (h : off + bytes.length ≤ size) :
    b.write size off bytes = .ok { b with dest := put b.dest off bytes } := by
  rw [PglzDest.write, store_ok h]
  rfl

theorem InDest.writeCtrl (h : InDest b o) (hroom : o.size ≤ size) :
    ∃ dest, b.writeCtrl size = .ok { b with dest := dest } ∧ get dest 0 o.size = o.flush := by
  cases hdummy : o.dummy with
  | true =>
    obtain rfl := h.fresh hdummy
    have hctrlp : b.ctrlp = none := h.ctrlp
    exact ⟨b.dest, by rw [PglzDest.writeCtrl, hctrlp]; exact congrArg Except.ok (by rw [← hctrlp]), rfl⟩
  | false =>
    have hsize := size_of_real hdummy
    have hctrlp : b.ctrlp = some o.written.length := by rw [h.ctrlp, hdummy, if_neg Bool.false_ne_true]
    have hfits : o.written.length + [b.ctrlb].length ≤ size := by
      rw [List.length_singleton]
      omega
    have hwrite : b.writeCtrl size = .ok { b with dest := put b.dest o.written.length [b.ctrlb] } := by
      rw [PglzDest.writeCtrl.eq_def]
      split
      · next hnone =>
        rw [hctrlp] at hnone
        cases hnone
      · next p hp =>
        obtain rfl : o.written.length = p := Option.some.inj (hctrlp.symm.trans hp)
        exact write_ok hfits
    refine ⟨_, hwrite, ?_⟩
    have hfirst : get (put b.dest o.written.length [b.ctrlb]) 0 (o.written.length + 1) = o.written ++ [o.ctrlb] := by
      have hput := get_put b.dest 0 o.written.length [b.ctrlb]
      rw [Nat.zero_add, List.length_singleton, h.written, h.ctrlb] at hput
      rw [h.ctrlb]
      exact hput
    have hitems : get (put b.dest o.written.length [b.ctrlb]) (o.written.length + 1) o.items.length = o.items := by
      rw [get_put_outside (.inr (by rw [List.length_singleton])), h.items]
    rw [hsize, get_add, hfirst, Nat.zero_add, hitems, PglzOut.flush, hdummy, if_neg Bool.false_ne_true,
      List.append_assoc,
      List.singleton_append]

theorem InDest.outCtrl (h : InDest b o) (hroom : o.size ≤ size) :
    ∃ b', b.outCtrl size = .ok b' ∧ InDest b' o.outCtrl ∧ o.outCtrl.dummy = false ∧ o.outCtrl.size ≤ o.size + 1 := by
  by_cases hctrl : o.ctrl = 0
  · obtain ⟨dest, hwrite, hflush⟩ := h.writeCtrl hroom
    have hctrl' : b.ctrl = 0 := by rw [h.ctrl, hctrl]
    have hnew : o.outCtrl = ⟨o.flush, false, 0, [], 1⟩ := if_pos hctrl
    have hstep : b.outCtrl size = .ok ⟨dest, b.bp + 1, some b.bp, 0, 1⟩ := by
      rw [PglzDest.outCtrl, if_pos hctrl', hwrite]
      rfl
    have hsize : (PglzOut.mk o.flush false 0 [] 1).size = o.size + 1 := by
      rw [size_of_real rfl]
      rfl
    refine ⟨_, hstep, ?_⟩
    rw [hnew]
    refine ⟨⟨?_, rfl, rfl, ?_, hflush, rfl, fun hdummy => by cases hdummy⟩, rfl, hsize.le⟩
    · rw [hsize, h.bp]
    · rw [h.bp]
      rfl
  · have hreal : o.dummy = false := by
      by_contra hdummy
      rw [h.fresh (by simpa using hdummy)] at hctrl
      exact hctrl rfl
    have hsame : o.outCtrl = o := if_neg hctrl
    refine ⟨b, ?_, by rw [hsame]; exact h, by rw [hsame]; exact hreal, by rw [hsame]; omega⟩
    rw [PglzDest.outCtrl, if_neg (by rw [h.ctrl]; exact hctrl)]
    rfl

theorem InDest.append (h : InDest b o) (hreal : o.dummy = false) {bytes : Bytes} (hroom : o.size + bytes.length ≤ size) :
    ∃ b', b.append size bytes = .ok b' ∧ InDest b' { o with items := o.items ++ bytes } := by
  have hsize := size_of_real hreal
  have hbp : b.bp = o.written.length + 1 + o.items.length := h.bp.trans hsize
  have hstep : b.append size bytes = .ok { b with dest := put b.dest b.bp bytes, bp := b.bp + bytes.length } := by
    rw [PglzDest.append, write_ok (by rw [h.bp]; exact hroom)]
    rfl
  refine ⟨_, hstep, ?_, h.ctrlb, h.ctrl, ?_, ?_, ?_, fun hdummy => ?_⟩
  · have hnew : ({ o with items := o.items ++ bytes } : PglzOut).dummy = false := hreal
    rw [size_of_real hnew, List.length_append]
    dsimp only
    omega
  · exact h.ctrlp
  · have hbefore : 0 + o.written.length ≤ b.bp := by omega
    exact (get_put_outside (.inl hbefore)).trans h.written
  · have hput := get_put b.dest (o.written.length + 1) o.items.length bytes
    rw [h.items] at hput
    dsimp only
    rw [hbp, List.length_append]
    exact hput
  · rw [show o.dummy = true from hdummy] at hreal
    cases hreal

theorem length_tagBytes_le (len off : Nat) : (PglzOut.tagBytes len off).length ≤ 3 := by
  rw [PglzOut.tagBytes]
  split
  · exact Nat.le_refl _
  · exact Nat.le_succ _

theorem InDest.setCtrl (h : InDest b o) (hreal : o.dummy = false) (ctrlb ctrl : UInt8) :
    InDest { b with ctrlb := ctrlb, ctrl := ctrl } { o with ctrlb := ctrlb, ctrl := ctrl } := by
  have hreal' : ({ o with ctrlb := ctrlb, ctrl := ctrl } : PglzOut).dummy = false := hreal
  refine ⟨?_, rfl, rfl, h.ctrlp, h.written, h.items, fun hdummy => absurd (hreal.symm.trans hdummy) Bool.false_ne_true⟩
  rw [size_of_real hreal', h.bp, size_of_real hreal]

theorem InDest.outLiteral (h : InDest b o) (hroom : o.size + 2 ≤ size) (byte : UInt8) :
    ∃ b', b.outLiteral size byte = .ok b' ∧ InDest b' (o.outLiteral byte) ∧ (o.outLiteral byte).size ≤ o.size + 2 := by
  have hfirst : o.size ≤ size := by omega
  obtain ⟨b₁, hctrl, h₁, hreal, hsize⟩ := h.outCtrl hfirst
  have hliteral : o.outLiteral byte =
      { o.outCtrl with items := o.outCtrl.items ++ [byte], ctrl := o.outCtrl.ctrl <<< 1 } := rfl
  rw [hliteral]
  generalize o.outCtrl = t at h₁ hreal hsize ⊢
  have hfits : t.size + [byte].length ≤ size := by
    rw [List.length_singleton]
    omega
  obtain ⟨b₂, happend, h₂⟩ := h₁.append hreal hfits
  have hset := h₂.setCtrl hreal b₂.ctrlb (b₂.ctrl <<< 1)
  have hreal' : (PglzOut.mk t.written t.dummy t.ctrlb (t.items ++ [byte]) (t.ctrl <<< 1)).dummy = false := hreal
  refine ⟨{ b₂ with ctrl := b₂.ctrl <<< 1 }, ?_, ?_, ?_⟩
  · rw [PglzDest.outLiteral, hctrl, ok_bind, happend]
    rfl
  · rw [h₂.ctrlb, h₂.ctrl] at hset
    rw [h₂.ctrl]
    exact ⟨hset.bp, h₂.ctrlb, rfl, hset.ctrlp, hset.written, hset.items, hset.fresh⟩
  · have hlength := size_of_real hreal
    rw [size_of_real hreal', List.length_append, List.length_singleton]
    dsimp only
    omega

theorem InDest.outTag (h : InDest b o) (hroom : o.size + 4 ≤ size) (len off : Nat) :
    ∃ b', b.outTag size len off = .ok b' ∧ InDest b' (o.outTag len off) ∧ (o.outTag len off).size ≤ o.size + 4 := by
  have hfirst : o.size ≤ size := by omega
  obtain ⟨b₁, hctrl, h₁, hreal, hsize⟩ := h.outCtrl hfirst
  have htag := length_tagBytes_le len off
  have hout : o.outTag len off =
      { o.outCtrl with
        ctrlb := o.outCtrl.ctrlb ||| o.outCtrl.ctrl
        ctrl := o.outCtrl.ctrl <<< 1
        items := o.outCtrl.items ++ PglzOut.tagBytes len off } := rfl
  rw [hout]
  generalize o.outCtrl = t at h₁ hreal hsize ⊢
  have hset := h₁.setCtrl hreal (t.ctrlb ||| t.ctrl) (t.ctrl <<< 1)
  have hreal' : (PglzOut.mk t.written t.dummy (t.ctrlb ||| t.ctrl) t.items (t.ctrl <<< 1)).dummy = false := hreal
  have hreal'' : (PglzOut.mk t.written t.dummy (t.ctrlb ||| t.ctrl) (t.items ++ PglzOut.tagBytes len off)
      (t.ctrl <<< 1)).dummy = false := hreal
  have hlength := size_of_real hreal
  have hlength' := size_of_real hreal'
  have hfits : (PglzOut.mk t.written t.dummy (t.ctrlb ||| t.ctrl) t.items (t.ctrl <<< 1)).size +
      (PglzOut.tagBytes len off).length ≤ size := by
    rw [hlength']
    dsimp only
    omega
  obtain ⟨b₂, happend, h₂⟩ := hset.append hreal' hfits
  refine ⟨b₂, ?_, h₂, ?_⟩
  · rw [PglzDest.outTag, hctrl, ok_bind, h₁.ctrlb, h₁.ctrl, happend]
  · rw [size_of_real hreal'', List.length_append]
    dsimp only
    omega

def Leaves (r : Option PglzDest) (out : Option PglzOut) : Prop :=
  match r, out with
  | none, none => True
  | some b, some o => InDest b o
  | _, _ => False

section Steps

variable {l : PglzLimits} {source : Bytes} {dp len off : Nat} {hist : PglzHistory} {foundMatch : Bool}

theorem compressLoop_tag (hdp : dp < source.length) (hmax : ¬l.resultMax ≤ o.size)
    (hgive : ¬(!foundMatch ∧ l.firstSuccessBy ≤ o.size))
    (hfind : pglzFindMatch source hist dp l.goodMatch l.goodDrop l.mask = some (len, off)) :
    compressLoop l source dp hist o foundMatch =
      compressLoop l source (dp + len) (pglzHistAddMany l.mask source hist dp len) (o.outTag len off) true := by
  rw [compressLoop, dif_pos hdp, if_neg hmax, if_neg hgive]
  split
  · next len' off' hfind' =>
    cases hfind.symm.trans hfind'
    rfl
  · next hnone => cases hfind.symm.trans hnone

theorem compressLoop_literal (hdp : dp < source.length) (hmax : ¬l.resultMax ≤ o.size)
    (hgive : ¬(!foundMatch ∧ l.firstSuccessBy ≤ o.size))
    (hfind : pglzFindMatch source hist dp l.goodMatch l.goodDrop l.mask = none) :
    compressLoop l source dp hist o foundMatch =
      compressLoop l source (dp + 1) (pglzHistAdd l.mask source hist dp) (o.outLiteral source[dp]) foundMatch := by
  rw [compressLoop, dif_pos hdp, if_neg hmax, if_neg hgive]
  split
  · next hsome => cases hfind.symm.trans hsome
  · rfl

theorem compressLoopInto_tag (hdp : dp < source.length) (hmax : ¬l.resultMax ≤ b.bp)
    (hgive : ¬(!foundMatch ∧ l.firstSuccessBy ≤ b.bp))
    (hfind : pglzFindMatch source hist dp l.goodMatch l.goodDrop l.mask = some (len, off)) :
    compressLoopInto size l source dp hist b foundMatch = (do
      let b ← b.outTag size len off
      compressLoopInto size l source (dp + len) (pglzHistAddMany l.mask source hist dp len) b true) := by
  rw [compressLoopInto, dif_pos hdp, if_neg hmax, if_neg hgive]
  split
  · next len' off' hfind' =>
    cases hfind.symm.trans hfind'
    rfl
  · next hnone => cases hfind.symm.trans hnone

theorem compressLoopInto_literal (hdp : dp < source.length) (hmax : ¬l.resultMax ≤ b.bp)
    (hgive : ¬(!foundMatch ∧ l.firstSuccessBy ≤ b.bp))
    (hfind : pglzFindMatch source hist dp l.goodMatch l.goodDrop l.mask = none) :
    compressLoopInto size l source dp hist b foundMatch = (do
      let b ← b.outLiteral size source[dp]
      compressLoopInto size l source (dp + 1) (pglzHistAdd l.mask source hist dp) b foundMatch) := by
  rw [compressLoopInto, dif_pos hdp, if_neg hmax, if_neg hgive]
  split
  · next hsome => cases hfind.symm.trans hsome
  · rfl

end Steps

theorem compressLoopInto_leaves {l : PglzLimits} {source : Bytes} (hsize : l.resultMax + 4 ≤ size) {dp : Nat}
    {hist : PglzHistory} {foundMatch : Bool} (h : InDest b o) (hroom : o.size ≤ size) :
    ∃ r, compressLoopInto size l source dp hist b foundMatch = .ok r ∧ Leaves r (compressLoop l source dp hist o foundMatch) ∧
      ∀ o', compressLoop l source dp hist o foundMatch = some o' → o'.size ≤ size := by
  induction hn : source.length - dp using Nat.strongRecOn generalizing dp hist b o foundMatch with
  | ind n ih =>
    have hsame := h.bp
    by_cases hdp : dp < source.length
    · by_cases hmax : l.resultMax ≤ o.size
      · rw [compressLoopInto, compressLoop, hsame, dif_pos hdp, dif_pos hdp, if_pos hmax, if_pos hmax]
        exact ⟨none, rfl, trivial, fun o' ho' => by cases ho'⟩
      · by_cases hgive : (!foundMatch) = true ∧ l.firstSuccessBy ≤ o.size
        · rw [compressLoopInto, compressLoop, hsame, dif_pos hdp, dif_pos hdp, if_neg hmax, if_neg hmax, if_pos hgive,
            if_pos hgive]
          exact ⟨none, rfl, trivial, fun o' ho' => by cases ho'⟩
        · have hmax' : ¬l.resultMax ≤ b.bp := by rwa [hsame]
          have hgive' : ¬((!foundMatch) = true ∧ l.firstSuccessBy ≤ b.bp) := by rwa [hsame]
          cases hfind : pglzFindMatch source hist dp l.goodMatch l.goodDrop l.mask with
          | some found =>
            obtain ⟨len, off⟩ := found
            obtain ⟨b', hout, h', hle⟩ := h.outTag (by omega : o.size + 4 ≤ size) len off
            have hlen := pglzFindMatch_pos hfind
            rw [compressLoopInto_tag hdp hmax' hgive' hfind, compressLoop_tag hdp hmax hgive hfind, hout, ok_bind]
            exact ih (source.length - (dp + len)) (by omega) h' (by omega) rfl
          | none =>
            obtain ⟨b', hout, h', hle⟩ := h.outLiteral (by omega : o.size + 2 ≤ size) source[dp]
            rw [compressLoopInto_literal hdp hmax' hgive' hfind, compressLoop_literal hdp hmax hgive hfind, hout,
              ok_bind]
            exact ih (source.length - (dp + 1)) (by omega) h' (by omega) rfl
    · rw [compressLoopInto, compressLoop, dif_neg hdp, dif_neg hdp]
      exact ⟨some b, rfl, h, fun o' ho' => by cases ho'; exact hroom⟩

theorem resultMax_le (strategy : PglzStrategy) (slen : Nat) : (strategy.limits slen).resultMax ≤ slen := by
  have hrate : 100 - clamp 0 99 strategy.minCompRate ≤ 100 := Nat.sub_le _ _
  rw [PglzStrategy.limits]
  dsimp only
  generalize 100 - clamp 0 99 strategy.minCompRate = rate at hrate
  split_ifs
  · calc slen / 100 * rate ≤ slen / 100 * 100 := Nat.mul_le_mul_left _ hrate
      _ ≤ slen := Nat.div_mul_le_self slen 100
  · apply Nat.div_le_of_le_mul
    rw [Nat.mul_comm 100]
    exact Nat.mul_le_mul_left slen hrate

theorem pglzCompressInto_eq (dest : Nat → UInt8) (source : Bytes) (strategy : PglzStrategy) :
    ∃ r, pglzCompressInto (pglzMaxOutput source.length) dest source strategy = .ok r ∧
      r.map (fun p => get p.2 0 p.1) = pglzCompress source strategy ∧ ∀ p, r = some p → p.1 < source.length := by
  have hmax := resultMax_le strategy source.length
  rw [pglzCompressInto, pglzCompress]
  by_cases hforbid : strategy.matchSizeGood ≤ 0 ∨ source.length < strategy.minInputSize ∨
      strategy.maxInputSize < source.length
  · rw [if_pos hforbid, if_pos hforbid]
    exact ⟨none, rfl, rfl, fun p hp => by cases hp⟩
  · rw [if_neg hforbid, if_neg hforbid]
    dsimp only
    generalize strategy.limits source.length = l at hmax ⊢
    have hend : ∃ r, compressLoopInto (pglzMaxOutput source.length) l source 0 [] (.start dest) false = .ok r ∧
        Leaves r (compressLoop l source 0 [] .empty false) ∧
        ∀ o', compressLoop l source 0 [] .empty false = some o' → o'.size ≤ pglzMaxOutput source.length :=
      compressLoopInto_leaves (Nat.add_le_add_right hmax 4) (inDest_start dest) (Nat.zero_le _)
    obtain ⟨r, hloop, hleaves, hfits⟩ := hend
    rw [hloop, ok_bind]
    cases hcompress : compressLoop l source 0 [] .empty false with
    | none =>
      rw [hcompress] at hleaves
      cases r with
      | none => exact ⟨none, rfl, rfl, fun p hp => by cases hp⟩
      | some b => exact hleaves.elim
    | some o =>
      rw [hcompress] at hleaves
      cases r with
      | none => exact hleaves.elim
      | some b =>
        obtain ⟨dest', hwrite, hflush⟩ := InDest.writeCtrl hleaves (hfits o hcompress)
        dsimp only
        rw [hwrite, ok_bind]
        dsimp only
        rw [InDest.bp hleaves]
        by_cases hbig : l.resultMax ≤ o.size
        · rw [if_pos hbig, if_pos hbig]
          exact ⟨none, rfl, rfl, fun p hp => by cases hp⟩
        · rw [if_neg hbig, if_neg hbig]
          refine ⟨_, rfl, congrArg some hflush, fun p hp => ?_⟩
          obtain rfl := Option.some.inj hp
          exact Nat.lt_of_lt_of_le (Nat.lt_of_not_le hbig) hmax

/-- The round trip: compression never writes outside of `PGLZ_MAX_OUTPUT` bytes, and where it succeeds its
output is shorter than the source, which decompression gives back. -/
theorem pglz_round_trip (dest : Nat → UInt8) (source : Bytes) (strategy : PglzStrategy) :
    ∃ r, pglzCompressInto (pglzMaxOutput source.length) dest source strategy = .ok r ∧
      ∀ n dest', r = some (n, dest') → n < source.length ∧
          ∀ checkComplete, pglzDecompress (get dest' 0 n) source.length checkComplete = some source := by
  obtain ⟨r, hcompress, heq, hshort⟩ := pglzCompressInto_eq dest source strategy
  refine ⟨r, hcompress, fun n dest' hr => ⟨hshort (n, dest') hr, fun checkComplete => ?_⟩⟩
  rw [hr] at heq
  exact pglzDecompress_of_compress heq.symm checkComplete

end CdcKafka.Xlog
