import CdcKafka.Xlog.Restored

/-! `pglz_decompress` over the memory of its source and its destination, for data of any kind. -/

namespace CdcKafka.Xlog

open CdcKafka.Lib

/-- An access behind the source, outside of the destination, or to a byte of the destination that
was not written before. -/
inductive PglzFault
  | source
  | dest
  | unwritten
deriving DecidableEq

/-- `sp` and `dp`, counted from the start, and the bytes that were written to the destination. -/
structure Expansion where
  sp : Nat
  dp : Nat
  dest : Nat → Option UInt8

abbrev Expanded := Except PglzFault (Option Expansion)

def Expanded.andThen (x : Expanded) (f : Expansion → Expanded) : Expanded :=
  match x with
  | .error e => .error e
  | .ok none => .ok none
  | .ok (some s) => f s

theorem andThen_assoc (x : Expanded) (f g : Expansion → Expanded) :
    (x.andThen f).andThen g = x.andThen fun s => (f s).andThen g := by
  cases x with
  | error e => rfl
  | ok r => cases r <;> rfl

namespace Expansion

variable (source : Nat → UInt8) (slen rawsize : Int)

def readSource (i : Nat) : Except PglzFault UInt8 := if i < slen then .ok (source i) else .error .source

def memcpy (s : Expansion) (off n : Nat) : Except PglzFault Expansion :=
  if ∃ k < n, s.dest (s.dp - off + k) = none then .error .unwritten
  else if 0 < n ∧ rawsize < s.dp + n then .error .dest
  else
    .ok { s with
      dp := s.dp + n
      dest := fun i => if s.dp ≤ i ∧ i < s.dp + n then s.dest (s.dp - off + (i - s.dp)) else s.dest i }

def copyMatch (s : Expansion) (off len : Nat) (hoff : 0 < off) : Except PglzFault Expansion :=
  if off < len then
    memcpy rawsize s off off >>= fun s => copyMatch s (off + off) (len - off) (Nat.add_pos_left hoff off)
  else memcpy rawsize s off len
termination_by len

def copyTag (s : Expansion) (len off sp : Nat) : Expanded :=
  if h : slen < sp ∨ off = 0 ∨ s.dp < off then .ok none
  else
    (copyMatch rawsize { s with sp := sp } off (min (len : Int) (rawsize - s.dp)).toNat
      (Nat.pos_of_ne_zero fun hzero => h (.inr (.inl hzero)))).map some

def expandTag (s : Expansion) : Expanded := do
  let b ← readSource source slen s.sp
  let b' ← readSource source slen (s.sp + 1)
  let len := (b &&& 0x0f).toNat + 3
  let off := ((b &&& 0xf0).toNat <<< 4) ||| b'.toNat
  if len = 18 then do
    let ext ← readSource source slen (s.sp + 2)
    copyTag slen rawsize s (len + ext.toNat) off (s.sp + 3)
  else copyTag slen rawsize s len off (s.sp + 2)

def expandLiteral (s : Expansion) : Expanded := do
  let b ← readSource source slen s.sp
  if s.dp < rawsize then .ok (some ⟨s.sp + 1, s.dp + 1, fun i => if i = s.dp then some b else s.dest i⟩)
  else .error .dest

def expandItem (ctrl : UInt8) (s : Expansion) : Expanded :=
  if ctrl &&& 1 = 0 then expandLiteral source slen rawsize s else expandTag source slen rawsize s

def expandItems : Nat → UInt8 → Expansion → Expanded
  | 0, _, s => .ok (some s)
  | bits + 1, ctrl, s =>
    if s.sp < slen ∧ s.dp < rawsize then
      (expandItem source slen rawsize ctrl s).andThen (expandItems bits (ctrl >>> 1))
    else .ok (some s)

variable {source slen rawsize} {s s' : Expansion}

theorem sp_of_memcpy {off n : Nat} (h : memcpy rawsize s off n = .ok s') : s'.sp = s.sp := by
  rw [memcpy] at h
  split at h
  · cases h
  · split at h
    · cases h
    · cases h
      rfl

theorem sp_of_copyMatch {off len : Nat} (hoff : 0 < off) (h : copyMatch rawsize s off len hoff = .ok s') :
    s'.sp = s.sp := by
  induction len using Nat.strongRecOn generalizing s off with
  | ind len ih =>
    rw [copyMatch] at h
    split at h
    · obtain ⟨s₁, hcopy, hrest⟩ := bind_eq_ok.mp h
      exact (ih (len - off) (by omega) _ hrest).trans (sp_of_memcpy hcopy)
    · exact sp_of_memcpy h

theorem sp_of_copyTag {len off sp : Nat} (h : copyTag slen rawsize s len off sp = .ok (some s')) : s'.sp = sp := by
  rw [copyTag] at h
  split at h
  · cases h
  · next hgood =>
    cases hcopy : copyMatch rawsize { s with sp := sp } off (min (len : Int) (rawsize - s.dp)).toNat
      (Nat.pos_of_ne_zero fun hzero => hgood (.inr (.inl hzero))) with
    | error f =>
      rw [hcopy] at h
      cases h
    | ok s₁ =>
      rw [hcopy] at h
      cases h
      exact sp_of_copyMatch _ hcopy

theorem sp_of_expandItem {ctrl : UInt8} (h : expandItem source slen rawsize ctrl s = .ok (some s')) : s.sp ≤ s'.sp := by
  rw [expandItem] at h
  split at h
  · obtain ⟨b, -, h⟩ := bind_eq_ok.mp h
    split at h
    · cases h
      exact Nat.le_succ s.sp
    · cases h
  · obtain ⟨b, -, h⟩ := bind_eq_ok.mp h
    obtain ⟨b', -, h⟩ := bind_eq_ok.mp h
    dsimp only at h
    split at h
    · obtain ⟨ext, -, h⟩ := bind_eq_ok.mp h
      rw [sp_of_copyTag h]
      exact Nat.le_add_right s.sp 3
    · rw [sp_of_copyTag h]
      exact Nat.le_add_right s.sp 2

theorem sp_of_expandItems {bits : Nat} {ctrl : UInt8} (h : expandItems source slen rawsize bits ctrl s = .ok (some s')) :
    s.sp ≤ s'.sp := by
  induction bits generalizing ctrl s with
  | zero =>
    cases h
    exact Nat.le_refl _
  | succ bits ih =>
    rw [expandItems] at h
    split at h
    · cases hitem : expandItem source slen rawsize ctrl s with
      | error f =>
        rw [hitem] at h
        cases h
      | ok r =>
        rw [hitem] at h
        cases r with
        | none => cases h
        | some s₁ => exact Nat.le_trans (sp_of_expandItem hitem) (ih h)
    · cases h
      exact Nat.le_refl _

variable (source slen rawsize)

def expand (s : Expansion) : Expanded :=
  if _h : s.sp < slen ∧ s.dp < rawsize then
    match readSource source slen s.sp with
    | .error f => .error f
    | .ok ctrl =>
      match _hitems : expandItems source slen rawsize 8 ctrl { s with sp := s.sp + 1 } with
      | .error f => .error f
      | .ok none => .ok none
      | .ok (some s') => expand s'
  else .ok (some s)
termination_by (slen - s.sp).toNat
decreasing_by
  have hle := sp_of_expandItems _hitems
  dsimp only at hle
  omega

end Expansion

def pglzDecompressInto (source : Nat → UInt8) (slen rawsize : Int) (checkComplete : Bool) : Except PglzFault Int :=
  match Expansion.expand source slen rawsize ⟨0, 0, fun _ => none⟩ with
  | .error f => .error f
  | .ok none => .ok (-1)
  | .ok (some s) => .ok (if checkComplete ∧ (s.dp ≠ rawsize ∨ s.sp ≠ slen) then -1 else s.dp)

def sourceBytes (source : Nat → UInt8) (slen : Int) : Bytes := (List.range slen.toNat).map source

def holding (sp : Nat) (out : Bytes) : Expansion := ⟨sp, out.length, fun i => out[i]?⟩

variable {source : Nat → UInt8} {slen rawsize : Int} {sp bits off len : Nat} {ctrl : UInt8} {out : Bytes}

namespace Expansion

theorem readSource_eq (i : Nat) : readSource source slen i = match (sourceBytes source slen)[i]? with
      | none => .error .source
      | some b => .ok b := by
  rw [readSource, sourceBytes, List.getElem?_map]
  by_cases hi : i < slen.toNat
  · rw [if_pos (by omega), List.getElem?_range hi]
    rfl
  · have hend : (List.range slen.toNat).length ≤ i := by
      rw [List.length_range]
      exact Nat.not_lt.mp hi
    rw [if_neg (by omega), List.getElem?_eq_none hend]
    rfl

theorem memcpy_holding {n : Nat} (hoff : off ≤ out.length) (hn : n ≤ off) (hroom : (out.length + n : Int) ≤ rawsize) :
    memcpy rawsize (holding sp out) off n = .ok (holding sp (out ++ (out.drop (out.length - off)).take n)) := by
  have hslice : ((out.drop (out.length - off)).take n).length = n := by
    rw [List.length_take, List.length_drop]
    omega
  have hwritten : ¬∃ k < n, (holding sp out).dest ((holding sp out).dp - off + k) = none := by
    rintro ⟨k, hk, hnone⟩
    have hbehind : out.length ≤ out.length - off + k := List.getElem?_eq_none_iff.mp hnone
    omega
  have hfits : ¬(0 < n ∧ rawsize < ((holding sp out).dp : Int) + n) := fun h => absurd hroom (Int.not_le.mpr h.2)
  rw [memcpy, if_neg hwritten, if_neg hfits, holding, holding, List.length_append, hslice]
  congr 2
  funext i
  dsimp only
  by_cases hi : out.length ≤ i ∧ i < out.length + n
  · rw [if_pos hi, List.getElem?_append_right hi.1, List.getElem?_take_of_lt (by omega), List.getElem?_drop]
  · rw [if_neg hi]
    by_cases hlow : i < out.length
    · rw [List.getElem?_append_left hlow]
    · rw [List.getElem?_eq_none (Nat.not_lt.mp hlow), List.getElem?_eq_none]
      rw [List.length_append, hslice]
      omega

theorem copyMatch_holding (hpos : 0 < off) (hoff : off ≤ out.length) (hroom : (out.length + len : Int) ≤ rawsize) :
    copyMatch rawsize (holding sp out) off len hpos = .ok (holding sp (copyBack off len out)) := by
  induction len using Nat.strongRecOn generalizing out off with
  | ind len ih =>
    rw [copyMatch, copyBack]
    by_cases hmore : off < len
    · have hslice : (out ++ (out.drop (out.length - off)).take off).length = out.length + off := by
        rw [List.length_append, List.length_take, List.length_drop]
        omega
      rw [if_pos hmore, if_pos ⟨hmore, hpos⟩, memcpy_holding hoff (Nat.le_refl off) (by omega)]
      exact ih (len - off) (by omega) (Nat.add_pos_left hpos off) (by omega) (by omega)
    · rw [if_neg hmore, if_neg fun h => hmore h.1]
      exact memcpy_holding hoff (Nat.not_lt.mp hmore) hroom

theorem copyTag_holding (hsp : sp ≤ slen) (hroom : out.length < rawsize) (before : Nat) :
    copyTag slen rawsize (holding before out) len off sp = if off = 0 ∨ out.length < off then .ok none
      else .ok (some (holding sp (copyBack off (min len (rawsize.toNat - out.length)) out))) := by
  have hmin : (min (len : Int) (rawsize - out.length)).toNat = min len (rawsize.toNat - out.length) := by omega
  rw [copyTag]
  by_cases hbad : off = 0 ∨ out.length < off
  · rw [dif_pos (.inr hbad), if_pos hbad]
  · have hgood : ¬(slen < sp ∨ off = 0 ∨ (holding before out).dp < off) := fun h =>
      h.elim (fun hlt => absurd hsp (Int.not_le.mpr hlt)) hbad
    have hpos : 0 < off := Nat.pos_of_ne_zero fun hzero => hbad (.inl hzero)
    have hback : off ≤ out.length := Nat.not_lt.mp fun hlt => hbad (.inr hlt)
    have hcopy : copyMatch rawsize (holding sp out) off (min (len : Int) (rawsize - out.length)).toNat hpos =
        .ok (holding sp (copyBack off (min (len : Int) (rawsize - out.length)).toNat out)) := by
      apply copyMatch_holding hpos hback
      omega
    rw [dif_neg hgood, if_neg hbad, ← hmin]
    exact congrArg (Except.map some) hcopy

def ifWhole (whole : Bool) (slen : Nat) (r : Option (Bytes × Bytes)) : Expanded :=
  match whole with
  | true => .ok (r.map fun p => holding (slen - p.2.length) p.1)
  | false => .error .source

def outcome (source : Nat → UInt8) (slen rawsize : Int) (sp bits : Nat) (ctrl : UInt8) (out : Bytes) : Expanded :=
  ifWhole (tagsWhole rawsize.toNat ((sourceBytes source slen).drop sp) bits ctrl out.length) slen.toNat
    (decompressItems rawsize.toNat ((sourceBytes source slen).drop sp) bits ctrl out)

theorem length_sourceBytes : (sourceBytes source slen).length = slen.toNat := by
  rw [sourceBytes, List.length_map, List.length_range]

theorem outcome_done (hsp : sp ≤ slen.toNat) (h : ¬(sp < slen ∧ out.length < rawsize)) :
    outcome source slen rawsize sp bits ctrl out = .ok (some (holding sp out)) := by
  have hback : slen.toNat - ((sourceBytes source slen).drop sp).length = sp := by
    rw [List.length_drop, length_sourceBytes]
    omega
  rw [outcome]
  by_cases hfull : rawsize.toNat ≤ out.length
  · have hwhole : tagsWhole rawsize.toNat ((sourceBytes source slen).drop sp) bits ctrl out.length = true := by
      cases (sourceBytes source slen).drop sp with
      | nil => rw [tagsWhole]
      | cons b rest =>
        cases bits with
        | zero => rw [tagsWhole, if_pos hfull]
        | succ bits => rw [tagsWhole, if_pos hfull]
    rw [hwhole, decompressItems_full hfull, ifWhole, Option.map_some, hback]
  · have hnil : (sourceBytes source slen).drop sp = [] := by
      rw [List.drop_eq_nil_iff, length_sourceBytes]
      omega
    rw [hnil] at hback
    rw [hnil, tagsWhole, decompressItems, ifWhole, Option.map_some, hback]

theorem outcome_zero (ctrl' : UInt8) :
    outcome source slen rawsize sp 0 ctrl out = outcome source slen rawsize sp 0 ctrl' out := by
  rw [outcome, outcome]
  cases (sourceBytes source slen).drop sp with
  | nil => rfl
  | cons b rest => rw [tagsWhole, tagsWhole, decompressItems, decompressItems]

section

variable {b : UInt8} {rest : Bytes} (hdrop : (sourceBytes source slen).drop sp = b :: rest)
include hdrop

theorem drop_succ_of_drop : (sourceBytes source slen).drop (sp + 1) = rest := by
  rw [← List.drop_drop, hdrop, List.drop_one, List.tail_cons]

theorem readSource_of_drop : readSource source slen sp = .ok b := by
  have hget : (sourceBytes source slen)[sp]? = some b := by
    rw [← Nat.add_zero sp, ← List.getElem?_drop, hdrop]
    rfl
  rw [readSource_eq, hget]

theorem lt_of_drop : sp < slen.toNat := by
  have hlength := congrArg List.length hdrop
  rw [List.length_drop, length_sourceBytes, List.length_cons] at hlength
  omega

end

theorem cons_of_lt (hsp : sp < slen) : ∃ b rest, (sourceBytes source slen).drop sp = b :: rest := by
  apply List.exists_cons_of_ne_nil
  intro hnil
  have hend := List.drop_eq_nil_iff.mp hnil
  rw [length_sourceBytes] at hend
  omega

theorem readSource_behind (hdrop : (sourceBytes source slen).drop sp = []) :
    readSource source slen sp = .error .source := by
  have hend : (sourceBytes source slen).length ≤ sp := List.drop_eq_nil_iff.mp hdrop
  rw [readSource_eq, List.getElem?_eq_none hend]

theorem expandLiteral_holding {b : UInt8} {rest : Bytes} (hdrop : (sourceBytes source slen).drop sp = b :: rest)
    (hroom : out.length < rawsize) :
    expandLiteral source slen rawsize (holding sp out) = .ok (some (holding (sp + 1) (out ++ [b]))) := by
  have hpush : (fun i => if i = out.length then some b else out[i]?) = fun i => (out ++ [b])[i]? := by
    funext i
    by_cases hi : i = out.length
    · rw [if_pos hi, hi, List.getElem?_concat_length]
    · by_cases hlow : i < out.length
      · rw [if_neg hi, List.getElem?_append_left hlow]
      · have hfar : (out ++ [b]).length ≤ i := by
          rw [List.length_append, List.length_singleton]
          omega
        rw [if_neg hi, List.getElem?_eq_none (Nat.not_lt.mp hlow), List.getElem?_eq_none hfar]
  have hread : readSource source slen (holding sp out).sp = .ok b := readSource_of_drop hdrop
  have hdest : ((holding sp out).dp : Int) < rawsize := hroom
  rw [expandLiteral, hread, ok_bind, if_pos hdest, holding, holding, List.length_append, List.length_singleton, ← hpush]

theorem expandItem_holding {b : UInt8} {rest : Bytes} (hdrop : (sourceBytes source slen).drop sp = b :: rest)
    (hroom : out.length < rawsize) {f : Expansion → Expanded}
    (hf : ∀ sp' out', sp < sp' → sp' ≤ slen.toNat →
      f (holding sp' out') = outcome source slen rawsize sp' bits (ctrl >>> 1) out') :
    (expandItem source slen rawsize ctrl (holding sp out)).andThen f =
      outcome source slen rawsize sp (bits + 1) ctrl out := by
  have hsp := lt_of_drop hdrop
  have hnotfull : ¬rawsize.toNat ≤ out.length := by omega
  have hread : readSource source slen (holding sp out).sp = .ok b := readSource_of_drop hdrop
  have hnext := drop_succ_of_drop hdrop
  rw [expandItem]
  by_cases hbit : ctrl &&& 1 = 0
  · have hpushed := hf (sp + 1) (out ++ [b]) (Nat.lt_succ_self sp) hsp
    rw [if_pos hbit, expandLiteral_holding hdrop hroom]
    refine hpushed.trans ?_
    rw [outcome, outcome, hnext, hdrop, tagsWhole, decompressItems, if_neg hnotfull, if_neg hnotfull,
      List.length_append, List.length_singleton]
    dsimp only
    rw [if_pos hbit, if_pos hbit]
  · rw [if_neg hbit, expandTag, hread, ok_bind, outcome, hdrop, tagsWhole, decompressItems, if_neg hnotfull,
      if_neg hnotfull]
    dsimp only
    rw [if_neg hbit, if_neg hbit]
    cases rest with
    | nil =>
      -- the first byte of a tag is the last of the source
      rw [show readSource source slen ((holding sp out).sp + 1) = .error .source from readSource_behind hnext]
      rfl
    | cons b' rest =>
      have hsp' := lt_of_drop hnext
      have hnext' := drop_succ_of_drop hnext
      rw [show readSource source slen ((holding sp out).sp + 1) = .ok b' from readSource_of_drop hnext, ok_bind]
      dsimp only
      by_cases hlen : (b &&& 0x0f).toNat + 3 = 18
      · rw [if_pos hlen, if_pos hlen, if_pos hlen]
        cases rest with
        | nil =>
          -- a tag that is to be extended is the end of the source
          rw [show readSource source slen ((holding sp out).sp + 2) = .error .source from readSource_behind hnext']
          rfl
        | cons ext rest =>
          have hsp'' := lt_of_drop hnext'
          rw [show readSource source slen ((holding sp out).sp + 2) = .ok ext from readSource_of_drop hnext', ok_bind,
            copyTag_holding (by show ((sp + 3 : Nat) : Int) ≤ slen; omega) hroom]
          dsimp only
          by_cases hoff : (b &&& 0xf0).toNat <<< 4 ||| b'.toNat = 0 ∨ out.length < (b &&& 0xf0).toNat <<< 4 ||| b'.toNat
          · rw [if_pos hoff, if_pos hoff, if_pos hoff]
            rfl
          · rw [if_neg hoff, if_neg hoff, if_neg hoff]
            refine (hf (sp + 3) _ (by omega) hsp'').trans ?_
            rw [outcome, length_copyBack_of_ok hoff, drop_succ_of_drop hnext']
      · rw [if_neg hlen, if_neg hlen, if_neg hlen, copyTag_holding (by show ((sp + 2 : Nat) : Int) ≤ slen; omega) hroom]
        by_cases hoff : (b &&& 0xf0).toNat <<< 4 ||| b'.toNat = 0 ∨ out.length < (b &&& 0xf0).toNat <<< 4 ||| b'.toNat
        · rw [if_pos hoff, if_pos hoff, if_pos hoff]
          rfl
        · rw [if_neg hoff, if_neg hoff, if_neg hoff]
          refine (hf (sp + 2) _ (by omega) hsp').trans ?_
          rw [outcome, length_copyBack_of_ok hoff, hnext']

theorem expandItems_holding {f : Expansion → Expanded} (hsp : sp ≤ slen.toNat)
    (hf : ∀ sp' out', sp ≤ sp' → sp' ≤ slen.toNat → f (holding sp' out') = outcome source slen rawsize sp' 0 0 out') :
    (expandItems source slen rawsize bits ctrl (holding sp out)).andThen f =
      outcome source slen rawsize sp bits ctrl out := by
  induction bits generalizing sp ctrl out with
  | zero => exact (hf sp out (Nat.le_refl sp) hsp).trans (outcome_zero ctrl)
  | succ bits ih =>
    rw [expandItems]
    by_cases hin : ((holding sp out).sp : Int) < slen ∧ ((holding sp out).dp : Int) < rawsize
    · obtain ⟨b, rest, hdrop⟩ := cons_of_lt hin.1
      rw [if_pos hin, andThen_assoc]
      apply expandItem_holding hdrop hin.2
      intro sp' out' hlt hle
      exact ih hle fun sp₂ out₂ h h' => hf sp₂ out₂ (Nat.le_trans (Nat.le_of_lt hlt) h) h'
    · rw [if_neg hin, outcome_done hsp hin]
      exact (hf sp out (Nat.le_refl sp) hsp).trans (outcome_done hsp hin)

theorem expand_holding (hsp : sp ≤ slen.toNat) :
    expand source slen rawsize (holding sp out) = outcome source slen rawsize sp 0 0 out := by
  induction hn : slen.toNat - sp using Nat.strongRecOn generalizing sp out with
  | ind n ih =>
    rw [expand]
    by_cases hin : ((holding sp out).sp : Int) < slen ∧ ((holding sp out).dp : Int) < rawsize
    · obtain ⟨b, rest, hdrop⟩ : ∃ b rest, (sourceBytes source slen).drop sp = b :: rest := cons_of_lt hin.1
      have hlt := lt_of_drop hdrop
      have hread : readSource source slen (holding sp out).sp = .ok b := readSource_of_drop hdrop
      have hnotfull : ¬rawsize.toNat ≤ out.length := by
        have hroom : (out.length : Int) < rawsize := hin.2
        omega
      have hgroup : (expandItems source slen rawsize 8 b (holding (sp + 1) out)).andThen (expand source slen rawsize) =
          outcome source slen rawsize (sp + 1) 8 b out :=
        expandItems_holding hlt fun sp' out' hle hle' => ih (slen.toNat - sp') (by omega) hle' rfl
      rw [dif_pos hin, hread, outcome, hdrop, tagsWhole, decompressItems, if_neg hnotfull, if_neg hnotfull,
        ← drop_succ_of_drop hdrop]
      refine Eq.trans ?_ hgroup
      dsimp only
      change _ = (expandItems source slen rawsize 8 b { holding sp out with sp := (holding sp out).sp + 1 }).andThen _
      generalize expandItems source slen rawsize 8 b { holding sp out with sp := (holding sp out).sp + 1 } = x
      cases x with
      | error e => rfl
      | ok r => cases r <;> rfl
    · rw [dif_neg hin, outcome_done hsp hin]

end Expansion

theorem length_of_decompressItems {rawsize : Nat} {sp dest out rest : Bytes}
    (h : decompressItems rawsize sp bits ctrl dest = some (out, rest)) (hdest : dest.length ≤ rawsize) :
    out.length ≤ rawsize ∧ rest.length ≤ sp.length := by
  fun_induction decompressItems rawsize sp bits ctrl dest with
  | case1 | case2 =>
    cases h
    exact ⟨hdest, Nat.le_refl _⟩
  | case3 b sp ctrl dest hroom ih =>
    obtain ⟨hout, hrest⟩ := ih h hdest
    exact ⟨hout, Nat.le_succ_of_le hrest⟩
  | case4 b sp ctrl dest hroom bits hbit ih =>
    have hpushed : (dest ++ [b]).length ≤ rawsize := by
      rw [List.length_append, List.length_singleton]
      exact Nat.not_le.mp hroom
    obtain ⟨hout, hrest⟩ := ih h hpushed
    exact ⟨hout, Nat.le_succ_of_le hrest⟩
  | case5 | case6 | case7 | case9 => cases h
  | case8 b ctrl dest hroom bits hbit len b' off hlen ext sp hoff ih =>
    rw [length_copyBack_of_ok hoff] at ih
    obtain ⟨hout, hrest⟩ := ih h (by omega)
    exact ⟨hout, Nat.le_trans hrest (Nat.le_add_right sp.length 3)⟩
  | case10 b ctrl dest hroom bits hbit len b' sp off hlen hoff ih =>
    rw [length_copyBack_of_ok hoff] at ih
    obtain ⟨hout, hrest⟩ := ih h (by omega)
    exact ⟨hout, Nat.le_trans hrest (Nat.le_add_right sp.length 2)⟩

/-- The source is only read, and the destination only written, inside of what was given, nothing is
read back that was not written, and the result is -1 or a length that fits. -/
def PglzSafe (source : Nat → UInt8) (slen rawsize : Int) (checkComplete : Bool) : Prop :=
  ∃ n, pglzDecompressInto source slen rawsize checkComplete = .ok n ∧ (n = -1 ∨ 0 ≤ n ∧ n ≤ rawsize)

def SourceWhole (source : Nat → UInt8) (slen rawsize : Int) : Prop :=
  tagsWhole rawsize.toNat (sourceBytes source slen) 0 0 0 = true

theorem expand_start (source : Nat → UInt8) (slen rawsize : Int) :
    Expansion.expand source slen rawsize ⟨0, 0, fun _ => none⟩ =
      Expansion.ifWhole (tagsWhole rawsize.toNat (sourceBytes source slen) 0 0 0) slen.toNat
        (decompressItems rawsize.toNat (sourceBytes source slen) 0 0 []) := by
  change Expansion.expand source slen rawsize (holding 0 []) = _
  exact Expansion.expand_holding (Nat.zero_le _)

theorem pglzSafe_iff (source : Nat → UInt8) (slen rawsize : Int) (checkComplete : Bool) :
    PglzSafe source slen rawsize checkComplete ↔
      SourceWhole source slen rawsize ∧ (0 ≤ rawsize ∨ checkComplete = true) := by
  rw [PglzSafe, SourceWhole, pglzDecompressInto, expand_start]
  cases hwhole : tagsWhole rawsize.toNat (sourceBytes source slen) 0 0 0 with
  | false =>
    constructor
    · rintro ⟨n, h, -⟩
      cases h
    · rintro ⟨h, -⟩
      cases h
  | true =>
    by_cases hraw : 0 ≤ rawsize
    · refine ⟨fun _ => ⟨rfl, .inl hraw⟩, fun _ => ?_⟩
      cases hread : decompressItems rawsize.toNat (sourceBytes source slen) 0 0 [] with
      | none => exact ⟨-1, rfl, .inl rfl⟩
      | some p =>
        obtain ⟨out, rest⟩ := p
        have hlength := (length_of_decompressItems hread (Nat.zero_le _)).1
        refine ⟨_, rfl, ?_⟩
        split
        · exact .inl rfl
        · refine .inr ⟨Int.natCast_nonneg _, ?_⟩
          show (out.length : Int) ≤ rawsize
          omega
    · -- nothing is done, and a length of 0 is above a negative one
      have hzero : rawsize.toNat = 0 := by omega
      have hread : decompressItems 0 (sourceBytes source slen) 0 0 [] = some ([], sourceBytes source slen) :=
        decompressItems_full (Nat.le_refl 0) _ _ _
      rw [hzero, hread]
      cases checkComplete with
      | true =>
        refine ⟨fun _ => ⟨rfl, .inr rfl⟩, fun _ => ⟨-1, ?_, .inl rfl⟩⟩
        have hne : ((holding (slen.toNat - (sourceBytes source slen).length) []).dp : Int) ≠ rawsize := fun h => by
          rw [← h] at hraw
          exact hraw (Int.natCast_nonneg _)
        exact congrArg Except.ok (if_pos ⟨rfl, .inl hne⟩)
      | false =>
        constructor
        · rintro ⟨n, h, hn⟩
          cases h
          rcases hn with hn | ⟨-, hn⟩
          · cases hn
          · exact absurd hn hraw
        · rintro ⟨-, h | h⟩
          · exact absurd h hraw
          · cases h

/-- A source that ends in the middle of a tag. -/
theorem cut_tag_read_behind_source : ¬PglzSafe (fun i => if i = 0 then 1 else 0) 2 1 false := by
  rintro ⟨n, h, -⟩
  rw [pglzDecompressInto, expand_start] at h
  cases h

end CdcKafka.Xlog
