import CdcKafka.Lib.LinearHash
import Mathlib.Algebra.Order.Ring.Nat
import Mathlib.Data.List.GetD
import Mathlib.Data.Nat.Bitwise

/-! What a lookup in a table that grows by one bucket at a time finds: the element entered last
under its key, however often the table has been expanded. -/

namespace CdcKafka.Lib

def LinearHeader.Sized (hctl : LinearHeader) : Prop :=
  ∃ k, hctl.lowMask = 2 ^ k - 1 ∧ hctl.highMask = 2 ^ (k + 1) - 1 ∧
    hctl.lowMask ≤ hctl.maxBucket ∧ hctl.maxBucket ≤ hctl.highMask

def LinearHeader.grow (hctl : LinearHeader) : LinearHeader :=
  if hctl.highMask < hctl.maxBucket + 1 then
    { maxBucket := hctl.maxBucket + 1
      lowMask := hctl.highMask
      highMask := (hctl.maxBucket + 1) ||| hctl.highMask }
  else { hctl with maxBucket := hctl.maxBucket + 1 }

theorem LinearHeader.maxBucket_grow (hctl : LinearHeader) : hctl.grow.maxBucket = hctl.maxBucket + 1 := by
  unfold grow
  split <;> rfl

theorem or_two_pow_sub_one (k : Nat) : 2 ^ k ||| (2 ^ k - 1) = 2 ^ (k + 1) - 1 := by
  have hpos := Nat.two_pow_pos k
  have hadd := Nat.two_pow_add_eq_or_of_lt (i := k) (b := 2 ^ k - 1) (by omega) 1
  rw [Nat.mul_one] at hadd
  rw [← hadd, Nat.pow_succ]
  omega

theorem LinearHeader.Sized.grow {hctl : LinearHeader} (h : hctl.Sized) : hctl.grow.Sized := by
  obtain ⟨k, hlow, hhigh, hle, hle'⟩ := h
  have hpos := Nat.two_pow_pos k
  have hpow : 2 ^ (k + 1) = 2 ^ k * 2 := Nat.pow_succ 2 k
  unfold LinearHeader.grow
  split
  · next hfull =>
    have hmax : hctl.maxBucket + 1 = 2 ^ (k + 1) := by omega
    refine ⟨k + 1, hhigh, ?_, by simp only; omega, ?_⟩
    · simp only [hmax, hhigh, or_two_pow_sub_one]
    · simp only [hmax, hhigh, or_two_pow_sub_one]
      have hpow' : 2 ^ (k + 1 + 1) = 2 ^ (k + 1) * 2 := Nat.pow_succ 2 (k + 1)
      omega
  · next hfull => exact ⟨k, hlow, hhigh, by simp only; omega, by simp only; omega⟩

theorem LinearHeader.bucket_eq (hctl : LinearHeader) {k : Nat} (hlow : hctl.lowMask = 2 ^ k - 1)
    (hhigh : hctl.highMask = 2 ^ (k + 1) - 1) (hash : Nat) :
    hctl.bucket hash = if hctl.maxBucket < hash % 2 ^ (k + 1) then hash % 2 ^ (k + 1) % 2 ^ k
      else hash % 2 ^ (k + 1) := by
  simp only [bucket, hlow, hhigh, Nat.and_two_pow_sub_one_eq_mod]

theorem LinearHeader.Sized.bucket_le {hctl : LinearHeader} (h : hctl.Sized) (hash : Nat) :
    hctl.bucket hash ≤ hctl.maxBucket := by
  obtain ⟨k, hlow, hhigh, hle, hle'⟩ := h
  rw [bucket_eq hctl hlow hhigh]
  split
  · have hmod : hash % 2 ^ (k + 1) % 2 ^ k < 2 ^ k := Nat.mod_lt _ (Nat.two_pow_pos k)
    omega
  · omega

theorem LinearHeader.Sized.bucket_grow {hctl : LinearHeader} (h : hctl.Sized) (hash : Nat) :
    (hctl.grow.bucket hash = hctl.maxBucket + 1 ∧ hctl.bucket hash = (hctl.maxBucket + 1) &&& hctl.lowMask) ∨
      (hctl.grow.bucket hash = hctl.bucket hash ∧ hctl.bucket hash ≤ hctl.maxBucket) := by
  have hbucket := h.bucket_le hash
  obtain ⟨k, hlow, hhigh, hle, hle'⟩ := h
  have hpos := Nat.two_pow_pos k
  have hpow : 2 ^ (k + 1) = 2 ^ k * 2 := Nat.pow_succ 2 k
  rw [hlow, Nat.and_two_pow_sub_one_eq_mod]
  have hold := bucket_eq hctl hlow hhigh hash
  by_cases hfull : hctl.highMask < hctl.maxBucket + 1
  · -- every bucket of the high mask is in use: the masks double
    have hmax : hctl.maxBucket + 1 = 2 ^ (k + 1) := by omega
    have hgrow : hctl.grow = ⟨2 ^ (k + 1), 2 ^ (k + 1) - 1, 2 ^ (k + 1 + 1) - 1⟩ := by
      rw [LinearHeader.grow, if_pos hfull, hmax, hhigh, or_two_pow_sub_one]
    have hnew := bucket_eq hctl.grow (k := k + 1) (by rw [hgrow]) (by rw [hgrow]) hash
    have hmod : hash % 2 ^ (k + 1 + 1) % 2 ^ (k + 1) = hash % 2 ^ (k + 1) :=
      Nat.mod_mod_of_dvd _ (Nat.pow_dvd_pow 2 (by omega))
    have hlt : hash % 2 ^ (k + 1) < 2 ^ (k + 1) := Nat.mod_lt _ (Nat.two_pow_pos _)
    rw [if_neg (by omega)] at hold
    rw [hmod, hgrow] at hnew
    rw [hgrow]
    by_cases hash' : 2 ^ (k + 1) < hash % 2 ^ (k + 1 + 1)
    · rw [if_pos hash'] at hnew
      exact .inr ⟨by rw [hnew, hold], hbucket⟩
    · rw [if_neg hash'] at hnew
      rcases Nat.lt_or_ge (hash % 2 ^ (k + 1 + 1)) (2 ^ (k + 1)) with hsmall | hlarge
      · rw [Nat.mod_eq_of_lt hsmall] at hmod
        exact .inr ⟨by rw [hnew, hold, hmod], hbucket⟩
      · have heq : hash % 2 ^ (k + 1 + 1) = 2 ^ (k + 1) := by omega
        rw [heq, Nat.mod_self] at hmod
        have hzero : 2 ^ (k + 1) % 2 ^ k = 0 :=
          Nat.mod_eq_zero_of_dvd (Nat.pow_dvd_pow 2 (by omega))
        exact .inl ⟨by rw [hnew, heq, hmax], by rw [hold, ← hmod, hmax, hzero]⟩
  · have hgrow : hctl.grow = { hctl with maxBucket := hctl.maxBucket + 1 } := by
      rw [LinearHeader.grow, if_neg hfull]
    have hnew := bucket_eq hctl.grow (k := k) (by rw [hgrow]; exact hlow) (by rw [hgrow]; exact hhigh) hash
    rw [hgrow] at hnew ⊢
    simp only at hnew
    rw [hnew]
    by_cases hsmall : hctl.maxBucket < hash % 2 ^ (k + 1)
    · rw [if_pos hsmall] at hold
      rcases Nat.lt_or_ge (hctl.maxBucket + 1) (hash % 2 ^ (k + 1)) with hlt | hge
      · exact .inr ⟨by rw [if_pos hlt, hold], hbucket⟩
      · have heq : hash % 2 ^ (k + 1) = hctl.maxBucket + 1 := by omega
        exact .inl ⟨by rw [if_neg (by omega), heq], by rw [hold, heq]⟩
    · rw [if_neg hsmall] at hold
      exact .inr ⟨by rw [if_neg (by omega), hold], hbucket⟩

namespace LinearHash

variable {α β : Type}

structure Sized (t : LinearHash α) : Prop where
  hctl : t.hctl.Sized
  length : t.buckets.length = t.hctl.maxBucket + 1

theorem Sized.create (k : Nat) : (LinearHash.create (2 ^ k) : LinearHash α).Sized := by
  have hpos := Nat.two_pow_pos k
  have hpow : 2 ^ (k + 1) = 2 ^ k * 2 := Nat.pow_succ 2 k
  refine ⟨⟨k, rfl, ?_, Nat.le_refl _, ?_⟩, ?_⟩
  · simp only [LinearHash.create]
    omega
  · simp only [LinearHash.create]
    omega
  · simp only [LinearHash.create, List.length_replicate]
    omega

section Keys

variable {κ : Type} [DecidableEq κ] (key : α → κ) (h : κ → Nat)

def lookup (t : LinearHash α) (k : κ) : Option α := t.find? (fun a => key a = k) (h k)

theorem lookup_create (nbuckets : Nat) (k : κ) : (create nbuckets : LinearHash α).lookup key h k = none := by
  simp only [lookup, find?, create]
  rw [List.getD_eq_getElem?_getD, List.getElem?_replicate]
  split <;> rfl

theorem expand_eq (t : LinearHash α) (hash : α → Nat) : t.expand hash = ⟨t.hctl.grow,
        (t.buckets.set ((t.hctl.maxBucket + 1) &&& t.hctl.lowMask)
            ((t.buckets.getD ((t.hctl.maxBucket + 1) &&& t.hctl.lowMask) []).filter fun a =>
              t.hctl.grow.bucket (hash a) = (t.hctl.maxBucket + 1) &&& t.hctl.lowMask)) ++
          [(t.buckets.getD ((t.hctl.maxBucket + 1) &&& t.hctl.lowMask) []).filter fun a =>
            t.hctl.grow.bucket (hash a) ≠ (t.hctl.maxBucket + 1) &&& t.hctl.lowMask]⟩ := rfl

theorem Sized.expand {t : LinearHash α} (ht : t.Sized) (hash : α → Nat) : (t.expand hash).Sized := by
  rw [expand_eq]
  exact ⟨ht.hctl.grow, by simp [ht.length, LinearHeader.maxBucket_grow]⟩

theorem Sized.split_le {t : LinearHash α} (ht : t.Sized) :
    (t.hctl.maxBucket + 1) &&& t.hctl.lowMask ≤ t.hctl.maxBucket := by
  obtain ⟨k, hlow, -, hle, -⟩ := ht.hctl
  have hpos := Nat.two_pow_pos k
  rw [hlow, Nat.and_two_pow_sub_one_eq_mod]
  have hmod := Nat.mod_lt (t.hctl.maxBucket + 1) hpos
  omega

theorem find?_filter_key {p : Nat → Bool} {k : κ} (hp : p (h k)) (chain : List α) :
    (chain.filter fun a => p (h (key a))).find? (fun a => key a = k) = chain.find? (fun a => key a = k) := by
  rw [List.find?_filter]
  congr 1
  funext a
  by_cases ha : key a = k
  · simp [ha, hp]
  · simp [ha]

theorem lookup_expand {t : LinearHash α} (ht : t.Sized) (k : κ) :
    (t.expand fun a => h (key a)).lookup key h k = t.lookup key h k := by
  have hsplit := ht.split_le
  have hlen := ht.length
  simp only [lookup, find?, expand_eq]
  rcases ht.hctl.bucket_grow (h k) with ⟨hnew, hold⟩ | ⟨hnew, hle⟩
  · -- the chain of the key has moved to the new bucket
    rw [hnew, hold, List.getD_append_right _ _ _ _ (by simp; omega)]
    have hlast : t.hctl.maxBucket + 1 - (t.buckets.set ((t.hctl.maxBucket + 1) &&& t.hctl.lowMask)
        ((t.buckets.getD ((t.hctl.maxBucket + 1) &&& t.hctl.lowMask) []).filter fun a =>
          t.hctl.grow.bucket (h (key a)) = (t.hctl.maxBucket + 1) &&& t.hctl.lowMask)).length =
        0 := by
      rw [List.length_set]
      omega
    rw [hlast]
    exact find?_filter_key key h
      (p := fun x => decide (t.hctl.grow.bucket x ≠ (t.hctl.maxBucket + 1) &&& t.hctl.lowMask))
      (by rw [hnew]; simp only [decide_eq_true_eq]; omega) _
  · rw [hnew, List.getD_append _ _ _ _ (by simp; omega)]
    by_cases heq : t.hctl.bucket (h k) = (t.hctl.maxBucket + 1) &&& t.hctl.lowMask
    · rw [heq, List.getD_eq_getElem?_getD, List.getElem?_set_self (by omega), Option.getD_some]
      exact find?_filter_key key h
        (p := fun x => decide (t.hctl.grow.bucket x = (t.hctl.maxBucket + 1) &&& t.hctl.lowMask))
        (by rw [hnew, heq]; simp) _
    · rw [List.getD_eq_getElem?_getD, List.getElem?_set_ne (Ne.symm heq), ← List.getD_eq_getElem?_getD]

theorem find?_modify_key (k k' : κ) (a : α) (ha : key a = k) (chain : List α) {i : Nat}
    (hi : chain.findIdx? (fun b => key b = k) = some i) :
    (chain.modify i fun _ => a).find? (fun b => key b = k') =
      if k = k' then some a else chain.find? (fun b => key b = k') := by
  induction chain generalizing i with
  | nil => simp at hi
  | cons b chain ih =>
    rw [List.findIdx?_cons] at hi
    by_cases hb : key b = k
    · have hi0 : i = 0 := by simpa [hb] using hi.symm
      subst hi0
      rw [List.modify_zero_cons, List.find?_cons, List.find?_cons, ha, hb]
      by_cases hk : k = k'
      · simp [hk]
      · simp [hk]
    · simp only [hb, decide_false, Bool.false_eq_true, if_false, Option.map_eq_some_iff] at hi
      obtain ⟨j, hj, rfl⟩ := hi
      rw [List.modify_succ_cons, List.find?_cons, ih hj, List.find?_cons]
      by_cases hk : k = k'
      · subst hk
        simp [hb]
      · simp [hk]

theorem lookup_modify_bucket {t : LinearHash α} (ht : t.Sized) (keyHash : Nat) (f : List α → List α) (k : κ) :
    LinearHash.lookup key h { t with buckets := t.buckets.modify (t.hctl.bucket keyHash) f } k =
      if t.hctl.bucket keyHash = t.hctl.bucket (h k) then
        (f (t.buckets.getD (t.hctl.bucket keyHash) [])).find? (fun a => key a = k)
      else t.lookup key h k := by
  have hle := ht.hctl.bucket_le keyHash
  have hlen := ht.length
  simp only [lookup, find?]
  by_cases heq : t.hctl.bucket keyHash = t.hctl.bucket (h k)
  · have hlt : t.hctl.bucket (h k) < t.buckets.length := by omega
    rw [if_pos heq, heq, List.getD_eq_getElem?_getD, List.getElem?_modify_eq,
      List.getD_eq_getElem?_getD, List.getElem?_eq_getElem hlt]
    rfl
  · rw [if_neg heq, List.getD_eq_getElem?_getD, List.getElem?_modify_ne _ _ heq, ← List.getD_eq_getElem?_getD]

theorem modify_eq (t : LinearHash α) (isKey : α → Bool) (keyHash : Nat) (f : α → α) : t.modify isKey keyHash f =
      { t with
        buckets := t.buckets.modify (t.hctl.bucket keyHash) fun chain =>
          match chain.findIdx? isKey with
          | some i => chain.modify i f
          | none => chain } := rfl

theorem Sized.modify {t : LinearHash α} (ht : t.Sized) (isKey : α → Bool) (keyHash : Nat)
    (f : α → α) : (t.modify isKey keyHash f).Sized :=
  ⟨ht.hctl, by rw [modify_eq, List.length_modify]; exact ht.length⟩

def store (t : LinearHash α) (a : α) : LinearHash α :=
  match t.find? (fun b => key b = key a) (h (key a)) with
  | some _ => t.modify (fun b => key b = key a) (h (key a)) fun _ => a
  | none =>
    { t with
      buckets := t.buckets.modify (t.hctl.bucket (h (key a))) fun chain => chain ++ [a] }

theorem enter_eq (t : LinearHash α) (a : α) : t.enter (fun b => h (key b)) (fun b => key b = key a) (h (key a)) a =
      if t.hctl.maxBucket < t.entries.length then (t.expand fun b => h (key b)).store key h a
      else t.store key h a := by
  unfold enter store
  split <;> rfl

theorem Sized.store {t : LinearHash α} (ht : t.Sized) (a : α) : (t.store key h a).Sized := by
  unfold LinearHash.store
  split
  · exact ht.modify _ _ _
  · exact ⟨ht.hctl, by simp only [List.length_modify]; exact ht.length⟩

theorem lookup_store {t : LinearHash α} (ht : t.Sized) (a : α) (k : κ) :
    (t.store key h a).lookup key h k = if key a = k then some a else t.lookup key h k := by
  unfold store
  split
  · next b hb =>
    rw [modify_eq, lookup_modify_bucket key h ht]
    by_cases hbucket : t.hctl.bucket (h (key a)) = t.hctl.bucket (h k)
    · rw [if_pos hbucket]
      have hsome : ((t.buckets.getD (t.hctl.bucket (h (key a))) []).findIdx? (fun b => key b = key a)).isSome := by
        rw [List.findIdx?_isSome]
        rw [find?] at hb
        have hkey := List.find?_some hb
        exact List.any_eq_true.mpr ⟨b, List.mem_of_find?_eq_some hb, hkey⟩
      obtain ⟨i, hi⟩ := Option.isSome_iff_exists.mp hsome
      rw [hi, find?_modify_key key (key a) k a rfl _ hi, lookup, find?, hbucket]
    · rw [if_neg hbucket, if_neg fun hk => hbucket (by rw [hk])]
  · next hnone =>
    rw [lookup_modify_bucket key h ht]
    by_cases hbucket : t.hctl.bucket (h (key a)) = t.hctl.bucket (h k)
    · rw [if_pos hbucket, List.find?_append, lookup, find?, ← hbucket]
      by_cases hk : key a = k
      · subst hk
        rw [find?] at hnone
        rw [hnone, if_pos rfl]
        simp
      · rw [if_neg hk]
        simp [hk]
    · rw [if_neg hbucket, if_neg fun hk => hbucket (by rw [hk])]

theorem Sized.enter {t : LinearHash α} (ht : t.Sized) (a : α) :
    (t.enter (fun b => h (key b)) (fun b => key b = key a) (h (key a)) a).Sized := by
  rw [enter_eq]
  split
  · exact (ht.expand _).store key h a
  · exact ht.store key h a

theorem lookup_enter {t : LinearHash α} (ht : t.Sized) (a : α) (k : κ) :
    (t.enter (fun b => h (key b)) (fun b => key b = key a) (h (key a)) a).lookup key h k =
      if key a = k then some a else t.lookup key h k := by
  rw [enter_eq]
  split
  · rw [lookup_store key h (ht.expand _), lookup_expand key h ht]
  · exact lookup_store key h ht a k

end Keys

section View

variable (g : α → β)

def map (t : LinearHash α) : LinearHash β := ⟨t.hctl, t.buckets.map (List.map g)⟩

variable {g}

theorem sized_map {t : LinearHash α} : (t.map g).Sized ↔ t.Sized :=
  ⟨fun ht => ⟨ht.hctl, by simpa [map] using ht.length⟩, fun ht => ⟨ht.hctl, by simpa [map] using ht.length⟩⟩

theorem lookup_map {κ : Type} [DecidableEq κ] (key : β → κ) (h : κ → Nat) (t : LinearHash α)
    (k : κ) : (t.map g).lookup key h k = (t.lookup (fun a => key (g a)) h k).map g := by
  have hchain : (t.buckets.map (List.map g)).getD (t.hctl.bucket (h k)) [] =
      (t.buckets.getD (t.hctl.bucket (h k)) []).map g :=
    List.getD_map t.buckets [] (List.map g)
  simp only [lookup, find?, map, hchain, List.find?_map]
  rfl

theorem list_map_modify {γ δ : Type} {g : γ → δ} {f : γ → γ} (hf : ∀ a, g (f a) = g a)
    (l : List γ) (i : Nat) : (l.modify i f).map g = l.map g := by
  apply List.ext_getElem?
  intro j
  rw [List.getElem?_map, List.getElem?_map, List.getElem?_modify, Option.map_eq_map, Option.map_map]
  split
  · congr 1
    funext a
    exact hf a
  · rfl

theorem map_modify {f : α → α} (hf : ∀ a, g (f a) = g a) (t : LinearHash α) (isKey : α → Bool)
    (keyHash : Nat) : (t.modify isKey keyHash f).map g = t.map g := by
  have hbuckets : (t.modify isKey keyHash f).buckets.map (List.map g) = t.buckets.map (List.map g) := by
    rw [modify_eq]
    apply list_map_modify
    intro chain
    split
    · exact list_map_modify hf chain _
    · rfl
  exact congrArg (LinearHash.mk t.hctl) hbuckets

theorem map_updateFirst {f : α → α} (hf : ∀ a, g (f a) = g a) (p : α → Bool) (l : List α) :
    (updateFirst p f l).map g = l.map g := by
  induction l with
  | nil => rfl
  | cons a l ih =>
    simp only [updateFirst]
    split
    · rw [List.map_cons, List.map_cons, hf]
    · rw [List.map_cons, List.map_cons, ih]

theorem map_scanUpdateFirst {f : α → α} (hf : ∀ a, g (f a) = g a) (p : α → Bool) (buckets : List (List α)) :
    (scanUpdateFirst p f buckets).map (List.map g) = buckets.map (List.map g) := by
  induction buckets with
  | nil => rfl
  | cons chain rest ih =>
    simp only [scanUpdateFirst]
    split
    · rw [List.map_cons, List.map_cons, map_updateFirst hf]
    · rw [List.map_cons, List.map_cons, ih]

end View

end LinearHash
end CdcKafka.Lib
