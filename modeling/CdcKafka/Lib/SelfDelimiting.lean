import Mathlib.Data.List.Basic

/-! Self-delimiting codes: a code word read off the front of any text
determines both the value and the rest of the text. -/

namespace CdcKafka.Lib

variable {α β γ : Type*}

def DelimAt (f : α → List γ) (a : α) : Prop :=
  ∀ b r s, f a ++ r = f b ++ s → a = b ∧ r = s

def SelfDelim (f : α → List γ) : Prop := ∀ a, DelimAt f a

theorem selfDelim_of_decode {f : α → List γ} (d : List γ → Option (α × List γ))
    (h : ∀ a r, d (f a ++ r) = some (a, r)) : SelfDelim f := by
  intro a b r s hab
  have hh : some (a, r) = some (b, s) := by rw [← h a r, ← h b s, hab]
  simpa using hh

theorem selfDelim_flatMap_close {f : α → List γ} {close : γ} (hf : SelfDelim f)
    (hc : ∀ a, ∃ c t, f a = c :: t ∧ c ≠ close) :
    SelfDelim (fun xs : List α => xs.flatMap f ++ [close]) := by
  intro xs
  induction xs with
  | nil =>
    intro ys r s h
    cases ys with
    | nil => simpa using h
    | cons y ys =>
      obtain ⟨c, t, hy, hne⟩ := hc y
      simp only [List.flatMap_nil, List.flatMap_cons, hy, List.nil_append, List.cons_append, List.cons.injEq] at h
      exact absurd h.1.symm hne
  | cons x xs ih =>
    intro ys r s h
    cases ys with
    | nil =>
      obtain ⟨c, t, hx, hne⟩ := hc x
      simp only [List.flatMap_nil, List.flatMap_cons, hx, List.nil_append, List.cons_append, List.cons.injEq] at h
      exact absurd h.1 hne
    | cons y ys =>
      simp only [List.flatMap_cons, List.append_assoc] at h
      obtain ⟨rfl, hrest⟩ := hf x y _ _ h
      obtain ⟨rfl, hr⟩ := ih ys r s (by simpa only [List.append_assoc] using hrest)
      exact ⟨rfl, hr⟩

def sepClose (sep close : List γ) (f : α → List γ) : List α → List γ
  | [] => close
  | [x] => f x ++ close
  | x :: y :: xs => f x ++ sep ++ sepClose sep close f (y :: xs)

theorem sepClose_cons_cons (sep close : List γ) (f : α → List γ) (x y : α) (xs : List α) :
    sepClose sep close f (x :: y :: xs) = f x ++ (sep ++ sepClose sep close f (y :: xs)) := by
  rw [sepClose, List.append_assoc]

theorem delimAt_sepClose {sep close : List γ} {f : α → List γ} {c d : γ} {sep' close' : List γ}
    (hs : sep = c :: sep') (hc : close = d :: close') (hcd : c ≠ d)
    (hstart : ∀ a, ∃ e t, f a = e :: t ∧ e ≠ d) (xs : List α) (hf : ∀ a ∈ xs, DelimAt f a) :
    DelimAt (sepClose sep close f) xs := by
  have hnil : ∀ (y : α) (ys : List α) (r s : List γ), close ++ r ≠ sepClose sep close f (y :: ys) ++ s := by
    intro y ys r s h
    obtain ⟨e, t, hy, hne⟩ := hstart y
    have hhead : (sepClose sep close f (y :: ys)).head? = some e := by
      cases ys <;> simp [sepClose, hy]
    cases hw : sepClose sep close f (y :: ys) with
    | nil => simp [hw] at hhead
    | cons e' t' =>
      rw [hw] at hhead h
      simp only [hc, List.cons_append, List.cons.injEq] at h
      simp only [List.head?_cons, Option.some.injEq] at hhead
      exact hne (hhead ▸ h.1.symm)
  have hmix : ∀ r s : List γ, close ++ r ≠ sep ++ s := by
    intro r s h
    simp only [hs, hc, List.cons_append, List.cons.injEq] at h
    exact hcd h.1.symm
  induction xs with
  | nil =>
    intro ys r s h
    cases ys with
    | nil => exact ⟨rfl, List.append_cancel_left h⟩
    | cons y ys => exact absurd h (hnil y ys r s)
  | cons x xs ih =>
    intro ys r s h
    have hx := hf x (List.mem_cons_self ..)
    have htail := ih fun a ha => hf a (List.mem_cons_of_mem _ ha)
    cases ys with
    | nil => exact absurd h.symm (hnil x xs s r)
    | cons y ys =>
      cases xs with
      | nil =>
        cases ys with
        | nil =>
          simp only [sepClose, List.append_assoc] at h
          obtain ⟨rfl, hrest⟩ := hx y _ _ h
          exact ⟨rfl, List.append_cancel_left hrest⟩
        | cons y' ys =>
          simp only [sepClose_cons_cons] at h
          simp only [sepClose, List.append_assoc] at h
          exact absurd (hx y _ _ h).2 (hmix _ _)
      | cons x' xs =>
        cases ys with
        | nil =>
          simp only [sepClose_cons_cons] at h
          simp only [sepClose, List.append_assoc] at h
          exact absurd (hx y _ _ h).2.symm (hmix _ _)
        | cons y' ys =>
          simp only [sepClose_cons_cons, List.append_assoc] at h
          obtain ⟨rfl, hrest⟩ := hx y _ _ h
          obtain ⟨h', hr⟩ := htail (y' :: ys) r s (List.append_cancel_left hrest)
          exact ⟨by rw [h'], hr⟩

end CdcKafka.Lib
