import Mathlib.Data.List.Basic

/-! Runs of a labelled transition relation and the rule that carries an invariant
through them. -/

namespace CdcKafka.Lib

variable {σ ε : Type*} {R : σ → ε → σ → Prop}

inductive Steps (R : σ → ε → σ → Prop) : σ → List ε → σ → Prop
  | nil (s : σ) : Steps R s [] s
  | cons {s t u : σ} {e : ε} {es : List ε} : R s e t → Steps R t es u → Steps R s (e :: es) u

theorem Steps.invariant {P : σ → Prop} (hstep : ∀ {s e t}, P s → R s e t → P t)
    {s t : σ} {es : List ε} (h : Steps R s es t) (hs : P s) : P t := by
  induction h with
  | nil s => exact hs
  | cons hR _ ih => exact ih (hstep hs hR)

theorem Steps.mono {R' : σ → ε → σ → Prop} (hR : ∀ {s e t}, R s e t → R' s e t) {s t : σ}
    {es : List ε} (h : Steps R s es t) : Steps R' s es t := by
  induction h with
  | nil s => exact .nil s
  | cons hs _ ih => exact .cons (hR hs) ih

theorem Steps.append {s t u : σ} {es es' : List ε} (h : Steps R s es t) (h' : Steps R t es' u) :
    Steps R s (es ++ es') u := by
  induction h with
  | nil s => exact h'
  | cons hR _ ih => exact .cons hR (ih h')

theorem steps_of_foldlM {step : σ → ε → Option σ} {s t : σ} {es : List ε}
    (h : es.foldlM step s = some t) : Steps (fun s e t => step s e = some t) s es t := by
  induction es generalizing s with
  | nil =>
    obtain rfl : s = t := by simpa using h
    exact .nil s
  | cons e es ih =>
    simp only [List.foldlM_cons, Option.bind_eq_bind, Option.bind_eq_some_iff] at h
    obtain ⟨u, hu, htail⟩ := h
    exact .cons hu (ih htail)

end CdcKafka.Lib
