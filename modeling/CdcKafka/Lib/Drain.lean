import Mathlib.Data.Multiset.AddSub

/-! Taking the greatest element of a collection again and again. -/

namespace CdcKafka.Lib

variable {σ α : Type} {next : σ → Option (σ × α)} {Holds : σ → Multiset α → Prop} {le : α → α → Prop}

def drain (next : σ → Option (σ × α)) : Nat → σ → Option (σ × List α)
  | 0, s => some (s, [])
  | n + 1, s => (next s).bind fun r => (drain next n r.1).map fun q => (q.1, r.2 :: q.2)

/-- `taken` are the greatest elements of `all`, greatest first, and `rest` are the others. -/
structure Taken (le : α → α → Prop) (rest all : Multiset α) (taken : List α) : Prop where
  all_eq : (taken : Multiset α) + rest = all
  sorted : taken.Pairwise fun a b => le b a
  above : ∀ a ∈ taken, ∀ b ∈ rest, le b a

/-- `next` takes a greatest element of what a state holds, unless that is nothing. -/
def TakesGreatest (next : σ → Option (σ × α)) (Holds : σ → Multiset α → Prop) (le : α → α → Prop) : Prop :=
  ∀ s all, Holds s all → all ≠ 0 → ∃ s' a rest, next s = some (s', a) ∧ Holds s' rest ∧ a ::ₘ rest = all ∧
    ∀ b ∈ all, le b a

theorem drain_taken (hnext : TakesGreatest next Holds le) {n : Nat} {s : σ} {all : Multiset α} (hs : Holds s all)
    (hn : n ≤ all.card) :
    ∃ s' taken rest, drain next n s = some (s', taken) ∧ taken.length = n ∧ Holds s' rest ∧ Taken le rest all taken := by
  induction n generalizing s all with
  | zero => exact ⟨s, [], all, rfl, rfl, hs, Multiset.zero_add all, .nil, fun _ ha => by cases ha⟩
  | succ n ih =>
    have hne : all ≠ 0 := Multiset.card_pos.mp (by omega)
    obtain ⟨s₁, a, rest₁, hcall, hs₁, rfl, hle⟩ := hnext s all hs hne
    rw [Multiset.card_cons] at hn
    obtain ⟨s', taken, rest, hrun, hlen, hs', htaken⟩ := ih hs₁ (Nat.le_of_succ_le_succ hn)
    have hmem : ∀ b, b ∈ taken ∨ b ∈ rest → le b a := by
      intro b hb
      refine hle b (Multiset.mem_cons_of_mem ?_)
      rw [← htaken.all_eq, Multiset.mem_add, Multiset.mem_coe]
      exact hb
    refine ⟨s', a :: taken, rest, ?_, congrArg Nat.succ hlen, hs', ?_, ?_, ?_⟩
    · rw [drain, hcall, Option.bind_some, hrun]
      rfl
    · rw [← htaken.all_eq, ← Multiset.cons_coe, Multiset.cons_add]
    · exact List.pairwise_cons.mpr ⟨fun b hb => hmem b (Or.inl hb), htaken.sorted⟩
    · intro c hc b hb
      obtain rfl | hc := List.mem_cons.mp hc
      · exact hmem b (Or.inr hb)
      · exact htaken.above c hc b hb

end CdcKafka.Lib
