import Mathlib.Algebra.BigOperators.Group.Finset.Basic
import Mathlib.Algebra.Order.BigOperators.Group.Finset
import Mathlib.Order.Interval.Finset.Nat
import Mathlib.Tactic.Ring

/-! Copies between buffers, the packing of pieces of a buffer towards an end of it, and how much room pieces need that do
not overlap. -/

namespace CdcKafka.Lib

variable {α : Type}

def blit (m : ℤ → α) (dst : ℤ) (src : ℤ → α) (off n : ℤ) : ℤ → α := fun k =>
  if dst ≤ k ∧ k < dst + n then src (k - dst + off) else m k

theorem blit_inside {m src : ℤ → α} {dst off n k : ℤ} (h : dst ≤ k) (h' : k < dst + n) :
    blit m dst src off n k = src (k - dst + off) := if_pos ⟨h, h'⟩

theorem blit_outside {m src : ℤ → α} {dst off n k : ℤ} (h : k < dst ∨ dst + n ≤ k) : blit m dst src off n k = m k :=
  if_neg fun hin => by omega

theorem blit_zero (m : ℤ → α) (dst : ℤ) (src : ℤ → α) (off : ℤ) : blit m dst src off 0 = m :=
  funext fun k => blit_outside (by omega)

theorem blit_in_place {m src : ℤ → α} {dst n : ℤ} (h : ∀ k, dst ≤ k → k < dst + n → m k = src k) :
    blit m dst src dst n = m := by
  funext k
  by_cases hin : dst ≤ k ∧ k < dst + n
  · rw [blit_inside hin.1 hin.2, Int.sub_add_cancel, h k hin.1 hin.2]
  · exact blit_outside (by omega)

theorem blit_congr {m src src' : ℤ → α} {dst off n : ℤ} (h : ∀ k, off ≤ k → k < off + n → src k = src' k) :
    blit m dst src off n = blit m dst src' off n := by
  funext k
  by_cases hin : dst ≤ k ∧ k < dst + n
  · rw [blit_inside hin.1 hin.2, blit_inside hin.1 hin.2]
    exact h _ (by omega) (by omega)
  · rw [blit_outside (by omega), blit_outside (by omega)]

theorem blit_append (m : ℤ → α) (src : ℤ → α) {dst off n l : ℤ} (hn : 0 ≤ n) (hl : 0 ≤ l) :
    blit (blit m dst src off n) (dst - l) src (off - l) l = blit m (dst - l) src (off - l) (n + l) := by
  funext k
  rcases lt_or_ge k (dst - l) with hbelow | hbelow
  · rw [blit_outside (Or.inl hbelow), blit_outside (by omega), blit_outside (Or.inl hbelow)]
  · rcases lt_or_ge k dst with hlow | hlow
    · rw [blit_inside hbelow (by omega), blit_inside hbelow (by omega)]
    · rcases lt_or_ge k (dst + n) with hin | hin
      · rw [blit_outside (Or.inr (by omega)), blit_inside hlow hin, blit_inside hbelow (by omega)]
        congr 1
        ring
      · rw [blit_outside (Or.inr (by omega)), blit_outside (Or.inr hin), blit_outside (Or.inr (by omega))]

abbrev Piece := ℤ × ℤ

def piecesLength : List Piece → ℤ
  | [] => 0
  | p :: ps => p.2 + piecesLength ps

def pack (src : ℤ → α) : List Piece → ℤ → (ℤ → α) → ℤ → α
  | [], _, m => m
  | p :: ps, upper, m => pack src ps (upper - p.2) (blit m (upper - p.2) src p.1 p.2)

theorem piecesLength_append (ps qs : List Piece) : piecesLength (ps ++ qs) = piecesLength ps + piecesLength qs := by
  induction ps with
  | nil => rw [List.nil_append, piecesLength, zero_add]
  | cons p ps ih => rw [List.cons_append, piecesLength, piecesLength, ih, add_assoc]

theorem piecesLength_nonneg {ps : List Piece} (h : ∀ p ∈ ps, 0 ≤ p.2) : 0 ≤ piecesLength ps := by
  induction ps with
  | nil => exact le_refl _
  | cons p ps ih =>
    obtain ⟨hp, hps⟩ := List.forall_mem_cons.mp h
    exact add_nonneg hp (ih hps)

theorem pack_append (src : ℤ → α) (ps qs : List Piece) (upper : ℤ) (m : ℤ → α) :
    pack src (ps ++ qs) upper m = pack src qs (upper - piecesLength ps) (pack src ps upper m) := by
  induction ps generalizing upper m with
  | nil => rw [List.nil_append, piecesLength, sub_zero, pack]
  | cons p ps ih => rw [List.cons_append, pack, pack, ih, piecesLength, sub_sub]

theorem pack_outside {src : ℤ → α} {ps : List Piece} (h : ∀ p ∈ ps, 0 ≤ p.2) {upper : ℤ} (m : ℤ → α) {k : ℤ}
    (hk : upper ≤ k ∨ k < upper - piecesLength ps) : pack src ps upper m k = m k := by
  induction ps generalizing upper m with
  | nil => rfl
  | cons p ps ih =>
    obtain ⟨hp, hps⟩ := List.forall_mem_cons.mp h
    have hrest := piecesLength_nonneg hps
    rw [piecesLength] at hk
    rw [pack, ih hps _ (by omega)]
    exact blit_outside (by omega)

theorem pack_inside {src : ℤ → α} {pre post : List Piece} {p : Piece} (h : ∀ q ∈ pre ++ p :: post, 0 ≤ q.2) (upper : ℤ)
    (m : ℤ → α) {j : ℤ} (hj : 0 ≤ j) (hj' : j < p.2) :
    pack src (pre ++ p :: post) upper m (upper - piecesLength pre - p.2 + j) = src (p.1 + j) := by
  have hpost : ∀ q ∈ post, 0 ≤ q.2 := fun q hq => h q (List.mem_append_right _ (List.mem_cons_of_mem _ hq))
  rw [pack_append, pack, pack_outside hpost _ (Or.inl (by omega)), blit_inside (by omega) (by omega)]
  congr 1
  ring

theorem pack_congr {src src' : ℤ → α} {ps : List Piece}
    (h : ∀ p ∈ ps, ∀ k, p.1 ≤ k → k < p.1 + p.2 → src k = src' k) (upper : ℤ) (m : ℤ → α) :
    pack src ps upper m = pack src' ps upper m := by
  induction ps generalizing upper m with
  | nil => rfl
  | cons p ps ih =>
    obtain ⟨hp, hps⟩ := List.forall_mem_cons.mp h
    rw [pack, pack, ih hps, blit_congr hp]

theorem sum_le_of_disjoint {n a b : ℕ} {start len : ℕ → ℕ}
    (hinside : ∀ i < n, 0 < len i → a ≤ start i ∧ start i + len i ≤ b)
    (hdisjoint : ∀ i < n, ∀ j < n, i ≠ j → 0 < len i → 0 < len j →
      start i + len i ≤ start j ∨ start j + len j ≤ start i) :
    ∑ i ∈ Finset.range n, len i ≤ b - a := by
  have hsub : (Finset.range n).biUnion (fun i => Finset.Ico (start i) (start i + len i)) ⊆ Finset.Ico a b := by
    intro k hk
    obtain ⟨i, hi, hmem⟩ := Finset.mem_biUnion.mp hk
    rw [Finset.mem_Ico] at hmem ⊢
    obtain ⟨hlow, hhigh⟩ := hinside i (Finset.mem_range.mp hi) (by omega)
    omega
  have hpairwise : ∀ i ∈ Finset.range n, ∀ j ∈ Finset.range n, i ≠ j →
      Disjoint (Finset.Ico (start i) (start i + len i)) (Finset.Ico (start j) (start j + len j)) := by
    intro i hi j hj hne
    rw [Finset.disjoint_left]
    intro k hk hk'
    rw [Finset.mem_Ico] at hk hk'
    have := hdisjoint i (Finset.mem_range.mp hi) j (Finset.mem_range.mp hj) hne (by omega) (by omega)
    omega
  have hcard := Finset.card_le_card hsub
  rw [Finset.card_biUnion hpairwise, Nat.card_Ico] at hcard
  refine le_trans (le_of_eq (Finset.sum_congr rfl fun i _ => ?_)) hcard
  rw [Nat.card_Ico, Nat.add_sub_cancel_left]

end CdcKafka.Lib
