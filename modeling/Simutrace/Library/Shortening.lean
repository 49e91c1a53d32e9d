import Mathlib.Algebra.Order.Ring.GeomSum
import Mathlib.Data.Fintype.BigOperators
import Mathlib.Data.Fintype.Card

/-! # Lists that no code shortens

There are fewer lists of smaller lengths than lists of one length, so that a code
that can be undone makes some list of each length at least as long.
-/

namespace Simutrace.Shortening

variable {α : Type*}

theorem card_short_lt [Fintype α] [Nontrivial α] (m : ℕ) :
    Fintype.card (Σ k : Fin (m + 1), List.Vector α k) < Fintype.card α ^ (m + 1) := by
  have hcard : 2 ≤ Fintype.card α := Fintype.one_lt_card
  calc Fintype.card (Σ k : Fin (m + 1), List.Vector α k)
      = ∑ k : Fin (m + 1), Fintype.card α ^ (k : ℕ) := by
        simp only [Fintype.card_sigma, card_vector]
    _ = ∑ k ∈ Finset.range (m + 1), Fintype.card α ^ k := Fin.sum_univ_eq_sum_range _ _
    _ < Fintype.card α ^ (m + 1) := Nat.geomSum_lt hcard fun k hk => Finset.mem_range.mp hk

/-- A function that tells the lists of one length apart has a value that is not shorter. -/
theorem exists_le_length [Finite α] [Nontrivial α] {n : ℕ} (f : List α → List α)
    (injective : ∀ s t, s.length = n → t.length = n → f s = f t → s = t) :
    ∃ s, s.length = n ∧ n ≤ (f s).length := by
  have : Fintype α := Fintype.ofFinite α
  by_contra hshort
  push Not at hshort
  obtain ⟨m, rfl⟩ : ∃ m, n = m + 1 := by
    refine Nat.exists_eq_add_one.mpr (Nat.pos_of_ne_zero fun hn => ?_)
    subst hn
    exact Nat.not_lt_zero _ (hshort [] rfl)
  let code (s : List.Vector α (m + 1)) : Σ k : Fin (m + 1), List.Vector α k :=
    ⟨⟨(f s.1).length, hshort s.1 s.2⟩, f s.1, rfl⟩
  have hcode : Function.Injective code := by
    intro s t hst
    refine Subtype.ext (injective s.1 t.1 s.2 t.2 ?_)
    exact congrArg (fun c : Σ k : Fin (m + 1), List.Vector α k => c.2.1) hst
  have hle := Fintype.card_le_of_injective code hcode
  rw [card_vector] at hle
  exact absurd (card_short_lt (α := α) m) (not_lt.mpr hle)

end Simutrace.Shortening
