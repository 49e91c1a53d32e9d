import Mathlib.Data.Fintype.Pigeonhole

/-! # Halting of deterministic machines

A machine takes steps until it halts with a result. A machine that never halts
comes back to the same place, for whatever finite set of places its states are
told apart by.
-/

namespace Halting

variable {σ ρ κ : Type*} {step : σ → ρ ⊕ σ} {s t : σ} {m n : ℕ}

/-- The outcome of at most `n` steps: the result, or the state after them. -/
def run (step : σ → ρ ⊕ σ) : ℕ → σ → ρ ⊕ σ
  | 0, s => .inr s
  | n + 1, s => (step s).elim .inl (run step n)

def Halts (step : σ → ρ ⊕ σ) (s : σ) : Prop := ∃ n r, run step n s = .inl r

theorem run_succ_of_next (h : step s = .inr t) (n : ℕ) : run step (n + 1) s = run step n t := by
  rw [run, h, Sum.elim_inr]

theorem run_succ_of_result {r : ρ} (h : step s = .inl r) (n : ℕ) :
    run step (n + 1) s = .inl r := by
  rw [run, h, Sum.elim_inl]

theorem run_add (h : run step m s = .inr t) (n : ℕ) : run step (m + n) s = run step n t := by
  induction m generalizing s with
  | zero =>
    obtain rfl := Sum.inr.inj h
    rw [Nat.zero_add]
  | succ m ih =>
    cases hs : step s with
    | inl r =>
      rw [run_succ_of_result hs] at h
      cases h
    | inr s' =>
      rw [run_succ_of_next hs] at h
      rw [Nat.succ_add, run_succ_of_next hs, ih h]

theorem run_add_of_result {r : ρ} (h : run step m s = .inl r) (n : ℕ) :
    run step (m + n) s = .inl r := by
  induction m generalizing s with
  | zero => cases h
  | succ m ih =>
    cases hs : step s with
    | inl r' =>
      rw [run_succ_of_result hs] at h
      rw [Nat.succ_add, run_succ_of_result hs, h]
    | inr s' =>
      rw [run_succ_of_next hs] at h
      rw [Nat.succ_add, run_succ_of_next hs, ih h]

theorem not_halts_iff : ¬ Halts step s ↔ ∀ n, ∃ t, run step n s = .inr t := by
  constructor
  · intro h n
    cases hr : run step n s with
    | inl r => exact absurd ⟨n, r, hr⟩ h
    | inr t => exact ⟨t, rfl⟩
  · rintro h ⟨n, r, hr⟩
    obtain ⟨t, ht⟩ := h n
    rw [hr] at ht
    cases ht

theorem not_halts_of_unbounded (h : ∀ n, ∃ m t, n ≤ m ∧ run step m s = .inr t) :
    ¬ Halts step s := by
  rintro ⟨n, r, hr⟩
  obtain ⟨m, t, hle, ht⟩ := h n
  have hm := run_add_of_result hr (m - n)
  rw [Nat.add_sub_cancel' hle, ht] at hm
  cases hm

/-- A machine that never halts comes back to a place it has been at before. -/
theorem exists_return [Finite κ] (place : σ → κ) (h : ¬ Halts step s) :
    ∃ m n t t', run step m s = .inr t ∧ run step (n + 1) t = .inr t' ∧ place t = place t' := by
  choose state hstate using not_halts_iff.mp h
  have hlater (i j : ℕ) (hlt : i < j) (he : place (state i) = place (state j)) :
      ∃ m n t t', run step m s = .inr t ∧ run step (n + 1) t = .inr t' ∧ place t = place t' := by
    obtain ⟨n, rfl⟩ := Nat.exists_eq_add_of_lt hlt
    refine ⟨i, n, state i, state (i + n + 1), hstate i, ?_, he⟩
    rw [← run_add (hstate i)]
    exact hstate _
  obtain ⟨i, j, hne, he⟩ := Finite.exists_ne_map_eq_of_infinite fun n => place (state n)
  rcases Nat.lt_or_gt_of_ne hne with hlt | hlt
  · exact hlater i j hlt he
  · exact hlater j i hlt he.symm

end Halting
