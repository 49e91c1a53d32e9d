import Mathlib.Order.Bounds.Basic

/-! # Extremes of valid values

A running minimum and a running maximum are kept of values one of which, above
all others, marks that there is no value. Both keep the mark until the first
valid value.
-/

namespace ValidExtremes

variable {β : Type*} {invalid m x : β} {xs : List β}

def valid (invalid : β) (xs : List β) : Set β := {x | x ∈ xs ∧ x ≠ invalid}

theorem valid_nil : valid invalid [] = ∅ := by
  ext x
  simp [valid]

theorem valid_snoc_of_ne (h : x ≠ invalid) :
    valid invalid (xs ++ [x]) = insert x (valid invalid xs) := by
  ext y
  simp only [valid, List.mem_append, List.mem_singleton, Set.mem_ofPred_eq, Set.mem_insert_iff]
  constructor
  · rintro ⟨hy | rfl, hne⟩
    · exact Or.inr ⟨hy, hne⟩
    · exact Or.inl rfl
  · rintro (rfl | ⟨hy, hne⟩)
    · exact ⟨Or.inr rfl, h⟩
    · exact ⟨Or.inl hy, hne⟩

theorem valid_snoc_invalid : valid invalid (xs ++ [invalid]) = valid invalid xs := by
  ext y
  simp only [valid, List.mem_append, List.mem_singleton, Set.mem_ofPred_eq]
  constructor
  · rintro ⟨hy | rfl, hne⟩
    · exact ⟨hy, hne⟩
    · exact absurd rfl hne
  · rintro ⟨hy, hne⟩
    exact ⟨Or.inl hy, hne⟩

variable [LinearOrder β]

def IsMinimum (invalid : β) (xs : List β) (m : β) : Prop :=
  IsLeast (valid invalid xs) m ∨ valid invalid xs = ∅ ∧ m = invalid

def IsMaximum (invalid : β) (xs : List β) (m : β) : Prop :=
  IsGreatest (valid invalid xs) m ∨ valid invalid xs = ∅ ∧ m = invalid

theorem isMinimum_nil : IsMinimum invalid [] invalid := Or.inr ⟨valid_nil, rfl⟩

theorem isMaximum_nil : IsMaximum invalid [] invalid := Or.inr ⟨valid_nil, rfl⟩

/-- The mark is above all values, so that it is never taken for a smaller one. -/
theorem IsMinimum.snoc (h : IsMinimum invalid xs m) (hm : m ≤ invalid) (hx : x ≤ invalid) :
    IsMinimum invalid (xs ++ [x]) (if x < m then x else m) := by
  by_cases hne : x = invalid
  · subst hne
    rw [if_neg (not_lt.mpr hm), IsMinimum, valid_snoc_invalid]
    exact h
  · left
    rw [valid_snoc_of_ne hne]
    rcases h with h | ⟨hnone, rfl⟩
    · rw [← min_def_lt]
      exact h.insert x
    · rw [if_pos (lt_of_le_of_ne hx hne), hnone, insert_empty_eq]
      exact isLeast_singleton

theorem IsMaximum.snoc (h : IsMaximum invalid xs m) :
    IsMaximum invalid (xs ++ [x]) (if m = invalid ∨ x ≠ invalid ∧ m < x then x else m) := by
  by_cases hne : x = invalid
  · subst hne
    rw [IsMaximum, valid_snoc_invalid]
    split_ifs with hif
    · obtain rfl := hif.resolve_right fun h => h.1 rfl
      exact h
    · exact h
  · left
    rw [valid_snoc_of_ne hne]
    rcases h with h | ⟨hnone, rfl⟩
    · have hmne : m ≠ invalid := h.1.2
      have hif : (m = invalid ∨ x ≠ invalid ∧ m < x) ↔ m < x := by simp [hmne, hne]
      simp only [hif]
      rw [← max_def_lt, max_comm]
      exact h.insert x
    · rw [if_pos (Or.inl rfl), hnone, insert_empty_eq]
      exact isGreatest_singleton

end ValidExtremes
