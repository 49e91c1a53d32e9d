import Mathlib.Data.List.Range

/-! # Enumeration

A cursor returns one element with each call, until it returns nothing. The
elements of a block are those of consecutive calls.
-/

namespace Enumeration

variable {σ α : Type*} {next : σ → σ × Option α} {s s' : σ} {l : List α}

/-- The calls return the elements of the list, and then nothing for the first time. -/
inductive Yields (next : σ → σ × Option α) : σ → List α → Prop
  | nil {s s' : σ} (returned : next s = (s', none)) : Yields next s []
  | cons {s s' : σ} {a : α} {l : List α} (returned : next s = (s', some a))
      (rest : Yields next s' l) : Yields next s (a :: l)

theorem Yields.congr (h : next s = next s') (hy : Yields next s' l) : Yields next s l := by
  cases hy with
  | nil returned => exact .nil (h.trans returned)
  | cons returned rest => exact .cons (h.trans returned) rest

theorem Yields.unique {l' : List α} (h : Yields next s l) (h' : Yields next s l') : l = l' := by
  induction h generalizing l' with
  | nil returned =>
    cases h' with
    | nil => rfl
    | cons returned' => cases returned.symm.trans returned'
  | cons returned _ ih =>
    cases h' with
    | nil returned' => cases returned.symm.trans returned'
    | cons returned' rest' =>
      obtain ⟨rfl, heq⟩ := Prod.mk.inj (returned.symm.trans returned')
      obtain rfl := Option.some.inj heq
      rw [ih rest']

theorem Yields.block {count : ℕ} (state : ℕ → σ) (value : ℕ → α)
    (step : ∀ i < count, next (state i) = (state (i + 1), some (value i)))
    (rest : Yields next (state count) l) :
    Yields next (state 0) ((List.range count).map value ++ l) := by
  induction count generalizing l with
  | zero => exact rest
  | succ count ih =>
    rw [List.range_succ, List.map_append, List.append_assoc]
    exact ih (fun i hi => step i (Nat.lt_succ_of_lt hi))
      (.cons (step count (Nat.lt_succ_self _)) rest)

end Enumeration
