import Mathlib.Order.Lattice
import Mathlib.Data.List.Basic

/-! # Running minima

A scan that keeps the element with the smallest key so far changes what it keeps
at each running minimum. The last of these is a minimum of the list.
-/

namespace Simutrace.RunningMinimum

variable {α β : Type*} [LinearOrder β] (key : α → β)

/-- The elements whose key is below the bound and below the keys of all elements before them. -/
def minima (bound : β) : List α → List α
  | [] => []
  | a :: l => if key a < bound then a :: minima (key a) l else minima bound l

def keep (best : ℕ × β × α) (a : α) : ℕ × β × α :=
  if key a < best.2.1 then (best.1 + 1, key a, a) else best

variable {key} {bound : β} {l : List α} {a : α}

theorem minima_sublist : (minima key bound l).Sublist l := by
  induction l generalizing bound with
  | nil => exact .slnil
  | cons a l ih =>
    rw [minima]
    split
    · exact ih.cons_cons a
    · exact ih.cons a

theorem length_minima_le : (minima key bound l).length ≤ l.length := minima_sublist.length_le

theorem bound_le_of_minima_eq_nil (h : minima key bound l = []) : ∀ a ∈ l, bound ≤ key a := by
  induction l with
  | nil => exact fun a ha => absurd ha List.not_mem_nil
  | cons a l ih =>
    rw [minima] at h
    split at h
    · exact absurd h (List.cons_ne_nil _ _)
    · rename_i hle
      exact List.forall_mem_cons.mpr ⟨not_lt.mp hle, ih h⟩

theorem foldl_keep (n : ℕ) (x : α) : l.foldl (keep key) (n, bound, x) =
    (n + (minima key bound l).length, ((minima key bound l).getLast?.map key).getD bound,
      (minima key bound l).getLast?.getD x) := by
  induction l generalizing n bound x with
  | nil => rfl
  | cons a l ih =>
    rw [List.foldl_cons, keep, minima]
    split
    · rw [ih, List.length_cons, List.getLast?_cons, Nat.add_right_comm, Nat.add_assoc]
      cases (minima key (key a) l).getLast? <;> rfl
    · exact ih n x

theorem getLast_minima_le (h : (minima key bound l).getLast? = some a) :
    a ∈ l ∧ key a < bound ∧ ∀ b ∈ l, key a ≤ key b := by
  refine ⟨minima_sublist.subset (List.mem_of_getLast? h), ?_⟩
  induction l generalizing bound with
  | nil => cases h
  | cons b l ih =>
    rw [minima] at h
    split at h
    · rename_i hb
      rcases hrest : minima key (key b) l with _ | ⟨c, rest⟩
      · rw [hrest] at h
        obtain rfl : b = a := Option.some.inj h
        exact ⟨hb, List.forall_mem_cons.mpr ⟨le_rfl, bound_le_of_minima_eq_nil hrest⟩⟩
      · rw [hrest, List.getLast?_cons_cons, ← hrest] at h
        obtain ⟨hlt, hle⟩ := ih h
        exact ⟨hlt.trans hb, List.forall_mem_cons.mpr ⟨hlt.le, hle⟩⟩
    · rename_i hb
      obtain ⟨hlt, hle⟩ := ih h
      exact ⟨hlt, List.forall_mem_cons.mpr ⟨(hlt.trans_le (not_lt.mp hb)).le, hle⟩⟩

end Simutrace.RunningMinimum
