import Mathlib.Algebra.Order.Ring.Nat
import Mathlib.Tactic.Ring

/-! # Equal parts of a segment

A segment is divided into as many parts as the required size allows, and each of
them gets an equal share of it. The divisions round down, so that the parts may
be larger than required and some of the segment may be left over.
-/

namespace EqualParts

variable {size required count i j : ℕ}

theorem required_le (h : required ≤ size) : required ≤ size / (size / required) := by
  rcases Nat.eq_zero_or_pos required with rfl | hpos
  · exact Nat.zero_le _
  · rw [Nat.le_div_iff_mul_le (Nat.div_pos h hpos), Nat.mul_comm]
    exact Nat.div_mul_le_self _ _

theorem end_le (h : i < count) : i * (size / count) + size / count ≤ size := by
  have hall : count * (size / count) ≤ size := Nat.mul_div_le size count
  have hlast : (i + 1) * (size / count) ≤ count * (size / count) := Nat.mul_le_mul_right _ h
  rw [Nat.succ_mul] at hlast
  exact hlast.trans hall

theorem end_le_start (h : i < j) (share : ℕ) : i * share + share ≤ j * share := by
  rw [← Nat.succ_mul]
  exact Nat.mul_le_mul_right share h

theorem disjoint (h : i ≠ j) (share : ℕ) :
    i * share + share ≤ j * share ∨ j * share + share ≤ i * share := by
  rcases Nat.lt_or_gt_of_ne h with h | h
  · exact Or.inl (end_le_start h share)
  · exact Or.inr (end_le_start h share)

theorem mod_ne_of_div_eq (h : i ≠ j) (same : i / count = j / count) : i % count ≠ j % count := by
  intro hmod
  apply h
  rw [← Nat.div_add_mod i count, ← Nat.div_add_mod j count, same, hmod]

/-- A segment with elements of one size, each of which takes a positive share of the parts, is
divided into less than twice as many parts as an element has units. -/
theorem count_lt {element share : ℕ} (h : element ≤ size) (helement : 0 < element)
    (hshare : 0 < share) : size / (size / element * share) < 2 * element := by
  have hone : 0 < size / element := Nat.div_pos h helement
  rw [Nat.div_lt_iff_lt_mul (Nat.mul_pos hone hshare)]
  calc size = element * (size / element) + size % element := (Nat.div_add_mod size element).symm
    _ < element * (size / element) + element :=
      Nat.add_lt_add_left (Nat.mod_lt size helement) _
    _ ≤ element * (size / element) + element * (size / element) :=
      Nat.add_le_add_left (Nat.le_mul_of_pos_right element hone) _
    _ = 2 * element * (size / element) := by ring
    _ ≤ 2 * element * (size / element * share) :=
      Nat.mul_le_mul_left _ (Nat.le_mul_of_pos_right _ hshare)

end EqualParts
