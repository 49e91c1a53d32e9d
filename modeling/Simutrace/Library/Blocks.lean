import Mathlib.Algebra.GroupWithZero.Nat
import Mathlib.Algebra.Order.Group.Nat
import Mathlib.Data.List.Range
import Mathlib.Algebra.BigOperators.Group.List.Basic

/-! # Sequences of blocks

The blocks of the first numbers stand one behind the other. An element is found
by the number of its block and its position in the block.
-/

namespace Blocks

variable {α β : Type*} (block : ℕ → List α) {size n k : ℕ}

def below (n : ℕ) : List α := (List.range n).flatMap block

def above (size n : ℕ) : List α := (List.range' (n + 1) (size - (n + 1))).flatMap block

theorem range_split (h : n < size) :
    List.range size = List.range n ++ n :: List.range' (n + 1) (size - (n + 1)) := by
  have hsize : size = n + (size - (n + 1) + 1) := by omega
  conv_lhs => rw [hsize, List.range_eq_range', ← List.range'_append_1, List.range'_succ]
  rw [List.range_eq_range', Nat.zero_add]

theorem below_split (h : n < size) :
    below block size = below block n ++ (block n ++ above block size n) := by
  unfold below
  rw [range_split h, List.flatMap_append, List.flatMap_cons]
  rfl

theorem drop_below (h : n < size) (hk : k ≤ (block n).length) :
    (below block size).drop ((below block n).length + k) =
      (block n).drop k ++ above block size n := by
  rw [below_split block h, List.drop_append, List.drop_eq_nil_of_le (Nat.le_add_right _ _),
    List.nil_append, Nat.add_sub_cancel_left, List.drop_append_of_le_length hk]

theorem take_below (h : n < size) (hk : k ≤ (block n).length) :
    (below block size).take ((below block n).length + k) =
      below block n ++ (block n).take k := by
  rw [below_split block h, List.take_append, List.take_of_length_le (Nat.le_add_right _ _),
    Nat.add_sub_cancel_left, List.take_append_of_le_length hk]

theorem flatMap_filter {p : ℕ → Bool} (h : ∀ n, p n = false → block n = []) (numbers : List ℕ) :
    (numbers.filter p).flatMap block = numbers.flatMap block := by
  induction numbers with
  | nil => rfl
  | cons n numbers ih => cases hp : p n <;> simp [hp, ih, h n]

theorem length_below :
    (below block n).length = ((List.range n).map fun m => (block m).length).sum := by
  simp [below, List.length_flatMap]

end Blocks
