import Mathlib.Algebra.Group.Nat.Defs
import Mathlib.Order.Bounds.Basic
import Mathlib.Data.List.Basic
import Mathlib.Data.Nat.Find
import Mathlib.Tactic.SplitIfs

/-! # Binary search for cycle counts

The entries of a temporally ordered segment are sorted by their cycle counts. One
loop searches for the first or the last entry with a cycle count. It returns the
offset of the entry that it compared last.
-/

namespace Simutrace

abbrev CycleCount := ℕ

/-- The cycle count of an entry has 48 bits; the others are not related to it. -/
def cycleCountAt (segment : List ℕ) (i : ℕ) : CycleCount := segment.getD i 0 % 2 ^ 48

/-- The loop of `_findCycleCountBinarySearch`, between `start` and `stop`. -/
def searchCycleCount (segment : List ℕ) (entrySize : ℕ) (cycle : CycleCount) (reverse : Bool)
    (start stop offset : ℕ) : ℕ :=
  if start < stop then
    let mid := start + (stop - start) / 2
    let cycleCount := cycleCountAt segment mid
    if cycleCount < cycle then
      searchCycleCount segment entrySize cycle reverse (mid + 1) stop (mid * entrySize)
    else if cycleCount = cycle ∧ reverse ∧ start ≠ mid then
      searchCycleCount segment entrySize cycle reverse mid stop (mid * entrySize)
    else searchCycleCount segment entrySize cycle reverse start mid (mid * entrySize)
  else offset
termination_by stop - start
decreasing_by all_goals omega

def findCycleCountBinarySearch (segment : List ℕ) (entrySize : ℕ) (cycle : CycleCount)
    (reverse : Bool) : ℕ :=
  searchCycleCount segment entrySize cycle reverse 0 (segment.length - 1) 0

/-- Entries are halved until one is left, with the larger half before the smaller one. The last
half taken on the way to a position is a lower one. -/
def endsLow (n p : ℕ) : Bool :=
  if n < 2 then false
  else if p < (n + 1) / 2 then (n + 1) / 2 = 1 || endsLow ((n + 1) / 2) p
  else endsLow (n / 2) (p - (n + 1) / 2)
termination_by n
decreasing_by all_goals omega

variable {segment : List ℕ} {entrySize : ℕ} {cycle : CycleCount} {start stop offset p q : ℕ}

def SortedCycles (segment : List ℕ) : Prop :=
  ∀ i j, i ≤ j → j < segment.length → cycleCountAt segment i ≤ cycleCountAt segment j

/-- The smallest index of an entry that has the cycle count or a later one. -/
def FirstAt (segment : List ℕ) (cycle : CycleCount) (p : ℕ) : Prop :=
  IsLeast {i | i < segment.length ∧ cycle ≤ cycleCountAt segment i} p

def LastAt (segment : List ℕ) (cycle : CycleCount) (q : ℕ) : Prop :=
  IsGreatest {i | i < segment.length ∧ cycleCountAt segment i = cycle} q

theorem FirstAt.lt_iff (h : FirstAt segment cycle p) (hs : SortedCycles segment) {i : ℕ}
    (hi : i < segment.length) : cycleCountAt segment i < cycle ↔ i < p := by
  constructor
  · intro hlt
    by_contra hp
    exact absurd (h.1.2.trans (hs p i (not_lt.mp hp) hi)) (not_le.mpr hlt)
  · intro hlt
    by_contra hc
    exact absurd (h.2 ⟨hi, not_lt.mp hc⟩) (not_le.mpr hlt)

theorem LastAt.le_of_le (h : LastAt segment cycle q) (hs : SortedCycles segment) {i : ℕ}
    (hi : i ≤ q) : cycleCountAt segment i ≤ cycle := by
  rw [← h.1.2]
  exact hs i q hi h.1.1

theorem LastAt.lt_of_lt (h : LastAt segment cycle q) (hs : SortedCycles segment) {i : ℕ}
    (hi : q < i) (hlen : i < segment.length) : cycle < cycleCountAt segment i := by
  refine lt_of_le_of_ne ?_ fun heq => absurd (h.2 ⟨hlen, heq.symm⟩) (not_le.mpr hi)
  rw [← h.1.2]
  exact hs q i hi.le hlen

theorem endsLow_zero {n : ℕ} (hn : 2 ≤ n) : endsLow n 0 = true := by
  induction n using Nat.strong_induction_on with
  | h n ih =>
    rw [endsLow, if_neg (by omega), if_pos (by omega)]
    by_cases hone : (n + 1) / 2 = 1
    · simp [hone]
    · rw [ih ((n + 1) / 2) (by omega) (by omega), Bool.or_true]

/-- The halves that the loop keeps correspond to those of the entries. -/
theorem endsLow_interval (hstart : start ≤ p) (hlt : start < stop) :
    endsLow (stop - start + 1) (p - start) =
      if start + (stop - start) / 2 < p then
        endsLow (stop - (start + (stop - start) / 2 + 1) + 1)
          (p - (start + (stop - start) / 2 + 1))
      else start + (stop - start) / 2 = start ||
        endsLow (start + (stop - start) / 2 - start + 1) (p - start) := by
  rw [endsLow, if_neg (by omega)]
  by_cases hp : start + (stop - start) / 2 < p
  · rw [if_neg (by omega), if_pos hp]
    congr 1 <;> omega
  · rw [if_pos (by omega), if_neg hp]
    have hhalf : (stop - start + 1 + 1) / 2 = start + (stop - start) / 2 - start + 1 := by omega
    have hone : (stop - start + 1 + 1) / 2 = 1 ↔ start + (stop - start) / 2 = start := by omega
    rw [hhalf] at hone ⊢
    simp only [hone]

theorem endsLow_one : endsLow 1 p = false := by
  rw [endsLow, if_pos Nat.one_lt_two]

/-- The search ends at the first entry, but returns the one before it after an upper half. -/
theorem searchCycleCount_forward (hs : SortedCycles segment) (h : FirstAt segment cycle p)
    (hlen : stop < segment.length) (hstart : start ≤ p) (hstop : p ≤ stop) (hlt : start < stop) :
    searchCycleCount segment entrySize cycle false start stop offset =
      (if endsLow (stop - start + 1) (p - start) then p else p - 1) * entrySize := by
  induction hd : stop - start using Nat.strong_induction_on generalizing start stop offset with
  | h d ih =>
    subst hd
    have hlow := h.lt_iff hs (i := start + (stop - start) / 2) (by omega)
    rw [searchCycleCount, if_pos hlt, endsLow_interval hstart hlt]
    simp only [hlow, Bool.false_eq_true, false_and, and_false, if_false]
    by_cases hp : start + (stop - start) / 2 < p
    · rw [if_pos hp, if_pos hp]
      by_cases hend : start + (stop - start) / 2 + 1 < stop
      · exact ih _ (by omega) hlen (by omega) hstop hend rfl
      · have hstop' : stop - (start + (stop - start) / 2 + 1) + 1 = 1 := by omega
        rw [searchCycleCount, if_neg hend, hstop', endsLow_one, if_neg Bool.false_ne_true]
        congr 1
        omega
    · rw [if_neg hp, if_neg hp]
      by_cases hend : start < start + (stop - start) / 2
      · rw [ih _ (by omega) (by omega) hstart (not_lt.mp hp) hend rfl,
          decide_eq_false hend.ne', Bool.false_or]
      · have hmid : start + (stop - start) / 2 = start := by omega
        rw [searchCycleCount, if_neg hend, decide_eq_true hmid, Bool.true_or, if_pos rfl]
        congr 1
        omega

/-- The search ends at the last entry with the cycle count if there is an entry behind it. -/
theorem searchCycleCount_reverse (hs : SortedCycles segment) (h : LastAt segment cycle q)
    (hlen : stop < segment.length) (hstart : start ≤ q) (hstop : q < stop) :
    searchCycleCount segment entrySize cycle true start stop offset = q * entrySize := by
  induction hd : stop - start using Nat.strong_induction_on generalizing start stop offset with
  | h d ih =>
    subst hd
    rw [searchCycleCount, if_pos (hstart.trans_lt hstop)]
    simp only [true_and]
    by_cases hq : q < start + (stop - start) / 2
    · have hgt := h.lt_of_lt hs hq (by omega)
      rw [if_neg hgt.not_gt, if_neg fun heq => hgt.ne' heq.1]
      exact ih _ (by omega) (by omega) hstart hq rfl
    · have hle := h.le_of_le hs (not_lt.mp hq)
      split_ifs with hcycle hequal
      · refine ih _ (by omega) hlen ?_ hstop rfl
        refine Nat.succ_le_of_lt (lt_of_le_of_ne (not_lt.mp hq) ?_)
        rintro rfl
        exact hcycle.ne h.1.2
      · exact ih _ (by omega) hlen (not_lt.mp hq) hstop rfl
      · have hmid : start = start + (stop - start) / 2 := by
          by_contra hne
          exact hequal ⟨le_antisymm hle (not_lt.mp hcycle), hne⟩
        rw [searchCycleCount, if_neg (by omega)]
        congr 1
        omega

/-- If the last entry has the cycle count, the search returns the entry before it. -/
theorem searchCycleCount_reverse_last (hs : SortedCycles segment) (h : LastAt segment cycle q)
    (hlt : start < q) :
    searchCycleCount segment entrySize cycle true start q offset = (q - 1) * entrySize := by
  induction hd : q - start using Nat.strong_induction_on generalizing start offset with
  | h d ih =>
    subst hd
    have hle := h.le_of_le hs (i := start + (q - start) / 2) (by omega)
    rw [searchCycleCount, if_pos hlt]
    simp only [true_and]
    split_ifs with hcycle hequal
    · by_cases hend : start + (q - start) / 2 + 1 < q
      · exact ih _ (by omega) hend rfl
      · rw [searchCycleCount, if_neg hend]
        congr 1
        omega
    · exact ih _ (by omega) (by omega) rfl
    · have hmid : start = start + (q - start) / 2 := by
        by_contra hne
        exact hequal ⟨le_antisymm hle (not_lt.mp hcycle), hne⟩
      rw [searchCycleCount, if_neg (by omega)]
      congr 1
      omega

theorem findCycleCount_forward_iff (hs : SortedCycles segment) (he : 0 < entrySize)
    (h : FirstAt segment cycle p) :
    findCycleCountBinarySearch segment entrySize cycle false = p * entrySize ↔
      segment.length = 1 ∨ endsLow segment.length p = true := by
  have hp : p < segment.length := h.1.1
  unfold findCycleCountBinarySearch
  by_cases hone : segment.length = 1
  · obtain rfl : p = 0 := by omega
    rw [searchCycleCount, if_neg (by omega), Nat.zero_mul]
    exact iff_of_true rfl (.inl hone)
  · have hlen : segment.length - 1 - 0 + 1 = segment.length := by omega
    rw [searchCycleCount_forward hs h (by omega) (Nat.zero_le p) (by omega) (by omega), hlen,
      Nat.sub_zero, or_iff_right hone, Nat.mul_left_inj he.ne']
    refine ⟨fun heq => ?_, fun hlow => if_pos hlow⟩
    by_contra hlow
    rw [if_neg hlow] at heq
    obtain rfl : p = 0 := by omega
    exact hlow (endsLow_zero (by omega))

theorem findCycleCount_reverse_iff (hs : SortedCycles segment) (he : 0 < entrySize)
    (h : LastAt segment cycle q) :
    findCycleCountBinarySearch segment entrySize cycle true = q * entrySize ↔
      segment.length = 1 ∨ q + 1 < segment.length := by
  have hq : q < segment.length := h.1.1
  unfold findCycleCountBinarySearch
  by_cases hone : segment.length = 1
  · obtain rfl : q = 0 := by omega
    rw [searchCycleCount, if_neg (by omega), Nat.zero_mul]
    exact iff_of_true rfl (.inl hone)
  · rw [or_iff_right hone]
    by_cases hlast : q + 1 < segment.length
    · rw [searchCycleCount_reverse hs h (by omega) (Nat.zero_le q) (by omega)]
      exact iff_of_true rfl hlast
    · have hstop : segment.length - 1 = q := by omega
      rw [hstop, searchCycleCount_reverse_last hs h (by omega), Nat.mul_left_inj he.ne']
      exact iff_of_false (by omega) hlast

/-- Which of the entries are found. -/
theorem findCycleCount_iff (hs : SortedCycles segment) (he : 0 < entrySize) :
    (∀ p, FirstAt segment cycle p →
      (findCycleCountBinarySearch segment entrySize cycle false = p * entrySize ↔
        segment.length = 1 ∨ endsLow segment.length p = true)) ∧
    ∀ q, LastAt segment cycle q →
      (findCycleCountBinarySearch segment entrySize cycle true = q * entrySize ↔
        segment.length = 1 ∨ q + 1 < segment.length) :=
  ⟨fun _ h => findCycleCount_forward_iff hs he h, fun _ h => findCycleCount_reverse_iff hs he h⟩

theorem sortedCycles_pair {a b : ℕ} (h : a % 2 ^ 48 ≤ b % 2 ^ 48) : SortedCycles [a, b] := by
  rintro i j hij (hj : j < 2)
  obtain rfl | rfl : j = 0 ∨ j = 1 := by omega
  · rw [Nat.le_zero.mp hij]
  · obtain rfl | rfl : i = 0 ∨ i = 1 := by omega
    · exact h
    · exact le_rfl

theorem findCycleCount_pair :
    (∀ p, FirstAt [1, 3] 3 p → (findCycleCountBinarySearch [1, 3] 16 3 false = p * 16 ↔
        [1, 3].length = 1 ∨ endsLow [1, 3].length p = true)) ∧
    ∀ q, LastAt [1, 3] 3 q → (findCycleCountBinarySearch [1, 3] 16 3 true = q * 16 ↔
        [1, 3].length = 1 ∨ q + 1 < [1, 3].length) :=
  findCycleCount_iff (sortedCycles_pair (by decide)) (by decide)

theorem not_findCycleCount_last : ¬ ∀ (segment : List ℕ) (entrySize : ℕ) (cycle : CycleCount),
    SortedCycles segment → 0 < entrySize →
      (∀ p, FirstAt segment cycle p →
        findCycleCountBinarySearch segment entrySize cycle false = p * entrySize) ∧
      ∀ q, LastAt segment cycle q →
        findCycleCountBinarySearch segment entrySize cycle true = q * entrySize := by
  intro hall
  have hlast : LastAt [1, 3] 3 1 := ⟨⟨by decide, by decide⟩, fun i hi => Nat.le_of_lt_succ hi.1⟩
  have hs : SortedCycles [1, 3] := sortedCycles_pair (by decide)
  have heq := (hall [1, 3] 16 3 hs (by decide)).2 1 hlast
  obtain h | h := (findCycleCount_reverse_iff hs (by decide) hlast).mp heq
  · cases h
  · exact absurd h (by decide)

end Simutrace
