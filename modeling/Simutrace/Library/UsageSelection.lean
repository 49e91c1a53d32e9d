import Mathlib.Data.List.Induction
import Mathlib.Data.List.Sort
import Mathlib.Logic.Function.Basic

/-! # Selection by usage

Of all candidates that apply, the one with the greatest counter is selected,
and the last one among equals. Selecting a candidate increments its counter.
Counters wrap around, and some may start with any value. The selections do not
depend on these values, and follow how often the candidates were selected, if
and only if no such counter ever decides.
-/

namespace UsageSelection

variable {n : ℕ}

/-- Prefer a candidate over the best one so far if it applies and its counter is not smaller. -/
def better (counter : Fin n → ℕ) (applies : Fin n → Bool) (best : Option (Fin n)) (k : Fin n) :
    Option (Fin n) :=
  if best.elim 0 counter ≤ counter k ∧ applies k then some k else best

def select (counter : Fin n → ℕ) (applies : Fin n → Bool) : Option (Fin n) :=
  (List.finRange n).foldl (better counter applies) none

/-- The candidate applies, and no other one that does has a greater counter or an equal one and
comes later. -/
def IsBest (counter : Fin n → ℕ) (applies : Fin n → Bool) (k : Fin n) : Prop :=
  applies k ∧ ∀ j, applies j → counter j < counter k ∨ counter j = counter k ∧ j ≤ k

variable {counter counter' : Fin n → ℕ} {applies : Fin n → Bool} {k : Fin n}

theorem IsBest.unique {j : Fin n} (h : IsBest counter applies k) (h' : IsBest counter applies j) :
    k = j := by
  have hj := h.2 j h'.1
  have hk := h'.2 k h.1
  apply le_antisymm <;> omega

theorem foldl_better (counter : Fin n → ℕ) (applies : Fin n → Bool) {l : List (Fin n)}
    (sorted : l.Pairwise (· < ·)) :
    (l.foldl (better counter applies) none = none ∧ ∀ j ∈ l, ¬ applies j) ∨
      ∃ k, l.foldl (better counter applies) none = some k ∧ k ∈ l ∧ applies k ∧
        ∀ j ∈ l, applies j → counter j < counter k ∨ counter j = counter k ∧ j ≤ k := by
  induction l using List.reverseRecOn with
  | nil => exact Or.inl ⟨rfl, fun _ hj => absurd hj List.not_mem_nil⟩
  | append_singleton l k ih =>
    obtain ⟨hl, -, hlast⟩ := List.pairwise_append.mp sorted
    rw [List.foldl_append, List.foldl_cons, List.foldl_nil]
    rcases ih hl with ⟨hnone, hno⟩ | ⟨best, hbest, hmem, happlies, hmax⟩
    · rw [hnone]
      by_cases hk : applies k
      · right
        refine ⟨k, by simp [better, hk], by simp, hk, fun j hj haj => ?_⟩
        rcases List.mem_append.mp hj with hj | hj
        · exact absurd haj (hno j hj)
        · obtain rfl := List.mem_singleton.mp hj
          exact Or.inr ⟨rfl, le_rfl⟩
      · left
        refine ⟨by simp [better, hk], fun j hj => ?_⟩
        rcases List.mem_append.mp hj with hj | hj
        · exact hno j hj
        · obtain rfl := List.mem_singleton.mp hj
          exact hk
    · right
      rw [hbest]
      by_cases hk : counter best ≤ counter k ∧ applies k
      · refine ⟨k, by simp [better, hk], by simp, hk.2, fun j hj haj => ?_⟩
        rcases List.mem_append.mp hj with hj | hj
        · have hlt := hlast j hj k (List.mem_singleton_self k)
          have hj := hmax j hj haj
          omega
        · obtain rfl := List.mem_singleton.mp hj
          exact Or.inr ⟨rfl, le_rfl⟩
      · refine ⟨best, by rw [better, Option.elim_some, if_neg hk], List.mem_append_left _ hmem,
          happlies, fun j hj haj => ?_⟩
        rcases List.mem_append.mp hj with hj | hj
        · exact hmax j hj haj
        · obtain rfl := List.mem_singleton.mp hj
          exact Or.inl (not_le.mp fun hle => hk ⟨hle, haj⟩)

theorem select_eq_some_iff : select counter applies = some k ↔ IsBest counter applies k := by
  rcases foldl_better counter applies (List.sortedLT_finRange n).pairwise with
    ⟨hnone, hno⟩ | ⟨best, hbest, -, happlies, hmax⟩
  · refine iff_of_false (by rw [select, hnone]; exact nofun) fun h => ?_
    exact hno k (List.mem_finRange k) h.1
  · have h : IsBest counter applies best :=
      ⟨happlies, fun j haj => hmax j (List.mem_finRange j) haj⟩
    rw [select, hbest, Option.some_inj]
    constructor
    · rintro rfl
      exact h
    · exact h.unique

theorem select_eq_none_iff : select counter applies = none ↔ ∀ k, ¬ applies k := by
  rcases foldl_better counter applies (List.sortedLT_finRange n).pairwise with
    ⟨hnone, hno⟩ | ⟨best, hbest, -, happlies, -⟩
  · exact iff_of_true hnone fun k => hno k (List.mem_finRange k)
  · exact iff_of_false (by rw [select, hbest]; exact nofun) fun h => h best happlies

theorem select_congr (h : ∀ k, applies k → counter k = counter' k) :
    select counter applies = select counter' applies := by
  ext k
  rw [select_eq_some_iff, select_eq_some_iff]
  refine and_congr_right fun hk => forall_congr' fun j => imp_congr_right fun hj => ?_
  rw [h k hk, h j hj]

/-! ## Runs -/

variable (modulus : ℕ) (base : Fin n → ℕ)

def counters (selected : List (Option (Fin n))) (k : Fin n) : ℕ :=
  (base k + selected.count (some k)) % modulus

def next (selected : List (Option (Fin n))) (applies : Fin n → Bool) : Option (Fin n) :=
  select (counters modulus base selected) applies

def selections (steps : List (Fin n → Bool)) : List (Option (Fin n)) :=
  steps.foldl (fun selected applies => selected ++ [next modulus base selected applies]) []

def Leads (selected : List (Option (Fin n))) (applies : Fin n → Bool) : Option (Fin n) → Prop
  | none => ∀ k, ¬ applies k
  | some k => applies k ∧ ∀ j, applies j → selected.count (some j) ≤ selected.count (some k)

/-- Where a candidate applies whose counter is not cleared at the start, all others that apply are
cleared, come before it, and have not been selected. -/
def SettledAt (cleared : Fin n → Prop) (selected : List (Option (Fin n))) (applies : Fin n → Bool) :
    Prop :=
  ∀ x, applies x → ¬ cleared x → ∀ y, applies y → y ≠ x →
    cleared y ∧ y < x ∧ some y ∉ selected

def Settled (cleared : Fin n → Prop) (steps : List (Fin n → Bool)) : Prop :=
  ∀ before applies after, steps = before ++ applies :: after →
    SettledAt cleared (selections modulus (fun _ => 0) before) applies

variable {modulus base} {cleared : Fin n → Prop} {selected : List (Option (Fin n))}
  {steps before after : List (Fin n → Bool)}

theorem selections_append_singleton : selections modulus base (steps ++ [applies]) =
    selections modulus base steps ++
      [next modulus base (selections modulus base steps) applies] := by
  rw [selections, List.foldl_append]
  rfl

@[simp] theorem length_selections : (selections modulus base steps).length = steps.length := by
  induction steps using List.reverseRecOn with
  | nil => rfl
  | append_singleton steps applies ih =>
    rw [selections_append_singleton, List.length_append, List.length_append, ih]
    rfl

theorem selections_prefix (modulus : ℕ) (base : Fin n → ℕ) (before after : List (Fin n → Bool)) :
    selections modulus base before <+: selections modulus base (before ++ after) := by
  induction after using List.reverseRecOn with
  | nil => simp
  | append_singleton after applies ih =>
    rw [← List.append_assoc, selections_append_singleton]
    exact ih.trans (List.prefix_append _ _)

theorem selections_eq_append (modulus : ℕ) (base : Fin n → ℕ) (before : List (Fin n → Bool))
    (applies : Fin n → Bool) (after : List (Fin n → Bool)) :
    ∃ rest, selections modulus base (before ++ applies :: after) =
      selections modulus base before ++
        next modulus base (selections modulus base before) applies :: rest := by
  obtain ⟨rest, h⟩ := selections_prefix modulus base (before ++ [applies]) after
  rw [selections_append_singleton, List.append_assoc, List.append_assoc] at h
  exact ⟨rest, h.symm⟩

theorem settled_of_cleared (h : ∀ applies ∈ steps, ∀ x, applies x → cleared x) :
    Settled modulus cleared steps := by
  rintro before applies after rfl x hx hnot
  exact absurd (h applies (by simp) x hx) hnot

theorem Settled.left (h : Settled modulus cleared (before ++ after)) :
    Settled modulus cleared before := by
  rintro before' applies after' rfl
  exact h before' applies (after' ++ after) (by simp)

theorem settled_singleton_iff :
    Settled modulus cleared [applies] ↔ SettledAt cleared [] applies := by
  constructor
  · intro h
    exact h [] applies [] rfl
  · intro h before applies' after e
    obtain ⟨rfl, rfl, rfl⟩ : before = [] ∧ applies = applies' ∧ after = [] := by
      cases before with
      | nil => simpa [eq_comm] using e
      | cons _ before => simp at e
    exact h

theorem counters_eq_count (start : base k = 0) (length : selected.length < modulus) :
    counters modulus base selected k = selected.count (some k) := by
  rw [counters, start, Nat.zero_add]
  exact Nat.mod_eq_of_lt (List.count_le_length.trans_lt length)

theorem SettledAt.next_eq (h : SettledAt cleared selected applies)
    (start : ∀ k, cleared k → base k = 0) :
    next modulus base selected applies = next modulus (fun _ => 0) selected applies := by
  by_cases hx : ∃ x, applies x ∧ ¬ cleared x
  · obtain ⟨x, hax, hcx⟩ := hx
    have hbest (base' : Fin n → ℕ) (start' : ∀ k, cleared k → base' k = 0) :
        next modulus base' selected applies = some x := by
      refine select_eq_some_iff.mpr ⟨hax, fun y hay => ?_⟩
      by_cases hyx : y = x
      · subst hyx
        exact Or.inr ⟨rfl, le_rfl⟩
      · obtain ⟨hcy, hlt, hnot⟩ := h x hax hcx y hay hyx
        have hzero : counters modulus base' selected y = 0 := by
          rw [counters, start' y hcy, List.count_eq_zero_of_not_mem hnot]
          exact Nat.zero_mod _
        rw [hzero]
        rcases Nat.eq_zero_or_pos (counters modulus base' selected x) with hx | hx
        · exact Or.inr ⟨hx.symm, hlt.le⟩
        · exact Or.inl hx
    rw [hbest base start, hbest _ fun _ _ => rfl]
  · refine select_congr fun k hk => ?_
    have hck : cleared k := by
      by_contra hck
      exact hx ⟨k, hk, hck⟩
    rw [counters, counters, start k hck]

theorem Settled.selections_eq (h : Settled modulus cleared steps)
    (start : ∀ k, cleared k → base k = 0) :
    selections modulus base steps = selections modulus (fun _ => 0) steps := by
  induction steps using List.reverseRecOn with
  | nil => rfl
  | append_singleton steps applies ih =>
    rw [selections_append_singleton, selections_append_singleton, ih h.left,
      (h steps applies [] rfl).next_eq start]

/-- Counters that start with zero count the selections. -/
theorem leads_next (length : selected.length < modulus) :
    Leads selected applies (next modulus (fun _ => 0) selected applies) := by
  cases hnext : next modulus (fun _ => 0) selected applies with
  | none => exact select_eq_none_iff.mp hnext
  | some k =>
    obtain ⟨hk, hmax⟩ := select_eq_some_iff.mp hnext
    refine ⟨hk, fun j hj => ?_⟩
    have hle := hmax j hj
    rw [counters_eq_count rfl length, counters_eq_count rfl length] at hle
    omega

/-- A start value with which a candidate gets the greatest counter of all. -/
theorem next_update_eq {x : Fin n} (hx : applies x) (length : selected.length + 1 < modulus) :
    next modulus (Function.update (fun _ => 0) x (modulus - 1 - selected.count (some x))) selected
      applies = some x := by
  refine select_eq_some_iff.mpr ⟨hx, fun y _ => ?_⟩
  have hcount (j : Fin n) : selected.count (some j) ≤ selected.length := List.count_le_length
  by_cases hyx : y = x
  · subst hyx
    exact Or.inr ⟨rfl, le_rfl⟩
  · left
    have hxcount := hcount x
    have hycount := hcount y
    rw [counters, counters, Function.update_of_ne hyx, Function.update_self, Nat.zero_add,
      Nat.mod_eq_of_lt (by omega), Nat.mod_eq_of_lt (by omega)]
    omega

/-- Start values that counters can have. -/
structure Start (modulus : ℕ) (cleared : Fin n → Prop) (base : Fin n → ℕ) : Prop where
  lt : ∀ k, base k < modulus
  zero : ∀ k, cleared k → base k = 0

theorem start_zero (positive : 0 < modulus) : Start modulus cleared fun _ => 0 :=
  ⟨fun _ => positive, fun _ _ => rfl⟩

theorem start_update {x : Fin n} (value : ℕ) (hx : ¬ cleared x) (hv : value < modulus) :
    Start modulus cleared (Function.update (fun _ => 0) x value) where
  lt k := by
    by_cases hk : k = x
    · subst hk
      rwa [Function.update_self]
    · rw [Function.update_of_ne hk]
      exact Nat.zero_lt_of_lt hv
  zero k hk := Function.update_of_ne (by rintro rfl; exact hx hk) _ _

/-- A step at which the start values decide is not settled. -/
theorem settledAt_of_next_eq (length : selected.length + 1 < modulus)
    (same : ∀ base, Start modulus cleared base →
      next modulus base selected applies = next modulus (fun _ => 0) selected applies) :
    SettledAt cleared selected applies := by
  intro x hax hcx y hay hyx
  have hcount (j : Fin n) : selected.count (some j) ≤ selected.length := List.count_le_length
  have hlead (j : Fin n) : modulus - 1 - selected.count (some j) < modulus := by omega
  have hsame (base : Fin n → ℕ) (start : Start modulus cleared base) :
      next modulus base selected applies = some x := by
    rw [same base start, ← same _ (start_update _ hcx (hlead x)), next_update_eq hax length]
  have hcy : cleared y := by
    by_contra hcy
    have hy := hsame _ (start_update _ hcy (hlead y))
    rw [next_update_eq hay length] at hy
    exact hyx (Option.some.inj hy)
  have hzero := select_eq_some_iff.mp (hsame _
    (start_update ((modulus - selected.count (some x)) % modulus) hcx (Nat.mod_lt _ (by omega))))
  have hxcount := hcount x
  have hycount := hcount y
  have hle := hzero.2 y hay
  rw [counters, counters, Function.update_of_ne hyx, Function.update_self, Nat.zero_add,
    Nat.mod_add_mod, Nat.sub_add_cancel (by omega), Nat.mod_self, Nat.mod_eq_of_lt (by omega)]
    at hle
  have hnot : selected.count (some y) = 0 := by omega
  exact ⟨hcy, lt_of_le_of_ne (by omega) hyx, List.count_eq_zero.mp hnot⟩

/-- The start values make no difference to the selections if and only if all steps are settled. -/
theorem selections_eq_iff (length : steps.length < modulus) :
    (∀ base, Start modulus cleared base →
      selections modulus base steps = selections modulus (fun _ => 0) steps) ↔
      Settled modulus cleared steps := by
  constructor
  · rintro same before applies after rfl
    have hlen : before.length + 1 < modulus := by
      simp only [List.length_append, List.length_cons] at length
      omega
    have hselections (base : Fin n → ℕ) (start : Start modulus cleared base) :
        selections modulus base before = selections modulus (fun _ => 0) before ∧
          next modulus base (selections modulus base before) applies =
            next modulus (fun _ => 0) (selections modulus (fun _ => 0) before) applies := by
      obtain ⟨rest, h⟩ := selections_eq_append modulus base before applies after
      obtain ⟨rest', h'⟩ := selections_eq_append modulus (fun _ => 0) before applies after
      have hsame := same base start
      rw [h, h'] at hsame
      obtain ⟨hbefore, hrest⟩ := List.append_inj hsame (by simp)
      exact ⟨hbefore, (List.cons.inj hrest).1⟩
    refine settledAt_of_next_eq (by rwa [length_selections]) fun base start => ?_
    rw [← (hselections base start).2, (hselections base start).1]
  · exact fun h base start => h.selections_eq start.zero

end UsageSelection
