import Simutrace.Library.RangeIndex
import Mathlib.Algebra.GroupWithZero.Nat
import Mathlib.Algebra.Order.Group.Nat
import Mathlib.Algebra.BigOperators.Group.List.Basic

/-! # Tilings by ranges

Ranges of natural numbers tile an interval if each one starts where the one
before it ends. A position in the interval is then found by a range and the
distance from its start.
-/

namespace RangeIndex

variable {β : Type*} {l l' : List (RangeEntry ℕ β)} {r x y : RangeEntry ℕ β} {a b c v : ℕ}

/-- The ranges are not empty and cover the numbers from `a` up to `b`, one after the other. -/
def Tiles : List (RangeEntry ℕ β) → ℕ → ℕ → Prop
  | [], a, b => a = b
  | r :: l, a, b => r.start = a ∧ r.start ≤ r.stop ∧ Tiles l (r.stop + 1) b

def positions (l : List (RangeEntry ℕ β)) : List (β × ℕ) :=
  l.flatMap fun r => (List.range (r.stop + 1 - r.start)).map fun k => (r.val, k)

theorem tiles_append : Tiles (l ++ l') a b ↔ ∃ c, Tiles l a c ∧ Tiles l' c b := by
  induction l generalizing a with
  | nil => exact ⟨fun h => ⟨a, rfl, h⟩, fun ⟨c, hc, h⟩ => hc ▸ h⟩
  | cons r l ih =>
    simp only [List.cons_append, Tiles, ih, ← exists_and_left, and_assoc]

theorem Tiles.snoc (h : Tiles l a r.start) (hr : r.start ≤ r.stop) :
    Tiles (l ++ [r]) a (r.stop + 1) :=
  tiles_append.mpr ⟨r.start, h, rfl, hr, rfl⟩

theorem Tiles.le (h : Tiles l a b) : a ≤ b := by
  induction l generalizing a with
  | nil => exact h.le
  | cons r l ih =>
    obtain ⟨rfl, hr, h⟩ := h
    have hle := ih h
    omega

theorem Tiles.mem (h : Tiles l a b) (hr : r ∈ l) :
    a ≤ r.start ∧ r.start ≤ r.stop ∧ r.stop < b := by
  induction l generalizing a with
  | nil => cases hr
  | cons x l ih =>
    obtain ⟨rfl, hx, h⟩ := h
    rcases List.mem_cons.mp hr with rfl | hr
    · exact ⟨le_rfl, hx, h.le⟩
    · obtain ⟨hstart, hstop, hb⟩ := ih h hr
      exact ⟨by omega, hstop, hb⟩

theorem Tiles.pairwise (h : Tiles l a b) : l.Pairwise fun x y => x.stop < y.start := by
  induction l generalizing a with
  | nil => exact .nil
  | cons r l ih =>
    obtain ⟨rfl, hr, h⟩ := h
    exact .cons (fun y hy => Nat.lt_of_succ_le (h.mem hy).1) (ih h)

theorem Tiles.add_sum (h : Tiles l a b) : a + (l.map fun r => r.stop + 1 - r.start).sum = b := by
  induction l generalizing a with
  | nil => exact h
  | cons r l ih =>
    obtain ⟨rfl, hr, h⟩ := h
    have hsum := ih h
    rw [List.map_cons, List.sum_cons]
    omega

theorem Tiles.exists_contains (h : Tiles l a b) (ha : a ≤ v) (hb : v < b) :
    ∃ r ∈ l, Contains r v := by
  induction l generalizing a with
  | nil => exact absurd (h ▸ ha) (not_le.mpr hb)
  | cons r l ih =>
    obtain ⟨rfl, hr, h⟩ := h
    by_cases hv : v ≤ r.stop
    · exact ⟨r, List.mem_cons_self, ha, hv⟩
    · obtain ⟨x, hx, hc⟩ := ih h (Nat.succ_le_of_lt (not_le.mp hv))
      exact ⟨x, List.mem_cons_of_mem r hx, hc⟩

theorem Tiles.positions_getElem? (h : Tiles l a b) (hr : r ∈ l) (hc : Contains r v) :
    (positions l)[v - a]? = some (r.val, v - r.start) := by
  obtain ⟨hstart, hstop⟩ := hc
  induction l generalizing a with
  | nil => cases hr
  | cons x l ih =>
    obtain ⟨rfl, hx, h⟩ := h
    have hlen : ((List.range (x.stop + 1 - x.start)).map fun k => (x.val, k)).length =
        x.stop + 1 - x.start := by simp
    rw [positions, List.flatMap_cons]
    rcases List.mem_cons.mp hr with rfl | hr
    · rw [List.getElem?_append_left (by omega)]
      simp [show v - r.start < r.stop + 1 - r.start by omega]
    · have hle := (h.mem hr).1
      rw [List.getElem?_append_right (by omega), hlen,
        show v - x.start - (x.stop + 1 - x.start) = v - (x.stop + 1) by omega]
      exact ih h hr

theorem Tiles.eq_of_contains (h : Tiles l a b) (hx : x ∈ l) (hy : y ∈ l) (hcx : Contains x v)
    (hcy : Contains y v) : x = y := by
  obtain ⟨hx₁, hx₂⟩ := hcx
  obtain ⟨hy₁, hy₂⟩ := hcy
  induction l generalizing a with
  | nil => cases hx
  | cons r l ih =>
    obtain ⟨rfl, hr, h⟩ := h
    rcases List.mem_cons.mp hx with rfl | hxl <;> rcases List.mem_cons.mp hy with rfl | hyl
    · rfl
    · have hle := (h.mem hyl).1
      omega
    · have hle := (h.mem hxl).1
      omega
    · exact ih h hxl hyl

theorem Tiles.find_eq_some {index : List (RangeEntry ℕ β)} (h : Tiles l a b)
    (hs : Sorted index) (hmem : ∀ x, x ∈ index ↔ x ∈ l) (hr : r ∈ l) (hc : Contains r v) :
    find v index = some r := by
  have hfloor : IsFloor index v r := by
    refine ⟨(hmem r).mpr hr, hc.1, fun y hy hyv => ?_⟩
    by_contra hlt
    have hyl := (hmem y).mp hy
    have hcy : Contains y y.start := ⟨le_rfl, (h.mem hyl).2.1⟩
    have hcr : Contains r y.start := ⟨(not_le.mp hlt).le, hyv.trans hc.2⟩
    exact hlt (h.eq_of_contains hr hyl hcr hcy ▸ le_rfl)
  rw [find_of_isFloor hs hfloor, if_pos (.inr hc.2)]

theorem Tiles.find_eq_none {index : List (RangeEntry ℕ β)} (h : Tiles l a b)
    (hs : Sorted index) (hmem : ∀ x, x ∈ index → x ∈ l) (hv : b ≤ v) : find v index = none := by
  by_cases hf : ∃ y ∈ index, y.start ≤ v
  · obtain ⟨y, hy, hyv⟩ := hf
    obtain ⟨x, hx⟩ := exists_isFloor hy hyv
    obtain ⟨-, hle, hlt⟩ := h.mem (hmem x hx.mem)
    rw [find_of_isFloor hs hx, if_neg (by omega)]
  · exact RangeIndex.find_eq_none fun y hy => not_le.mp fun hle => hf ⟨y, hy, hle⟩

end RangeIndex
