import Simutrace.Stream.Search

/-! # The neighbours of a segment

The segments of a stream have holes between them. The search for the segment
before a number first replaces a number behind the last slot by the last slot,
and then passes over that slot.
-/

namespace Simutrace

section Scan

variable {α : Type*} {f : ℕ → Option α} {a n : ℕ} {x : α}

theorem findSome?_range'_eq_none :
    (List.range' a n).findSome? f = none ↔ ∀ i, a ≤ i → i < a + n → f i = none := by
  simp only [List.findSome?_eq_none_iff, List.mem_range'_1, and_imp]

theorem exists_of_findSome?_range' (h : (List.range' a n).findSome? f = some x) :
    ∃ i, a ≤ i ∧ i < a + n ∧ f i = some x ∧ ∀ j, a ≤ j → j < i → f j = none := by
  induction n generalizing a with
  | zero => cases h
  | succ n ih =>
    rw [List.range'_succ, List.findSome?_cons] at h
    cases hf : f a with
    | some y =>
      rw [hf] at h
      obtain rfl := Option.some.inj h
      exact ⟨a, le_rfl, by omega, hf, fun j hj hlt => by omega⟩
    | none =>
      rw [hf] at h
      obtain ⟨i, hai, hin, hfi, hfirst⟩ := ih h
      refine ⟨i, by omega, by omega, hfi, fun j hj hlt => ?_⟩
      by_cases hja : j = a
      · rw [hja, hf]
      · exact hfirst j (by omega) hlt

theorem findSome?_reverse_range_eq_none :
    (List.range n).reverse.findSome? f = none ↔ ∀ i < n, f i = none := by
  simp only [List.findSome?_eq_none_iff, List.mem_reverse, List.mem_range]

theorem exists_of_findSome?_reverse_range (h : (List.range n).reverse.findSome? f = some x) :
    ∃ i, i < n ∧ f i = some x ∧ ∀ j, i < j → j < n → f j = none := by
  induction n with
  | zero => cases h
  | succ n ih =>
    rw [List.range_succ, List.reverse_append, List.reverse_singleton, List.singleton_append,
      List.findSome?_cons] at h
    cases hf : f n with
    | some y =>
      rw [hf] at h
      obtain rfl := Option.some.inj h
      exact ⟨n, Nat.lt_succ_self n, hf, fun j hj hlt => by omega⟩
    | none =>
      rw [hf] at h
      obtain ⟨i, hin, hfi, hlast⟩ := ih h
      refine ⟨i, by omega, hfi, fun j hj hlt => ?_⟩
      by_cases hjn : j = n
      · rw [hjn, hf]
      · exact hlast j hj (by omega)

end Scan

namespace ServerStream

variable {acc : List StorageLocation} {s : ServerStream} {n : ℕ}

structure Slots (s : ServerStream) : Prop where
  last : s.lastSequenceNumber = if s.size = 0 then none else some (s.size - 1)
  lt_size : ∀ n : ℕ, s.segments n ≠ none → n < s.size
  key : ∀ n, ∀ loc ∈ s.segments n, loc.sequenceNumber = n

def IsPrevious (s : ServerStream) (n : ℕ) : Option SegmentLocation → Prop
  | none => ∀ m < n, s.segments m = none
  | some loc => loc.sequenceNumber < n ∧ s.segments loc.sequenceNumber = some loc ∧
      ∀ m, loc.sequenceNumber < m → m < n → s.segments m = none

def IsNext (s : ServerStream) (n : ℕ) : Option SegmentLocation → Prop
  | none => ∀ m, n < m → s.segments m = none
  | some loc => n < loc.sequenceNumber ∧ s.segments loc.sequenceNumber = some loc ∧
      ∀ m, n < m → m < loc.sequenceNumber → s.segments m = none

theorem Slots.none_of_size_le (h : s.Slots) (hn : s.size ≤ n) : s.segments n = none := by
  by_contra hne
  exact (h.lt_size n hne).not_ge hn

theorem Slots.isNext (h : s.Slots) (hn : n < invalidStreamSegmentId) :
    s.IsNext n (s.getNextSegment n) := by
  have hmod : (n + 1) % 2 ^ 32 = n + 1 := by
    unfold invalidStreamSegmentId at hn
    omega
  unfold getNextSegment
  rw [hmod]
  cases hfound : (List.range' (n + 1) (s.size - (n + 1))).findSome? s.segments with
  | none =>
    intro (m : ℕ) (hm : n < m)
    by_cases hsize : m < s.size
    · exact findSome?_range'_eq_none.mp hfound m hm (by omega)
    · exact h.none_of_size_le (not_lt.mp hsize)
  | some loc =>
    obtain ⟨i, hni, -, hi, hfirst⟩ := exists_of_findSome?_range' hfound
    obtain rfl := h.key i loc hi
    exact ⟨hni, hi, hfirst⟩

/-- The search looks at the slots below the number and below the last slot. -/
theorem Slots.getPreviousSegment_eq (h : s.Slots) (n : ℕ) :
    s.getPreviousSegment n = (List.range (min n (s.size - 1))).reverse.findSome? s.segments := by
  unfold getPreviousSegment
  rw [h.last]
  by_cases hsize : s.size = 0
  · simp [hsize]
  · simp [hsize]

theorem Slots.isPrevious_min (h : s.Slots) (n : ℕ) :
    s.IsPrevious (min n (s.size - 1)) (s.getPreviousSegment n) := by
  rw [h.getPreviousSegment_eq]
  cases hfound : (List.range (min n (s.size - 1))).reverse.findSome? s.segments with
  | none => exact findSome?_reverse_range_eq_none.mp hfound
  | some loc =>
    obtain ⟨i, hin, hi, hlast⟩ := exists_of_findSome?_reverse_range hfound
    obtain rfl := h.key i loc hi
    exact ⟨hin, hi, hlast⟩

/-- The segment before a number behind the last slot is the one before the last slot, if that one
is not allocated. -/
theorem Slots.isPrevious_iff (h : s.Slots) (n : ℕ) :
    s.IsPrevious n (s.getPreviousSegment n) ↔
      (s.size ≤ n → s.segments (s.size - 1) = none) := by
  have hmin := h.isPrevious_min n
  constructor
  · intro hprev hn
    by_contra hne
    have hpos := h.lt_size _ hne
    rw [min_eq_right (by omega)] at hmin
    cases hfound : s.getPreviousSegment n with
    | none =>
      rw [hfound] at hprev
      exact hne (hprev _ (by omega))
    | some loc =>
      rw [hfound] at hprev hmin
      exact hne (hprev.2.2 _ hmin.1 ((Nat.sub_lt hpos.pos Nat.one_pos).trans_le hn))
  · intro hlast
    have hskipped (m : ℕ) (hm : min n (s.size - 1) ≤ m) (hmn : m < n) :
        s.segments m = none := by
      by_cases hsize : m < s.size
      · obtain rfl : m = s.size - 1 := by omega
        exact hlast (by omega)
      · exact h.none_of_size_le (not_lt.mp hsize)
    cases hfound : s.getPreviousSegment n with
    | none =>
      rw [hfound] at hmin
      intro m hm
      by_cases hlt : m < min n (s.size - 1)
      · exact hmin m hlt
      · exact hskipped m (not_lt.mp hlt) hm
    | some loc =>
      rw [hfound] at hmin
      refine ⟨hmin.1.trans_le (min_le_left _ _), hmin.2.1, fun m hlt hm => ?_⟩
      by_cases hmlt : m < min n (s.size - 1)
      · exact hmin.2.2 m hlt hmlt
      · exact hskipped m (not_lt.mp hmlt) hm

/-- The neighbours are found, except for the segment in the last slot before a number behind it. -/
theorem neighbours_iff (h : s.Slots) (n : ℕ) :
    (s.IsPrevious n (s.getPreviousSegment n) ∧
        (n < invalidStreamSegmentId → s.IsNext n (s.getNextSegment n))) ↔
      (s.size ≤ n → s.segments (s.size - 1) = none) := by
  rw [h.isPrevious_iff, and_iff_left fun hn => h.isNext hn]

theorem Slots.new : new.Slots where
  last := rfl
  lt_size _ h := (h rfl).elim
  key _ _ h := by cases h

theorem Slots.of_update {s' : ServerStream} {o : Option SegmentLocation} (h : s.Slots)
    (hlast : s'.lastSequenceNumber = if s'.size = 0 then none else some (s'.size - 1))
    (hsize : s.size ≤ s'.size) (hs : s'.segments = Function.update s.segments n o)
    (ho : ∀ loc ∈ o, n < s'.size ∧ loc.sequenceNumber = n) : s'.Slots where
  last := hlast
  lt_size m hm := by
    rw [hs] at hm
    by_cases hmn : m = n
    · subst hmn
      rw [Function.update_self] at hm
      obtain ⟨loc, hloc⟩ := Option.ne_none_iff_exists'.mp hm
      exact (ho loc hloc).1
    · rw [Function.update_of_ne hmn] at hm
      exact (h.lt_size m hm).trans_le hsize
  key m loc hm := by
    rw [hs] at hm
    by_cases hmn : m = n
    · subst hmn
      rw [Function.update_self] at hm
      exact (ho loc hm).2
    · rw [Function.update_of_ne hmn] at hm
      exact h.key m loc hm

theorem Slots.setSegment {o : Option SegmentLocation} (h : s.Slots)
    (ho : ∀ loc ∈ o, n < s.size ∧ loc.sequenceNumber = n) : (s.setSegment n o).Slots :=
  h.of_update h.last le_rfl rfl ho

theorem Slots.addSegmentLocation (h : s.Slots) (loc : SegmentLocation) :
    (s.addSegmentLocation loc).Slots := by
  refine h.of_update ?_ (le_max_left _ _) rfl fun loc' hloc => ?_
  · simp only [ServerStream.addSegmentLocation, h.last]
    by_cases hsize : s.size = 0
    · simp [hsize]
    · have hne : max s.size (loc.sequenceNumber + 1) ≠ 0 :=
        (lt_max_of_lt_right (Nat.succ_pos _)).ne'
      rw [if_neg hsize, if_neg hne]
      exact congrArg some (by
        change max (s.size - 1) loc.sequenceNumber = max s.size (loc.sequenceNumber + 1) - 1
        omega)
  · obtain rfl := Option.some.inj hloc
    exact ⟨lt_max_of_lt_right (Nat.lt_succ_self _), rfl⟩

theorem Slots.addSegment {s' : ServerStream} {location : StorageLocation} (h : s.Slots)
    (hadd : s.addSegment location = some s') : s'.Slots := by
  unfold ServerStream.addSegment at hadd
  dsimp only at hadd
  split_ifs at hadd with haccepted halloc
  · obtain rfl := Option.some.inj hadd
    have hslots : (s.setSegment location.sequenceNumber ((s.segments
        location.sequenceNumber).map fun loc =>
          { loc with location := some location.normalize })).Slots := by
      refine h.setSegment fun loc hloc => ?_
      obtain ⟨loc', hloc', rfl⟩ := Option.map_eq_some_iff.mp hloc
      exact ⟨halloc.1, h.key _ loc' hloc'⟩
    exact ⟨hslots.last, hslots.lt_size, hslots.key⟩
  · obtain rfl := Option.some.inj hadd
    have hslots := h.addSegmentLocation (.stored location.normalize)
    exact ⟨hslots.last, hslots.lt_size, hslots.key⟩

theorem Located.slots (h : Located acc s) : s.Slots := by
  induction h with
  | new => exact .new
  | allocate h m session buffer free ih => exact ih.addSegmentLocation _
  | discard h m new ih => exact ih.setSegment fun loc hloc => by cases hloc
  | add h location new accepted ih => exact ih.addSegment accepted

/-- Segments in every third slot. -/
def spread : ServerStream :=
  ((new.addSegmentLocation (.allocated 0 1 0)).addSegmentLocation
    (.allocated 3 1 1)).addSegmentLocation (.allocated 6 1 2)

theorem spread_slots : spread.Slots :=
  ((Slots.new.addSegmentLocation _).addSegmentLocation _).addSegmentLocation _

/-- The neighbours of a segment are found behind two holes on each side. -/
theorem neighbours_spread :
    spread.getPreviousSegment 3 = some (.allocated 0 1 0) ∧
    spread.getNextSegment 3 = some (.allocated 6 1 2) ∧
    spread.IsPrevious 3 (spread.getPreviousSegment 3) ∧
      (3 < invalidStreamSegmentId → spread.IsNext 3 (spread.getNextSegment 3)) :=
  ⟨rfl, rfl, (neighbours_iff spread_slots 3).mpr fun h => absurd h (by decide)⟩

theorem not_neighbours_behind : ¬ ∀ (s : ServerStream), s.Slots → ∀ n : ℕ,
    s.IsPrevious n (s.getPreviousSegment n) ∧
      (n < invalidStreamSegmentId → s.IsNext n (s.getNextSegment n)) := by
  intro hall
  have hlast : spread.segments 6 = none := (spread_slots.isPrevious_iff 7).mp
    (hall spread spread_slots 7).1 le_rfl
  cases hlast

end ServerStream

end Simutrace
