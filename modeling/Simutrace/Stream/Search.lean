import Simutrace.Stream.Types
import Mathlib.Data.Nat.SuccPred

/-! # Searching the segments of a stream

The trees of a stream index the ranges of its located segments. A search finds
a segment for every value in their ranges if and only if no indexed range cuts
off another one.
-/

namespace Simutrace

namespace ServerStream

/-- The locations that were added to a stream so far, in order. Between them segments may be
allocated for writing, and segments without a location may be given up again. -/
inductive Located : List StorageLocation → ServerStream → Prop
  | new : Located [] .new
  | allocate {acc : List StorageLocation} {s : ServerStream} (h : Located acc s)
      (sequenceNumber : StreamSegmentId) (session : SessionId) (buffer : SegmentId)
      (free : ¬ s.SegmentIsAllocated sequenceNumber) :
      Located acc (s.addSegmentLocation (.allocated sequenceNumber session buffer))
  | discard {acc : List StorageLocation} {s : ServerStream} (h : Located acc s)
      (sequenceNumber : StreamSegmentId)
      (new : ∀ loc ∈ s.segments sequenceNumber, loc.location = none) :
      Located acc (s.setSegment sequenceNumber none)
  | add {acc : List StorageLocation} {s s' : ServerStream} (h : Located acc s)
      (location : StorageLocation)
      (new : ∀ loc ∈ s.segments location.sequenceNumber, loc.location = none)
      (accepted : s.addSegment location = some s') : Located (acc ++ [location.normalize]) s'

variable {acc : List StorageLocation} {s s' : ServerStream} {type : QueryTree}

def indexedRanges (type : QueryTree) (acc : List StorageLocation) :
    List (RangeEntry ℕ StreamSegmentId) :=
  (acc.filter fun loc => (loc.ranges type).Valid).map fun loc =>
    ⟨(loc.ranges type).start, (loc.ranges type).stop, loc.sequenceNumber⟩

def HasLocation (s : ServerStream) (location : StorageLocation) : Prop :=
  ∃ loc, s.segments location.sequenceNumber = some loc ∧ loc.location = some location

theorem indexedRanges_append (type : QueryTree) (acc : List StorageLocation)
    (location : StorageLocation) :
    indexedRanges type (acc ++ [location]) = indexedRanges type acc ++
      if (location.ranges type).Valid then
        [⟨(location.ranges type).start, (location.ranges type).stop, location.sequenceNumber⟩]
      else [] := by
  unfold indexedRanges
  rw [List.filter_append, List.map_append]
  by_cases hv : (location.ranges type).Valid <;> simp [hv]

theorem Located.trees (h : Located acc s) (type : QueryTree) :
    s.trees type = RangeIndex.build (indexedRanges type acc) := by
  induction h with
  | new => rfl
  | allocate h sqn session buffer free ih => exact ih
  | discard h sqn new ih => exact ih
  | add h location new accepted ih =>
    obtain ⟨-, htrees, -⟩ := addSegment_spec accepted
    rw [htrees, indexedRanges_append, indexLocation]
    dsimp only
    split
    · rw [RangeIndex.build_append, ih]
    · rw [List.append_nil, ih]

theorem Located.lt_size (h : Located acc s) {sqn : StreamSegmentId} (hs : s.segments sqn ≠ none) :
    sqn < s.size := by
  induction h with
  | new => exact (hs rfl).elim
  | allocate h n session buffer free ih =>
    simp only [addSegmentLocation, SegmentLocation.allocated] at hs ⊢
    by_cases hn : sqn = n
    · rw [hn]; exact lt_max_of_lt_right (Nat.lt_succ_self _)
    · rw [Function.update_of_ne hn] at hs
      exact lt_max_of_lt_left (ih hs)
  | discard h n new ih =>
    simp only [setSegment] at hs ⊢
    by_cases hn : sqn = n
    · rw [hn, Function.update_self] at hs
      exact (hs rfl).elim
    · rw [Function.update_of_ne hn] at hs
      exact ih hs
  | add h location new accepted ih =>
    obtain ⟨-, -, -, hlt, hle, loc, -, hseg⟩ := addSegment_spec accepted
    by_cases hn : sqn = location.sequenceNumber
    · exact hn ▸ hlt
    · rw [hseg, Function.update_of_ne hn] at hs
      exact (ih hs).trans_le hle

theorem hasLocation_update {n : StreamSegmentId} {o : Option SegmentLocation}
    {location : StorageLocation} (hs : s'.segments = Function.update s.segments n o) :
    s'.HasLocation location ↔ if location.sequenceNumber = n then
      ∃ loc, o = some loc ∧ loc.location = some location else s.HasLocation location := by
  rw [HasLocation, hs]
  split
  · rename_i hn; rw [hn, Function.update_self]
  · rename_i hn; rw [Function.update_of_ne hn]; rfl

theorem hasLocation_of_new {n : StreamSegmentId} {o : Option SegmentLocation}
    (hs : s'.segments = Function.update s.segments n o)
    (hnew : ∀ loc ∈ s.segments n, loc.location = none) (ho : ∀ loc ∈ o, loc.location = none)
    (location : StorageLocation) : s'.HasLocation location ↔ s.HasLocation location := by
  rw [hasLocation_update hs]
  split
  · rename_i hn
    refine iff_of_false (fun ⟨loc, hl, hloc⟩ => ?_) fun ⟨loc, hl, hloc⟩ => ?_
    · rw [ho loc hl] at hloc; cases hloc
    · rw [hnew loc (hn ▸ hl)] at hloc; cases hloc
  · rfl

theorem hasLocation_of_located {location' : StorageLocation} {loc' : SegmentLocation}
    (hs : s'.segments = Function.update s.segments location'.sequenceNumber (some loc'))
    (hnew : ∀ loc ∈ s.segments location'.sequenceNumber, loc.location = none)
    (hloc : loc'.location = some location'.normalize) (location : StorageLocation) :
    s'.HasLocation location ↔ s.HasLocation location ∨ location = location'.normalize := by
  rw [hasLocation_update hs]
  split
  · rename_i hn
    have hold : ¬ s.HasLocation location := fun ⟨l, hl, hll⟩ => by
      rw [hnew l (hn ▸ hl)] at hll; cases hll
    rw [or_iff_right hold]
    constructor
    · rintro ⟨l, hl, hll⟩
      obtain rfl := Option.some.inj hl
      exact (Option.some.inj (hloc.symm.trans hll)).symm
    · rintro rfl
      exact ⟨loc', rfl, hloc⟩
  · rename_i hn
    exact (or_iff_left fun (he : location = location'.normalize) => hn (he ▸ rfl)).symm

theorem Located.hasLocation_iff (h : Located acc s) (location : StorageLocation) :
    s.HasLocation location ↔ location ∈ acc := by
  induction h generalizing location with
  | new => simp [HasLocation, ServerStream.new]
  | @allocate acc s h sqn session buffer free ih =>
    have hnone : s.segments sqn = none := by
      by_contra hs
      exact free ⟨h.lt_size hs, hs⟩
    rw [← ih]
    refine
      hasLocation_of_new rfl (fun loc hloc => ?_) (by simp [SegmentLocation.allocated]) location
    cases hnone.symm.trans hloc
  | discard h sqn new ih =>
    rw [← ih]
    exact hasLocation_of_new rfl new (by simp) location
  | add h location' new accepted ih =>
    obtain ⟨-, -, -, -, -, loc, hloc, hseg⟩ := addSegment_spec accepted
    rw [hasLocation_of_located hseg new hloc, ih, List.mem_append, List.mem_singleton]

theorem Located.start_le_stop (h : Located acc s) {r : RangeEntry ℕ StreamSegmentId}
    (hr : r ∈ indexedRanges type acc) : r.start ≤ r.stop := by
  induction h with
  | new => cases hr
  | allocate h sqn session buffer free ih => exact ih hr
  | discard h sqn new ih => exact ih hr
  | add h location new accepted ih =>
    rw [indexedRanges_append, List.mem_append] at hr
    rcases hr with hr | hr
    · exact ih hr
    · split at hr
      · rename_i hv
        obtain rfl := List.mem_singleton.mp hr
        have hv' : (location.ranges type).Valid := Range.valid_normalize.mp hv
        have hacc := (addSegment_spec accepted).1 type
        rw [RangeAccepted, if_pos hv'] at hacc
        simpa only [StorageLocation.normalize, Range.normalize_of_valid hv'] using hacc.1
      · cases hr

def Covers (s : ServerStream) (type : QueryTree) (sqn : StreamSegmentId) (value : ℕ) : Prop :=
  ∃ location, s.HasLocation location ∧ location.sequenceNumber = sqn ∧
    (location.ranges type).Valid ∧ (location.ranges type).start ≤ value ∧
    value ≤ (location.ranges type).stop

/-- The search for a value returns a segment whose range contains it, if there is one, and no
segment only if there is none. -/
structure Finds (s : ServerStream) (type : QueryTree) (value : ℕ) : Prop where
  sound : ∀ sqn, s.findSequenceNumber type value = some sqn → s.Covers type sqn value
  complete : (∃ sqn, s.Covers type sqn value) → s.findSequenceNumber type value ≠ none

theorem Located.covers_iff (h : Located acc s) (sqn : StreamSegmentId) (value : ℕ) :
    s.Covers type sqn value ↔
      ∃ r ∈ indexedRanges type acc, r.val = sqn ∧ RangeIndex.Contains r value := by
  simp only [Covers, h.hasLocation_iff, indexedRanges, List.mem_map, List.mem_filter,
    decide_eq_true_eq]
  constructor
  · rintro ⟨location, hm, rfl, hv, hs, he⟩
    exact ⟨_, ⟨location, ⟨hm, hv⟩, rfl⟩, rfl, hs, he⟩
  · rintro ⟨_, ⟨location, ⟨hm, hv⟩, rfl⟩, rfl, hs, he⟩
    exact ⟨location, hm, rfl, hv, hs, he⟩

/-- Whatever was added to a stream, a search never returns a segment without the value. It finds
all values if and only if, of the ranges accepted for the tree, none that was the first with its
start ends within another one before the next range starts. -/
theorem finds_iff_uncut (h : Located acc s) (type : QueryTree) :
    (∀ value, s.Finds type value) ↔ RangeIndex.Uncut (indexedRanges type acc) := by
  rw [← RangeIndex.findsAll_iff_uncut fun r hr => h.start_le_stop hr]
  have hfind (value : ℕ) : s.findSequenceNumber type value =
      (RangeIndex.find value (RangeIndex.build (indexedRanges type acc))).map (·.val) := by
    rw [findSequenceNumber, h.trees]
  refine forall_congr' fun value => ⟨fun hf => ⟨?_, ?_⟩, fun hf => ⟨?_, ?_⟩⟩
  · intro x hx
    exact RangeIndex.find_sound (fun r hr => h.start_le_stop hr) hx
  · rintro ⟨r, hr, hc⟩ hnone
    exact hf.complete ⟨r.val, (h.covers_iff _ _).mpr ⟨r, hr, rfl, hc⟩⟩ (by rw [hfind, hnone]; rfl)
  · intro sqn hs
    rw [hfind, Option.map_eq_some_iff] at hs
    obtain ⟨x, hx, rfl⟩ := hs
    obtain ⟨hm, hc⟩ := hf.sound x hx
    exact (h.covers_iff _ _).mpr ⟨x, hm, rfl, hc⟩
  · rintro ⟨sqn, hs⟩ hnone
    obtain ⟨r, hr, -, hc⟩ := (h.covers_iff _ _).mp hs
    rw [hfind, Option.map_eq_none_iff] at hnone
    exact hf.complete ⟨r, hr, hc⟩ hnone

def cycleSegment (sequenceNumber start stop : ℕ) : StorageLocation where
  sequenceNumber := sequenceNumber
  ranges
    | .qCycleCount => ⟨start, stop⟩
    | _ => ⟨10 * sequenceNumber, 10 * sequenceNumber + 9⟩
  compressedSize := 64
  rawEntryCount := 10

theorem located_pair {a b : StorageLocation} (hn : b.sequenceNumber ≠ a.sequenceNumber)
    (hva : ∀ i, (a.ranges i).Valid) (hvb : ∀ i, (b.ranges i).Valid)
    (ha : ServerStream.new.LocationAccepted a)
    (hb : ∀ s, ServerStream.new.addSegment a = some s → s.LocationAccepted b) :
    ∃ s, Located [a, b] s := by
  obtain ⟨s, hs⟩ := exists_addSegment ha
  obtain ⟨s', hs'⟩ := exists_addSegment (hb s hs)
  have hone : Located [a.normalize] s := Located.new.add a (by rintro _ ⟨⟩) hs
  have htwo : Located ([a.normalize] ++ [b.normalize]) s' := by
    refine hone.add b (fun loc hloc => ?_) hs'
    obtain ⟨-, -, -, -, -, l, -, hseg⟩ := addSegment_spec hs
    rw [hseg, Function.update_of_ne hn] at hloc
    cases hloc
  rw [StorageLocation.normalize_of_valid hva, StorageLocation.normalize_of_valid hvb] at htwo
  exact ⟨s', htwo⟩

/-- The cycle counts of the second segment lie within those of the first one. -/
theorem not_finds_nested :
    ∃ s, Located [cycleSegment 0 0 10, cycleSegment 1 5 6] s ∧ ¬ s.Finds .qCycleCount 8 := by
  obtain ⟨s, h⟩ : ∃ s, Located [cycleSegment 0 0 10, cycleSegment 1 5 6] s := by
    apply located_pair (by decide) (by decide) (by decide) (by decide)
    rintro s hs
    rw [addSegment, if_pos (by decide)] at hs
    obtain rfl := Option.some.inj hs
    decide
  refine ⟨s, h, fun hf => hf.complete ⟨0, (h.covers_iff _ _).mpr ?_⟩ ?_⟩
  · exact ⟨⟨0, 10, 0⟩, List.mem_cons_self, rfl, Nat.zero_le 8, Nat.le_add_right 8 2⟩
  · rw [findSequenceNumber, h.trees]
    rfl

theorem finds_iff_uncut_successive :
    ∃ s, Located [cycleSegment 0 0 10, cycleSegment 1 10 16] s ∧
      ((∀ value, s.Finds .qCycleCount value) ↔ RangeIndex.Uncut
        (indexedRanges .qCycleCount [cycleSegment 0 0 10, cycleSegment 1 10 16])) := by
  obtain ⟨s, h⟩ : ∃ s, Located [cycleSegment 0 0 10, cycleSegment 1 10 16] s := by
    apply located_pair (by decide) (by decide) (by decide) (by decide)
    rintro s hs
    rw [addSegment, if_pos (by decide)] at hs
    obtain rfl := Option.some.inj hs
    decide
  exact ⟨s, h, finds_iff_uncut h .qCycleCount⟩

end ServerStream

end Simutrace
