import Simutrace.Library.RangeIndex
import Mathlib.Algebra.Group.Nat.Defs
import Mathlib.Data.Multiset.Basic
import Mathlib.Logic.Function.Basic

/-! # Server streams

A stream is a sequence of segments, each of which is being written, stored, or
loaded into a buffer segment for a number of sessions. The located segments are
found through one index tree for each kind of range.
-/

namespace Simutrace

/-- Marks range ends, cycle counts, time stamps and entry indices that are not known. -/
def invalidLargeObjectId : ℕ := 2 ^ 64 - 1

def invalidStreamSegmentId : ℕ := 2 ^ 32 - 1

abbrev StreamSegmentId := ℕ

abbrev SegmentId := ℕ

abbrev SessionId := ℕ

abbrev WaitId := ℕ

inductive QueryTree | qIndex | qCycleCount | qRealTime
  deriving DecidableEq, Repr

theorem QueryTree.forall_iff {p : QueryTree → Prop} :
    (∀ i, p i) ↔ p .qIndex ∧ p .qCycleCount ∧ p .qRealTime :=
  ⟨fun h => ⟨h _, h _, h _⟩, fun h i => by cases i <;> simp [h]⟩

instance (p : QueryTree → Prop) [DecidablePred p] : Decidable (∀ i, p i) :=
  decidable_of_iff _ QueryTree.forall_iff.symm

structure Range where
  start : ℕ
  stop : ℕ
  deriving DecidableEq, Repr

namespace Range

def invalid : Range := ⟨invalidLargeObjectId, invalidLargeObjectId⟩

def Valid (r : Range) : Prop := r.start ≠ invalidLargeObjectId ∧ r.stop ≠ invalidLargeObjectId

instance (r : Range) : Decidable r.Valid := inferInstanceAs (Decidable (_ ∧ _))

/-- A half valid range is not kept. -/
def normalize (r : Range) : Range := if r.Valid then r else invalid

theorem normalize_of_valid {r : Range} (h : r.Valid) : r.normalize = r := if_pos h

@[simp] theorem valid_normalize {r : Range} : r.normalize.Valid ↔ r.Valid := by
  unfold normalize
  split
  · rfl
  · rename_i h
    exact iff_of_false (fun hv => hv.1 rfl) h

end Range

structure StorageLocation where
  sequenceNumber : StreamSegmentId
  ranges : QueryTree → Range
  compressedSize : ℕ
  rawEntryCount : ℕ

namespace StorageLocation

def getEntryCount (loc : StorageLocation) : ℕ :=
  let index := loc.ranges .qIndex
  if index.start = invalidLargeObjectId then 0 else (index.stop - index.start + 1) % 2 ^ 32

def normalize (loc : StorageLocation) : StorageLocation :=
  { loc with ranges := fun i => (loc.ranges i).normalize }

theorem normalize_of_valid {loc : StorageLocation} (h : ∀ i, (loc.ranges i).Valid) :
    loc.normalize = loc := by
  simp only [normalize, Range.normalize_of_valid (h _)]

end StorageLocation

/-- A segment of a stream. It is new as long as it has no location; `id` is the buffer segment
with its data and `sideId` the one of an operation in progress. -/
structure SegmentLocation where
  sequenceNumber : StreamSegmentId
  location : Option StorageLocation
  id : Option SegmentId
  sideId : Option SegmentId
  cancel : Bool
  prefetched : Bool
  referenceCount : ℕ
  referenceMap : Multiset SessionId
  waitList : List WaitId

namespace SegmentLocation

def allocated (sequenceNumber : StreamSegmentId) (session : SessionId) (buffer : SegmentId) :
    SegmentLocation :=
  ⟨sequenceNumber, none, some buffer, none, false, false, 1, {session}, []⟩

/-- An already existing segment. -/
def stored (location : StorageLocation) : SegmentLocation :=
  ⟨location.sequenceNumber, some location, none, none, false, false, 0, 0, []⟩

end SegmentLocation

structure StreamStatistics where
  compressedSize : ℕ
  entryCount : ℕ
  rawEntryCount : ℕ
  ranges : QueryTree → Range

structure ServerStream where
  segments : StreamSegmentId → Option SegmentLocation
  size : ℕ
  openList : List StreamSegmentId
  trees : QueryTree → List (RangeEntry ℕ StreamSegmentId)
  lastSequenceNumber : Option StreamSegmentId
  lastAppendSequenceNumber : Option StreamSegmentId
  lastAppendIndex : ℕ
  stats : StreamStatistics

namespace ServerStream

def new : ServerStream where
  segments _ := none
  size := 0
  openList := []
  trees _ := []
  lastSequenceNumber := none
  lastAppendSequenceNumber := none
  lastAppendIndex := 0
  stats := ⟨0, 0, 0, fun _ => .invalid⟩

variable (s : ServerStream)

def SegmentIsAllocated (sequenceNumber : StreamSegmentId) : Prop :=
  sequenceNumber < s.size ∧ s.segments sequenceNumber ≠ none

instance (sequenceNumber : StreamSegmentId) : Decidable (s.SegmentIsAllocated sequenceNumber) :=
  inferInstanceAs (Decidable (_ ∧ ¬ _ = none))

def setSegment (sequenceNumber : StreamSegmentId) (loc : Option SegmentLocation) : ServerStream :=
  { s with segments := Function.update s.segments sequenceNumber loc }

/-- Put a segment into its slot; a referenced one is also added to the open list. -/
def addSegmentLocation (loc : SegmentLocation) : ServerStream :=
  let last :=
    match s.lastSequenceNumber with
    | none => loc.sequenceNumber
    | some last => max last loc.sequenceNumber
  { s with
    segments := Function.update s.segments loc.sequenceNumber (some loc)
    size := max s.size (loc.sequenceNumber + 1)
    openList := if loc.referenceCount > 0 then s.openList ++ [loc.sequenceNumber] else s.openList
    lastSequenceNumber := some last }

-- A number behind the last one is replaced by the last one, which is then not considered itself.
def getPreviousSegment (sequenceNumber : StreamSegmentId) : Option SegmentLocation :=
  match s.lastSequenceNumber with
  | none => none
  | some last => (List.range (min sequenceNumber last)).reverse.findSome? s.segments

def getNextSegment (sequenceNumber : StreamSegmentId) : Option SegmentLocation :=
  let first := (sequenceNumber + 1) % 2 ^ 32
  (List.range' first (s.size - first)).findSome? s.segments

/-- The check of one range against those of the neighbours, if these have a location. -/
def RangeAccepted (range : Range) (ploc nloc : Option Range) : Prop :=
  if range.Valid then
    range.start ≤ range.stop ∧
      (∀ p ∈ ploc, p.start = p.stop → p.stop < range.start) ∧
      (∀ n ∈ nloc, n.start = n.stop → range.stop < n.start)
  else
    (∀ p ∈ ploc, p.start = invalidLargeObjectId) ∧ ∀ n ∈ nloc, n.start = invalidLargeObjectId

instance (range : Range) (ploc nloc : Option Range) : Decidable (RangeAccepted range ploc nloc) :=
  inferInstanceAs (Decidable (@ite _ range.Valid _ _ _))

def LocationAccepted (location : StorageLocation) : Prop :=
  ∀ i, RangeAccepted (location.ranges i)
    ((s.getPreviousSegment location.sequenceNumber).bind (·.location) |>.map (·.ranges i))
    ((s.getNextSegment location.sequenceNumber).bind (·.location) |>.map (·.ranges i))

instance (location : StorageLocation) : Decidable (s.LocationAccepted location) :=
  inferInstanceAs (Decidable (∀ _ : QueryTree, _))

/-- Widen the range of a stream by that of a new segment. -/
def extendRange (stat range : Range) : Range :=
  if range.Valid then
    ⟨if range.start < stat.start then range.start else stat.start,
      if stat.stop < range.stop ∨ stat.stop = invalidLargeObjectId then range.stop else stat.stop⟩
  else stat

def indexLocation (location : StorageLocation) : ServerStream :=
  { s with
    trees := fun i =>
      let range := location.ranges i
      if range.Valid then
        RangeIndex.insert ⟨range.start, range.stop, location.sequenceNumber⟩ (s.trees i)
      else s.trees i
    stats :=
      { compressedSize := s.stats.compressedSize + location.compressedSize
        entryCount := s.stats.entryCount + location.getEntryCount
        rawEntryCount := s.stats.rawEntryCount + location.rawEntryCount
        ranges := fun i => extendRange (s.stats.ranges i) (location.ranges i) } }

/-- Give a location to a segment that was encoded, or add an existing segment while the store is
loaded. The result is `none` if a range violates monotonicity. -/
def addSegment (location : StorageLocation) : Option ServerStream :=
  let sqn := location.sequenceNumber
  if s.LocationAccepted location then
    let location := location.normalize
    if s.SegmentIsAllocated sqn then
      let loc := (s.segments sqn).map fun loc => { loc with location := some location }
      some ((s.setSegment sqn loc).indexLocation location)
    else
      let s := s.addSegmentLocation (.stored location)
      let s := { s with lastAppendIndex := max s.lastAppendIndex (location.ranges .qIndex).start }
      some (s.indexLocation location)
  else none

def findSequenceNumber (type : QueryTree) (value : ℕ) : Option StreamSegmentId :=
  (RangeIndex.find value (s.trees type)).map (·.val)

variable {s}

theorem exists_addSegment {location : StorageLocation} (h : s.LocationAccepted location) :
    ∃ s', s.addSegment location = some s' := by
  unfold addSegment
  rw [if_pos h]
  dsimp only
  split <;> exact ⟨_, rfl⟩

theorem addSegment_eq_none {location : StorageLocation} :
    s.addSegment location = none ↔ ¬ s.LocationAccepted location := by
  constructor
  · rintro h hacc
    obtain ⟨s', hs⟩ := exists_addSegment hacc
    rw [hs] at h
    cases h
  · exact fun h => if_neg h

theorem addSegment_spec {s' : ServerStream} {location : StorageLocation}
    (h : s.addSegment location = some s') :
    s.LocationAccepted location ∧ s'.trees = (s.indexLocation location.normalize).trees ∧
      s'.stats = (s.indexLocation location.normalize).stats ∧
      location.sequenceNumber < s'.size ∧ s.size ≤ s'.size ∧
      ∃ loc, loc.location = some location.normalize ∧
        s'.segments = Function.update s.segments location.sequenceNumber (some loc) := by
  unfold addSegment at h
  dsimp only at h
  split_ifs at h with hacc halloc <;> obtain rfl := Option.some.inj h
  · obtain ⟨loc, hloc⟩ := Option.ne_none_iff_exists'.mp halloc.2
    refine ⟨hacc, rfl, rfl, halloc.1, le_rfl,
      { loc with location := some location.normalize }, rfl, ?_⟩
    simp [indexLocation, setSegment, hloc]
  · exact ⟨hacc, rfl, rfl, lt_max_of_lt_right (Nat.lt_succ_self _), le_max_left _ _,
      .stored location.normalize, rfl, rfl⟩

theorem addSegment_of_segment {s' : ServerStream} {location : StorageLocation}
    {loc : SegmentLocation} (h : s.addSegment location = some s')
    (halloc : s.SegmentIsAllocated location.sequenceNumber)
    (hloc : s.segments location.sequenceNumber = some loc) :
    s'.segments = Function.update s.segments location.sequenceNumber
      (some { loc with location := some location.normalize }) ∧ s'.openList = s.openList := by
  unfold addSegment at h
  dsimp only at h
  split_ifs at h
  obtain rfl := Option.some.inj h
  simp [indexLocation, setSegment, hloc]

theorem addSegment_of_none {s' : ServerStream} {location : StorageLocation}
    (h : s.addSegment location = some s')
    (hnone : s.segments location.sequenceNumber = none) :
    s'.segments = Function.update s.segments location.sequenceNumber
      (some (.stored location.normalize)) ∧ s'.openList = s.openList := by
  unfold addSegment at h
  dsimp only at h
  have halloc : ¬ s.SegmentIsAllocated location.sequenceNumber := fun ha => ha.2 hnone
  rw [if_neg halloc] at h
  split_ifs at h
  obtain rfl := Option.some.inj h
  exact ⟨rfl, rfl⟩

end ServerStream

end Simutrace
