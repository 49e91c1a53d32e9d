import Simutrace.Library.Transition
import Simutrace.Store.Reload
import Simutrace.Stream.Writers

/-! # The statistics of a stream

All ranges of a location are checked before the stream takes it over. An exception
leaves the stream as it was, and the statistics account exactly the segments that
have a location, in whatever order these were completed.
-/

namespace Simutrace

/-- Why a segment is not added or completed. -/
inductive StreamException
  | argumentNull (name : String)
  | argumentOutOfBounds (name : String)
  | invalidOperation
  | exception (message : String)
  deriving DecidableEq

namespace QueryTree

def all : List QueryTree := [qIndex, qCycleCount, qRealTime]

def number : QueryTree → ℕ
  | qIndex => 0
  | qCycleCount => 1
  | qRealTime => 2

theorem mem_all (type : QueryTree) : type ∈ all := by cases type <;> decide

theorem nodup_all : all.Nodup := by decide

end QueryTree

def StreamException.violatesMonotonicity (type : QueryTree) : StreamException :=
  .exception ("The specified range for index " ++ toString type.number ++
    " violates monotonicity.")

/-- A stream, and a location as long as the stream has not taken it over. -/
structure Insertion where
  stream : ServerStream
  location : Option StorageLocation

namespace StorageLocation

def withNumber (location : StorageLocation) (sequenceNumber : StreamSegmentId) :
    StorageLocation :=
  { location with sequenceNumber }

def invalidate (location : StorageLocation) (type : QueryTree) : StorageLocation :=
  { location with ranges := Function.update location.ranges type .invalid }

/-- Check one range after the other against the neighbours. A half valid range is overwritten
before its check. -/
def checkRanges (ploc nloc : Option StorageLocation) :
    List QueryTree → StorageLocation → Option StreamException × StorageLocation
  | [], location => (none, location)
  | type :: types, location =>
    let range := location.ranges type
    let location := if range.Valid then location else location.invalidate type
    if ServerStream.RangeAccepted range (ploc.map (·.ranges type)) (nloc.map (·.ranges type)) then
      checkRanges ploc nloc types location
    else (some (.violatesMonotonicity type), location)

end StorageLocation

namespace ServerStream

variable (s : ServerStream)

def insertRange (location : StorageLocation) (type : QueryTree) : ServerStream :=
  let range := location.ranges type
  let statRange := s.stats.ranges type
  if range.Valid then
    { s with
      trees := Function.update s.trees type
        (RangeIndex.insert ⟨range.start, range.stop, location.sequenceNumber⟩ (s.trees type))
      stats := { s.stats with
        ranges := Function.update s.stats.ranges type
          ⟨if range.start < statRange.start then range.start else statRange.start,
            if statRange.stop < range.stop ∨ statRange.stop = invalidLargeObjectId then range.stop
            else statRange.stop⟩ } }
  else s

def addCounts (location : StorageLocation) : ServerStream :=
  { s with
    stats := { s.stats with
      compressedSize := s.stats.compressedSize + location.compressedSize
      entryCount := s.stats.entryCount + location.getEntryCount
      rawEntryCount := s.stats.rawEntryCount + location.rawEntryCount } }

/-- Put the location into the slot of its segment, which is new while the store is loaded. -/
def takeLocation (location : StorageLocation) : ServerStream :=
  let sqn := location.sequenceNumber
  if s.SegmentIsAllocated sqn then
    s.setSegment sqn ((s.segments sqn).map fun loc => { loc with location := some location })
  else
    let s := s.addSegmentLocation (.stored location)
    { s with lastAppendIndex := max s.lastAppendIndex (location.ranges .qIndex).start }

/-- Add a location to the stream, statement by statement. An exception leaves what was reached
until then. -/
def insertSegment (location : StorageLocation) : Option StreamException × Insertion :=
  let sqn := location.sequenceNumber
  let ploc := (s.getPreviousSegment sqn).bind (·.location)
  let nloc := (s.getNextSegment sqn).bind (·.location)
  match location.checkRanges ploc nloc QueryTree.all with
  | (some e, location) => (some e, ⟨s, some location⟩)
  | (none, location) =>
    let s := QueryTree.all.foldl (fun s type => s.insertRange location type)
      (s.takeLocation location)
    (none, ⟨s.addCounts location, none⟩)

def locations : List StorageLocation :=
  (List.range s.size).filterMap fun n => (s.segments n).bind (·.location)

end ServerStream

/-! ## Insertion -/

namespace StorageLocation

variable {location : StorageLocation} {ploc nloc : Option StorageLocation} {types : List QueryTree}

/-- The checks of all given ranges. -/
def RangesAccepted (location : StorageLocation) (ploc nloc : Option StorageLocation)
    (types : List QueryTree) : Prop :=
  ∀ type ∈ types, ServerStream.RangeAccepted (location.ranges type) (ploc.map (·.ranges type))
    (nloc.map (·.ranges type))

/-- Overwrite those of the given ranges that are half valid. -/
def normalizeOnly (location : StorageLocation) (types : List QueryTree) : StorageLocation :=
  { location with ranges := fun i =>
      if i ∈ types then (location.ranges i).normalize else location.ranges i }

theorem normalizeOnly_all : location.normalizeOnly QueryTree.all = location.normalize := by
  simp [normalizeOnly, normalize, QueryTree.mem_all]

theorem ite_invalidate (type : QueryTree) :
    (if (location.ranges type).Valid then location else location.invalidate type) =
      { location with
        ranges := Function.update location.ranges type (location.ranges type).normalize } := by
  split_ifs with hv
  · rw [Range.normalize_of_valid hv, Function.update_eq_self]
  · rw [Range.normalize, if_neg hv]
    rfl

theorem rangesAccepted_cons {type : QueryTree} :
    location.RangesAccepted ploc nloc (type :: types) ↔
      ServerStream.RangeAccepted (location.ranges type) (ploc.map (·.ranges type))
        (nloc.map (·.ranges type)) ∧ location.RangesAccepted ploc nloc types :=
  List.forall_mem_cons

theorem rangesAccepted_update {type : QueryTree} (hnot : type ∉ types) (range : Range) :
    RangesAccepted { location with ranges := Function.update location.ranges type range }
      ploc nloc types ↔ location.RangesAccepted ploc nloc types := by
  refine forall₂_congr fun i hi => ?_
  have hne : i ≠ type := fun heq => hnot (heq ▸ hi)
  dsimp only
  rw [Function.update_of_ne hne]

theorem checkRanges_of_accepted (hnodup : types.Nodup)
    (h : location.RangesAccepted ploc nloc types) :
    location.checkRanges ploc nloc types = (none, location.normalizeOnly types) := by
  induction types generalizing location with
  | nil => simp [checkRanges, normalizeOnly]
  | cons type types ih =>
    obtain ⟨hnot, hnodup⟩ := List.nodup_cons.mp hnodup
    obtain ⟨htype, htypes⟩ := rangesAccepted_cons.mp h
    rw [checkRanges, if_pos htype, ite_invalidate,
      ih hnodup ((rangesAccepted_update hnot _).mpr htypes)]
    simp only [normalizeOnly, Prod.mk.injEq, mk.injEq, true_and, and_true]
    funext i
    by_cases hi : i = type
    · subst hi
      simp [hnot]
    · simp [hi]

theorem checkRanges_of_not_accepted (hnodup : types.Nodup)
    (h : ¬ location.RangesAccepted ploc nloc types) :
    ∃ type ∈ types, ∃ location', location.checkRanges ploc nloc types =
      (some (.violatesMonotonicity type), location') := by
  induction types generalizing location with
  | nil => exact (h fun _ hi => absurd hi List.not_mem_nil).elim
  | cons type types ih =>
    obtain ⟨hnot, hnodup⟩ := List.nodup_cons.mp hnodup
    rw [checkRanges, ite_invalidate]
    split_ifs with htype
    · have htypes := fun hrest => h (rangesAccepted_cons.mpr ⟨htype, hrest⟩)
      obtain ⟨i, hi, location', heq⟩ := ih hnodup ((rangesAccepted_update hnot _).not.mpr htypes)
      exact ⟨i, List.mem_cons_of_mem type hi, location', heq⟩
    · exact ⟨type, List.mem_cons_self, _, rfl⟩

end StorageLocation

namespace ServerStream

variable {s s' : ServerStream} {location : StorageLocation} {types : List QueryTree}

def insertedTree (s : ServerStream) (location : StorageLocation) (type : QueryTree) :
    List (RangeEntry ℕ StreamSegmentId) :=
  let range := location.ranges type
  if range.Valid then
    RangeIndex.insert ⟨range.start, range.stop, location.sequenceNumber⟩ (s.trees type)
  else s.trees type

theorem insertRange_eq (type : QueryTree) : s.insertRange location type = { s with
    trees := Function.update s.trees type (s.insertedTree location type)
    stats := { s.stats with
      ranges := Function.update s.stats.ranges type
        (extendRange (s.stats.ranges type) (location.ranges type)) } } := by
  unfold insertRange insertedTree extendRange
  dsimp only
  by_cases hv : (location.ranges type).Valid
  · simp only [if_pos hv]
  · simp only [if_neg hv, Function.update_eq_self]

theorem foldl_insertRange (hnodup : types.Nodup) :
    types.foldl (fun s type => s.insertRange location type) s = { s with
      trees := fun i => if i ∈ types then s.insertedTree location i else s.trees i
      stats := { s.stats with
        ranges := fun i =>
          if i ∈ types then extendRange (s.stats.ranges i) (location.ranges i)
          else s.stats.ranges i } } := by
  induction types generalizing s with
  | nil => simp
  | cons type types ih =>
    obtain ⟨hnot, hnodup⟩ := List.nodup_cons.mp hnodup
    rw [List.foldl_cons, ih hnodup, insertRange_eq]
    simp only [mk.injEq, StreamStatistics.mk.injEq, true_and, insertedTree]
    constructor
    · funext i
      by_cases hi : i = type
      · subst hi
        simp [hnot]
      · simp [hi]
    · funext i
      by_cases hi : i = type
      · subst hi
        simp [hnot]
      · simp [hi]

theorem addCounts_foldl_insertRange : (QueryTree.all.foldl
    (fun s type => s.insertRange location type) s).addCounts location =
      s.indexLocation location := by
  rw [foldl_insertRange QueryTree.nodup_all]
  simp [addCounts, indexLocation, insertedTree, QueryTree.mem_all]

theorem insertSegment_of_addSegment (h : s.addSegment location = some s') :
    s.insertSegment location = (none, ⟨s', none⟩) := by
  have haccepted : s.LocationAccepted location := (addSegment_spec h).1
  have hranges : location.RangesAccepted
      ((s.getPreviousSegment location.sequenceNumber).bind (·.location))
      ((s.getNextSegment location.sequenceNumber).bind (·.location)) QueryTree.all :=
    fun i _ => haccepted i
  have hnumber : location.normalize.sequenceNumber = location.sequenceNumber := rfl
  unfold insertSegment
  dsimp only
  rw [StorageLocation.checkRanges_of_accepted QueryTree.nodup_all hranges,
    StorageLocation.normalizeOnly_all]
  dsimp only
  rw [addCounts_foldl_insertRange, takeLocation, hnumber]
  unfold addSegment at h
  rw [if_pos haccepted] at h
  dsimp only at h ⊢
  split_ifs at h ⊢ with halloc
  · rw [Option.some.inj h]
  · rw [← Option.some.inj h]

theorem insertSegment_of_not_accepted (h : ¬ s.LocationAccepted location) :
    ∃ type location', s.insertSegment location =
      (some (.violatesMonotonicity type), ⟨s, some location'⟩) := by
  have hranges : ¬ location.RangesAccepted
      ((s.getPreviousSegment location.sequenceNumber).bind (·.location))
      ((s.getNextSegment location.sequenceNumber).bind (·.location)) QueryTree.all :=
    fun hall => h fun i => hall i (QueryTree.mem_all i)
  obtain ⟨type, -, location', heq⟩ :=
    StorageLocation.checkRanges_of_not_accepted QueryTree.nodup_all hranges
  refine ⟨type, location', ?_⟩
  unfold insertSegment
  dsimp only
  rw [heq]

/-- An exception leaves the whole stream as it was, and only then no segment is added. -/
theorem insertSegment_cases (s : ServerStream) (location : StorageLocation) :
    (∃ s', s.addSegment location = some s' ∧ s.insertSegment location = (none, ⟨s', none⟩)) ∨
      s.addSegment location = none ∧ ∃ type location',
        s.insertSegment location = (some (.violatesMonotonicity type), ⟨s, some location'⟩) := by
  by_cases h : s.LocationAccepted location
  · obtain ⟨s', hs⟩ := exists_addSegment h
    exact Or.inl ⟨s', hs, insertSegment_of_addSegment hs⟩
  · exact Or.inr ⟨addSegment_eq_none.mpr h, insertSegment_of_not_accepted h⟩

end ServerStream

/-! ## Calls -/

/-- The calls that add a segment or complete one. The buffer may have no segment left for a call
that adds one, and `complete` is what a synchronous open or close ends with. -/
inductive SegmentCall
  | load (sequenceNumber : StreamSegmentId) (location : Option StorageLocation)
  | add (session : SessionId) (sequenceNumber : StreamSegmentId) (id : Option SegmentId)
  | append (session : SessionId) (id : Option SegmentId)
  | complete (sequenceNumber : StreamSegmentId) (location : Option StorageLocation)
      (success : Bool)
  | completeSegment (sequenceNumber : StreamSegmentId)
  | completeSegmentWith (sequenceNumber : StreamSegmentId) (location : Option StorageLocation)

namespace ServerState

variable (s : ServerState)

def addAllocated (session : SessionId) (sequenceNumber : StreamSegmentId) (id : SegmentId) :
    ServerState :=
  { s with
    stream := s.stream.addSegmentLocation (.allocated sequenceNumber session id)
    buffer := Function.update s.buffer id (some sequenceNumber) }

def finishWrite (loc : SegmentLocation) (located success synchronous : Bool) : ServerState :=
  let sqn := loc.sequenceNumber
  let segment :=
    if located then (s.stream.segments sqn).map fun loc => { loc with
      sideId := none
      referenceCount := 0
      referenceMap := 0
      cancel := false
      waitList := if synchronous then loc.waitList else [] }
    else none
  { stream := { s.stream.setSegment sqn segment with
      openList := s.stream.openList.filter (· ≠ sqn) }
    buffer :=
      if located then if synchronous then s.buffer else releaseBuffer s.buffer loc.sideId
      else if !synchronous || !success then releaseBuffer s.buffer loc.sideId
      else s.buffer
    waits := s.completeWaits loc success synchronous }

def completeCall (sequenceNumber : StreamSegmentId) (location : Option StorageLocation)
    (success synchronous : Bool) : Option StreamException × ServerState :=
  match s.stream.segments sequenceNumber with
  | none => (none, s)
  | some loc =>
    match loc.location, location with
    | some _, _ => (none, s.completeRead loc location.isSome success synchronous)
    | none, none => (none, s.finishWrite loc false success synchronous)
    | none, some location =>
      match s.stream.insertSegment (location.withNumber sequenceNumber) with
      | (some e, insertion) => (some e, { s with stream := insertion.stream })
      | (none, insertion) =>
        (none, finishWrite { s with stream := insertion.stream } loc true success synchronous)

def perform : SegmentCall → Option StreamException × ServerState
  | .load sqn location =>
    match location with
    | none => (some (.argumentNull "location"), s)
    | some location =>
      if sqn = invalidStreamSegmentId then (some (.argumentOutOfBounds "sequenceNumber"), s)
      else if s.stream.SegmentIsAllocated sqn then (some .invalidOperation, s)
      else
        let (e, insertion) := s.stream.insertSegment (location.withNumber sqn)
        (e, { s with stream := insertion.stream })
  | .add session sqn id =>
    if sqn = invalidStreamSegmentId then (some (.argumentOutOfBounds "sequenceNumber"), s)
    else if s.stream.SegmentIsAllocated sqn then (some .invalidOperation, s)
    else (none, match id with
      | none => s
      | some id => s.addAllocated session sqn id)
  | .append session id =>
    let sqn := s.stream.nextSequenceNumber
    if sqn = invalidStreamSegmentId then (some .invalidOperation, s)
    else (none, match id with
      | none => s
      | some id =>
        let s := s.addAllocated session sqn id
        { s with stream := { s.stream with
          lastSequenceNumber := some sqn
          lastAppendSequenceNumber := some sqn } })
  | .complete sqn location success => s.completeCall sqn location success true
  | .completeSegment sqn =>
    if s.stream.SegmentIsAllocated sqn then
      s.completeCall sqn ((s.stream.segments sqn).bind (·.location)) true false
    else (some .invalidOperation, s)
  | .completeSegmentWith sqn location =>
    if ¬ s.stream.SegmentIsAllocated sqn ∨
        (s.stream.segments sqn).bind (·.location) ≠ none then (some .invalidOperation, s)
    else s.completeCall sqn location location.isSome false

variable {s} {loc : SegmentLocation} {n : StreamSegmentId} {location : Option StorageLocation}
  {success synchronous : Bool} {e : StreamException}

/-- The completion of the other modules is this one without what an exception leaves. -/
theorem completeLocked_eq (hloc : s.stream.segments n = some loc) (hkey : loc.sequenceNumber = n) :
    s.completeLocked n (location.map (·.withNumber n)) success synchronous =
      match s.completeCall n location success synchronous with
      | (none, s') => some s'
      | (some _, _) => none := by
  subst hkey
  simp only [completeLocked, completeCall, hloc, Option.bind_eq_bind, Option.bind_some]
  cases hl : loc.location with
  | some => simp only [Option.isSome_map]
  | none =>
    cases location with
    | none =>
      simp [completeWrite, ServerStream.completeEncoding, finishWrite]
    | some location =>
      simp only [Option.map_some, completeWrite, ServerStream.completeEncoding,
        Option.bind_eq_bind]
      rcases s.stream.insertSegment_cases (location.withNumber loc.sequenceNumber) with
        ⟨s', hadd, hinsert⟩ | ⟨hadd, type, location', hinsert⟩
      · simp [hadd, hinsert, finishWrite, completeWaits]
      · simp [hadd, hinsert]

theorem completeCall_of_throw (h : (s.completeCall n location success synchronous).1 = some e) :
    (s.completeCall n location success synchronous).2 = s := by
  unfold completeCall at h ⊢
  cases hseg : s.stream.segments n with
  | none => rfl
  | some loc =>
    cases hl : loc.location with
    | some => simp [hseg, hl] at h
    | none =>
      cases location with
      | none => simp [hseg, hl] at h
      | some location =>
        rcases s.stream.insertSegment_cases (location.withNumber n) with
          ⟨s', -, hinsert⟩ | ⟨-, type, location', hinsert⟩
        · simp [hseg, hl, hinsert] at h
        · simp [hl, hinsert]

/-- A call that throws an exception changes nothing. -/
theorem perform_of_throw {c : SegmentCall} (h : (s.perform c).1 = some e) :
    (s.perform c).2 = s := by
  cases c with
  | load sqn location =>
    cases location with
    | none => rfl
    | some location =>
      simp only [perform] at h ⊢
      split_ifs at h ⊢
      · rfl
      · rfl
      · rcases s.stream.insertSegment_cases (location.withNumber sqn) with
          ⟨s', -, hinsert⟩ | ⟨-, type, location', hinsert⟩
        · rw [hinsert] at h
          cases h
        · rw [hinsert]
  | add session sqn id =>
    simp only [perform] at h ⊢
    split_ifs at h ⊢
    · rfl
    · rfl
  | append session id =>
    simp only [perform] at h ⊢
    split_ifs at h ⊢
    rfl
  | complete sqn location success => exact completeCall_of_throw h
  | completeSegment sqn =>
    simp only [perform] at h ⊢
    split_ifs at h ⊢
    · exact completeCall_of_throw h
    · rfl
  | completeSegmentWith sqn location =>
    simp only [perform] at h ⊢
    split_ifs at h ⊢
    · rfl
    · exact completeCall_of_throw h

end ServerState

/-! ## Accounting -/

section

variable {α : Type*} {f : ℕ → Option α} {n m : ℕ}

theorem filterMap_range_of_le (hle : n ≤ m) (h : ∀ k, n ≤ k → f k = none) :
    (List.range m).filterMap f = (List.range n).filterMap f := by
  induction m, hle using Nat.le_induction with
  | base => rfl
  | succ m hle ih => simp [List.range_succ, List.filterMap_append, ih, h m hle]

theorem perm_filterMap_range {f' : ℕ → Option α} {x : α} (hn : n < m) (hf : f n = none)
    (hf' : f' n = some x) (hne : ∀ k, k ≠ n → f' k = f k) :
    ((List.range m).filterMap f').Perm (x :: (List.range m).filterMap f) := by
  have hperm := List.perm_cons_erase (List.mem_range.mpr hn)
  have hrest : ((List.range m).erase n).filterMap f' = ((List.range m).erase n).filterMap f :=
    List.filterMap_congr fun k hk => hne k (List.nodup_range.mem_erase_iff.mp hk).1
  have hnew := hperm.filterMap f'
  have hold := hperm.filterMap f
  rw [List.filterMap_cons_some hf', hrest] at hnew
  rw [List.filterMap_cons_none hf] at hold
  exact hnew.trans (hold.symm.cons x)

end

namespace ServerStream

variable {s s' : ServerStream} {n : StreamSegmentId} {segment : Option SegmentLocation}
  {location : StorageLocation}

structure Accounts (s : ServerStream) : Prop where
  slots : s.Slots
  stats : s.stats = s.locations.foldl StreamStatistics.account new.stats

theorem accounts_new : new.Accounts := ⟨.new, rfl⟩

theorem locations_congr (hslots : s.Slots) (hle : s.size ≤ s'.size)
    (h : ∀ n, (s'.segments n).bind (·.location) = (s.segments n).bind (·.location)) :
    s'.locations = s.locations := by
  unfold locations
  rw [funext h]
  refine filterMap_range_of_le hle fun n hn => ?_
  rw [hslots.none_of_size_le hn]
  rfl

theorem Accounts.congr (h : s.Accounts) (hslots : s'.Slots) (hle : s.size ≤ s'.size)
    (hsegments : s'.segments = Function.update s.segments n segment)
    (hlocation : segment.bind (·.location) = (s.segments n).bind (·.location))
    (hstats : s'.stats = s.stats) : s'.Accounts where
  slots := hslots
  stats := by
    rw [hstats, h.stats, locations_congr h.slots hle fun m => ?_]
    by_cases hm : m = n
    · subst hm
      rw [hsegments, Function.update_self, hlocation]
    · rw [hsegments, Function.update_of_ne hm]

theorem Accounts.addSegmentLocation (h : s.Accounts) {loc : SegmentLocation}
    (hnew : loc.location = none)
    (hnone : (s.segments loc.sequenceNumber).bind (·.location) = none) :
    (s.addSegmentLocation loc).Accounts :=
  h.congr (h.slots.addSegmentLocation loc) (le_max_left _ _) rfl
    (by rw [hnone, Option.bind_some, hnew]) rfl

theorem Accounts.append (h : s.Accounts) (session : SessionId) (id : SegmentId) :
    (s.append session id).Accounts := by
  refine h.congr (h.slots.append session id) ?_ (segments_append s session id) ?_ rfl
  · rw [size_append]
    exact Nat.le_succ _
  · rw [h.slots.none_of_size_le le_rfl]
    rfl

theorem Accounts.setSegment (h : s.Accounts) (openList : List StreamSegmentId)
    (hkey : ∀ loc ∈ segment, n < s.size ∧ loc.sequenceNumber = n)
    (hlocation : segment.bind (·.location) = (s.segments n).bind (·.location)) :
    { s.setSegment n segment with openList := openList }.Accounts := by
  have hslots := h.slots.setSegment hkey
  exact h.congr ⟨hslots.last, hslots.lt_size, hslots.key⟩ le_rfl rfl hlocation rfl

theorem Accounts.addSegment (h : s.Accounts) (hadd : s.addSegment location = some s')
    (hnone : (s.segments location.sequenceNumber).bind (·.location) = none) : s'.Accounts where
  slots := h.slots.addSegment hadd
  stats := by
    obtain ⟨-, -, hstats, hlt, hle, loc, hloc, hsegments⟩ := addSegment_spec hadd
    have hold : (List.range s'.size).filterMap (fun n => (s.segments n).bind (·.location)) =
        s.locations :=
      filterMap_range_of_le hle fun n hn => by rw [h.slots.none_of_size_le hn]; rfl
    have hperm : s'.locations.Perm (location.normalize :: s.locations) := by
      rw [← hold]
      refine perm_filterMap_range hlt hnone ?_ fun m hm => ?_
      · rw [hsegments, Function.update_self, Option.bind_some, hloc]
      · rw [hsegments, Function.update_of_ne hm]
    have hsnoc := hperm.trans (List.perm_append_singleton location.normalize s.locations).symm
    have hnew : s'.stats = s.stats.account location.normalize := hstats
    rw [hnew, h.stats, hsnoc.foldl_eq, List.foldl_append]
    rfl

end ServerStream

namespace ServerState

variable {s s' : ServerState} {n : StreamSegmentId} {loc : SegmentLocation}
  {location : Option StorageLocation} {success synchronous : Bool}

theorem accounts_completeRead (h : s.stream.Accounts) (hloc : s.stream.segments n = some loc)
    (located : Bool) : (s.completeRead loc located success synchronous).stream.Accounts := by
  obtain rfl := h.slots.key n loc hloc
  have hlt := h.slots.lt_size loc.sequenceNumber (by rw [hloc]; exact Option.some_ne_none _)
  unfold completeRead
  by_cases hdrop : (!located || loc.cancel) = true
  · rw [if_pos hdrop]
    refine h.setSegment _ (fun loc' hloc' => ?_) (by rw [hloc]; rfl)
    obtain rfl := Option.some.inj hloc'
    exact ⟨hlt, rfl⟩
  · rw [if_neg hdrop]
    refine h.setSegment s.stream.openList (fun loc' hloc' => ?_) (by rw [hloc]; rfl)
    obtain rfl := Option.some.inj hloc'
    exact ⟨hlt, rfl⟩

theorem accounts_finishWrite_dropped (h : s.stream.Accounts)
    (hloc : s.stream.segments n = some loc) (hnew : loc.location = none) :
    (s.finishWrite loc false success synchronous).stream.Accounts := by
  obtain rfl := h.slots.key n loc hloc
  refine h.setSegment _ (fun loc' hloc' => by cases hloc') ?_
  rw [hloc, Option.bind_some, hnew]
  rfl

theorem accounts_finishWrite_stored (h : s.stream.Accounts) :
    (s.finishWrite loc true success synchronous).stream.Accounts := by
  refine h.setSegment _ (fun loc' hloc' => ?_) ?_
  · obtain ⟨loc'', hloc'', rfl⟩ := Option.map_eq_some_iff.mp hloc'
    have hlt := h.slots.lt_size loc.sequenceNumber (by rw [hloc'']; exact Option.some_ne_none _)
    exact ⟨hlt, h.slots.key _ loc'' hloc''⟩
  · cases s.stream.segments loc.sequenceNumber <;> rfl

theorem accounts_completeCall (h : s.stream.Accounts) :
    (s.completeCall n location success synchronous).2.stream.Accounts := by
  unfold completeCall
  cases hloc : s.stream.segments n with
  | none => exact h
  | some loc =>
    cases hl : loc.location with
    | some =>
      simp only [hl]
      exact accounts_completeRead h hloc _
    | none =>
      cases location with
      | none =>
        simp only [hl]
        exact accounts_finishWrite_dropped h hloc hl
      | some location =>
        rcases s.stream.insertSegment_cases (location.withNumber n) with
          ⟨s', hadd, hinsert⟩ | ⟨-, type, location', hinsert⟩
        · have hnone : (s.stream.segments (location.withNumber n).sequenceNumber).bind
              (·.location) = none := by
            rw [StorageLocation.withNumber, hloc, Option.bind_some, hl]
          simp only [hl, hinsert]
          exact accounts_finishWrite_stored (h.addSegment hadd hnone)
        · simp only [hl, hinsert]
          exact h

theorem accounts_addAllocated (h : s.stream.Accounts) {session : SessionId} {id : SegmentId}
    (hn : s.stream.segments n = none) : (s.addAllocated session n id).stream.Accounts := by
  refine h.addSegmentLocation rfl ?_
  rw [SegmentLocation.allocated, hn]
  rfl

/-- No call, accepted or not, breaks the accounting. -/
theorem accounts_perform (h : s.stream.Accounts) (c : SegmentCall) :
    (s.perform c).2.stream.Accounts := by
  have hfree (sqn : StreamSegmentId) (hn : ¬ s.stream.SegmentIsAllocated sqn) :
      s.stream.segments sqn = none := by
    by_contra hne
    exact hn ⟨h.slots.lt_size sqn hne, hne⟩
  cases hthrow : (s.perform c).1 with
  | some e =>
    rw [perform_of_throw hthrow]
    exact h
  | none =>
    cases c with
    | load sqn location =>
      cases location with
      | none => cases hthrow
      | some location =>
        simp only [perform] at hthrow ⊢
        split_ifs at hthrow ⊢ with hinvalid halloc
        rcases s.stream.insertSegment_cases (location.withNumber sqn) with
          ⟨s', hadd, hinsert⟩ | ⟨-, type, location', hinsert⟩
        · rw [hinsert]
          refine h.addSegment hadd ?_
          rw [StorageLocation.withNumber, hfree sqn halloc]
          rfl
        · rw [hinsert]
          exact h
    | add session sqn id =>
      simp only [perform] at hthrow ⊢
      split_ifs at hthrow ⊢ with hinvalid halloc
      cases id with
      | none => exact h
      | some id => exact accounts_addAllocated h (hfree sqn halloc)
    | append session id =>
      simp only [perform] at hthrow ⊢
      split_ifs at hthrow ⊢
      cases id with
      | none => exact h
      | some id =>
        rw [h.slots.nextSequenceNumber]
        exact h.append session id
    | complete sqn location success => exact accounts_completeCall h
    | completeSegment sqn =>
      simp only [perform] at hthrow ⊢
      split_ifs at hthrow ⊢
      exact accounts_completeCall h
    | completeSegmentWith sqn location =>
      simp only [perform] at hthrow ⊢
      split_ifs at hthrow ⊢
      exact accounts_completeCall h

/-! ## Runs -/

end ServerState

structure ServerStream.KeepsLocations (s s' : ServerStream) : Prop where
  segments : ∀ n, (s'.segments n).map (fun loc => (loc.sequenceNumber, loc.location)) =
    (s.segments n).map fun loc => (loc.sequenceNumber, loc.location)
  size : s'.size = s.size
  last : s'.lastSequenceNumber = s.lastSequenceNumber
  stats : s'.stats = s.stats

theorem ServerStream.Accounts.of_keepsLocations {s s' : ServerStream} (h : s.Accounts)
    (hkept : s.KeepsLocations s') : s'.Accounts where
  slots := by
    refine ⟨?_, fun n hn => ?_, fun n loc hloc => ?_⟩
    · rw [hkept.last, hkept.size]
      exact h.slots.last
    · rw [hkept.size]
      refine h.slots.lt_size n fun hnone => hn ?_
      simpa [hnone] using hkept.segments n
    · have hsegment := hkept.segments n
      rw [hloc, Option.map_some, eq_comm, Option.map_eq_some_iff] at hsegment
      obtain ⟨loc', hloc', heq⟩ := hsegment
      rw [← (Prod.mk.inj heq).1]
      exact h.slots.key n loc' hloc'
  stats := by
    rw [hkept.stats, h.stats, locations_congr h.slots hkept.size.ge fun n => ?_]
    have hsegment := congrArg (fun o => o.bind Prod.snd) (hkept.segments n)
    simpa only [Option.bind_map, Function.comp_def] using hsegment

namespace ServerState

variable {s : ServerState} {l : List (Transition.Taken ServerState (Option SegmentCall))}

/-- A call that adds or completes a segment, or anything else that happens to the stream. -/
inductive Step : ServerState → Option SegmentCall → ServerState → Prop
  | call {s : ServerState} (c : SegmentCall) : Step s (some c) (s.perform c).2
  | other {s s' : ServerState} (kept : s.stream.KeepsLocations s'.stream) : Step s none s'

theorem accounts_run (run : Transition.Run (· = new) Step l s) : s.stream.Accounts := by
  have hinvariant : Transition.Invariant (· = new) Step (·.stream.Accounts) := by
    constructor
    · rintro _ rfl
      exact ServerStream.accounts_new
    · intro s c s' h step
      cases step with
      | call c => exact accounts_perform h c
      | other kept => exact h.of_keepsLocations kept
  exact hinvariant.run run

/-- The statistics are those of the segments with a location, whatever calls were made in whatever
order, and a call that throws an exception leaves everything as it was. -/
theorem statistics_of_run (run : Transition.Run (· = new) Step l s) :
    s.stream.stats =
        s.stream.locations.foldl StreamStatistics.account ServerStream.new.stats ∧
      (∀ location e, (s.stream.insertSegment location).1 = some e →
        (s.stream.insertSegment location).2.stream = s.stream) ∧
      ∀ c e, (s.perform c).1 = some e → (s.perform c).2 = s := by
  refine ⟨(accounts_run run).stats, fun location e h => ?_, fun c e h => perform_of_throw h⟩
  rcases s.stream.insertSegment_cases location with
    ⟨s', -, hinsert⟩ | ⟨-, type, location', hinsert⟩
  · rw [hinsert] at h
    cases h
  · rw [hinsert]

def uniformLocation (range : Range) : StorageLocation := ⟨0, fun _ => range, 100, 5⟩

/-- The second of three segments is rejected, since its ranges end before they start. -/
theorem statistics_of_run_rejected : ∃ l s, Transition.Run (· = new) Step l s ∧
    (s.stream.locations.map (·.sequenceNumber) = [0, 2] ∧ s.stream.stats.entryCount = 10) ∧
    s.stream.stats =
        s.stream.locations.foldl StreamStatistics.account ServerStream.new.stats ∧
      (∀ location e, (s.stream.insertSegment location).1 = some e →
        (s.stream.insertSegment location).2.stream = s.stream) ∧
      ∀ c e, (s.perform c).1 = some e → (s.perform c).2 = s := by
  have hnew : Transition.Run (· = new) Step [] new := .start rfl
  have hfirst := hnew.step (.call (.load 0 (some (uniformLocation ⟨0, 4⟩))))
  have hsecond := hfirst.step (.call (.load 1 (some (uniformLocation ⟨9, 5⟩))))
  have hallocate := hsecond.step (.call (.add 7 2 (some 3)))
  have hthird := hallocate.step (.call (.completeSegmentWith 2 (some (uniformLocation ⟨5, 9⟩))))
  exact ⟨_, _, hthird, ⟨by decide, by decide⟩, statistics_of_run hthird⟩

end ServerState

end Simutrace
