import Simutrace.Stream.Appended
import Simutrace.Stream.Access

/-! # Access by entry index

A query for an entry index is looked up in the tree of the stored segments. The
position of the entry in its segment is the distance from the first index of the
segment.
-/

namespace Simutrace

/-- Why a query fails. -/
inductive QueryError | notFound | operationInProgress | notSupported
  deriving DecidableEq, Repr

namespace ServerStream

variable (s : ServerStream)

/-- A query relative to the end of the stream is turned around. -/
def adjustQuery (reverseQuery : Bool) (type : QueryTree) (value : ℕ) : Option ℕ :=
  if reverseQuery then
    let endValue := (s.stats.ranges type).stop
    if value > endValue then none else some (endValue - value)
  else some value

def findOffset (location : StorageLocation) (entrySize value : ℕ) : Except QueryError ℕ :=
  let startIndex := (location.ranges .qIndex).start
  if startIndex = invalidLargeObjectId then .error .notSupported
  else .ok ((value - startIndex) * entrySize)

def queryIndex (entrySize value : ℕ) (reverseQuery : Bool) :
    Except QueryError (StreamSegmentId × ℕ) :=
  match s.adjustQuery reverseQuery .qIndex value with
  | none => .error .notFound
  | some value =>
    match s.findSequenceNumber .qIndex value with
    | none => .error .notFound
    | some n =>
      if s.size ≤ n then .error .notFound
      else
        match s.segments n with
        | none => .error .notFound
        | some loc =>
          match loc.location with
          | none => .error .operationInProgress
          | some location => (findOffset location entrySize value).map fun offset => (n, offset)

end ServerStream

/-- `open` until it releases the lock of the stream, with the position that it returns when the
segment has been loaded. A query that fails changes nothing. -/
def ServerState.openIndex (s : ServerState) (session : SessionId) (wait : Option WaitId)
    (entrySize value : ℕ) (reverseQuery : Bool) :
    ServerState × Except QueryError (StreamSegmentId × ℕ) :=
  match s.stream.queryIndex entrySize value reverseQuery with
  | .error e => (s, .error e)
  | .ok (n, offset) =>
    match s.lookup session n wait with
    | none => (s, .error .notFound)
    | some (s', _) => (s', .ok (n, offset))

namespace ServerStream

variable {s s' : ServerStream} {n m : StreamSegmentId} {loc : SegmentLocation}
  {segment : Option SegmentLocation} {submits : StreamSegmentId → SubmitOutcome}
  {session : SessionId} {startIndex entryCount : StreamSegmentId → ℕ} {throws : Bool}
  {r : RangeEntry ℕ StreamSegmentId}

/-- The tree and the statistics are those of the stored segments. -/
structure Indexed (s : ServerStream) : Prop where
  sorted : RangeIndex.Sorted (s.trees .qIndex)
  mem : ∀ r, r ∈ s.trees .qIndex ↔ r ∈ s.locatedRanges
  unset : s.locatedRanges = [] → (s.stats.ranges .qIndex).stop = invalidLargeObjectId
  max : ∀ r ∈ s.locatedRanges, r.stop ≤ (s.stats.ranges .qIndex).stop
  reached : s.locatedRanges ≠ [] →
    ∃ r ∈ s.locatedRanges, r.stop = (s.stats.ranges .qIndex).stop

theorem mem_locatedRanges : r ∈ s.locatedRanges ↔ r.val < s.size ∧ ∃ loc l,
    s.segments r.val = some loc ∧ loc.location = some l ∧
      r.start = (l.ranges .qIndex).start ∧ r.stop = (l.ranges .qIndex).stop := by
  unfold locatedRanges
  rw [List.mem_filterMap]
  constructor
  · rintro ⟨n, hn, hr⟩
    obtain ⟨l, hl, rfl⟩ := Option.map_eq_some_iff.mp hr
    obtain ⟨loc, hloc, hl⟩ := Option.bind_eq_some_iff.mp hl
    exact ⟨List.mem_range.mp hn, loc, l, hloc, hl, rfl, rfl⟩
  · rintro ⟨hn, loc, l, hloc, hl, hstart, hstop⟩
    refine ⟨r.val, List.mem_range.mpr hn, ?_⟩
    rw [hloc, Option.bind_some, hl, Option.map_some, ← hstart, ← hstop]

theorem Indexed.congr (h : s.Indexed) (hranges : s'.locatedRanges = s.locatedRanges)
    (htrees : s'.trees = s.trees) (hstats : s'.stats = s.stats) : s'.Indexed where
  sorted := htrees ▸ h.sorted
  mem r := by
    rw [htrees, hranges]
    exact h.mem r
  unset hr := by
    rw [hstats]
    exact h.unset (hranges ▸ hr)
  max r hr := by
    rw [hstats]
    exact h.max r (hranges ▸ hr)
  reached hr := by
    rw [hstats, hranges]
    exact h.reached (hranges ▸ hr)

theorem locatedRanges_congr (hsize : s'.size = s.size)
    (h : ∀ m, (s'.segments m).bind (·.location) = (s.segments m).bind (·.location)) :
    s'.locatedRanges = s.locatedRanges := by
  unfold locatedRanges
  simp only [hsize, h]

theorem locatedRanges_of_replaces (hr : s.Replaces n segment s')
    (hold : (s.segments n).bind (·.location) = none) (hnew : segment.bind (·.location) = none) :
    s'.locatedRanges = s.locatedRanges := by
  refine locatedRanges_congr hr.size fun m => ?_
  by_cases hm : m = n
  · rw [hm, hr.self, hold, hnew]
  · rw [hr.of_ne hm]

theorem Indexed.closesNew {submit : SubmitOutcome} (h : s.Indexed)
    (hloc : s.segments n = some loc) (hnew : loc.New n session)
    (hc : s.ClosesNew n loc submit throws s') : s'.Indexed := by
  have hold : (s.segments n).bind (·.location) = none := by
    rw [hloc, Option.bind_some, hnew.new]
  cases hc with
  | threw _ same => exact same ▸ h
  | marked _ _ replaces =>
    exact h.congr (locatedRanges_of_replaces replaces hold hnew.new) replaces.trees replaces.stats
  | dropped _ replaces =>
    exact h.congr (locatedRanges_of_replaces replaces hold rfl) replaces.trees replaces.stats
  | encoding _ _ _ _ replaces =>
    exact h.congr (locatedRanges_of_replaces replaces hold hnew.new) replaces.trees replaces.stats

theorem Indexed.closings (h : s.Indexed) (hc : Closings session submits s s') : s'.Indexed := by
  induction hc with
  | refl => exact h
  | step segment new closes rest ih => exact ih (h.closesNew segment new closes)

theorem Indexed.append (h : s.Indexed) (hs : s.Written) (session : SessionId) (id : SegmentId) :
    (s.append session id).Indexed := by
  refine h.congr ?_ rfl rfl
  have hnone : s.segments s.size = none := hs.slots.none_of_size_le le_rfl
  unfold locatedRanges
  rw [size_append, List.range_succ, List.filterMap_append, segments_append]
  have hlast : ([s.size].filterMap fun n => (((Function.update s.segments s.size
      (some (.allocated s.size session id))) n).bind (·.location)).map fun l =>
        (⟨(l.ranges .qIndex).start, (l.ranges .qIndex).stop, n⟩ :
          RangeEntry ℕ StreamSegmentId)) = [] := by
    rw [List.filterMap_cons, Function.update_self]
    rfl
  rw [hlast, List.append_nil]
  refine List.filterMap_congr fun m hm => ?_
  rw [Function.update_of_ne (List.mem_range.mp hm).ne]

theorem mem_locatedRanges_of_stores {location : StorageLocation} (hs : s.Stores n location s')
    (hn : n < s.size) (hnew : (s.segments n).bind (·.location) = none) :
    r ∈ s'.locatedRanges ↔ r ∈ s.locatedRanges ∨
      r = ⟨(location.normalize.ranges .qIndex).start,
        (location.normalize.ranges .qIndex).stop, n⟩ := by
  obtain ⟨loc, -, hloc, hsegs⟩ := hs.segments
  rw [mem_locatedRanges, mem_locatedRanges, hs.size, hsegs]
  by_cases hr : r.val = n
  · have hold : ¬ ∃ loc l, s.segments r.val = some loc ∧ loc.location = some l ∧
        r.start = (l.ranges .qIndex).start ∧ r.stop = (l.ranges .qIndex).stop := by
      rintro ⟨loc, l, hloc, hl, -⟩
      rw [← hr, hloc, Option.bind_some] at hnew
      cases hnew.symm.trans hl
    rw [or_iff_right fun h => hold h.2, hr, Function.update_self]
    constructor
    · rintro ⟨-, loc', l, hloc', hl, hstart, hstop⟩
      obtain rfl := Option.some.inj hloc'
      obtain rfl := Option.some.inj (hloc.symm.trans hl)
      obtain ⟨start, stop, val⟩ := r
      obtain rfl := hr
      obtain rfl := hstart
      obtain rfl := hstop
      rfl
    · rintro rfl
      exact ⟨hn, loc, _, rfl, hloc, rfl, rfl⟩
  · rw [Function.update_of_ne hr, or_iff_left]
    rintro rfl
    exact hr rfl

theorem normalize_qIndex {location : StorageLocation} {range : Range}
    (hrange : location.ranges .qIndex = range) (hvalid : range.Valid) :
    location.normalize.ranges .qIndex = range :=
  (Range.normalize_of_valid (hrange ▸ hvalid)).trans hrange

theorem tree_of_stores {location : StorageLocation} {range : Range}
    (hs : s.Stores n location s') (hkey : location.sequenceNumber = n)
    (hrange : location.ranges .qIndex = range) (hvalid : range.Valid) :
    s'.trees .qIndex = RangeIndex.insert ⟨range.start, range.stop, n⟩ (s.trees .qIndex) := by
  rw [hs.trees, indexLocation]
  dsimp only
  rw [normalize_qIndex hrange hvalid, if_pos (hrange ▸ hvalid)]
  exact congrArg (fun k => RangeIndex.insert ⟨_, _, k⟩ (s.trees .qIndex)) hkey

theorem stop_of_stores {location : StorageLocation} {range : Range}
    (hs : s.Stores n location s') (hrange : location.ranges .qIndex = range)
    (hvalid : range.Valid) :
    (s'.stats.ranges .qIndex).stop =
      if (s.stats.ranges .qIndex).stop < range.stop ∨
        (s.stats.ranges .qIndex).stop = invalidLargeObjectId then range.stop
      else (s.stats.ranges .qIndex).stop := by
  rw [hs.stats, indexLocation]
  dsimp only
  rw [normalize_qIndex hrange hvalid, extendRange, if_pos (hrange ▸ hvalid)]

theorem Indexed.stop_ne (h : s.Indexed) (ht : s.Tiled startIndex entryCount)
    (hn : s.closed n = true) (hne : s.locatedRanges ≠ []) :
    (s.stats.ranges .qIndex).stop ≠ invalidLargeObjectId := by
  intro hinvalid
  obtain ⟨r, hr, hstop⟩ := h.reached hne
  have hle := (ht.tiles.mem (ht.locatedRanges_sublist.subset hr)).2.2
  rw [hstop, hinvalid] at hle
  exact absurd (hle.trans (ht.index_lt_of_closed hn).2) (lt_irrefl _)

/-- No other stored segment begins where this one does. -/
theorem Indexed.ne_of_mem_tree (h : s.Indexed) (ht : s.Tiled startIndex entryCount)
    (hn : s.closed n = true) (hnew : (s.segments n).bind (·.location) = none)
    (hr : r ∈ s.trees .qIndex) : r.start ≠ startIndex n := by
  intro heq
  have hself := ht.mem_closedRanges hn
  have hlocated := (h.mem r).mp hr
  have hclosed := ht.locatedRanges_sublist.subset hlocated
  have hr := ht.tiles.eq_of_contains hclosed hself ⟨le_rfl, (ht.tiles.mem hclosed).2.1⟩
    ⟨heq.ge, heq ▸ (ht.tiles.mem hself).2.1⟩
  rw [hr] at hlocated
  obtain ⟨-, loc, l, hloc, hl, -⟩ := mem_locatedRanges.mp hlocated
  rw [hloc, Option.bind_some] at hnew
  cases hnew.symm.trans hl

/-- A stored segment is put into the tree under its own indices. -/
theorem Indexed.stores (h : s.Indexed) (ht : s.Tiled startIndex entryCount)
    {location : StorageLocation}
    (hs : s.Stores n location s') (hkey : location.sequenceNumber = n) (hn : s.closed n = true)
    (hnew : (s.segments n).bind (·.location) = none)
    (hrange : location.ranges .qIndex = ⟨startIndex n, startIndex n + entryCount n - 1⟩) :
    s'.Indexed := by
  obtain ⟨loc, hloc, -⟩ := closed_iff.mp hn
  have hvalid := ht.valid hn
  have hmem := fun r => mem_locatedRanges_of_stores (r := r) hs (ht.written.lt_size hloc) hnew
  rw [normalize_qIndex hrange hvalid] at hmem
  have htree := tree_of_stores hs hkey hrange hvalid
  have hstop := stop_of_stores hs hrange hvalid
  dsimp only at htree hstop
  constructor
  · rw [htree]
    exact RangeIndex.sorted_insert h.sorted _
  · intro r
    rw [htree, RangeIndex.mem_insert h.sorted, h.mem, hmem]
    refine or_congr_right (and_iff_left_of_imp ?_)
    rintro rfl y hy heq
    exact h.ne_of_mem_tree ht hn hnew hy heq
  · intro hnone
    have hself := (hmem _).mpr (.inr rfl)
    rw [hnone] at hself
    cases hself
  · intro r hr
    rw [hstop]
    rcases (hmem r).mp hr with hr | rfl
    · have hmax := h.max r hr
      have hinvalid := h.stop_ne ht hn (List.ne_nil_of_mem hr)
      split_ifs <;> omega
    · split_ifs with hmax
      · exact le_rfl
      · exact not_lt.mp (not_or.mp hmax).1
  · intro _
    rw [hstop]
    split_ifs with hmax
    · exact ⟨_, (hmem _).mpr (.inr rfl), rfl⟩
    · obtain ⟨r, hr, hrstop⟩ := h.reached fun hnil => (not_or.mp hmax).2 (h.unset hnil)
      exact ⟨r, (hmem r).mpr (.inl hr), hrstop⟩

/-- A query for an index in the tiling returns the position of this entry. -/
theorem exists_position {b value : ℕ} (h : s.Indexed) (ht : RangeIndex.Tiles s.locatedRanges 0 b)
    (hb : b ≤ invalidLargeObjectId) (hv : value < b) :
    ∃ (r : RangeEntry ℕ StreamSegmentId) (loc : SegmentLocation) (location : StorageLocation),
      s.findSequenceNumber .qIndex value = some r.val ∧ r.val < s.size ∧
        s.segments r.val = some loc ∧ loc.location = some location ∧
          (RangeIndex.positions s.locatedRanges)[value]? = some (r.val, value - r.start) ∧
            ∀ entrySize, findOffset location entrySize value =
              .ok ((value - r.start) * entrySize) := by
  obtain ⟨r, hr, hc⟩ := ht.exists_contains (Nat.zero_le value) hv
  obtain ⟨hn, loc, location, hloc, hl, hstart, -⟩ := mem_locatedRanges.mp hr
  refine ⟨r, loc, location, ?_, hn, hloc, hl, ht.positions_getElem? hr hc, fun entrySize => ?_⟩
  · rw [findSequenceNumber, ht.find_eq_some h.sorted h.mem hr hc]
    rfl
  · have hlt := hc.1.trans_lt (hv.trans_le hb)
    rw [hstart] at hlt
    rw [findOffset, if_neg hlt.ne, hstart]

theorem Indexed.adjustQuery_eq {b value : ℕ} (h : s.Indexed)
    (ht : RangeIndex.Tiles s.locatedRanges 0 b) (hb : 0 < b) :
    s.adjustQuery true .qIndex value = if b ≤ value then none else some (b - 1 - value) := by
  obtain ⟨r, hr, hc⟩ := ht.exists_contains (Nat.zero_le (b - 1)) (Nat.sub_lt hb Nat.one_pos)
  have hmax := h.max r hr
  obtain ⟨x, hx, hxstop⟩ := h.reached (List.ne_nil_of_mem hr)
  have hxlt := (ht.mem hx).2.2
  have hstop : (s.stats.ranges .qIndex).stop = b - 1 := by
    have hle := hc.2
    omega
  unfold adjustQuery
  rw [if_pos rfl, hstop]
  dsimp only
  by_cases hle : b ≤ value
  · rw [if_pos (by omega), if_pos hle]
  · rw [if_neg (by omega), if_neg hle]

theorem Indexed.findSequenceNumber_eq_none {b value : ℕ} (h : s.Indexed)
    (ht : RangeIndex.Tiles s.locatedRanges 0 b) (hv : b ≤ value) :
    s.findSequenceNumber .qIndex value = none := by
  rw [findSequenceNumber, ht.find_eq_none h.sorted (fun x hx => (h.mem x).mp hx) hv]
  rfl

end ServerStream

namespace Writing

variable {w w' : Writing} {a : WriteAction} {l : List (Transition.Taken Writing WriteAction)}

theorem indexed_step (h : w.Tiled ∧ w.server.stream.Indexed) (step : SuccessfulStep w a w') :
    w'.server.stream.Indexed := by
  obtain ⟨step, hsucceeds⟩ := step
  have hwritten := h.1.stream.written
  cases step with
  | submitLast unlocked possible submitted =>
    rcases ServerState.closings_submitLast hwritten possible submitted with
      ⟨rfl, -⟩ | ⟨n, loc, owner, -, hloc, hnew, -, hc⟩
    · exact h.2
    · exact h.2.closesNew hloc hnew hc
  | allocateNext appending free =>
    rcases server_allocateNext hwritten with heq | ⟨i, heq⟩ <;> rw [heq]
    · exact h.2
    · exact h.2.append hwritten _ i
  | close possible closed =>
    exact h.2.closings (ServerState.closings_close hwritten possible closed)
  | closeSession possible closed =>
    exact h.2.closings (ServerState.closings_closeSession hwritten possible closed)
  | encoded segment encoding completed =>
    obtain ⟨f, hstores, hclosed, hrange⟩ := h.1.stores segment encoding completed hsucceeds
    refine h.2.stores h.1.stream hstores rfl hclosed ?_ hrange
    rw [segment]
    exact encoding.1

theorem indexed_fresh : fresh.server.stream.Indexed where
  sorted := .nil
  mem r := by
    rw [ServerStream.mem_locatedRanges]
    exact iff_of_false (fun h => by cases h) fun h => absurd h.1 (Nat.not_lt_zero _)
  unset _ := rfl
  max _ h := by cases h
  reached h := absurd rfl h

theorem indexed_run {w : Writing} (run : Transition.Run (· = fresh) SuccessfulStep l w) :
    w.Tiled ∧ w.server.stream.Indexed := by
  have hinvariant : Transition.Invariant (· = fresh) SuccessfulStep
      fun w => w.Tiled ∧ w.server.stream.Indexed := by
    constructor
    · rintro _ rfl
      exact ⟨tiled_fresh, indexed_fresh⟩
    · intro w a w' h step
      exact ⟨tiled_step h.1 step, indexed_step h step⟩
  exact hinvariant.run run

def IsEntry (s : ServerStream) (entrySize i : ℕ) (position : StreamSegmentId × ℕ) : Prop :=
  ∃ k, (RangeIndex.positions s.locatedRanges)[i]? = some (position.1, k) ∧
    position.2 = k * entrySize

theorem openIndex_eq {b value i : ℕ} {reverseQuery : Bool} (hw : w.server.stream.Written)
    (h : w.server.stream.Indexed) (ht : RangeIndex.Tiles w.server.stream.locatedRanges 0 b)
    (hb : b ≤ invalidLargeObjectId) (hi : i < b)
    (hadjust : w.server.stream.adjustQuery reverseQuery .qIndex value = some i)
    (session : SessionId) (wait : Option WaitId) (entrySize : ℕ) :
    ∃ position, w.server.openIndex session wait entrySize value reverseQuery =
      (w.server, .ok position) ∧ IsEntry w.server.stream entrySize i position := by
  obtain ⟨r, loc, location, hfind, hn, hloc, hl, hposition, hoffset⟩ :=
    ServerStream.exists_position h ht hb hi
  refine ⟨(r.val, (i - r.start) * entrySize), ?_, i - r.start, hposition, rfl⟩
  have hquery : w.server.stream.queryIndex entrySize value reverseQuery =
      .ok (r.val, (i - r.start) * entrySize) := by
    unfold ServerStream.queryIndex
    rw [hadjust]
    dsimp only
    rw [hfind]
    dsimp only
    rw [if_neg hn.not_ge, hloc]
    dsimp only
    rw [hl]
    dsimp only
    rw [hoffset]
    rfl
  have hlookup : w.server.lookup session r.val wait = some (w.server, false) := by
    have hcount : loc.referenceCount = 0 := by
      cases hw.segment r.val loc hloc with
      | writing _ new | encoding _ new => cases new.new.symm.trans hl
      | stored closed => exact closed.count
    have hpresent : ¬ (r.val ≥ w.server.stream.size ∨ loc.location = none) := by
      rw [hl]
      exact not_or.mpr ⟨hn.not_ge, Option.some_ne_none location⟩
    unfold ServerState.lookup
    rw [hloc, Option.bind_eq_bind, Option.bind_some, if_neg hpresent, hcount, if_neg (lt_irrefl 0)]
  unfold ServerState.openIndex
  rw [hquery]
  dsimp only
  rw [hlookup]

theorem openIndex_eq_notFound {value : ℕ} {reverseQuery : Bool}
    (hadjust : ∀ i ∈ w.server.stream.adjustQuery reverseQuery .qIndex value,
      w.server.stream.findSequenceNumber .qIndex i = none)
    (session : SessionId) (wait : Option WaitId) (entrySize : ℕ) :
    w.server.openIndex session wait entrySize value reverseQuery =
      (w.server, .error .notFound) := by
  have hquery : w.server.stream.queryIndex entrySize value reverseQuery = .error .notFound := by
    unfold ServerStream.queryIndex
    cases hi : w.server.stream.adjustQuery reverseQuery .qIndex value with
    | none => rfl
    | some i =>
      dsimp only
      rw [hadjust i hi]
  unfold ServerState.openIndex
  rw [hquery]

/-- When all encodings have ended, a query for an entry index returns the position of this entry,
counted from the start or the end of the stream. A query behind the last entry finds nothing. -/
theorem openIndex_position {w : Writing} (run : Transition.Run (· = fresh) SuccessfulStep l w)
    (hall : ∀ n, w.server.stream.closed n = true → w.server.stream.isLocated n = true)
    (session : SessionId) (wait : Option WaitId) (entrySize i : ℕ) :
    (i < appended l →
      (∃ position, w.server.openIndex session wait entrySize i false = (w.server, .ok position) ∧
        IsEntry w.server.stream entrySize i position) ∧
      ∃ position, w.server.openIndex session wait entrySize i true = (w.server, .ok position) ∧
        IsEntry w.server.stream entrySize (appended l - 1 - i) position) ∧
    (appended l ≤ i → ∀ reverseQuery, w.server.openIndex session wait entrySize i reverseQuery =
      (w.server, .error .notFound)) := by
  obtain ⟨htiled, hindexed⟩ := indexed_run run
  have hwritten := htiled.stream.written
  have hindex := index_run run
  have htiles : RangeIndex.Tiles w.server.stream.locatedRanges 0 (appended l) := by
    rw [htiled.stream.locatedRanges_eq_closedRanges hall, ← hindex]
    exact htiled.stream.tiles
  have hbound : appended l ≤ invalidLargeObjectId := by
    have hsize : w.server.stream.size * (2 ^ 32 - 1) ≤ (2 ^ 32 - 1) * (2 ^ 32 - 1) :=
      Nat.mul_le_mul_right _ htiled.stream.size
    have hle := (Nat.le_add_right _ _).trans htiled.stream.bound
    unfold invalidLargeObjectId
    omega
  constructor
  · intro hi
    refine ⟨openIndex_eq hwritten hindexed htiles hbound hi rfl session wait entrySize, ?_⟩
    refine openIndex_eq hwritten hindexed htiles hbound (by omega) ?_ session wait entrySize
    rw [hindexed.adjustQuery_eq htiles (Nat.zero_lt_of_lt hi), if_neg (not_le.mpr hi)]
  · intro hi reverseQuery
    refine openIndex_eq_notFound (fun j hj => ?_) session wait entrySize
    by_cases hempty : appended l = 0
    · exact hindexed.findSequenceNumber_eq_none htiles (hempty ▸ Nat.zero_le j)
    · cases reverseQuery with
      | false =>
        obtain rfl := Option.some.inj hj
        exact hindexed.findSequenceNumber_eq_none htiles hi
      | true =>
        rw [hindexed.adjustQuery_eq htiles (Nat.pos_of_ne_zero hempty), if_pos hi] at hj
        cases hj

theorem openIndex_position_turns :
    (∃ position, turns.2.server.openIndex 3 none 16 3 false = (turns.2.server, .ok position) ∧
      IsEntry turns.2.server.stream 16 3 position) ∧
    ∃ position, turns.2.server.openIndex 3 none 16 3 true = (turns.2.server, .ok position) ∧
      IsEntry turns.2.server.stream 16 1 position :=
  (openIndex_position successful_turns located_turns 3 none 16 3).1 (by decide)

end Writing

end Simutrace
