import Simutrace.Store.Reload

/-! # The streams of a recording

While segments are written, encoded and given up, a stream has a location for
exactly the segments that were completed successfully, and accounts them. The
file has the frames of these, of the rejected and of the pending ones.
-/

namespace Simutrace

namespace ServerStream

structure Live (located : List StorageLocation) (s : ServerStream) : Prop where
  locations : ∀ location, s.HasLocation location ↔ location ∈ located
  stats : s.stats = located.foldl StreamStatistics.account ServerStream.new.stats
  indexed : ∀ n loc, s.segments n = some loc → loc.sequenceNumber = n ∧ n < s.size

variable {located : List StorageLocation} {s s' : ServerStream} {n : StreamSegmentId}
  {loc : SegmentLocation}

theorem Live.new : Live [] .new :=
  ⟨fun _ => by simp [HasLocation, ServerStream.new], rfl, fun _ _ h => by cases h⟩

theorem Live.eq_none_of_not_allocated (h : Live located s) (hn : ¬ s.SegmentIsAllocated n) :
    s.segments n = none := by
  by_contra hne
  obtain ⟨loc, hloc⟩ := Option.ne_none_iff_exists'.mp hne
  exact hn ⟨(h.indexed n loc hloc).2, hne⟩

theorem Live.setNew (h : Live located s) {o : Option SegmentLocation}
    (hseg : s'.segments = Function.update s.segments n o) (hstats : s'.stats = s.stats)
    (hsize : s.size ≤ s'.size) (hnew : ∀ loc ∈ s.segments n, loc.location = none)
    (ho : ∀ loc ∈ o, loc.location = none ∧ loc.sequenceNumber = n ∧ n < s'.size) :
    Live located s' where
  locations location := by
    rw [hasLocation_of_new hseg hnew fun loc hloc => (ho loc hloc).1, h.locations]
  stats := hstats.trans h.stats
  indexed m loc hm := by
    rw [hseg] at hm
    by_cases he : m = n
    · subst he
      rw [Function.update_self] at hm
      exact (ho loc hm).2
    · rw [Function.update_of_ne he] at hm
      exact ⟨(h.indexed m loc hm).1, (h.indexed m loc hm).2.trans_le hsize⟩

theorem Live.addSegmentLocation (h : Live located s) (hn : ¬ s.SegmentIsAllocated n)
    (session : SessionId) (buffer : SegmentId) :
    Live located (s.addSegmentLocation (.allocated n session buffer)) := by
  refine h.setNew rfl rfl (le_max_left _ _) (fun loc hloc => ?_) fun loc hloc => ?_
  · cases (h.eq_none_of_not_allocated hn).symm.trans hloc
  · obtain rfl := Option.some.inj hloc
    exact ⟨rfl, rfl, lt_max_of_lt_right (Nat.lt_succ_self _)⟩

theorem Live.submit (h : Live located s) (hs : s.segments n = some loc)
    (hloc : loc.location = none) (sideId id : Option SegmentId) :
    Live located (s.setSegment n (some { loc with sideId := sideId, id := id })) := by
  refine h.setNew rfl rfl le_rfl (fun loc' h' => ?_) fun loc' h' => ?_
  · obtain rfl := Option.some.inj (hs.symm.trans h')
    exact hloc
  · obtain rfl := Option.some.inj h'
    exact ⟨hloc, h.indexed n loc hs⟩

theorem Live.deleteSegment (h : Live located s) (hs : s.segments n = some loc)
    (hloc : loc.location = none) (synchronous : Bool) :
    ∃ s', s.completeEncoding loc none synchronous = some s' ∧ Live located s' ∧
      s'.segments = Function.update s.segments n none := by
  have hn := (h.indexed n loc hs).1
  refine ⟨_, rfl, ?_, by rw [← hn]; rfl⟩
  refine h.setNew (n := n) (o := none) (by rw [← hn]; rfl) rfl le_rfl (fun loc' h' => ?_)
    fun _ h => by cases h
  obtain rfl := Option.some.inj (hs.symm.trans h')
  exact hloc

theorem completeEncoding_eq_none {location : StorageLocation} {synchronous : Bool}
    (h : ¬ s.LocationAccepted location) :
    s.completeEncoding loc (some location) synchronous = none := by
  simp [completeEncoding, addSegment_eq_none.mpr h]

theorem Live.locateSegment (h : Live located s) {location : StorageLocation}
    (hs : s.segments location.sequenceNumber = some loc) (hloc : loc.location = none)
    (hacc : s.LocationAccepted location) (synchronous : Bool) :
    ∃ s' o, s.completeEncoding loc (some location) synchronous = some s' ∧
      Live (located ++ [location.normalize]) s' ∧
      s'.segments = Function.update s.segments location.sequenceNumber o := by
  obtain ⟨s₁, h₁⟩ := exists_addSegment hacc
  obtain ⟨-, -, hstats, -, hle, -⟩ := addSegment_spec h₁
  obtain ⟨hn, hlt⟩ := h.indexed _ loc hs
  have halloc : s.SegmentIsAllocated location.sequenceNumber :=
    ⟨hlt, by rw [hs]; exact Option.some_ne_none _⟩
  obtain ⟨hseg, -⟩ := addSegment_of_segment h₁ halloc hs
  let loc' : SegmentLocation := { loc with
    sequenceNumber := location.sequenceNumber
    location := some location.normalize, sideId := none, referenceCount := 0, referenceMap := 0
    cancel := false, waitList := if synchronous then loc.waitList else [] }
  let s' : ServerStream :=
    { s₁.setSegment location.sequenceNumber (some loc') with
      openList := s₁.openList.filter (· ≠ location.sequenceNumber) }
  have hseg' : s'.segments = Function.update s.segments location.sequenceNumber (some loc') := by
    simp only [s', setSegment, hseg, Function.update_idem]
  refine ⟨s', some loc', ?_, ⟨fun l => ?_, ?_, fun m l hm => ?_⟩, hseg'⟩
  · simp only [completeEncoding, h₁, hn, Option.bind_eq_bind, Option.bind_some, hseg,
      Function.update_self, Option.map_some]
    rfl
  · rw [hasLocation_of_located hseg' (fun l hl => ?_) rfl, h.locations, List.mem_append,
      List.mem_singleton]
    obtain rfl := Option.some.inj (hs.symm.trans hl)
    exact hloc
  · rw [List.foldl_append, ← h.stats]
    exact hstats
  · rw [hseg'] at hm
    by_cases he : m = location.sequenceNumber
    · subst he
      rw [Function.update_self] at hm
      obtain rfl := Option.some.inj hm
      exact ⟨rfl, hlt.trans_le hle⟩
    · rw [Function.update_of_ne he] at hm
      exact ⟨(h.indexed m l hm).1, (h.indexed m l hm).2.trans_le hle⟩

end ServerStream

namespace Simtrace3

namespace Streams

variable {streams : Streams} {id i : StreamId} {n : StreamSegmentId} {stream : StoreStream}

theorem segment_eq (h : streams id = some stream) (n : StreamSegmentId) :
    streams.segment id n = stream.stream.segments n := by
  rw [segment, h, Option.bind_some]

theorem exists_of_segment {loc : SegmentLocation} (h : streams.segment id n = some loc) :
    ∃ stream, streams id = some stream ∧ stream.stream.segments n = some loc :=
  Option.bind_eq_some_iff.mp h

theorem completeSegment_eq {loc : SegmentLocation} (h : streams id = some stream)
    (hs : stream.stream.segments n = some loc) (location : Option StorageLocation) :
    streams.completeSegment id n location =
      (stream.stream.completeEncoding loc location false).map fun s =>
        Function.update streams id (some { stream with stream := s }) := by
  simp [completeSegment, h, hs, Option.map_eq_bind]

end Streams

/-- The segment a frame belongs to. -/
def Committed.key (c : Committed) : StreamId × StreamSegmentId := (c.streamId, c.sequenceNumber)

def StoreStream.metadata (stream : StoreStream) : List UInt8 × Option (List StreamId) :=
  (stream.descriptor, stream.associated)

namespace Recording

variable {totalStreamCount : List UInt8 → BitVec 32} {murmur3 : List UInt8 → BitVec 32}
  {r r' : Recording} {id : StreamId} {n : StreamSegmentId} {stream : StoreStream}
  {loaded loaded' : Streams}

def reload (totalStreamCount : List UInt8 → BitVec 32) (r : Recording) : Option Streams :=
  r.committed.foldlM (openCommitted totalStreamCount) fun _ => none

/-- Loaded streams have the meta data of those of a recording and all segments of the file. -/
structure Mirrors (streams : Streams) (committed : List Committed) (loaded : Streams) : Prop where
  metadata : ∀ id, (loaded id).map StoreStream.metadata = (streams id).map StoreStream.metadata
  segments : ∀ id, ∀ stream ∈ loaded id, stream.stream.Loaded (dataLocations id committed)

/-- What holds of a recording in every state. -/
structure Inv (totalStreamCount : List UInt8 → BitVec 32) (murmur3 : List UInt8 → BitVec 32)
    (r : Recording) : Prop where
  consistent : r.store.Consistent r.committed
  readable : ∀ c ∈ r.committed, c.Readable murmur3
  known : ∀ c ∈ r.committed, r.streams c.streamId ≠ none
  perm : (r.committed.filter fun c => c.1.header.sequenceNumber ≠ -1).Perm
    (r.located ++ r.rejected ++ r.pending)
  live : ∀ id, ∀ stream ∈ r.streams id, stream.stream.Live (dataLocations id r.located)
  pending : ∀ c ∈ r.pending, ∃ loc, r.streams.segment c.streamId c.sequenceNumber = some loc ∧
    loc.location = none ∧ loc.id = none
  distinct : (r.pending.map Committed.key).Nodup
  mirrors : ∀ loaded, r.reload totalStreamCount = some loaded → Mirrors r.streams r.committed loaded

theorem Inv.new : Inv totalStreamCount murmur3 .new where
  consistent := Simtrace3Store.consistent_createStore
  readable _ h := by cases h
  known _ h := by cases h
  perm := .refl _
  live _ _ h := by cases h
  pending _ h := by cases h
  distinct := List.nodup_nil
  mirrors loaded h := by
    obtain rfl := Option.some.inj h
    exact ⟨fun _ => rfl, fun _ _ h => by cases h⟩

theorem Inv.opens_iff (h : r.Inv totalStreamCount murmur3) :
    r.Opens totalStreamCount murmur3 loaded ↔ r.reload totalStreamCount = some loaded := by
  obtain ⟨current, index, hh, -⟩ := h.consistent
  have hopen : ∀ assertions fuel, 2 * r.committed.length + 1 ≤ fuel → r.store.file.openStore
      assertions (openFrame totalStreamCount murmur3 r.store.file.storage) fuel (fun _ => none) =
        r.reload totalStreamCount := fun assertions fuel hfuel => by
    rw [hh.directories.openStore hh.capacity (by rwa [List.length_map]),
      foldlM_openFrame hh.stored h.readable, reload]
  constructor
  · rintro ho
    rw [← hopen false _ le_rfl, ho false _ le_rfl]
  · rintro hr assertions fuel hfuel
    rw [hopen assertions fuel hfuel, hr]

theorem Inv.data_of_mem (h : r.Inv totalStreamCount murmur3) {c : Committed}
    (hc : c ∈ r.located ++ r.rejected ++ r.pending) :
    c ∈ r.committed ∧ c.1.header.sequenceNumber ≠ -1 := by
  simpa using h.perm.mem_iff.mpr hc

@[simp] theorem streams_setStream_self : (r.setStream id stream).streams id = some stream :=
  Function.update_self ..

theorem streams_setStream_of_ne {i : StreamId} (h : i ≠ id) :
    (r.setStream id stream).streams i = r.streams i :=
  Function.update_of_ne h ..

theorem segment_setStream {s : ServerStream} {o : Option SegmentLocation}
    (hs : r.streams id = some stream)
    (hseg : s.segments = Function.update stream.stream.segments n o)
    {i : StreamId} {m : StreamSegmentId} (hne : (i, m) ≠ (id, n)) :
    (r.setStream id { stream with stream := s }).streams.segment i m = r.streams.segment i m := by
  by_cases hi : i = id
  · subst hi
    have hm : m ≠ n := fun hm => hne (hm ▸ rfl)
    rw [Streams.segment_eq streams_setStream_self, Streams.segment_eq hs, hseg,
      Function.update_of_ne hm]
  · rw [Streams.segment, streams_setStream_of_ne hi, Streams.segment]

theorem metadata_setStream {s : ServerStream} (hs : r.streams id = some stream) (i : StreamId) :
    ((r.setStream id { stream with stream := s }).streams i).map StoreStream.metadata =
      (r.streams i).map StoreStream.metadata := by
  by_cases hi : i = id
  · subst hi
    rw [streams_setStream_self, hs]
    rfl
  · rw [streams_setStream_of_ne hi]

theorem setStream_ne_none {i : StreamId} (h : r.streams i ≠ none) :
    (r.setStream id stream).streams i ≠ none := by
  by_cases hi : i = id
  · rw [hi, streams_setStream_self]
    exact Option.some_ne_none _
  · rwa [streams_setStream_of_ne hi]

theorem Inv.setSegment (h : r.Inv totalStreamCount murmur3) {s : ServerStream}
    {o : Option SegmentLocation} (hs : r.streams id = some stream)
    (hlive : s.Live (dataLocations id r.located))
    (hseg : s.segments = Function.update stream.stream.segments n o)
    (hne : ∀ c ∈ r.pending, c.key ≠ (id, n)) :
    (r.setStream id { stream with stream := s }).Inv totalStreamCount murmur3 where
  consistent := h.consistent
  readable := h.readable
  known c hc := setStream_ne_none (h.known c hc)
  perm := h.perm
  live i st hst := by
    by_cases hi : i = id
    · subst hi
      rw [streams_setStream_self] at hst
      obtain rfl := Option.some.inj hst
      exact hlive
    · rw [streams_setStream_of_ne hi] at hst
      exact h.live i st hst
  pending c hc := by
    rw [segment_setStream hs hseg (hne c hc)]
    exact h.pending c hc
  distinct := h.distinct
  mirrors loaded hl :=
    ⟨fun i => ((h.mirrors loaded hl).metadata i).trans (metadata_setStream hs i).symm,
      (h.mirrors loaded hl).segments⟩

end Recording

end Simtrace3

end Simutrace
