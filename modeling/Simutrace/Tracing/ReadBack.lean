import Simutrace.Client.Enumeration
import Simutrace.Library.Blocks
import Simutrace.Tracing.Contents

/-! # What is written is read

When all encodings have ended, a query for an entry index opens the entry that
was submitted as the one with this index. The entries that were submitted after
it are then read in their order, and those before it in the reverse order.
-/

namespace Simutrace

open Enumeration

namespace StreamReads

variable {r : StreamReads} {c : ClosedStream} {call n k : ℕ} {flags : StreamAccessFlags}
  {location : StorageLocation}

theorem yields_end (h : ∀ call, c.Shows (r.view call)) (hloads : ∀ n, c.isLocated n = true →
      r.loads n = true) (hl : c.locations n = some location) (call : ℕ)
    (flags : StreamAccessFlags) :
    Yields r.getNextEntryFast (call, r.handleAt c flags n (c.rawEntryCount n))
      ((c.above n).flatMap (c.entries r.stype.entrySize)) := by
  rcases closeAndOpen_next (h call) (lt_size_of_location (h call) hl)
    { flags with reverseRead := false } with ⟨hnil, hnone⟩ | ⟨m, location', hcons, hm, hsome⟩
  · rw [hnil]
    obtain ⟨handle', hreturn⟩ := returnEntry_of_none hnone r.stype.entrySize
    exact .nil (getNextEntryFast_end.trans hreturn)
  · have hall : ∀ n ∈ c.above m, r.loads n = true := fun n hn =>
      hloads n (List.mem_filter.mp hn).2
    have hyields := yields_next h hm call { flags with reverseRead := false }
    rw [List.takeWhile_eq_self_iff.mpr hall] at hyields
    rw [if_pos (hloads m (by simp [ClosedStream.isLocated, hm]))] at hsome
    rw [hcons, List.flatMap_cons]
    refine Yields.congr ?_ hyields
    rw [getNextEntryFast_inside (rawEntryCount_pos hm), getNextEntryFast_end,
      reopen_of_some hm (Nat.zero_mul _).symm hsome]

theorem yields_from (h : ∀ call, c.Shows (r.view call)) (hloads : ∀ n, c.isLocated n = true →
      r.loads n = true) (hl : c.locations n = some location) (hk : k ≤ c.rawEntryCount n) :
    Yields r.getNextEntryFast (call, r.handleAt c flags n k)
      (((List.range (c.rawEntryCount n - k)).map fun i =>
        (n, (((k + i) * r.stype.entrySize : ℕ) : ℤ))) ++
          (c.above n).flatMap (c.entries r.stype.entrySize)) := by
  refine Yields.block (fun i => (call + i, r.handleAt c flags n (k + i : ℕ))) _ (fun i hi => ?_) ?_
  · exact (getNextEntryFast_inside (by omega)).trans returnEntry_next
  · rw [Nat.add_sub_cancel' hk]
    exact yields_end h hloads hl _ flags

theorem yields_start (h : ∀ call, c.Shows (r.view call)) (hloads : ∀ n, c.isLocated n = true →
      r.loads n = true) (hl : c.locations n = some location) (call : ℕ)
    (flags : StreamAccessFlags) :
    Yields r.getPreviousEntryFast (call, r.handleAt c flags n (-1))
      ((c.below n).flatMap fun m => (c.entries r.stype.entrySize m).reverse) := by
  rcases closeAndOpen_previous (h call) (lt_size_of_location (h call) hl)
    { flags with reverseRead := true } with ⟨hnil, hnone⟩ | ⟨m, location', hcons, hm, hsome⟩
  · rw [hnil]
    obtain ⟨handle', hreturn⟩ := returnEntry_of_none hnone (-r.stype.entrySize)
    exact .nil (getPreviousEntryFast_end.trans hreturn)
  · have hall : ∀ n ∈ c.below m, r.loads n = true := fun n hn =>
      hloads n (List.mem_filter.mp (List.mem_reverse.mp hn)).2
    have hyields := yields_previous h hm call { flags with reverseRead := true }
    rw [List.takeWhile_eq_self_iff.mpr hall] at hyields
    rw [if_pos (hloads m (by simp [ClosedStream.isLocated, hm]))] at hsome
    rw [hcons, List.flatMap_cons]
    refine Yields.congr ?_ hyields
    rw [getPreviousEntryFast_inside, getPreviousEntryFast_end, reopen_of_some hm ?_ hsome]
    rw [ClosedStream.rawEntryCount_of_location hm, Nat.sub_mul, one_mul]

theorem yields_back (h : ∀ call, c.Shows (r.view call)) (hloads : ∀ n, c.isLocated n = true →
      r.loads n = true) (hl : c.locations n = some location) (k : ℕ) :
    Yields r.getPreviousEntryFast (call, r.handleAt c flags n k)
      (((List.range (k + 1)).map fun i => (n, (((k - i) * r.stype.entrySize : ℕ) : ℤ))) ++
        (c.below n).flatMap fun m => (c.entries r.stype.entrySize m).reverse) := by
  have hfirst : (k : ℤ) = (k : ℤ) - (0 : ℕ) := by omega
  have hbefore : (k : ℤ) - (k + 1 : ℕ) = -1 := by omega
  rw [hfirst]
  refine Yields.block (fun i => (call + i, r.handleAt c flags n ((k : ℤ) - i))) _
    (fun i hi => ?_) ?_
  · have hentry : (k : ℤ) - i = (k - i : ℕ) := by omega
    have hmoved : (k : ℤ) - (i + 1 : ℕ) = (k - i : ℕ) - 1 := by omega
    rw [hentry, hmoved, getPreviousEntryFast_inside, returnEntry_previous, Nat.add_assoc]
  · rw [hbefore]
    exact yields_start h hloads hl _ flags

end StreamReads

namespace ServerStream

variable {s view : ServerStream} {startIndex entryCount : StreamSegmentId → ℕ} {n : StreamSegmentId}

/-- The first index of a segment is the number of the entries in the segments before it. -/
theorem Tiled.sum_before (h : s.Tiled startIndex entryCount) (hn : s.closed n = true) :
    ((List.range n).map entryCount).sum = startIndex n := by
  obtain ⟨loc, hloc, -⟩ := closed_iff.mp hn
  have hnumbers : s.closedNumbers = (List.range n).filter s.closed ++
      n :: (List.range' (n + 1) (s.size - (n + 1))).filter s.closed := by
    unfold closedNumbers
    rw [Blocks.range_split (h.written.lt_size hloc), List.filter_append,
      List.filter_cons_of_pos hn]
  have htiles := h.tiles
  unfold closedRanges at htiles
  rw [hnumbers, List.map_append, RangeIndex.tiles_append] at htiles
  obtain ⟨b, hfront, rfl, -⟩ := htiles
  have hsum := hfront.add_sum
  rw [Nat.zero_add, List.map_map] at hsum
  rw [← sum_map_filter h.zero]
  refine Eq.trans ?_ hsum
  congr 1
  refine List.map_congr_left fun m hm => ?_
  have hpos := h.pos m (List.mem_filter.mp hm).2
  simp only [Function.comp_apply]
  omega

/-- Another state of a stream that stores the same segments. Its buffers and references are
arbitrary. -/
structure SameStored (s view : ServerStream) : Prop where
  slots : view.Slots
  size : view.size = s.size
  segments : ∀ n, (view.segments n).map (·.location) = (s.segments n).map (·.location)
  trees : view.trees = s.trees
  stats : view.stats = s.stats

theorem SameStored.locatedRanges_eq (h : s.SameStored view) :
    view.locatedRanges = s.locatedRanges := by
  refine locatedRanges_congr h.size fun m => ?_
  have hsegment := congrArg (Option.bind · id) (h.segments m)
  simpa only [Option.bind_map, Function.id_comp] using hsegment

theorem SameStored.indexed (h : s.SameStored view) (hs : s.Indexed) : view.Indexed :=
  hs.congr h.locatedRanges_eq h.trees h.stats

end ServerStream

namespace Tracing

open ServerStream

variable {d : TracedStream} {t : Tracing d} {n : StreamSegmentId} {location : StorageLocation}

def readEntry (t : Tracing d) (position : StreamSegmentId × ℤ) : List UInt8 :=
  ((t.load position.1).drop position.2.toNat).take d.stype.entrySize

/-- The data of all segments is in the store. -/
def AllStored (t : Tracing d) : Prop :=
  ∀ n p, t.stream.place n = some p → ∃ location, p = .stored location

theorem place_eq_stored :
    t.stream.place n = some (.stored location) ↔
      (t.stream.segments n).bind (·.location) = some location := by
  rw [place_eq_some, Option.bind_eq_some_iff]
  exact exists_congr fun loc => and_congr_right fun _ => SegmentLocation.place_eq_stored

theorem closed_of_stored (h : t.stream.place n = some (.stored location)) :
    t.stream.closed n = true :=
  closed_iff_place.mpr ⟨_, h, by simp⟩

theorem Inv.lt_size_of_closed (h : t.Inv) (hn : t.stream.closed n = true) : n < t.stream.size := by
  obtain ⟨loc, hloc, -⟩ := closed_iff.mp hn
  exact h.tiled.stream.written.lt_size hloc

theorem Inv.pos_of_stored (h : t.Inv) (hplace : t.stream.place n = some (.stored location)) :
    0 < location.rawEntryCount := by
  rw [(h.stored n location hplace).1]
  exact h.tiled.stream.pos n (closed_of_stored hplace)

def closedStream (h : t.Inv) : ClosedStream where
  size := t.stream.size
  locations n := (t.stream.segments n).bind (·.location)
  size_le := h.tiled.stream.size
  pos _ _ hl := h.pos_of_stored (place_eq_stored.mpr hl)

theorem AllStored.place_of_closed (h : t.AllStored) (hn : t.stream.closed n = true) :
    ∃ location, t.stream.place n = some (.stored location) := by
  obtain ⟨p, hp, -⟩ := closed_iff_place.mp hn
  obtain ⟨location, rfl⟩ := h n p hp
  exact ⟨location, hp⟩

theorem AllStored.isLocated (h : t.AllStored) (hn : t.stream.closed n = true) :
    t.stream.isLocated n = true := by
  obtain ⟨location, hp⟩ := h.place_of_closed hn
  simp [ServerStream.isLocated, place_eq_stored.mp hp]

theorem AllStored.shows (hall : t.AllStored) (h : t.Inv) {view : ServerStream}
    (hview : t.stream.SameStored view) : (closedStream h).Shows view where
  slots := hview.slots
  size := hview.size
  segments n := by
    rw [hview.segments n]
    cases hloc : t.stream.segments n with
    | none => simp [closedStream, hloc]
    | some loc =>
      obtain ⟨location, hp⟩ := hall n loc.place (place_of_segment hloc)
      simp [closedStream, hloc, SegmentLocation.place_eq_stored.mp hp]

theorem readEntry_mul (t : Tracing d) (n : StreamSegmentId) (i : ℕ) :
    t.readEntry (n, ((i * d.stype.entrySize : ℕ) : ℤ)) =
      ((t.load n).drop (i * d.stype.entrySize)).take d.stype.entrySize := by
  simp only [readEntry, Int.toNat_natCast]

theorem segmentEntries_of_stored (h : t.Inv) (hp : t.stream.place n = some (.stored location)) :
    t.segmentEntries n = (List.range ((closedStream h).rawEntryCount n)).map fun i =>
      t.readEntry (n, ((i * d.stype.entrySize : ℕ) : ℤ)) := by
  simp only [readEntry_mul]
  simp [segmentEntries, hp, ClosedStream.rawEntryCount, closedStream, place_eq_stored.mp hp,
    Storage.recordsOf]

theorem AllStored.map_entries (hall : t.AllStored) (h : t.Inv) (n : StreamSegmentId) :
    ((closedStream h).entries d.stype.entrySize n).map t.readEntry = t.segmentEntries n := by
  cases hp : t.stream.place n with
  | none =>
    simp [ClosedStream.entries, ClosedStream.rawEntryCount, closedStream, segmentEntries, hp,
      place_eq_none.mp hp]
  | some p =>
    obtain ⟨location, rfl⟩ := hall n p hp
    rw [segmentEntries_of_stored h hp, ClosedStream.entries, List.map_map]
    rfl

theorem AllStored.length_segmentEntries (hall : t.AllStored) (h : t.Inv) (n : StreamSegmentId) :
    (t.segmentEntries n).length = t.writing.entryCount n := by
  unfold segmentEntries
  cases hp : t.stream.place n with
  | none =>
    refine (h.tiled.stream.zero n ?_).symm
    by_contra hn
    obtain ⟨p, hp', -⟩ := closed_iff_place.mp (Bool.eq_true_of_not_eq_false hn)
    cases hp.symm.trans hp'
  | some p =>
    obtain ⟨location, rfl⟩ := hall n p hp
    simp [(h.stored n location hp).1]

theorem AllStored.segmentEntries_eq_nil (hall : t.AllStored) (h : t.Inv)
    (hn : (closedStream h).isLocated n = false) : t.segmentEntries n = [] := by
  have hlocation : (closedStream h).locations n = none := by
    simpa [ClosedStream.isLocated] using hn
  rw [← hall.map_entries h, ClosedStream.entries, ClosedStream.rawEntryCount, hlocation]
  rfl

theorem AllStored.length_below (hall : t.AllStored) (h : t.Inv) (hn : t.stream.closed n = true) :
    (Blocks.below t.segmentEntries n).length = t.writing.startIndex n := by
  rw [Blocks.length_below, ← h.tiled.stream.sum_before hn]
  simp only [hall.length_segmentEntries h]

theorem AllStored.map_above (hall : t.AllStored) (h : t.Inv) (n : StreamSegmentId) :
    (((closedStream h).above n).flatMap
      ((closedStream h).entries d.stype.entrySize)).map t.readEntry =
        Blocks.above t.segmentEntries t.stream.size n := by
  rw [List.map_flatMap]
  simp only [hall.map_entries h]
  exact Blocks.flatMap_filter _ (fun _ hm => hall.segmentEntries_eq_nil h hm) _

theorem AllStored.map_below (hall : t.AllStored) (h : t.Inv) (n : StreamSegmentId) :
    (((closedStream h).below n).flatMap fun m =>
      ((closedStream h).entries d.stype.entrySize m).reverse).map t.readEntry =
        (Blocks.below t.segmentEntries n).reverse := by
  rw [List.map_flatMap]
  simp only [List.map_reverse, hall.map_entries h]
  rw [ClosedStream.below, Blocks.below,
    ← Blocks.flatMap_filter _ (fun _ hm => hall.segmentEntries_eq_nil h hm), List.reverse_flatMap]
  rfl

theorem AllStored.map_forward (hall : t.AllStored) (h : t.Inv) {k : ℕ}
    (hp : t.stream.place n = some (.stored location))
    (hk : k ≤ (closedStream h).rawEntryCount n) :
    (((List.range ((closedStream h).rawEntryCount n - k)).map fun i =>
      (n, (((k + i) * d.stype.entrySize : ℕ) : ℤ))) ++ ((closedStream h).above n).flatMap
        ((closedStream h).entries d.stype.entrySize)).map t.readEntry =
      t.written.drop (t.writing.startIndex n + k) := by
  have hclosed := closed_of_stored hp
  have hlt := h.lt_size_of_closed hclosed
  have hlen : (t.segmentEntries n).length = (closedStream h).rawEntryCount n := by
    simp [segmentEntries_of_stored h hp]
  rw [← h.written, ← hall.length_below h hclosed, List.map_append, hall.map_above h]
  refine Eq.trans ?_ (Blocks.drop_below t.segmentEntries hlt (hlen ▸ hk)).symm
  have hrange : (List.range ((closedStream h).rawEntryCount n)).drop k =
      (List.range ((closedStream h).rawEntryCount n - k)).map (k + ·) := by
    rw [List.range_eq_range', List.drop_range', Nat.mul_one, Nat.zero_add, List.range'_eq_map_range]
  rw [segmentEntries_of_stored h hp, ← List.map_drop, hrange, List.map_map, List.map_map]
  rfl

/-- The entries before one of a stored segment are those that were written before it. -/
theorem AllStored.map_backward (hall : t.AllStored) (h : t.Inv) {k : ℕ}
    (hp : t.stream.place n = some (.stored location))
    (hk : k < (closedStream h).rawEntryCount n) :
    (((List.range (k + 1)).map fun i => (n, (((k - i) * d.stype.entrySize : ℕ) : ℤ))) ++
      ((closedStream h).below n).flatMap fun m =>
        ((closedStream h).entries d.stype.entrySize m).reverse).map t.readEntry =
      (t.written.take (t.writing.startIndex n + k + 1)).reverse := by
  have hclosed := closed_of_stored hp
  have hlt := h.lt_size_of_closed hclosed
  have hlen : (t.segmentEntries n).length = (closedStream h).rawEntryCount n := by
    simp [segmentEntries_of_stored h hp]
  have hle : k + 1 ≤ (t.segmentEntries n).length := hlen ▸ hk
  have htake := Blocks.take_below t.segmentEntries hlt hle
  have hrange : (List.range (k + 1)).reverse = (List.range (k + 1)).map (k - ·) := by
    rw [List.range_eq_range', List.reverse_range', List.range_eq_range', Nat.zero_add,
      Nat.add_sub_cancel]
  rw [hall.length_below h hclosed, ← Nat.add_assoc] at htake
  rw [← h.written, entries, ← Blocks.below, htake, List.reverse_append, List.map_append,
    hall.map_below h]
  congr 1
  rw [segmentEntries_of_stored h hp, ← List.map_take, List.take_range, min_eq_left hk,
    ← List.map_reverse, hrange, List.map_map, List.map_map]
  rfl

/-- The steps of the sessions that reach the stream are steps of a stream that is written. -/
theorem writing_step {a : TraceAction} {t' : Tracing d} (step : LosslessStep t a t') :
    t'.writing = t.writing ∨ ∃ a', Writing.SuccessfulStep t.writing a' t'.writing := by
  obtain ⟨step, hlossless⟩ := step
  cases step with
  | getNextEntry | submitEntry | release => exact .inl rfl
  | append _ _ _ step | allocateNext _ step | close _ step | closeSession _ step =>
    exact .inr ⟨_, step, trivial⟩
  | closeHandle _ _ _ possible closed => exact .inr ⟨_, .close possible closed, trivial⟩
  | encoded _ _ step | discarded step => exact .inr ⟨_, step, hlossless⟩

theorem indexed_run {l : List (Transition.Taken (Tracing d) TraceAction)}
    (run : Transition.Run Initial LosslessStep l t) : t.Inv ∧ t.stream.Indexed := by
  have hinvariant : Transition.Invariant (@Initial d) LosslessStep
      fun t => t.Inv ∧ t.stream.Indexed := by
    constructor
    · intro t h
      refine ⟨h.inv, ?_⟩
      rw [stream, h.writing]
      exact Writing.indexed_fresh
    · rintro t a t' ⟨h, hindexed⟩ step
      refine ⟨inv_step h step, ?_⟩
      rcases writing_step step with heq | ⟨a', hstep⟩
      · rwa [stream, heq]
      · exact Writing.indexed_step ⟨h.tiled, hindexed⟩ hstep
  exact hinvariant.run run

theorem AllStored.length_written (hall : t.AllStored) (h : t.Inv) :
    t.written.length = t.stream.lastAppendIndex := by
  rw [← h.written, entries, ← Blocks.below, Blocks.length_below, ← h.tiled.stream.sum_entryCount]
  simp only [hall.length_segmentEntries h]

/-- The indices of the stored segments tile those of the entries that were written. -/
theorem AllStored.tiles (hall : t.AllStored) (h : t.Inv) {view : ServerStream}
    (hview : t.stream.SameStored view) :
    RangeIndex.Tiles view.locatedRanges 0 t.written.length := by
  rw [hview.locatedRanges_eq, hall.length_written h,
    h.tiled.stream.locatedRanges_eq_closedRanges fun n hn => hall.isLocated hn]
  exact h.tiled.stream.tiles

def entryIndex (t : Tracing d) (reverseQuery : Bool) (i : ℕ) : ℕ :=
  if reverseQuery then t.written.length - 1 - i else i

theorem AllStored.adjustQuery_eq (hall : t.AllStored) (h : t.Inv) (hindexed : t.stream.Indexed)
    {view : ServerStream} (hview : t.stream.SameStored view) {i : ℕ} (hi : i < t.written.length)
    (reverseQuery : Bool) : view.adjustQuery reverseQuery .qIndex i =
      some (t.entryIndex reverseQuery i) := by
  cases reverseQuery with
  | false => rfl
  | true =>
    rw [(hview.indexed hindexed).adjustQuery_eq (hall.tiles h hview) (Nat.zero_lt_of_lt hi),
      if_neg hi.not_ge, entryIndex, if_pos rfl]

/-- A query for an entry opens its segment at the place of the entry. -/
theorem AllStored.openHandle_index (hall : t.AllStored) (h : t.Inv) (hindexed : t.stream.Indexed)
    {r : StreamReads}
    (hloads : ∀ n location, t.stream.place n = some (.stored location) → r.loads n = true)
    {call i : ℕ} (hview : t.stream.SameStored (r.view call)) (hi : i < t.written.length)
    (flags : StreamAccessFlags) :
    ∃ n k location, t.stream.place n = some (.stored location) ∧
      k < (closedStream h).rawEntryCount n ∧
      t.writing.startIndex n + k = t.entryIndex flags.reverseQuery i ∧
      r.openHandle call ⟨.tree .qIndex, i, flags⟩ =
        some (r.handleAt (closedStream h) flags n k) := by
  have htiles := hall.tiles h hview
  have hindex : t.entryIndex flags.reverseQuery i < t.written.length := by
    unfold entryIndex
    split_ifs <;> omega
  obtain ⟨x, hx, hc⟩ := htiles.exists_contains (Nat.zero_le _) hindex
  have hview_indexed := hview.indexed hindexed
  have hfind := htiles.find_eq_some hview_indexed.sorted hview_indexed.mem hx hc
  rw [hview.locatedRanges_eq,
    h.tiled.stream.locatedRanges_eq_closedRanges fun n hn => hall.isLocated hn] at hx
  obtain ⟨n, hn, rfl⟩ := List.mem_map.mp hx
  have hclosed := (mem_closedNumbers.mp hn).2
  obtain ⟨location, hp⟩ := hall.place_of_closed hclosed
  obtain ⟨loc, hloc, hplace⟩ := place_eq_some.mp hp
  have hrange := h.tiled.stream.located n loc location hloc
    (SegmentLocation.place_eq_stored.mp hplace)
  obtain ⟨hstart, hstop⟩ := hc
  dsimp only at hstart hstop
  have hpos := h.tiled.stream.pos n hclosed
  have hlt := h.tiled.stream.index_lt_of_closed hclosed
  have hl : (closedStream h).locations n = some location := place_eq_stored.mp hp
  have hcount : (closedStream h).rawEntryCount n = t.writing.entryCount n := by
    rw [ClosedStream.rawEntryCount_of_location hl, (h.stored n location hp).1]
  refine ⟨n, t.entryIndex flags.reverseQuery i - t.writing.startIndex n, location, hp, ?_, ?_, ?_⟩
  · omega
  · omega
  · have hoffset : ServerStream.findOpenOffset r.stype location (r.cycleCounts n) (.tree .qIndex)
        (t.entryIndex flags.reverseQuery i) flags.reverseRead =
          .ok ((t.entryIndex flags.reverseQuery i - t.writing.startIndex n) *
            r.stype.entrySize) := by
      unfold findOpenOffset findOffset
      rw [hrange]
      dsimp only
      rw [if_neg]
      unfold invalidLargeObjectId
      omega
    have hnumber : (r.view call).findOpenSequenceNumber (.tree .qIndex)
        (t.entryIndex flags.reverseQuery i) = some n := by
      rw [findOpenSequenceNumber, findSequenceNumber, hfind]
      rfl
    have hsome : r.closeAndOpen call ⟨.tree .qIndex, i, flags⟩ = _ :=
      StreamReads.closeAndOpen_of_segment (hall.shows h hview)
        (hall.adjustQuery_eq h hindexed hview hi flags.reverseQuery) hnumber hl hoffset
    rw [hloads n location hp, if_pos rfl] at hsome
    unfold StreamReads.openHandle
    rw [hsome, Option.map_some]
    exact congrArg some (StreamReads.initializeStaticHandle_eq hl rfl)

/-- A query for an entry that was not written opens nothing. -/
theorem AllStored.openHandle_eq_none (hall : t.AllStored) (h : t.Inv) (hindexed : t.stream.Indexed)
    {r : StreamReads} {call i : ℕ} (hview : t.stream.SameStored (r.view call))
    (hi : t.written.length ≤ i) (flags : StreamAccessFlags) :
    r.openHandle call ⟨.tree .qIndex, i, flags⟩ = none := by
  have hadjust (j : ℕ) (hj : (r.view call).adjustQuery flags.reverseQuery .qIndex i = some j) :
      t.written.length ≤ j := by
    cases hreverse : flags.reverseQuery with
    | false =>
      rw [hreverse] at hj
      obtain rfl := Option.some.inj hj
      exact hi
    | true =>
      rw [hreverse] at hj
      by_cases hempty : t.written.length = 0
      · exact hempty ▸ Nat.zero_le j
      · rw [(hview.indexed hindexed).adjustQuery_eq (hall.tiles h hview)
          (Nat.pos_of_ne_zero hempty), if_pos hi] at hj
        cases hj
  unfold StreamReads.openHandle
  cases hvalue : (r.view call).adjustQuery flags.reverseQuery .qIndex i with
  | none =>
    unfold StreamReads.closeAndOpen openQuery adjustOpenQuery
    dsimp only
    rw [hvalue]
    rfl
  | some j =>
    have hfind := (hview.indexed hindexed).findSequenceNumber_eq_none (hall.tiles h hview)
      (hadjust j hvalue)
    have hnone : r.closeAndOpen call ⟨.tree .qIndex, i, flags⟩ = none :=
      StreamReads.closeAndOpen_eq_none hvalue hfind
    rw [hnone]
    rfl

/-- When all segments are stored, a query for an entry opens the one that was submitted with this
number. Forward reads return what was submitted from then on, and backward reads what was submitted
up to then, in the reverse order. A query behind the last entry opens nothing. -/
theorem reads_written {l : List (Transition.Taken (Tracing d) TraceAction)}
    (run : Transition.Run Initial LosslessStep l t) (hall : t.AllStored) {r : StreamReads}
    (htype : r.stype = d.stype) (hviews : ∀ call, t.stream.SameStored (r.view call))
    (hloads : ∀ n location, t.stream.place n = some (.stored location) → r.loads n = true)
    (call i : ℕ) (flags : StreamAccessFlags) :
    (i < t.written.length → ∃ handle forward backward,
      r.openHandle call ⟨.tree .qIndex, i, flags⟩ = some handle ∧
      Yields r.getNextEntryFast (call + 1, handle) forward ∧
      forward.map t.readEntry = t.written.drop (t.entryIndex flags.reverseQuery i) ∧
      Yields r.getPreviousEntryFast (call + 1, handle) backward ∧
      backward.map t.readEntry =
        (t.written.take (t.entryIndex flags.reverseQuery i + 1)).reverse) ∧
    (t.written.length ≤ i → r.openHandle call ⟨.tree .qIndex, i, flags⟩ = none) := by
  obtain ⟨h, hindexed⟩ := indexed_run run
  refine ⟨fun hi => ?_, fun hi => hall.openHandle_eq_none h hindexed (hviews call) hi flags⟩
  obtain ⟨n, k, location, hp, hk, hindex, hopen⟩ :=
    hall.openHandle_index h hindexed hloads (hviews call) hi flags
  have hl : (closedStream h).locations n = some location := place_eq_stored.mp hp
  have hshows (call : ℕ) : (closedStream h).Shows (r.view call) := hall.shows h (hviews call)
  have hlocated (m : StreamSegmentId) (hm : (closedStream h).isLocated m = true) :
      r.loads m = true := by
    obtain ⟨location', hl'⟩ := Option.isSome_iff_exists.mp hm
    exact hloads m location' (place_eq_stored.mpr hl')
  refine ⟨_, _, _, hopen, StreamReads.yields_from hshows hlocated hl hk.le, ?_,
    StreamReads.yields_back hshows hlocated hl k, ?_⟩
  · rw [htype, ← hindex]
    exact hall.map_forward h hp hk.le
  · rw [htype, ← hindex]
    exact hall.map_backward h hp hk

namespace twoSessions

/-- The second session closes its segment, and the encodings end in the other order. -/
def ends : List TraceAction :=
  [.closeHandle ⟨2, 2, 2, 4, none⟩ (.pending 2),
    .server (.encoded 2 (some ⟨⟨10, 12⟩, ⟨3, 4⟩, 48, 2⟩)),
    .server (.encoded 0 (some ⟨⟨5, 9⟩, ⟨1, 2⟩, 64, 2⟩))]

def stored : Tracing twoSessions := (Transition.replay perform initial (writes ++ ends)).2

theorem run_stored : Transition.Run Initial LosslessStep
    (Transition.replay perform initial (writes ++ ends)).1 stored :=
  invariant_inv.replay
    (fun _ _ _ h hperform => losslessStep_perform h.tiled.stream.written.slots hperform)
    ⟨rfl, rfl, rfl⟩ (by decide +kernel)

theorem allStored : stored.AllStored := by
  intro n p hp
  obtain ⟨loc, hloc, rfl⟩ := place_eq_some.mp hp
  have hn : n < 3 := (inv_run run_stored).tiled.stream.written.lt_size hloc
  have hall : ∀ n < 3, (stored.stream.segments n).all (·.location.isSome) = true := by
    decide +kernel
  have hlocated := hall n hn
  rw [hloc] at hlocated
  obtain ⟨location, hl⟩ := Option.isSome_iff_exists.mp hlocated
  exact ⟨location, SegmentLocation.place_of_location hl⟩

/-- All calls find the stream as it is after the encodings. -/
def reads : StreamReads where
  stype := twoSessions.stype
  view _ := stored.stream
  cycleCounts _ := []
  loads _ := true

end twoSessions

theorem reads_written_twoSessions : ∃ handle forward backward,
    twoSessions.reads.openHandle 0 ⟨.tree .qIndex, 1, ⟨true, false⟩⟩ = some handle ∧
    Yields twoSessions.reads.getNextEntryFast (1, handle) forward ∧
    forward.map twoSessions.stored.readEntry = [[5, 7], [8, 9]] ∧
    Yields twoSessions.reads.getPreviousEntryFast (1, handle) backward ∧
    backward.map twoSessions.stored.readEntry = [[5, 7], [0, 0], [0, 0]] := by
  have hslots := (inv_run twoSessions.run_stored).tiled.stream.written.slots
  obtain ⟨handle, forward, backward, hopen, hforward, hentries, hbackward, hreversed⟩ :=
    (reads_written twoSessions.run_stored twoSessions.allStored (r := twoSessions.reads) rfl
      (fun _ => ⟨hslots, rfl, fun _ => rfl, rfl, rfl⟩) (fun _ _ _ => rfl) 0 1 ⟨true, false⟩).1
        (by decide +kernel)
  exact ⟨handle, forward, backward, hopen, hforward, hentries.trans (by decide +kernel), hbackward,
    hreversed.trans (by decide +kernel)⟩

end Tracing

end Simutrace
