import Mathlib.Data.List.Nodup
import Simutrace.Stream.Neighbours

/-! # Segments without an entry

A segment that only continues an entry has blocks, but no index of an entry. When
its encoding ends, its missing index range is compared with those of its
neighbours that have been stored already.
-/

namespace Simutrace

/-- The control element of a submitted segment that is not temporally ordered. Its indices follow
those of the entries that were appended before, and the clock gives no invalid time stamps. -/
structure SubmittedSegment where
  sequenceNumber : ℕ
  startIndex : ℕ
  entryCount : ℕ
  rawEntryCount : ℕ
  startTime : ℕ
  endTime : ℕ
  compressedSize : ℕ
  nonempty : 0 < rawEntryCount
  counted : entryCount ≤ rawEntryCount
  indexed : startIndex + entryCount < invalidLargeObjectId
  started : startTime ≠ invalidLargeObjectId
  ended : endTime ≠ invalidLargeObjectId

namespace SubmittedSegment

/-- The ranges of a `Simtrace3StorageLocation`. -/
def ranges (x : SubmittedSegment) : QueryTree → Range
  | .qIndex =>
    if 0 < x.entryCount ∧ x.startIndex ≠ invalidLargeObjectId then
      ⟨x.startIndex, x.startIndex + x.entryCount - 1⟩
    else .invalid
  | .qCycleCount => .invalid
  | .qRealTime => ⟨x.startTime, x.endTime⟩

def location (x : SubmittedSegment) : StorageLocation :=
  ⟨x.sequenceNumber, x.ranges, x.compressedSize, x.rawEntryCount⟩

variable (x y : SubmittedSegment)

/-- The second segment is accepted behind the first one, which is stored already. -/
def AcceptedBehind : Prop :=
  (x.entryCount = 0 ↔ y.entryCount = 0) ∧ (x.startTime = x.endTime → x.endTime < y.startTime)

/-- The first segment is accepted in front of the second one, which is stored already. -/
def AcceptedBefore : Prop :=
  (x.entryCount = 0 → y.entryCount = 0) ∧ (y.startTime = y.endTime → x.endTime < y.startTime)

variable {x y}

theorem valid_index (h : 0 < x.entryCount) :
    x.ranges .qIndex = ⟨x.startIndex, x.startIndex + x.entryCount - 1⟩ ∧
      (x.ranges .qIndex).Valid := by
  have hindexed := x.indexed
  have hrange : x.ranges .qIndex = ⟨x.startIndex, x.startIndex + x.entryCount - 1⟩ :=
    if_pos ⟨h, by omega⟩
  refine ⟨hrange, ?_⟩
  rw [hrange]
  exact ⟨by dsimp only; omega, by dsimp only; omega⟩

theorem invalid_index (h : x.entryCount = 0) : x.ranges .qIndex = .invalid :=
  if_neg fun hpos => by omega

theorem valid_time : (x.ranges .qRealTime).Valid := ⟨x.started, x.ended⟩

theorem normalize_location : x.location.normalize = x.location := by
  unfold StorageLocation.normalize location
  congr 1
  funext i
  cases i with
  | qIndex =>
    rcases Nat.eq_zero_or_pos x.entryCount with h | h
    · exact (congrArg Range.normalize (invalid_index h)).trans (invalid_index h).symm
    · exact Range.normalize_of_valid (valid_index h).2
  | qCycleCount => rfl
  | qRealTime => exact Range.normalize_of_valid valid_time

end SubmittedSegment

namespace ServerStream

/-- The part of the check of a range that is about the stored segment before. -/
def BehindRange (range p : Range) : Prop :=
  if range.Valid then p.start = p.stop → p.stop < range.start else p.start = invalidLargeObjectId

/-- The part that is about the stored segment behind. -/
def BeforeRange (range n : Range) : Prop :=
  if range.Valid then n.start = n.stop → range.stop < n.start else n.start = invalidLargeObjectId

theorem rangeAccepted_iff {range : Range} {ploc nloc : Option Range} :
    RangeAccepted range ploc nloc ↔ (range.Valid → range.start ≤ range.stop) ∧
      (∀ p ∈ ploc, BehindRange range p) ∧ ∀ n ∈ nloc, BeforeRange range n := by
  unfold RangeAccepted BehindRange BeforeRange
  by_cases h : range.Valid
  · simp only [h, if_true, true_imp_iff]
  · simp only [h, if_false, false_imp_iff, true_and]

structure Encodes (s : ServerStream) (slots stored : List SubmittedSegment) : Prop where
  numbered : s.Slots
  allocated : ∀ x ∈ slots, ∃ loc, s.segments x.sequenceNumber = some loc ∧
    (x ∈ stored → loc.location = some x.location) ∧ (x ∉ stored → loc.location = none)
  others : ∀ n, (∀ x ∈ slots, x.sequenceNumber ≠ n) → s.segments n = none
  bound : ∀ x ∈ slots, x.sequenceNumber < invalidStreamSegmentId
  distinct : (slots.map (·.sequenceNumber)).Nodup
  indices : ∀ x ∈ slots, ∀ y ∈ slots, x.sequenceNumber < y.sequenceNumber →
    x.startIndex + x.entryCount ≤ y.startIndex

/-- No other segment is between the two. -/
def AreNeighbours (slots : List SubmittedSegment) (x y : SubmittedSegment) : Prop :=
  x ∈ slots ∧ y ∈ slots ∧ x.sequenceNumber < y.sequenceNumber ∧
    ∀ z ∈ slots, z.sequenceNumber ≤ x.sequenceNumber ∨ y.sequenceNumber ≤ z.sequenceNumber

variable {s : ServerStream} {slots stored : List SubmittedSegment} {x y : SubmittedSegment}

theorem Encodes.eq_of_sequenceNumber (h : s.Encodes slots stored) (hx : x ∈ slots)
    (hy : y ∈ slots) (heq : x.sequenceNumber = y.sequenceNumber) : x = y :=
  List.inj_on_of_nodup_map h.distinct hx hy heq

theorem Encodes.mem_location_iff (h : s.Encodes slots stored) (hx : x ∈ slots)
    {loc : SegmentLocation} (hloc : s.segments x.sequenceNumber = some loc) {l : StorageLocation} :
    l ∈ loc.location ↔ x ∈ stored ∧ l = x.location := by
  obtain ⟨loc', hloc', hstored, hnew⟩ := h.allocated x hx
  obtain rfl := Option.some.inj (hloc.symm.trans hloc')
  by_cases hmem : x ∈ stored
  · rw [hstored hmem]
    simp [hmem, eq_comm]
  · rw [hnew hmem]
    simp [hmem]

theorem Encodes.ne_none (h : s.Encodes slots stored) (hx : x ∈ slots) :
    s.segments x.sequenceNumber ≠ none := by
  obtain ⟨loc, hloc, -⟩ := h.allocated x hx
  rw [hloc]
  exact Option.some_ne_none _

theorem Encodes.exists_slot (h : s.Encodes slots stored) {loc : SegmentLocation} {n : ℕ}
    (hloc : s.segments n = some loc) : ∃ x ∈ slots, x.sequenceNumber = n := by
  by_contra hnone
  have := h.others n fun x hx heq => hnone ⟨x, hx, heq⟩
  rw [hloc] at this
  cases this

/-- The stored segment before another one is its neighbour. -/
theorem Encodes.previous_iff (h : s.Encodes slots stored) (hx : x ∈ slots) {l : StorageLocation} :
    l ∈ (s.getPreviousSegment x.sequenceNumber).bind (·.location) ↔
      ∃ p ∈ stored, AreNeighbours slots p x ∧ l = p.location := by
  have hprevious := (h.numbered.isPrevious_iff x.sequenceNumber).mpr fun hsize =>
    absurd (h.numbered.lt_size _ (h.ne_none hx)) (not_lt.mpr hsize)
  cases hfound : s.getPreviousSegment x.sequenceNumber with
  | none =>
    rw [hfound] at hprevious
    refine iff_of_false (fun hl => by cases hl) ?_
    rintro ⟨p, -, ⟨hp, -, hlt, -⟩, -⟩
    exact h.ne_none hp (hprevious _ hlt)
  | some loc =>
    rw [hfound] at hprevious
    obtain ⟨hlt, hloc, hbetween⟩ := hprevious
    obtain ⟨p, hp, hnumber⟩ := h.exists_slot hloc
    rw [← hnumber] at hlt hloc hbetween
    have hlt : p.sequenceNumber < x.sequenceNumber := hlt
    have hneighbours : AreNeighbours slots p x := by
      refine ⟨hp, hx, hlt, fun z hz => ?_⟩
      by_contra hne
      rw [not_or, not_le, not_le] at hne
      exact h.ne_none hz (hbetween _ hne.1 hne.2)
    rw [Option.bind_some, h.mem_location_iff hp hloc]
    constructor
    · rintro ⟨hstored, rfl⟩
      exact ⟨p, hstored, hneighbours, rfl⟩
    · rintro ⟨q, hstored, ⟨hq, -, hlt', hbetween'⟩, rfl⟩
      have hle := hneighbours.2.2.2 q hq
      have hge := hbetween' p hp
      obtain rfl := h.eq_of_sequenceNumber hq hp (by omega)
      exact ⟨hstored, rfl⟩

theorem Encodes.next_iff (h : s.Encodes slots stored) (hx : x ∈ slots) {l : StorageLocation} :
    l ∈ (s.getNextSegment x.sequenceNumber).bind (·.location) ↔
      ∃ n ∈ stored, AreNeighbours slots x n ∧ l = n.location := by
  have hnext := h.numbered.isNext (h.bound x hx)
  cases hfound : s.getNextSegment x.sequenceNumber with
  | none =>
    rw [hfound] at hnext
    refine iff_of_false (fun hl => by cases hl) ?_
    rintro ⟨n, -, ⟨-, hn, hlt, -⟩, -⟩
    exact h.ne_none hn (hnext _ hlt)
  | some loc =>
    rw [hfound] at hnext
    obtain ⟨hlt, hloc, hbetween⟩ := hnext
    obtain ⟨n, hn, hnumber⟩ := h.exists_slot hloc
    rw [← hnumber] at hlt hloc hbetween
    have hneighbours : AreNeighbours slots x n := by
      refine ⟨hx, hn, hlt, fun z hz => ?_⟩
      by_contra hne
      rw [not_or, not_le, not_le] at hne
      exact h.ne_none hz (hbetween _ hne.1 hne.2)
    rw [Option.bind_some, h.mem_location_iff hn hloc]
    constructor
    · rintro ⟨hstored, rfl⟩
      exact ⟨n, hstored, hneighbours, rfl⟩
    · rintro ⟨q, hstored, ⟨-, hq, hlt', hbetween'⟩, rfl⟩
      have hle := hneighbours.2.2.2 q hq
      have hge := hbetween' n hn
      obtain rfl := h.eq_of_sequenceNumber hq hn (by omega)
      exact ⟨hstored, rfl⟩

/-- The checks of the three ranges of a segment behind a stored one. -/
theorem behindRange_iff (le : x.startIndex + x.entryCount ≤ y.startIndex) :
    (∀ i, BehindRange (y.ranges i) (x.ranges i)) ↔ x.AcceptedBehind y := by
  have hindexed := x.indexed
  have hindexed' := y.indexed
  have hcycle : BehindRange (y.ranges .qCycleCount) (x.ranges .qCycleCount) := rfl
  have htime : BehindRange (y.ranges .qRealTime) (x.ranges .qRealTime) ↔
      (x.startTime = x.endTime → x.endTime < y.startTime) := by
    unfold BehindRange
    rw [if_pos SubmittedSegment.valid_time]
    rfl
  have hindex : BehindRange (y.ranges .qIndex) (x.ranges .qIndex) ↔
      (x.entryCount = 0 ↔ y.entryCount = 0) := by
    unfold BehindRange
    rcases Nat.eq_zero_or_pos y.entryCount with hy | hy
    · rw [SubmittedSegment.invalid_index hy, if_neg fun h => h.1 rfl]
      rcases Nat.eq_zero_or_pos x.entryCount with hx | hx
      · rw [SubmittedSegment.invalid_index hx]
        exact iff_of_true rfl (iff_of_true hx hy)
      · obtain ⟨hrange, hvalid⟩ := SubmittedSegment.valid_index hx
        exact iff_of_false hvalid.1 (by omega)
    · obtain ⟨hrange, hvalid⟩ := SubmittedSegment.valid_index hy
      rw [if_pos hvalid, hrange]
      rcases Nat.eq_zero_or_pos x.entryCount with hx | hx
      · rw [SubmittedSegment.invalid_index hx]
        refine iff_of_false (fun h => ?_) (by omega)
        have : invalidLargeObjectId < y.startIndex := h rfl
        omega
      · rw [(SubmittedSegment.valid_index hx).1]
        refine iff_of_true (fun _ => ?_) (by omega)
        change x.startIndex + x.entryCount - 1 < y.startIndex
        omega
  rw [QueryTree.forall_iff, hindex, htime, and_iff_right hcycle]
  rfl

theorem beforeRange_iff (le : x.startIndex + x.entryCount ≤ y.startIndex) :
    (∀ i, BeforeRange (x.ranges i) (y.ranges i)) ↔ x.AcceptedBefore y := by
  have hindexed := x.indexed
  have hindexed' := y.indexed
  have hcycle : BeforeRange (x.ranges .qCycleCount) (y.ranges .qCycleCount) := rfl
  have htime : BeforeRange (x.ranges .qRealTime) (y.ranges .qRealTime) ↔
      (y.startTime = y.endTime → x.endTime < y.startTime) := by
    unfold BeforeRange
    rw [if_pos SubmittedSegment.valid_time]
    rfl
  have hindex : BeforeRange (x.ranges .qIndex) (y.ranges .qIndex) ↔
      (x.entryCount = 0 → y.entryCount = 0) := by
    unfold BeforeRange
    rcases Nat.eq_zero_or_pos x.entryCount with hx | hx
    · rw [SubmittedSegment.invalid_index hx, if_neg fun h => h.1 rfl]
      rcases Nat.eq_zero_or_pos y.entryCount with hy | hy
      · rw [SubmittedSegment.invalid_index hy]
        exact iff_of_true rfl fun _ => hy
      · obtain ⟨hrange, hvalid⟩ := SubmittedSegment.valid_index hy
        exact iff_of_false hvalid.1 fun h => hy.ne' (h hx)
    · obtain ⟨hrange, hvalid⟩ := SubmittedSegment.valid_index hx
      rw [if_pos hvalid, hrange]
      refine iff_of_true (fun _ => ?_) fun h => absurd h hx.ne'
      rcases Nat.eq_zero_or_pos y.entryCount with hy | hy
      · rw [SubmittedSegment.invalid_index hy]
        change x.startIndex + x.entryCount - 1 < invalidLargeObjectId
        omega
      · rw [(SubmittedSegment.valid_index hy).1]
        change x.startIndex + x.entryCount - 1 < y.startIndex
        omega
  rw [QueryTree.forall_iff, hindex, htime, and_iff_right hcycle]
  rfl

theorem ordered_ranges_iff :
    (∀ i, (x.ranges i).Valid → (x.ranges i).start ≤ (x.ranges i).stop) ↔
      x.startTime ≤ x.endTime := by
  have hcycle : (x.ranges .qCycleCount).Valid →
      (x.ranges .qCycleCount).start ≤ (x.ranges .qCycleCount).stop := fun _ => le_rfl
  have hindex : (x.ranges .qIndex).Valid →
      (x.ranges .qIndex).start ≤ (x.ranges .qIndex).stop := by
    intro hvalid
    rcases Nat.eq_zero_or_pos x.entryCount with h | h
    · rw [SubmittedSegment.invalid_index h]
      exact le_rfl
    · rw [(SubmittedSegment.valid_index h).1]
      change x.startIndex ≤ x.startIndex + x.entryCount - 1
      omega
  rw [QueryTree.forall_iff]
  exact ⟨fun h => h.2.2 SubmittedSegment.valid_time, fun h => ⟨hindex, hcycle, fun _ => h⟩⟩

/-- The check compares a segment with its neighbours that are stored. -/
theorem Encodes.locationAccepted_iff (h : s.Encodes slots stored) (hx : x ∈ slots) :
    s.LocationAccepted x.location ↔ x.startTime ≤ x.endTime ∧
      (∀ p ∈ stored, AreNeighbours slots p x → p.AcceptedBehind x) ∧
      ∀ n ∈ stored, AreNeighbours slots x n → x.AcceptedBefore n := by
  have hprevious (i : QueryTree) :
      (∀ p ∈ ((s.getPreviousSegment x.sequenceNumber).bind (·.location)).map (·.ranges i),
        BehindRange (x.ranges i) p) ↔
      ∀ p ∈ stored, AreNeighbours slots p x → BehindRange (x.ranges i) (p.ranges i) := by
    constructor
    · intro hall p hp hneighbours
      refine hall _ (Option.mem_map.mpr ⟨p.location, ?_, rfl⟩)
      exact (h.previous_iff hx).mpr ⟨p, hp, hneighbours, rfl⟩
    · intro hall range hrange
      obtain ⟨l, hl, rfl⟩ := Option.mem_map.mp hrange
      obtain ⟨p, hp, hneighbours, rfl⟩ := (h.previous_iff hx).mp hl
      exact hall p hp hneighbours
  have hnext (i : QueryTree) :
      (∀ n ∈ ((s.getNextSegment x.sequenceNumber).bind (·.location)).map (·.ranges i),
        BeforeRange (x.ranges i) n) ↔
      ∀ n ∈ stored, AreNeighbours slots x n → BeforeRange (x.ranges i) (n.ranges i) := by
    constructor
    · intro hall n hn hneighbours
      refine hall _ (Option.mem_map.mpr ⟨n.location, ?_, rfl⟩)
      exact (h.next_iff hx).mpr ⟨n, hn, hneighbours, rfl⟩
    · intro hall range hrange
      obtain ⟨l, hl, rfl⟩ := Option.mem_map.mp hrange
      obtain ⟨n, hn, hneighbours, rfl⟩ := (h.next_iff hx).mp hl
      exact hall n hn hneighbours
  unfold LocationAccepted
  simp only [rangeAccepted_iff, forall_and]
  change (∀ i, (x.ranges i).Valid → (x.ranges i).start ≤ (x.ranges i).stop) ∧
    (∀ i, ∀ p ∈ ((s.getPreviousSegment x.sequenceNumber).bind (·.location)).map (·.ranges i),
        BehindRange (x.ranges i) p) ∧
    (∀ i, ∀ n ∈ ((s.getNextSegment x.sequenceNumber).bind (·.location)).map (·.ranges i),
        BeforeRange (x.ranges i) n) ↔ _
  rw [ordered_ranges_iff]
  refine and_congr_right fun _ => and_congr ?_ ?_
  · rw [forall_congr' hprevious]
    constructor
    · exact fun hall p hp hneighbours => (behindRange_iff (h.indices p hneighbours.1 x hx
        hneighbours.2.2.1)).mp fun i => hall i p hp hneighbours
    · exact fun hall i p hp hneighbours => (behindRange_iff (h.indices p hneighbours.1 x hx
        hneighbours.2.2.1)).mpr (hall p hp hneighbours) i
  · rw [forall_congr' hnext]
    constructor
    · exact fun hall n hn hneighbours => (beforeRange_iff (h.indices x hx n hneighbours.2.1
        hneighbours.2.2.1)).mp fun i => hall i n hn hneighbours
    · exact fun hall i n hn hneighbours => (beforeRange_iff (h.indices x hx n hneighbours.2.1
        hneighbours.2.2.1)).mpr (hall n hn hneighbours) i

theorem Encodes.addSegment {s' : ServerStream} (h : s.Encodes slots stored) (hx : x ∈ slots)
    (added : s.addSegment x.location = some s') : s'.Encodes slots (stored ++ [x]) := by
  obtain ⟨loc, hloc, -⟩ := h.allocated x hx
  have halloc : s.SegmentIsAllocated x.location.sequenceNumber :=
    ⟨h.numbered.lt_size _ (h.ne_none hx), h.ne_none hx⟩
  have hsegments : s'.segments = Function.update s.segments x.sequenceNumber
      (some { loc with location := some x.location.normalize }) :=
    (addSegment_of_segment added halloc hloc).1
  rw [SubmittedSegment.normalize_location] at hsegments
  have hlast : s'.lastSequenceNumber = s.lastSequenceNumber ∧ s'.size = s.size := by
    unfold ServerStream.addSegment at added
    rw [if_pos (addSegment_spec added).1] at added
    dsimp only at added
    rw [if_pos halloc] at added
    obtain rfl := Option.some.inj added
    exact ⟨rfl, rfl⟩
  refine ⟨?_, fun y hy => ?_, fun n hn => ?_, h.bound, h.distinct, h.indices⟩
  · refine h.numbered.of_update ?_ hlast.2.ge hsegments fun loc' hloc' => ?_
    · rw [hlast.1, hlast.2]
      exact h.numbered.last
    · obtain rfl := Option.some.inj hloc'
      exact ⟨hlast.2 ▸ halloc.1, h.numbered.key _ loc hloc⟩
  · by_cases hyx : y = x
    · subst hyx
      refine ⟨_, by rw [hsegments]; exact Function.update_self _ _ _, fun _ => rfl, fun hnot => ?_⟩
      exact absurd (List.mem_append_right _ List.mem_cons_self) hnot
    · have hne : y.sequenceNumber ≠ x.sequenceNumber := fun heq =>
        hyx (h.eq_of_sequenceNumber hy hx heq)
      obtain ⟨loc', hloc', hstored, hnew⟩ := h.allocated y hy
      have hmem : y ∈ stored ++ [x] ↔ y ∈ stored := by
        rw [List.mem_append, List.mem_singleton, or_iff_left hyx]
      refine ⟨loc', ?_, fun hy' => hstored (hmem.mp hy'), fun hy' => hnew fun hm =>
        hy' (hmem.mpr hm)⟩
      rw [hsegments, Function.update_of_ne hne, hloc']
  · rw [hsegments, Function.update_of_ne fun heq => hn x hx heq.symm]
    exact h.others n hn

inductive SegmentEvent
  | append (x : SubmittedSegment) (session : SessionId) (buffer : SegmentId)
  | encoded (x : SubmittedSegment)

def runEvents (s : ServerStream) : List SegmentEvent → Option ServerStream
  | [] => some s
  | .append x session buffer :: events =>
    runEvents (s.addSegmentLocation (.allocated x.sequenceNumber session buffer)) events
  | .encoded x :: events => (s.addSegment x.location).bind fun s => runEvents s events

def appends : List SegmentEvent → List SubmittedSegment
  | [] => []
  | .append x _ _ :: events => x :: appends events
  | .encoded _ :: events => appends events

def encodings : List SegmentEvent → List SubmittedSegment
  | [] => []
  | .append _ _ _ :: events => encodings events
  | .encoded x :: events => x :: encodings events

def Orderly : List SubmittedSegment → List SegmentEvent → Prop
  | _, [] => True
  | slots, .append x _ _ :: events =>
    ((∀ y ∈ slots, y.sequenceNumber < x.sequenceNumber ∧
        y.startIndex + y.entryCount ≤ x.startIndex) ∧
      x.sequenceNumber < invalidStreamSegmentId) ∧ Orderly (slots ++ [x]) events
  | slots, .encoded x :: events => x ∈ slots ∧ Orderly slots events

def AcceptsAll (s : ServerStream) (events : List SegmentEvent) : Prop :=
  ∃ s', s.runEvents events = some s' ∧ ∀ x ∈ encodings events, s'.HasLocation x.location

def Fits (slots stored : List SubmittedSegment) (x : SubmittedSegment) : Prop :=
  x.startTime ≤ x.endTime ∧ (∀ p ∈ stored, AreNeighbours slots p x → p.AcceptedBehind x) ∧
    ∀ n ∈ stored, AreNeighbours slots x n → x.AcceptedBefore n

variable {events : List SegmentEvent}

theorem Orderly.lt (h : Orderly slots events) (hx : x ∈ slots) (hy : y ∈ appends events) :
    x.sequenceNumber < y.sequenceNumber := by
  induction events generalizing slots with
  | nil => cases hy
  | cons e events ih =>
    cases e with
    | append z session buffer =>
      rcases List.mem_cons.mp hy with rfl | hy
      · exact (h.1.1 x hx).1
      · exact ih h.2 (List.mem_append_left _ hx) hy
    | encoded z => exact ih h.2 hx hy

theorem Orderly.mem (h : Orderly slots events) (hx : x ∈ encodings events) :
    x ∈ slots ++ appends events := by
  induction events generalizing slots with
  | nil => cases hx
  | cons e events ih =>
    cases e with
    | append z session buffer =>
      have hmem := ih h.2 hx
      rwa [List.append_assoc] at hmem
    | encoded z =>
      rcases List.mem_cons.mp hx with rfl | hx
      · exact List.mem_append_left _ h.1
      · exact ih h.2 hx

theorem Orderly.areNeighbours_iff (h : Orderly slots events) (hx : x ∈ slots) (hy : y ∈ slots) :
    AreNeighbours (slots ++ appends events) x y ↔ AreNeighbours slots x y := by
  constructor
  · rintro ⟨-, -, hlt, hbetween⟩
    exact ⟨hx, hy, hlt, fun z hz => hbetween z (List.mem_append_left _ hz)⟩
  · rintro ⟨-, -, hlt, hbetween⟩
    refine ⟨List.mem_append_left _ hx, List.mem_append_left _ hy, hlt, fun z hz => ?_⟩
    rcases List.mem_append.mp hz with hz | hz
    · exact hbetween z hz
    · exact .inr (h.lt hy hz).le

theorem Orderly.fits_iff (h : Orderly slots events) (sub : ∀ y ∈ stored, y ∈ slots)
    (hx : x ∈ slots) : Fits (slots ++ appends events) stored x ↔ Fits slots stored x := by
  refine and_congr_right fun _ => and_congr ?_ ?_
  · exact forall₂_congr fun p hp => by rw [h.areNeighbours_iff (sub p hp) hx]
  · exact forall₂_congr fun n hn => by rw [h.areNeighbours_iff hx (sub n hn)]

theorem Encodes.addSegmentLocation (h : s.Encodes slots stored) (sub : ∀ y ∈ stored, y ∈ slots)
    (behind : ∀ y ∈ slots, y.sequenceNumber < x.sequenceNumber ∧
      y.startIndex + y.entryCount ≤ x.startIndex)
    (bound : x.sequenceNumber < invalidStreamSegmentId) (session : SessionId)
    (buffer : SegmentId) :
    (s.addSegmentLocation (.allocated x.sequenceNumber session buffer)).Encodes
      (slots ++ [x]) stored := by
  have hnew : x ∉ stored := fun hx => (behind x (sub x hx)).1.false
  refine ⟨h.numbered.addSegmentLocation _, fun y hy => ?_, fun n hn => ?_, fun y hy => ?_, ?_,
    fun y hy z hz hlt => ?_⟩
  · rcases List.mem_append.mp hy with hy | hy
    · obtain ⟨loc, hloc, hlocation⟩ := h.allocated y hy
      exact ⟨loc, (Function.update_of_ne (behind y hy).1.ne _ _).trans hloc, hlocation⟩
    · obtain rfl := List.mem_singleton.mp hy
      exact ⟨_, Function.update_self _ _ _, fun hstored => (hnew hstored).elim, fun _ => rfl⟩
  · have hne : n ≠ x.sequenceNumber := (hn x (by simp)).symm
    exact (Function.update_of_ne hne _ _).trans
      (h.others n fun y hy => hn y (List.mem_append_left _ hy))
  · rcases List.mem_append.mp hy with hy | hy
    · exact h.bound y hy
    · exact List.mem_singleton.mp hy ▸ bound
  · rw [List.map_append, List.nodup_append]
    refine ⟨h.distinct, List.nodup_singleton _, fun n hn m hm => ?_⟩
    obtain ⟨y, hy, rfl⟩ := List.mem_map.mp hn
    rw [List.mem_singleton.mp hm]
    exact (behind y hy).1.ne
  · rcases List.mem_append.mp hy with hy | hy <;> rcases List.mem_append.mp hz with hz | hz
    · exact h.indices y hy z hz hlt
    · exact List.mem_singleton.mp hz ▸ (behind y hy).2
    · rw [List.mem_singleton.mp hy] at hlt
      exact absurd (behind z hz).1 hlt.not_gt
    · rw [List.mem_singleton.mp hy, List.mem_singleton.mp hz] at hlt
      exact hlt.false.elim

theorem Encodes.runEvents {s' : ServerStream} (h : s.Encodes slots stored)
    (sub : ∀ y ∈ stored, y ∈ slots) (orderly : Orderly slots events)
    (run : s.runEvents events = some s') :
    s'.Encodes (slots ++ appends events) (stored ++ encodings events) := by
  induction events generalizing s slots stored with
  | nil =>
    obtain rfl := Option.some.inj run
    rwa [appends, encodings, List.append_nil, List.append_nil]
  | cons e events ih =>
    cases e with
    | append x session buffer =>
      have hencodes := ih (h.addSegmentLocation sub orderly.1.1 orderly.1.2 session buffer)
        (fun y hy => List.mem_append_left _ (sub y hy)) orderly.2 run
      rwa [List.append_assoc] at hencodes
    | encoded x =>
      obtain ⟨s'', hadd, hrest⟩ := Option.bind_eq_some_iff.mp run
      have hencodes := ih (h.addSegment orderly.1 hadd) (fun y hy => by
        rcases List.mem_append.mp hy with hy | hy
        · exact sub y hy
        · exact List.mem_singleton.mp hy ▸ orderly.1) orderly.2 hrest
      rwa [List.append_assoc] at hencodes

/-- The segments are accepted one after the other. -/
theorem Encodes.runEvents_isSome_iff (h : s.Encodes slots stored)
    (sub : ∀ y ∈ stored, y ∈ slots) (orderly : Orderly slots events) :
    (s.runEvents events).isSome ↔ ∀ before x after, encodings events = before ++ x :: after →
      Fits (slots ++ appends events) (stored ++ before) x := by
  induction events generalizing s slots stored with
  | nil =>
    refine iff_of_true rfl fun before x after heq => ?_
    simp [encodings] at heq
  | cons e events ih =>
    cases e with
    | append x session buffer =>
      have hnext := ih (h.addSegmentLocation sub orderly.1.1 orderly.1.2 session buffer)
        (fun y hy => List.mem_append_left _ (sub y hy)) orderly.2
      rwa [List.append_assoc] at hnext
    | encoded y =>
      have hfits : s.LocationAccepted y.location ↔ Fits (slots ++ appends events) stored y :=
        (h.locationAccepted_iff orderly.1).trans (orderly.2.fits_iff sub orderly.1).symm
      have hsub : ∀ z ∈ stored ++ [y], z ∈ slots := fun z hz => by
        rcases List.mem_append.mp hz with hz | hz
        · exact sub z hz
        · exact List.mem_singleton.mp hz ▸ orderly.1
      rw [ServerStream.runEvents, Option.isSome_iff_exists]
      constructor
      · rintro ⟨s', hs'⟩ before x after heq
        obtain ⟨s'', hadd, hrest⟩ := Option.bind_eq_some_iff.mp hs'
        rcases before with _ | ⟨b, before⟩
        · obtain ⟨rfl, -⟩ := List.cons.inj heq
          rw [List.append_nil]
          exact hfits.mp (addSegment_spec hadd).1
        · obtain ⟨rfl, heq'⟩ := List.cons.inj heq
          have hall := (ih (h.addSegment orderly.1 hadd) hsub orderly.2).mp
            (Option.isSome_iff_exists.mpr ⟨s', hrest⟩) before x after heq'
          rwa [List.append_assoc] at hall
      · intro hall
        have hfirst := hall [] y (encodings events) rfl
        rw [List.append_nil] at hfirst
        obtain ⟨s'', hadd⟩ := exists_addSegment (hfits.mpr hfirst)
        have hrest := (ih (h.addSegment orderly.1 hadd) hsub orderly.2).mpr
          fun before x after heq => by
            rw [List.append_assoc]
            exact hall (y :: before) x after (by rw [encodings, heq]; rfl)
        obtain ⟨s', hs'⟩ := Option.isSome_iff_exists.mp hrest
        exact ⟨s', Option.bind_eq_some_iff.mpr ⟨s'', hadd, hs'⟩⟩

theorem Encodes.hasLocation (h : s.Encodes slots stored) (hx : x ∈ slots) (hstored : x ∈ stored) :
    s.HasLocation x.location := by
  obtain ⟨loc, hloc, hlocation, -⟩ := h.allocated x hx
  exact ⟨loc, hloc, hlocation hstored⟩

def EndsBefore (stored order : List SubmittedSegment) (x y : SubmittedSegment) : Prop :=
  ∃ before after, order = before ++ y :: after ∧ x ∈ stored ++ before

/-- All segments are accepted if and only if none of them ends before it starts, and each two
neighbours fit, in the order in which their encodings end. -/
theorem Encodes.acceptsAll_iff (h : s.Encodes slots stored) (sub : ∀ y ∈ stored, y ∈ slots)
    (orderly : Orderly slots events) :
    s.AcceptsAll events ↔ (∀ x ∈ encodings events, x.startTime ≤ x.endTime) ∧
      ∀ x y, AreNeighbours (slots ++ appends events) x y →
        (EndsBefore stored (encodings events) x y → x.AcceptedBehind y) ∧
        (EndsBefore stored (encodings events) y x → x.AcceptedBefore y) := by
  have haccepts : s.AcceptsAll events ↔ (s.runEvents events).isSome := by
    rw [Option.isSome_iff_exists]
    refine exists_congr fun s' => and_iff_left_of_imp fun hrun x hx => ?_
    exact (h.runEvents sub orderly hrun).hasLocation (orderly.mem hx)
      (List.mem_append_right _ hx)
  rw [haccepts, h.runEvents_isSome_iff sub orderly]
  constructor
  · intro hall
    refine ⟨fun x hx => ?_, fun x y hneighbours => ⟨?_, ?_⟩⟩
    · obtain ⟨before, after, heq⟩ := List.append_of_mem hx
      exact (hall before x after heq).1
    · rintro ⟨before, after, heq, hx⟩
      exact (hall before y after heq).2.1 x hx hneighbours
    · rintro ⟨before, after, heq, hy⟩
      exact (hall before x after heq).2.2 y hy hneighbours
  · rintro ⟨htimes, hneighbours⟩ before x after heq
    refine ⟨htimes x (heq ▸ by simp), fun p hp hneighbour => ?_, fun n hn hneighbour => ?_⟩
    · exact (hneighbours p x hneighbour).1 ⟨before, after, heq, hp⟩
    · exact (hneighbours x n hneighbour).2 ⟨before, after, heq, hn⟩

end ServerStream

end Simutrace
