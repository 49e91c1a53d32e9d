import Simutrace.Client.Handle
import Simutrace.Library.Enumeration
import Mathlib.Data.List.TakeWhile

/-! # Sequential reads

A handle that moves from one segment to the next skips the holes between them.
It returns the entries of all segments in the order of their numbers, or in the
reverse order if it starts at the last entry and moves backwards.
-/

namespace Simutrace

open Enumeration

section Neighbours

variable {p : ℕ → Bool} {a k n m : ℕ}

theorem filter_range'_eq_cons (ham : a ≤ m) (hm : m < a + k) (hp : p m = true)
    (hfirst : ∀ j, a ≤ j → j < m → p j = false) :
    (List.range' a k).filter p = m :: (List.range' (m + 1) (a + k - (m + 1))).filter p := by
  induction k generalizing a with
  | zero => omega
  | succ k ih =>
    rw [List.range'_succ]
    rcases ham.eq_or_lt with rfl | hlt
    · rw [List.filter_cons_of_pos hp]
      congr 3
      omega
    · rw [List.filter_cons_of_neg (by rw [hfirst a le_rfl hlt]; decide),
        ih hlt (by omega) fun j hj => hfirst j (Nat.le_of_succ_le hj)]
      congr 3
      omega

theorem filter_range_eq_append (hm : m < n) (hp : p m = true)
    (hlast : ∀ j, m < j → j < n → p j = false) :
    (List.range n).filter p = (List.range m).filter p ++ [m] := by
  induction n with
  | zero => omega
  | succ n ih =>
    rw [List.range_succ, List.filter_append]
    rcases (Nat.le_of_lt_succ hm).eq_or_lt with rfl | hlt
    · rw [List.filter_cons_of_pos hp, List.filter_nil]
    · rw [ih hlt fun j hj hjn => hlast j hj (Nat.lt_succ_of_lt hjn),
        List.filter_cons_of_neg (by rw [hlast n hlt (Nat.lt_succ_self n)]; decide),
        List.filter_nil, List.append_nil]

theorem exists_filter_range'_eq_cons (p : ℕ → Bool) (a k : ℕ) :
    (List.range' a k).filter p = [] ∨
      ∃ m, (List.range' a k).filter p = m :: (List.range' (m + 1) (a + k - (m + 1))).filter p := by
  induction k generalizing a with
  | zero => exact .inl rfl
  | succ k ih =>
    rw [List.range'_succ]
    cases hp : p a with
    | true =>
      refine .inr ⟨a, ?_⟩
      rw [List.filter_cons_of_pos hp]
      congr 3
      omega
    | false =>
      have hstop : a + (k + 1) = a + 1 + k := by omega
      rw [List.filter_cons_of_neg (by rw [hp]; decide), hstop]
      exact ih (a + 1)

theorem exists_filter_range_eq_append (p : ℕ → Bool) (n : ℕ) :
    (List.range n).filter p = [] ∨
      ∃ m, (List.range n).filter p = (List.range m).filter p ++ [m] := by
  induction n with
  | zero => exact .inl rfl
  | succ n ih =>
    rw [List.range_succ, List.filter_append]
    cases hp : p n with
    | true => exact .inr ⟨n, by rw [List.filter_cons_of_pos hp, List.filter_nil]⟩
    | false =>
      rw [List.filter_cons_of_neg (by rw [hp]; decide), List.filter_nil, List.append_nil]
      exact ih

end Neighbours

/-- A stream that is not written any more. Its slots have locations, all with entries, or are
holes. -/
structure ClosedStream where
  size : ℕ
  locations : StreamSegmentId → Option StorageLocation
  size_le : size ≤ invalidStreamSegmentId
  pos : ∀ n, ∀ location ∈ locations n, 0 < location.rawEntryCount

namespace ClosedStream

variable (c : ClosedStream)

/-- The state of a stream has the locations. Its buffers and references are arbitrary. -/
structure Shows (s : ServerStream) : Prop where
  slots : s.Slots
  size : s.size = c.size
  segments : ∀ n, (s.segments n).map (·.location) = (c.locations n).map some

def isLocated (n : StreamSegmentId) : Bool := (c.locations n).isSome

def numbers : List StreamSegmentId := (List.range' 0 c.size).filter c.isLocated

def rawEntryCount (n : StreamSegmentId) : ℕ := ((c.locations n).map (·.rawEntryCount)).getD 0

def entries (entrySize : ℕ) (n : StreamSegmentId) : List (StreamSegmentId × ℤ) :=
  (List.range (c.rawEntryCount n)).map fun i => (n, ((i * entrySize : ℕ) : ℤ))

def AtFirst (handle : StreamHandle) : Prop :=
  c.numbers.head? = some handle.sequenceNumber ∧ handle.entry = 0

def AtLast (entrySize : ℕ) (handle : StreamHandle) : Prop :=
  c.numbers.getLast? = some handle.sequenceNumber ∧
    handle.entry = ((c.rawEntryCount handle.sequenceNumber - 1) * entrySize : ℕ)

/-- The numbers behind and before a number. -/
def above (n : StreamSegmentId) : List StreamSegmentId :=
  (List.range' (n + 1) (c.size - (n + 1))).filter c.isLocated

def below (n : StreamSegmentId) : List StreamSegmentId :=
  ((List.range n).filter c.isLocated).reverse

variable {c} {s : ServerStream} {n m : StreamSegmentId} {location : StorageLocation}

theorem Shows.segment (h : c.Shows s) (hl : c.locations n = some location) :
    ∃ loc, s.segments n = some loc ∧ loc.location = some location ∧ n < s.size := by
  have hseg := h.segments n
  rw [hl] at hseg
  obtain ⟨loc, hloc, hlocation⟩ := Option.map_eq_some_iff.mp hseg
  refine ⟨loc, hloc, hlocation, h.slots.lt_size n ?_⟩
  rw [hloc]
  exact Option.some_ne_none loc

theorem Shows.located (h : c.Shows s) {loc : SegmentLocation} (hloc : s.segments n = some loc) :
    ∃ location, c.locations n = some location ∧ loc.location = some location := by
  have hseg := h.segments n
  rw [hloc] at hseg
  obtain ⟨location, hl, hlocation⟩ := Option.map_eq_some_iff.mp hseg.symm
  exact ⟨location, hl, hlocation.symm⟩

theorem Shows.isLocated_iff (h : c.Shows s) : c.isLocated n = false ↔ s.segments n = none := by
  have hseg := h.segments n
  unfold isLocated
  rw [Option.isSome_eq_false_iff, Option.isNone_iff_eq_none]
  constructor
  · intro hnone
    rw [hnone] at hseg
    exact Option.map_eq_none_iff.mp hseg
  · intro hnone
    rw [hnone] at hseg
    exact Option.map_eq_none_iff.mp hseg.symm

theorem rawEntryCount_of_location (hl : c.locations n = some location) :
    c.rawEntryCount n = location.rawEntryCount := by
  unfold rawEntryCount
  rw [hl]
  rfl

theorem above_eq_cons {n m : ℕ} (hlt : n < m) (hsize : m < c.size) (hm : c.isLocated m = true)
    (hfirst : ∀ j, n < j → j < m → c.isLocated j = false) : c.above n = m :: c.above m := by
  unfold above
  rw [filter_range'_eq_cons hlt (by omega) hm hfirst, Nat.add_sub_cancel' (by omega)]

theorem below_eq_cons {n m : ℕ} (hlt : m < n) (hm : c.isLocated m = true)
    (hlast : ∀ j, m < j → j < n → c.isLocated j = false) : c.below n = m :: c.below m := by
  unfold below
  rw [filter_range_eq_append hlt hm hlast, List.reverse_append, List.reverse_singleton,
    List.singleton_append]

theorem numbers_of_head? (h : c.numbers.head? = some n) : c.numbers = n :: c.above n := by
  rcases exists_filter_range'_eq_cons c.isLocated 0 c.size with hnil | ⟨m, hcons⟩
  · cases h.symm.trans (congrArg List.head? hnil)
  · obtain rfl := Option.some.inj (h.symm.trans (congrArg List.head? hcons))
    rw [Nat.zero_add] at hcons
    exact hcons

theorem numbers_of_getLast? (h : c.numbers.getLast? = some n) :
    c.numbers.reverse = n :: c.below n := by
  unfold numbers at h ⊢
  rw [← List.range_eq_range'] at h ⊢
  rcases exists_filter_range_eq_append c.isLocated c.size with hnil | ⟨m, happend⟩
  · rw [hnil] at h
    cases h
  · rw [happend, List.getLast?_concat] at h
    obtain rfl := Option.some.inj h
    rw [happend, List.reverse_append, List.reverse_singleton, List.singleton_append]
    rfl

theorem reverse_entries (entrySize : ℕ) (n : StreamSegmentId) :
    (c.entries entrySize n).reverse = (List.range (c.rawEntryCount n)).map fun i =>
      (n, (((c.rawEntryCount n - 1 - i) * entrySize : ℕ) : ℤ)) := by
  unfold entries
  rw [← List.map_reverse, List.range_eq_range', List.reverse_range', List.map_map,
    List.range_eq_range', Nat.zero_add]
  rfl

theorem Shows.isLocated_of_segment (h : c.Shows s) {loc : SegmentLocation}
    (hloc : s.segments n = some loc) : c.isLocated n = true ∧ n < c.size := by
  constructor
  · obtain ⟨location, hl, -⟩ := h.located hloc
    unfold isLocated
    rw [hl]
    rfl
  · rw [← h.size]
    refine h.slots.lt_size n ?_
    rw [hloc]
    exact Option.some_ne_none loc

theorem Shows.next_none (h : c.Shows s) (hn : n < invalidStreamSegmentId)
    (hnext : s.getNextSegment n = none) : c.above n = [] := by
  have hisNext := h.slots.isNext hn
  rw [hnext] at hisNext
  refine List.filter_eq_nil_iff.mpr fun m hm => ?_
  rw [h.isLocated_iff.mpr (hisNext m (List.mem_range'_1.mp hm).1)]
  decide

theorem Shows.next_some (h : c.Shows s) (hn : n < invalidStreamSegmentId) {loc : SegmentLocation}
    (hnext : s.getNextSegment n = some loc) :
    c.above n = loc.sequenceNumber :: c.above loc.sequenceNumber ∧
      s.segments loc.sequenceNumber = some loc := by
  have hisNext := h.slots.isNext hn
  rw [hnext] at hisNext
  obtain ⟨hlt, hloc, hfirst⟩ := hisNext
  obtain ⟨hlocated, hsize⟩ := h.isLocated_of_segment hloc
  exact ⟨above_eq_cons hlt hsize hlocated fun j hj hjm => h.isLocated_iff.mpr (hfirst j hj hjm),
    hloc⟩

theorem Shows.previous_none (h : c.Shows s) (hn : n < c.size)
    (hprevious : s.getPreviousSegment n = none) : c.below n = [] := by
  have hisPrevious := (h.slots.isPrevious_iff n).mpr fun hle => absurd (h.size ▸ hle) hn.not_ge
  rw [hprevious] at hisPrevious
  unfold below
  rw [List.reverse_eq_nil_iff]
  refine List.filter_eq_nil_iff.mpr fun m hm => ?_
  rw [h.isLocated_iff.mpr (hisPrevious m (List.mem_range.mp hm))]
  decide

theorem Shows.previous_some (h : c.Shows s) (hn : n < c.size) {loc : SegmentLocation}
    (hprevious : s.getPreviousSegment n = some loc) :
    c.below n = loc.sequenceNumber :: c.below loc.sequenceNumber ∧
      s.segments loc.sequenceNumber = some loc := by
  have hisPrevious := (h.slots.isPrevious_iff n).mpr fun hle => absurd (h.size ▸ hle) hn.not_ge
  rw [hprevious] at hisPrevious
  obtain ⟨hlt, hloc, hlast⟩ := hisPrevious
  exact ⟨below_eq_cons hlt (h.isLocated_of_segment hloc).1 fun j hj hjn =>
    h.isLocated_iff.mpr (hlast j hj hjn), hloc⟩

end ClosedStream

namespace StreamReads

variable {r : StreamReads} {c : ClosedStream} {call n m : ℕ} {flags : StreamAccessFlags}
  {query : StreamOpenQuery} {handle : StreamHandle} {location : StorageLocation}

theorem mod_of_valid (hn : n < invalidStreamSegmentId) : n % 2 ^ 32 = n :=
  Nat.mod_eq_of_lt (hn.trans_le (Nat.sub_le _ 1))

theorem findOpenSequenceNumber_sequenceNumber {s : ServerStream}
    (hn : n < invalidStreamSegmentId) :
    s.findOpenSequenceNumber .qSequenceNumber n = some n := by
  rw [ServerStream.findOpenSequenceNumber, mod_of_valid hn]

theorem findOpenSequenceNumber_next {s : ServerStream} (hn : n < invalidStreamSegmentId) :
    s.findOpenSequenceNumber .qNextValidSequenceNumber n =
      (s.getNextSegment n).map (·.sequenceNumber) := by
  rw [ServerStream.findOpenSequenceNumber, mod_of_valid hn]

theorem findOpenSequenceNumber_previous {s : ServerStream} (hn : n < invalidStreamSegmentId) :
    s.findOpenSequenceNumber .qPreviousValidSequenceNumber n =
      (s.getPreviousSegment n).map (·.sequenceNumber) := by
  rw [ServerStream.findOpenSequenceNumber, mod_of_valid hn]

theorem openQuery_of_segment {s : ServerStream} {stype : StreamType}
    {cycleCounts : StreamSegmentId → List ℕ} {value offset : ℕ} {loc : SegmentLocation}
    (hvalue : s.adjustOpenQuery query = some value)
    (hnumber : s.findOpenSequenceNumber query.type value = some n)
    (hloc : s.segments n = some loc) (hlocation : loc.location = some location) (hn : n < s.size)
    (hoffset : ServerStream.findOpenOffset stype location (cycleCounts n) query.type value
      query.flags.reverseRead = .ok offset) :
    s.openQuery stype cycleCounts query = .ok (n, location, offset) := by
  unfold ServerStream.openQuery
  rw [hvalue]
  dsimp only
  rw [hnumber]
  dsimp only
  rw [if_neg hn.not_ge, hloc]
  dsimp only
  rw [hlocation]
  dsimp only
  rw [hoffset]
  rfl

theorem closeAndOpen_of_segment (h : c.Shows (r.view call)) {value offset : ℕ}
    (hvalue : (r.view call).adjustOpenQuery query = some value)
    (hnumber : (r.view call).findOpenSequenceNumber query.type value = some n)
    (hl : c.locations n = some location)
    (hoffset : ServerStream.findOpenOffset r.stype location (r.cycleCounts n) query.type value
      query.flags.reverseRead = .ok offset) :
    r.closeAndOpen call query = if r.loads n then some (n, location, offset) else none := by
  obtain ⟨loc, hloc, hlocation, hn⟩ := h.segment hl
  unfold closeAndOpen
  rw [openQuery_of_segment hvalue hnumber hloc hlocation hn hoffset]

theorem closeAndOpen_eq_none {value : ℕ}
    (hvalue : (r.view call).adjustOpenQuery query = some value)
    (hnumber : (r.view call).findOpenSequenceNumber query.type value = none) :
    r.closeAndOpen call query = none := by
  unfold closeAndOpen ServerStream.openQuery
  rw [hvalue]
  dsimp only
  rw [hnumber]

theorem closeAndOpen_next (h : c.Shows (r.view call)) (hn : n < c.size)
    (flags : StreamAccessFlags) :
    (c.above n = [] ∧ r.closeAndOpen call ⟨.qNextValidSequenceNumber, n, flags⟩ = none) ∨
      ∃ m location, c.above n = m :: c.above m ∧ c.locations m = some location ∧
        r.closeAndOpen call ⟨.qNextValidSequenceNumber, n, flags⟩ =
          if r.loads m then some (m, location, 0) else none := by
  have hvalid := hn.trans_le c.size_le
  have hnumber := findOpenSequenceNumber_next (s := r.view call) hvalid
  cases hnext : (r.view call).getNextSegment n with
  | none =>
    rw [hnext] at hnumber
    exact .inl ⟨h.next_none hvalid hnext, closeAndOpen_eq_none rfl hnumber⟩
  | some loc =>
    obtain ⟨habove, hloc⟩ := h.next_some hvalid hnext
    obtain ⟨location, hl, -⟩ := h.located hloc
    rw [hnext] at hnumber
    exact .inr ⟨_, location, habove, hl, closeAndOpen_of_segment h rfl hnumber hl rfl⟩

theorem closeAndOpen_previous (h : c.Shows (r.view call)) (hn : n < c.size)
    (flags : StreamAccessFlags) :
    (c.below n = [] ∧ r.closeAndOpen call ⟨.qPreviousValidSequenceNumber, n, flags⟩ = none) ∨
      ∃ m location, c.below n = m :: c.below m ∧ c.locations m = some location ∧
        r.closeAndOpen call ⟨.qPreviousValidSequenceNumber, n, flags⟩ =
          if r.loads m then
            some (m, location, location.rawEntryCount * r.stype.entrySize - r.stype.entrySize)
          else none := by
  have hnumber := findOpenSequenceNumber_previous (s := r.view call) (hn.trans_le c.size_le)
  cases hprevious : (r.view call).getPreviousSegment n with
  | none =>
    rw [hprevious] at hnumber
    exact .inl ⟨h.previous_none hn hprevious, closeAndOpen_eq_none rfl hnumber⟩
  | some loc =>
    obtain ⟨hbelow, hloc⟩ := h.previous_some hn hprevious
    obtain ⟨location, hl, -⟩ := h.located hloc
    rw [hprevious] at hnumber
    exact .inr ⟨_, location, hbelow, hl, closeAndOpen_of_segment h rfl hnumber hl rfl⟩

def handleAt (r : StreamReads) (c : ClosedStream) (flags : StreamAccessFlags) (n : ℕ) (i : ℤ) :
    StreamHandle :=
  ⟨flags, n, true, i * r.stype.entrySize, c.rawEntryCount n * r.stype.entrySize⟩

theorem initializeStaticHandle_eq {i offset : ℕ} (hl : c.locations n = some location)
    (hoffset : offset = i * r.stype.entrySize) :
    r.initializeStaticHandle flags (n, location, offset) = r.handleAt c flags n i := by
  unfold initializeStaticHandle handleAt
  rw [ClosedStream.rawEntryCount_of_location hl, hoffset]
  push_cast
  rfl

theorem returnEntry_next {i : ℕ} : returnEntry call (r.handleAt c flags n i) r.stype.entrySize =
    ((call + 1, r.handleAt c flags n (i + 1 : ℕ)),
      some (n, ((i * r.stype.entrySize : ℕ) : ℤ))) := by
  unfold returnEntry handleAt
  rw [if_pos rfl]
  push_cast
  rw [add_mul, one_mul]

theorem returnEntry_previous {i : ℕ} :
    returnEntry call (r.handleAt c flags n i) (-r.stype.entrySize) =
      ((call + 1, r.handleAt c flags n (i - 1)), some (n, ((i * r.stype.entrySize : ℕ) : ℤ))) := by
  unfold returnEntry handleAt
  rw [if_pos rfl]
  push_cast
  rw [sub_mul, one_mul, sub_eq_add_neg]

theorem getNextEntryFast_inside {i : ℕ} (hi : i < c.rawEntryCount n) :
    r.getNextEntryFast (call, r.handleAt c flags n i) =
      returnEntry call (r.handleAt c flags n i) r.stype.entrySize := by
  have hle : (i + 1) * r.stype.entrySize ≤ c.rawEntryCount n * r.stype.entrySize :=
    Nat.mul_le_mul_right _ hi
  rw [add_mul, one_mul] at hle
  unfold getNextEntryFast
  refine if_neg ?_
  unfold handleAt
  dsimp only
  rw [gt_iff_lt, not_lt]
  exact_mod_cast hle

theorem getNextEntryFast_end : r.getNextEntryFast (call, r.handleAt c flags n (c.rawEntryCount n)) =
    returnEntry call (r.reopen call ⟨.qNextValidSequenceNumber, n,
      { flags with reverseRead := false }⟩ (r.handleAt c flags n (c.rawEntryCount n)))
        r.stype.entrySize := by
  have hpos := r.stype.pos
  unfold getNextEntryFast
  exact if_pos (by unfold handleAt; dsimp only; omega)

theorem getPreviousEntryFast_inside {i : ℕ} :
    r.getPreviousEntryFast (call, r.handleAt c flags n i) =
      returnEntry call (r.handleAt c flags n i) (-r.stype.entrySize) := by
  unfold getPreviousEntryFast
  refine if_neg ?_
  unfold handleAt
  dsimp only
  rw [not_lt]
  exact_mod_cast Nat.zero_le (i * r.stype.entrySize)

theorem getPreviousEntryFast_end : r.getPreviousEntryFast (call, r.handleAt c flags n (-1)) =
    returnEntry call (r.reopen call ⟨.qPreviousValidSequenceNumber, n,
      { flags with reverseRead := true }⟩ (r.handleAt c flags n (-1))) (-r.stype.entrySize) := by
  have hpos := r.stype.pos
  unfold getPreviousEntryFast
  exact if_pos (by unfold handleAt; dsimp only; omega)

theorem returnEntry_of_none (hnone : r.closeAndOpen call query = none) (move : ℤ) :
    ∃ handle', returnEntry call (r.reopen call query handle) move =
      ((call + 1, handle'), none) := by
  unfold reopen
  rw [hnone]
  exact ⟨_, rfl⟩

theorem reopen_of_some {i offset : ℕ} (hl : c.locations n = some location)
    (hoffset : offset = i * r.stype.entrySize)
    (hsome : r.closeAndOpen call query = some (n, location, offset)) :
    r.reopen call query handle = r.handleAt c query.flags n i := by
  unfold reopen
  rw [hsome]
  exact initializeStaticHandle_eq hl hoffset

theorem rawEntryCount_pos (hl : c.locations n = some location) : 0 < c.rawEntryCount n := by
  rw [ClosedStream.rawEntryCount_of_location hl]
  exact c.pos n location hl

theorem lt_size_of_location (h : c.Shows (r.view call)) (hl : c.locations n = some location) :
    n < c.size := by
  obtain ⟨loc, -, -, hn⟩ := h.segment hl
  exact h.size ▸ hn

/-- The entries of a segment and of those behind it, up to one that cannot be loaded. -/
theorem yields_next (h : ∀ call, c.Shows (r.view call)) (hl : c.locations n = some location)
    (call : ℕ) (flags : StreamAccessFlags) :
    Yields r.getNextEntryFast (call, r.handleAt c flags n (0 : ℕ))
      (c.entries r.stype.entrySize n ++
        ((c.above n).takeWhile r.loads).flatMap (c.entries r.stype.entrySize)) := by
  obtain ⟨k, hk⟩ : ∃ k, (c.above n).length = k := ⟨_, rfl⟩
  induction k using Nat.strong_induction_on generalizing n location call flags with
  | h k ih =>
    refine Yields.block (fun i => (call + i, r.handleAt c flags n i)) _
      (fun i hi => (getNextEntryFast_inside hi).trans returnEntry_next) ?_
    rcases closeAndOpen_next (h (call + c.rawEntryCount n)) (lt_size_of_location (h 0) hl)
      { flags with reverseRead := false } with ⟨hnil, hnone⟩ | ⟨m, location', hcons, hm, hsome⟩
    · rw [hnil]
      obtain ⟨handle', hreturn⟩ := returnEntry_of_none hnone r.stype.entrySize
      exact .nil (getNextEntryFast_end.trans hreturn)
    · rw [hcons, List.takeWhile_cons]
      by_cases hloads : r.loads m = true
      · rw [if_pos hloads] at hsome
        rw [if_pos hloads, List.flatMap_cons]
        refine Yields.congr ?_ (ih _ ?_ hm (call + c.rawEntryCount n)
          { flags with reverseRead := false } rfl)
        · rw [getNextEntryFast_inside (rawEntryCount_pos hm), getNextEntryFast_end,
            reopen_of_some hm (Nat.zero_mul _).symm hsome]
        · rw [← hk, hcons]
          exact Nat.lt_succ_self _
      · rw [if_neg hloads] at hsome ⊢
        obtain ⟨handle', hreturn⟩ := returnEntry_of_none hsome r.stype.entrySize
        exact .nil (getNextEntryFast_end.trans hreturn)

theorem getPreviousEntryFast_block {i : ℕ} (hi : i < c.rawEntryCount n) :
    r.getPreviousEntryFast (call + i, r.handleAt c flags n ((c.rawEntryCount n : ℤ) - 1 - i)) =
      ((call + (i + 1), r.handleAt c flags n ((c.rawEntryCount n : ℤ) - 1 - (i + 1 : ℕ))),
        some (n, (((c.rawEntryCount n - 1 - i) * r.stype.entrySize : ℕ) : ℤ))) := by
  have hentry : (c.rawEntryCount n : ℤ) - 1 - i = (c.rawEntryCount n - 1 - i : ℕ) := by omega
  have hmoved : (c.rawEntryCount n : ℤ) - 1 - (i + 1 : ℕ) =
      (c.rawEntryCount n - 1 - i : ℕ) - 1 := by omega
  rw [hentry, hmoved, getPreviousEntryFast_inside, returnEntry_previous, Nat.add_assoc]

/-- The entries of a segment and of those before it, up to one that cannot be loaded. -/
theorem yields_previous (h : ∀ call, c.Shows (r.view call)) (hl : c.locations n = some location)
    (call : ℕ) (flags : StreamAccessFlags) :
    Yields r.getPreviousEntryFast (call, r.handleAt c flags n (c.rawEntryCount n - 1 : ℕ))
      ((c.entries r.stype.entrySize n).reverse ++
        ((c.below n).takeWhile r.loads).flatMap fun m =>
          (c.entries r.stype.entrySize m).reverse) := by
  obtain ⟨k, hk⟩ : ∃ k, (c.below n).length = k := ⟨_, rfl⟩
  induction k using Nat.strong_induction_on generalizing n location call flags with
  | h k ih =>
    have hpos := rawEntryCount_pos hl
    have hfirst : ((c.rawEntryCount n - 1 : ℕ) : ℤ) = (c.rawEntryCount n : ℤ) - 1 - (0 : ℕ) := by
      omega
    have hbefore : (c.rawEntryCount n : ℤ) - 1 - c.rawEntryCount n = -1 := by omega
    rw [ClosedStream.reverse_entries, hfirst]
    refine Yields.block
      (fun i => (call + i, r.handleAt c flags n ((c.rawEntryCount n : ℤ) - 1 - i))) _
      (fun i hi => getPreviousEntryFast_block hi) ?_
    rw [hbefore]
    rcases closeAndOpen_previous (h (call + c.rawEntryCount n)) (lt_size_of_location (h 0) hl)
      { flags with reverseRead := true } with ⟨hnil, hnone⟩ | ⟨m, location', hcons, hm, hsome⟩
    · rw [hnil]
      obtain ⟨handle', hreturn⟩ := returnEntry_of_none hnone (-r.stype.entrySize)
      exact .nil (getPreviousEntryFast_end.trans hreturn)
    · rw [hcons, List.takeWhile_cons]
      by_cases hloads : r.loads m = true
      · rw [if_pos hloads] at hsome
        rw [if_pos hloads, List.flatMap_cons]
        refine Yields.congr ?_ (ih _ ?_ hm (call + c.rawEntryCount n)
          { flags with reverseRead := true } rfl)
        · rw [getPreviousEntryFast_inside, getPreviousEntryFast_end, reopen_of_some hm ?_ hsome]
          rw [ClosedStream.rawEntryCount_of_location hm, Nat.sub_mul, one_mul]
        · rw [← hk, hcons]
          exact Nat.lt_succ_self _
      · rw [if_neg hloads] at hsome ⊢
        obtain ⟨handle', hreturn⟩ := returnEntry_of_none hsome (-r.stype.entrySize)
        exact .nil (getPreviousEntryFast_end.trans hreturn)

theorem segment_of_openQuery {s : ServerStream} {stype : StreamType}
    {cycleCounts : StreamSegmentId → List ℕ} {offset : ℕ}
    (hopen : s.openQuery stype cycleCounts query = .ok (n, location, offset)) :
    (∃ loc, s.segments n = some loc ∧ loc.location = some location) ∧
      ∃ value, ServerStream.findOpenOffset stype location (cycleCounts n) query.type value
        query.flags.reverseRead = .ok offset := by
  unfold ServerStream.openQuery at hopen
  cases hvalue : s.adjustOpenQuery query with
  | none =>
    rw [hvalue] at hopen
    cases hopen
  | some value =>
    rw [hvalue] at hopen
    dsimp only at hopen
    cases hnumber : s.findOpenSequenceNumber query.type value with
    | none =>
      rw [hnumber] at hopen
      cases hopen
    | some m =>
      rw [hnumber] at hopen
      dsimp only at hopen
      split_ifs at hopen
      cases hloc : s.segments m with
      | none =>
        rw [hloc] at hopen
        cases hopen
      | some loc =>
        rw [hloc] at hopen
        dsimp only at hopen
        cases hl : loc.location with
        | none =>
          rw [hl] at hopen
          cases hopen
        | some location' =>
          rw [hl] at hopen
          dsimp only at hopen
          cases hoffset : ServerStream.findOpenOffset stype location' (cycleCounts m) query.type
              value query.flags.reverseRead with
          | error e =>
            rw [hoffset] at hopen
            cases hopen
          | ok offset' =>
            rw [hoffset] at hopen
            cases hopen
            exact ⟨⟨loc, hloc, hl⟩, value, hoffset⟩

theorem openHandle_eq (h : c.Shows (r.view call)) (hopen : r.openHandle call query = some handle) :
    ∃ location, c.locations handle.sequenceNumber = some location ∧
      r.loads handle.sequenceNumber = true ∧
      handle = ⟨query.flags, handle.sequenceNumber, true, handle.entry,
        c.rawEntryCount handle.sequenceNumber * r.stype.entrySize⟩ := by
  obtain ⟨answer, hanswer, rfl⟩ := Option.map_eq_some_iff.mp hopen
  unfold closeAndOpen at hanswer
  cases hquery : (r.view call).openQuery r.stype r.cycleCounts query with
  | error e =>
    rw [hquery] at hanswer
    cases hanswer
  | ok answer' =>
    obtain ⟨n, location, offset⟩ := answer'
    rw [hquery] at hanswer
    dsimp only at hanswer
    split_ifs at hanswer with hloads
    obtain rfl := Option.some.inj hanswer
    obtain ⟨⟨loc, hloc, hlocation⟩, -⟩ := segment_of_openQuery hquery
    obtain ⟨location', hl, hlocation'⟩ := h.located hloc
    obtain rfl := Option.some.inj (hlocation.symm.trans hlocation')
    refine ⟨location, hl, hloads, ?_⟩
    unfold initializeStaticHandle
    rw [ClosedStream.rawEntryCount_of_location hl]
    push_cast
    rfl

/-- A handle that was opened at the first entry returns the entries of all segments in the order
of their numbers. One that was opened at the last entry returns them in the reverse order. If a
segment cannot be loaded, the reads end before it. -/
theorem reads_enumerate (h : ∀ call, c.Shows (r.view call))
    (hopen : r.openHandle call query = some handle) :
    (c.AtFirst handle →
      Yields r.getNextEntryFast (call + 1, handle)
        ((c.numbers.takeWhile r.loads).flatMap (c.entries r.stype.entrySize)) ∧
      ((∀ n ∈ c.numbers, r.loads n = true) → Yields r.getNextEntryFast (call + 1, handle)
        (c.numbers.flatMap (c.entries r.stype.entrySize)))) ∧
    (c.AtLast r.stype.entrySize handle →
      Yields r.getPreviousEntryFast (call + 1, handle) ((c.numbers.reverse.takeWhile
        r.loads).flatMap fun n => (c.entries r.stype.entrySize n).reverse) ∧
      ((∀ n ∈ c.numbers, r.loads n = true) → Yields r.getPreviousEntryFast (call + 1, handle)
        (c.numbers.flatMap (c.entries r.stype.entrySize)).reverse)) := by
  obtain ⟨location, hl, hloads, hhandle⟩ := openHandle_eq (h call) hopen
  constructor
  · rintro ⟨hfirst, hentry⟩
    have hat : handle = r.handleAt c query.flags handle.sequenceNumber (0 : ℕ) := by
      rw [hhandle, hentry]
      unfold handleAt
      rw [Nat.cast_zero, zero_mul]
    have hyields : Yields r.getNextEntryFast (call + 1, handle)
        ((c.numbers.takeWhile r.loads).flatMap (c.entries r.stype.entrySize)) := by
      rw [ClosedStream.numbers_of_head? hfirst, List.takeWhile_cons, if_pos hloads,
        List.flatMap_cons, hat]
      exact yields_next h hl (call + 1) query.flags
    refine ⟨hyields, fun hall => ?_⟩
    rwa [List.takeWhile_eq_self_iff.mpr hall] at hyields
  · rintro ⟨hlast, hentry⟩
    have hat : handle = r.handleAt c query.flags handle.sequenceNumber
        (c.rawEntryCount handle.sequenceNumber - 1 : ℕ) := by
      rw [hhandle, hentry]
      unfold handleAt
      rw [Nat.cast_mul]
    have hyields : Yields r.getPreviousEntryFast (call + 1, handle) ((c.numbers.reverse.takeWhile
        r.loads).flatMap fun n => (c.entries r.stype.entrySize n).reverse) := by
      rw [ClosedStream.numbers_of_getLast? hlast, List.takeWhile_cons, if_pos hloads,
        List.flatMap_cons, hat]
      exact yields_previous h hl (call + 1) query.flags
    refine ⟨hyields, fun hall => ?_⟩
    rw [List.reverse_flatMap]
    rwa [List.takeWhile_eq_self_iff.mpr fun n hn => hall n (List.mem_reverse.mp hn)] at hyields

theorem openHandle_sequenceNumber (h : c.Shows (r.view call)) (hl : c.locations n = some location)
    (hloads : r.loads n = true) (reverseQuery reverseRead : Bool) :
    r.openHandle call ⟨.qSequenceNumber, n, ⟨reverseQuery, reverseRead⟩⟩ =
      some (r.handleAt c ⟨reverseQuery, reverseRead⟩ n
        (if reverseRead then c.rawEntryCount n - 1 else 0 : ℕ)) := by
  have hn : n < invalidStreamSegmentId := by
    obtain ⟨_, _, _, hsize⟩ := h.segment hl
    exact (h.size ▸ hsize).trans_le c.size_le
  unfold openHandle
  rw [closeAndOpen_of_segment h rfl (findOpenSequenceNumber_sequenceNumber hn) hl rfl,
    if_pos hloads, Option.map_some]
  refine congrArg some (initializeStaticHandle_eq hl ?_)
  cases reverseRead with
  | false => exact (Nat.zero_mul _).symm
  | true =>
    rw [ClosedStream.rawEntryCount_of_location hl]
    exact (Nat.sub_one_mul _ _).symm

def beforeHole : StorageLocation := ⟨0, fun _ => ⟨0, 1⟩, 64, 2⟩

def afterHole : StorageLocation := ⟨2, fun _ => ⟨2, 4⟩, 64, 3⟩

def aroundHole : ClosedStream where
  size := 3
  locations n := if n = 0 then some beforeHole else if n = 2 then some afterHole else none
  size_le := by decide
  pos n location hl := by
    split_ifs at hl
    · cases hl
      decide
    · cases hl
      decide
    · cases hl

def readsAroundHole : StreamReads where
  stype := ⟨24, false, by decide⟩
  view _ := (ServerStream.new.addSegmentLocation (.stored beforeHole)).addSegmentLocation
    (.stored afterHole)
  cycleCounts _ := []
  loads _ := true

theorem shows_aroundHole (call : ℕ) : aroundHole.Shows (readsAroundHole.view call) where
  slots := (ServerStream.Slots.new.addSegmentLocation _).addSegmentLocation _
  size := rfl
  segments n := by
    by_cases hzero : n = 0
    · rw [hzero]
      rfl
    · by_cases htwo : n = 2
      · rw [htwo]
        rfl
      · have hsegment : (readsAroundHole.view call).segments n = none :=
          (Function.update_of_ne htwo _ _).trans (Function.update_of_ne hzero _ _)
        rw [hsegment, aroundHole]
        dsimp only
        rw [if_neg hzero, if_neg htwo]
        rfl

theorem reads_enumerate_aroundHole :
    (∃ handle, readsAroundHole.openHandle 0 ⟨.qSequenceNumber, 0, ⟨false, false⟩⟩ = some handle ∧
      Yields readsAroundHole.getNextEntryFast (1, handle)
        [(0, 0), (0, 24), (2, 0), (2, 24), (2, 48)]) ∧
    ∃ handle, readsAroundHole.openHandle 0 ⟨.qSequenceNumber, 2, ⟨false, true⟩⟩ = some handle ∧
      Yields readsAroundHole.getPreviousEntryFast (1, handle)
        [(2, 48), (2, 24), (2, 0), (0, 24), (0, 0)] := by
  have hfirst : aroundHole.locations 0 = some beforeHole := rfl
  have hlast : aroundHole.locations 2 = some afterHole := rfl
  have hforward := openHandle_sequenceNumber (shows_aroundHole 0) hfirst rfl false false
  have hreverse := openHandle_sequenceNumber (shows_aroundHole 0) hlast rfl false true
  refine ⟨⟨_, hforward, ?_⟩, ⟨_, hreverse, ?_⟩⟩
  · exact ((reads_enumerate shows_aroundHole hforward).1 ⟨rfl, rfl⟩).2 fun _ _ => rfl
  · exact ((reads_enumerate shows_aroundHole hreverse).2 ⟨rfl, rfl⟩).2 fun _ _ => rfl

end StreamReads

end Simutrace
