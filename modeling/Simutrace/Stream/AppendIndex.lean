import Simutrace.Library.RangeTiling
import Simutrace.Stream.Closed
import Simutrace.Stream.Isolation

/-! # The indices of appended entries

A new segment starts with the index behind the entries of the one that was
appended before. The indices of the segments that were handed to the encoder tile
those of the stream, in whatever order their encodings end.
-/

namespace Simutrace

namespace ServerStream

variable {s s' s'' : ServerStream} {n m : StreamSegmentId} {loc : SegmentLocation}
  {submits : StreamSegmentId → SubmitOutcome} {session : SessionId}
  {startIndex entryCount : StreamSegmentId → ℕ} {throws : Bool}

/-- The segments that were handed to the encoder, in order. -/
def closedNumbers (s : ServerStream) : List StreamSegmentId := (List.range s.size).filter s.closed

def closedRanges (s : ServerStream) (startIndex entryCount : StreamSegmentId → ℕ) :
    List (RangeEntry ℕ StreamSegmentId) :=
  s.closedNumbers.map fun n => ⟨startIndex n, startIndex n + entryCount n - 1, n⟩

/-- The indices of stored segments. -/
def locatedRanges (s : ServerStream) : List (RangeEntry ℕ StreamSegmentId) :=
  (List.range s.size).filterMap fun n => ((s.segments n).bind (·.location)).map fun l =>
    ⟨(l.ranges .qIndex).start, (l.ranges .qIndex).stop, n⟩

/-- The segments that were handed to the encoder have entries, and their indices tile those below
the next one. -/
structure Tiled (s : ServerStream) (startIndex entryCount : StreamSegmentId → ℕ) : Prop where
  written : s.Written
  tiles : RangeIndex.Tiles (s.closedRanges startIndex entryCount) 0 s.lastAppendIndex
  pos : ∀ n, s.closed n = true → 0 < entryCount n
  zero : ∀ n, s.closed n = false → entryCount n = 0
  last : ∀ n, s.writable n = true → s.lastAppendSequenceNumber = some n ∧ n + 1 = s.size ∧
    startIndex n = s.lastAppendIndex
  located : ∀ n loc l, s.segments n = some loc → loc.location = some l →
    l.ranges .qIndex = ⟨startIndex n, startIndex n + entryCount n - 1⟩
  bound : s.lastAppendIndex + (if s.lastAppendSequenceNumber = none then 0 else 2 ^ 32 - 1) ≤
    s.size * (2 ^ 32 - 1)
  size : s.size ≤ invalidStreamSegmentId

theorem closedNumbers_congr (hsize : s'.size = s.size) (hclosed : ∀ m, s'.closed m = s.closed m) :
    s'.closedNumbers = s.closedNumbers := by
  unfold closedNumbers
  rw [hsize, funext hclosed]

theorem closedNumbers_snoc (hsize : s'.size = n + 1) (hs : s.size = n + 1)
    (hn : s.closed n = false) (hn' : s'.closed n = true)
    (hclosed : ∀ m, m ≠ n → s'.closed m = s.closed m) :
    s'.closedNumbers = s.closedNumbers ++ [n] := by
  unfold closedNumbers
  rw [hsize, hs, List.range_succ, List.filter_append, List.filter_append,
    List.filter_singleton, List.filter_singleton, hn, hn', cond_true, cond_false, List.append_nil]
  congr 1
  refine List.filter_congr fun m hm => hclosed m ?_
  exact (List.mem_range.mp hm).ne

theorem mem_closedNumbers : n ∈ s.closedNumbers ↔ n < s.size ∧ s.closed n = true := by
  unfold closedNumbers
  rw [List.mem_filter, List.mem_range]

theorem Tiled.of_closed (h : s.Tiled startIndex entryCount) (hwritten : s'.Written)
    (hsize : s'.size = s.size) (hclosed : ∀ m, s'.closed m = s.closed m)
    (hindex : s'.lastAppendIndex = s.lastAppendIndex)
    (hnumber : s'.lastAppendSequenceNumber = none ∨
      s'.lastAppendSequenceNumber = s.lastAppendSequenceNumber)
    (hwritable : ∀ m, s'.writable m = true → s.writable m = true ∧
      s'.lastAppendSequenceNumber = s.lastAppendSequenceNumber)
    (hlocated : ∀ n loc l, s'.segments n = some loc → loc.location = some l →
      l.ranges .qIndex = ⟨startIndex n, startIndex n + entryCount n - 1⟩) :
    s'.Tiled startIndex entryCount where
  written := hwritten
  tiles := by
    unfold closedRanges
    rw [closedNumbers_congr hsize hclosed, hindex]
    exact h.tiles
  pos m hm := h.pos m (hclosed m ▸ hm)
  zero m hm := h.zero m (hclosed m ▸ hm)
  last m hm := by
    obtain ⟨hw, hn⟩ := hwritable m hm
    rw [hn, hsize, hindex]
    exact h.last m hw
  located := hlocated
  bound := by
    have hbound := h.bound
    rw [hindex, hsize]
    rcases hnumber with hn | hn
    · rw [hn, if_pos rfl]
      exact (Nat.le_add_right _ _).trans hbound
    · rw [hn]
      exact hbound
  size := hsize ▸ h.size

theorem Tiled.located_of_replaces (h : s.Tiled startIndex entryCount)
    {segment : Option SegmentLocation} (hr : s.Replaces n segment s')
    (hnew : ∀ loc ∈ segment, loc.location = none) (m : StreamSegmentId) (loc : SegmentLocation)
    (l : StorageLocation) (hloc : s'.segments m = some loc) (hl : loc.location = some l) :
    l.ranges .qIndex = ⟨startIndex m, startIndex m + entryCount m - 1⟩ := by
  by_cases hm : m = n
  · subst hm
    rw [hr.self] at hloc
    cases (hnew loc hloc).symm.trans hl
  · rw [hr.of_ne hm] at hloc
    exact h.located m loc l hloc hl

/-- The index of an entry fits into 64 bits, as there are less than 2 ^ 32 segments. -/
theorem Tiled.index_lt (h : s.Tiled startIndex entryCount)
    (hn : s.lastAppendSequenceNumber = some n) {count : ℕ} (hcount : count < 2 ^ 32) :
    s.lastAppendIndex + count ≤ s.size * (2 ^ 32 - 1) ∧ s.lastAppendIndex + count < 2 ^ 64 := by
  have hbound := h.bound
  rw [if_neg (by rw [hn]; exact Option.some_ne_none n)] at hbound
  have hsize : s.size * (2 ^ 32 - 1) ≤ (2 ^ 32 - 1) * (2 ^ 32 - 1) :=
    Nat.mul_le_mul_right _ h.size
  omega

theorem closed_eq_false_of_writable (hw : s.writable n = true) : s.closed n = false := by
  by_contra hc
  rw [writable_eq_false (Bool.eq_true_of_not_eq_false hc)] at hw
  cases hw

theorem closed_of_encoding {waitList : List WaitId}
    (hr : s.Replaces n (some { loc with id := none, sideId := loc.id, waitList := waitList }) s')
    (m : StreamSegmentId) : s'.closed m = if m = n then true else s.closed m := by
  rw [closed_of_replaces hr]
  congr 1
  simp [SegmentLocation.writable]

theorem recordCounts_of_encoding (hw : s.writable n = true)
    (hclosed : ∀ m, s'.closed m = if m = n then true else s.closed m) (m : StreamSegmentId) :
    s.recordCounts s' submits entryCount m =
      if m = n then (submits n).entryCount else entryCount m := by
  unfold recordCounts
  rw [hclosed]
  by_cases hm : m = n
  · simp [hm, hw]
  · rw [if_neg hm, if_neg hm, if_neg]
    rintro ⟨hw', hc⟩
    exact Bool.false_ne_true ((writable_eq_false hc).symm.trans hw')

theorem closedRanges_snoc {entryCount' : StreamSegmentId → ℕ} {count : ℕ}
    (hnumbers : s'.closedNumbers = s.closedNumbers ++ [n]) (hopen : s.closed n = false)
    (hcount : ∀ m, entryCount' m = if m = n then count else entryCount m) :
    s'.closedRanges startIndex entryCount' = s.closedRanges startIndex entryCount ++
      [⟨startIndex n, startIndex n + count - 1, n⟩] := by
  unfold closedRanges
  rw [hnumbers, List.map_append, List.map_singleton, hcount, if_pos rfl]
  congr 1
  refine List.map_congr_left fun m hm => ?_
  have hm : m ≠ n := by
    rintro rfl
    exact Bool.false_ne_true (hopen.symm.trans (mem_closedNumbers.mp hm).2)
  rw [hcount, if_neg hm]

theorem Tiled.snoc (h : s.Tiled startIndex entryCount) {entryCount' : StreamSegmentId → ℕ}
    {count : ℕ} (hpos : 0 < count) (hstart : startIndex n = s.lastAppendIndex)
    (hranges : s'.closedRanges startIndex entryCount' = s.closedRanges startIndex entryCount ++
      [⟨startIndex n, startIndex n + count - 1, n⟩])
    (hindex : s'.lastAppendIndex = startIndex n + count) :
    RangeIndex.Tiles (s'.closedRanges startIndex entryCount') 0 s'.lastAppendIndex := by
  have htiles := h.tiles
  rw [← hstart] at htiles
  have hsnoc := RangeIndex.Tiles.snoc
    (r := ⟨startIndex n, startIndex n + count - 1, n⟩) htiles (by simp only; omega)
  have hstop : startIndex n + count - 1 + 1 = s'.lastAppendIndex := by omega
  rwa [hranges, ← hstop]

/-- The entries of a segment that is handed to the encoder extend the tiling. -/
theorem Tiled.encoding (h : s.Tiled startIndex entryCount) (hw : s.writable n = true)
    (hwritten : s'.Written) {waitList : List WaitId} (hnew : loc.location = none)
    (hpos : 0 < (submits n).entryCount) (hlt : (submits n).entryCount < 2 ^ 32)
    (hr : s.Replaces n (some { loc with id := none, sideId := loc.id, waitList := waitList }) s')
    (hends : s.EndsAppend n (submits n).entryCount s') :
    s'.Tiled startIndex (s.recordCounts s' submits entryCount) := by
  obtain ⟨hlast, hsize, hstart⟩ := h.last n hw
  obtain ⟨hbound, hindex⟩ := h.index_lt hlast hlt
  have hclosed := closed_of_encoding hr
  have hcount (m : StreamSegmentId) : s.recordCounts s' submits entryCount m =
      if m = n then (submits n).entryCount else entryCount m :=
    recordCounts_of_encoding hw hclosed m
  have hopen := closed_eq_false_of_writable hw
  have hnumbers : s'.closedNumbers = s.closedNumbers ++ [n] := by
    refine closedNumbers_snoc (hr.size.trans hsize.symm) hsize.symm hopen ?_ fun m hm => ?_
    · rw [hclosed, if_pos rfl]
    · rw [hclosed, if_neg hm]
  have hindex' : s'.lastAppendIndex = startIndex n + (submits n).entryCount := by
    rw [hends.index, if_pos hlast, Nat.mod_eq_of_lt hindex, hstart]
  have hnumber : s'.lastAppendSequenceNumber = none := by rw [hends.number, if_pos hlast]
  constructor
  · exact hwritten
  · exact h.snoc hpos hstart (closedRanges_snoc hnumbers hopen hcount) hindex'
  · intro m hm
    rw [hcount]
    rw [hclosed] at hm
    split_ifs at hm ⊢
    · exact hpos
    · exact h.pos m hm
  · intro m hm
    rw [hcount]
    rw [hclosed] at hm
    split_ifs at hm ⊢
    exact h.zero m hm
  · intro m hm
    by_cases hmn : m = n
    · rw [writable_of_replaces hr, if_pos hmn] at hm
      simp [SegmentLocation.writable] at hm
    · rw [writable_of_replaces hr, if_neg hmn] at hm
      exact absurd (Option.some.inj ((h.last m hm).1.symm.trans hlast)) hmn
  · intro m loc' l hloc hl
    have hm : m ≠ n := by
      rintro rfl
      obtain rfl := Option.some.inj (hr.self.symm.trans hloc)
      cases hnew.symm.trans hl
    rw [hr.of_ne hm] at hloc
    rw [hcount, if_neg hm]
    exact h.located m loc' l hloc hl
  · rw [hnumber, if_pos rfl, hindex', hstart, hr.size]
    exact hbound
  · rw [hr.size]
    exact h.size

theorem Tiled.closesNew (h : s.Tiled startIndex entryCount) (hloc : s.segments n = some loc)
    (hnew : loc.New n session) (hc : s.ClosesNew n loc (submits n) throws s') :
    s'.Tiled startIndex (s.recordCounts s' submits entryCount) := by
  have hwritten := h.written.closesNew hloc hnew hc
  have hwritable_imp := fun m => hc.writable_imp (m := m)
  cases hc with
  | threw _ same =>
    subst same
    rw [recordCounts_of_closed fun _ => rfl]
    exact h
  | marked waitList id replaces keeps =>
    have hclosed (m : StreamSegmentId) : s'.closed m = s.closed m := by
      rw [closed_of_replaces replaces]
      split_ifs with hm
      · rw [hm, closed_of_segment hloc]
        rfl
      · rfl
    rw [recordCounts_of_closed hclosed]
    refine h.of_closed hwritten replaces.size hclosed keeps.index (.inr keeps.number)
      (fun m hm => ⟨hwritable_imp m hm, keeps.number⟩) (h.located_of_replaces replaces ?_)
    rintro _ ⟨⟩
    exact hnew.new
  | dropped id replaces ends =>
    have hw : s.writable n = true := by
      rw [writable_of_segment hloc]
      exact (writable_iff_of_new hnew).mpr id
    obtain ⟨hlast, -, -⟩ := h.last n hw
    have hclosed (m : StreamSegmentId) : s'.closed m = s.closed m := by
      rw [closed_of_replaces replaces]
      split_ifs with hm
      · rw [hm, closed_of_segment hloc, (writable_iff_of_new hnew).mpr id]
        rfl
      · rfl
    have hnumber : s'.lastAppendSequenceNumber = none := by rw [ends.number, if_pos hlast]
    have hindex : s'.lastAppendIndex = s.lastAppendIndex := by
      rw [ends.index, if_pos hlast, Nat.mod_eq_of_lt (h.index_lt hlast (by decide)).2, Nat.add_zero]
    rw [recordCounts_of_closed hclosed]
    refine h.of_closed hwritten replaces.size hclosed hindex (.inl hnumber) (fun m hm => ?_)
      (h.located_of_replaces replaces (by rintro _ ⟨⟩))
    have hm' : m = n := by
      have hm' := (h.last m (hwritable_imp m hm)).1
      exact Option.some.inj (hm'.symm.trans hlast)
    rw [writable_of_replaces replaces, if_pos hm'] at hm
    cases hm
  | encoding waitList id pos lt replaces ends =>
    have hw : s.writable n = true := by
      rw [writable_of_segment hloc]
      exact (writable_iff_of_new hnew).mpr id
    exact h.encoding hw hwritten hnew.new pos lt replaces ends

theorem Tiled.closings (h : s.Tiled startIndex entryCount) (hc : Closings session submits s s') :
    s'.Tiled startIndex (s.recordCounts s' submits entryCount) := by
  induction hc generalizing entryCount with
  | refl =>
    rw [recordCounts_of_closed fun _ => rfl]
    exact h
  | step segment new closes rest ih =>
    rw [← recordCounts_trans closes rest]
    exact ih (h.closesNew segment new closes)

theorem Tiled.mem_closedRanges (h : s.Tiled startIndex entryCount) (hn : s.closed n = true) :
    ⟨startIndex n, startIndex n + entryCount n - 1, n⟩ ∈ s.closedRanges startIndex entryCount := by
  obtain ⟨loc, hloc, -⟩ := closed_iff.mp hn
  exact List.mem_map_of_mem (mem_closedNumbers.mpr ⟨h.written.lt_size hloc, hn⟩)

theorem Tiled.index_lt_of_closed (h : s.Tiled startIndex entryCount) (hn : s.closed n = true) :
    startIndex n + entryCount n ≤ s.lastAppendIndex ∧ s.lastAppendIndex < 2 ^ 64 - 1 := by
  obtain ⟨-, -, hstop⟩ := h.tiles.mem (h.mem_closedRanges hn)
  have hpos := h.pos n hn
  have hsize : s.size * (2 ^ 32 - 1) ≤ (2 ^ 32 - 1) * (2 ^ 32 - 1) :=
    Nat.mul_le_mul_right _ h.size
  have hbound := (Nat.le_add_right _ _).trans h.bound
  simp only at hstop
  omega

theorem Tiled.valid (h : s.Tiled startIndex entryCount) (hn : s.closed n = true) :
    (⟨startIndex n, startIndex n + entryCount n - 1⟩ : Range).Valid := by
  have hpos := h.pos n hn
  have hlt := h.index_lt_of_closed hn
  unfold Range.Valid invalidLargeObjectId
  dsimp only
  omega

/-- A segment that was encoded is stored with its own indices. -/
theorem Tiled.stores (h : s.Tiled startIndex entryCount) {location : StorageLocation}
    (hs : s.Stores n location s') (hn : s.closed n = true)
    (hrange : location.ranges .qIndex = ⟨startIndex n, startIndex n + entryCount n - 1⟩) :
    s'.Tiled startIndex entryCount := by
  obtain ⟨loc, hclosed, hloc, hsegs⟩ := hs.segments
  obtain ⟨old, hold, -⟩ := closed_iff.mp hn
  have hw : loc.writable = false := by
    by_contra hw
    exact (SegmentLocation.writable_iff.mp (Bool.eq_true_of_not_eq_false hw)).2 hclosed.unloaded
  have hsegment (m : StreamSegmentId) (hm : m ≠ n) : s'.segments m = s.segments m := by
    rw [hsegs, Function.update_of_ne hm]
  have hself : s'.segments n = some loc := by rw [hsegs, Function.update_self]
  refine h.of_closed (h.written.stores hs (h.written.lt_size hold) (writable_eq_false hn)) hs.size
    (fun m => ?_) hs.keeps.index (.inr hs.keeps.number) (fun m hm => ?_) fun m loc' l hloc' hl => ?_
  · by_cases hm : m = n
    · rw [hm, hn, closed_of_segment hself, hw]
      rfl
    · exact closed_congr (hsegment m hm)
  · by_cases hmn : m = n
    · rw [hmn, writable_of_segment hself, hw] at hm
      cases hm
    · rw [writable_congr (hsegment m hmn)] at hm
      exact ⟨hm, hs.keeps.number⟩
  · by_cases hm : m = n
    · subst hm
      obtain rfl := Option.some.inj (hself.symm.trans hloc')
      obtain rfl := Option.some.inj (hloc.symm.trans hl)
      exact (Range.normalize_of_valid (hrange ▸ h.valid hn)).trans hrange
    · rw [hsegment m hm] at hloc'
      exact h.located m loc' l hloc' hl

theorem closed_append_self (hw : s.Written) : s.closed s.size = false :=
  closed_eq_false_of_none (hw.slots.none_of_size_le le_rfl)

theorem closed_append (hw : s.Written) (session : SessionId) (id : SegmentId)
    (m : StreamSegmentId) : (s.append session id).closed m = s.closed m := by
  by_cases hm : m = s.size
  · have hself : (s.append session id).segments s.size = some (.allocated s.size session id) := by
      rw [segments_append, Function.update_self]
    rw [hm, closed_of_segment hself, closed_append_self hw]
    rfl
  · refine closed_congr ?_
    rw [segments_append, Function.update_of_ne hm]

theorem closedRanges_append (hw : s.Written) (session : SessionId) (id : SegmentId) (index : ℕ) :
    (s.append session id).closedRanges (Function.update startIndex s.size index)
      (Function.update entryCount s.size 0) = s.closedRanges startIndex entryCount := by
  have hself := closed_append_self hw
  have hnumbers : (s.append session id).closedNumbers = s.closedNumbers := by
    unfold closedNumbers
    rw [size_append, List.range_succ, List.filter_append, funext (closed_append hw session id),
      List.filter_singleton, hself, cond_false, List.append_nil]
  unfold closedRanges
  rw [hnumbers]
  refine List.map_congr_left fun m hm => ?_
  have hm : m ≠ s.size := (mem_closedNumbers.mp hm).1.ne
  rw [Function.update_of_ne hm, Function.update_of_ne hm]

theorem Tiled.append (h : s.Tiled startIndex entryCount)
    (hlast : s.lastAppendSequenceNumber = none) (hsize : s.size ≠ invalidStreamSegmentId)
    (session : SessionId) (id : SegmentId) : (s.append session id).Tiled
      (Function.update startIndex s.size s.lastAppendIndex)
      (Function.update entryCount s.size 0) := by
  have hself := closed_append_self h.written
  have hsegment (m : StreamSegmentId) (hm : m ≠ s.size) :
      (s.append session id).segments m = s.segments m := by
    rw [segments_append, Function.update_of_ne hm]
  constructor
  · exact h.written.append session id
  · rw [closedRanges_append h.written]
    exact h.tiles
  · intro m hm
    rw [closed_append h.written] at hm
    have hne : m ≠ s.size := by
      rintro rfl
      exact Bool.false_ne_true (hself.symm.trans hm)
    rw [Function.update_of_ne hne]
    exact h.pos m hm
  · intro m hm
    rw [closed_append h.written] at hm
    by_cases hmn : m = s.size
    · rw [hmn, Function.update_self]
    · rw [Function.update_of_ne hmn]
      exact h.zero m hm
  · intro m hm
    by_cases hmn : m = s.size
    · rw [hmn, Function.update_self, size_append]
      exact ⟨rfl, rfl, rfl⟩
    · rw [writable_congr (hsegment m hmn)] at hm
      cases hlast.symm.trans (h.last m hm).1
  · intro m loc l hloc hl
    by_cases hmn : m = s.size
    · rw [hmn, segments_append, Function.update_self] at hloc
      obtain rfl := Option.some.inj hloc
      cases hl
    · rw [hsegment m hmn] at hloc
      rw [Function.update_of_ne hmn, Function.update_of_ne hmn]
      exact h.located m loc l hloc hl
  · have hbound := h.bound
    have hnumber : (s.append session id).lastAppendSequenceNumber ≠ none := Option.some_ne_none _
    rw [if_pos hlast] at hbound
    rw [size_append, Nat.succ_mul, if_neg hnumber]
    exact Nat.add_le_add_right hbound _
  · rw [size_append]
    exact Nat.lt_of_le_of_ne h.size hsize

theorem filterMap_eq_map_filter {α β : Type*} {f : α → Option β} {p : α → Bool} {g : α → β}
    {numbers : List α} (h : ∀ n ∈ numbers, f n = if p n then some (g n) else none) :
    numbers.filterMap f = (numbers.filter p).map g := by
  induction numbers with
  | nil => rfl
  | cons n numbers ih =>
    have hn := h n List.mem_cons_self
    have hrest := ih fun m hm => h m (List.mem_cons_of_mem n hm)
    cases hp : p n <;> simp [hn, hp, hrest]

theorem sum_map_filter {p : ℕ → Bool} {f : ℕ → ℕ} (h : ∀ n, p n = false → f n = 0)
    (numbers : List ℕ) : ((numbers.filter p).map f).sum = (numbers.map f).sum := by
  induction numbers with
  | nil => rfl
  | cons n numbers ih => cases hp : p n <;> simp [hp, ih, h n]

def isLocated (s : ServerStream) (n : StreamSegmentId) : Bool :=
  ((s.segments n).bind (·.location)).isSome

theorem closed_of_isLocated (h : s.isLocated n = true) : s.closed n = true := by
  obtain ⟨l, hl⟩ := Option.isSome_iff_exists.mp h
  obtain ⟨loc, hloc, hl⟩ := Option.bind_eq_some_iff.mp hl
  refine closed_iff.mpr ⟨loc, hloc, ?_⟩
  rw [SegmentLocation.writable, hl]
  rfl

theorem Tiled.locatedRanges_eq (h : s.Tiled startIndex entryCount) :
    s.locatedRanges = ((List.range s.size).filter s.isLocated).map fun n =>
      ⟨startIndex n, startIndex n + entryCount n - 1, n⟩ := by
  refine filterMap_eq_map_filter fun n _ => ?_
  unfold isLocated
  cases hl : (s.segments n).bind (·.location) with
  | none => rfl
  | some l =>
    obtain ⟨loc, hloc, hl⟩ := Option.bind_eq_some_iff.mp hl
    rw [Option.map_some, h.located n loc l hloc hl]
    rfl

theorem Tiled.locatedRanges_sublist (h : s.Tiled startIndex entryCount) :
    s.locatedRanges.Sublist (s.closedRanges startIndex entryCount) := by
  rw [h.locatedRanges_eq]
  refine List.Sublist.map _ (List.monotone_filter_right _ fun n hn => ?_)
  exact closed_of_isLocated hn

/-- When all encodings have ended, the stored segments tile the stream. -/
theorem Tiled.locatedRanges_eq_closedRanges (h : s.Tiled startIndex entryCount)
    (hall : ∀ n, s.closed n = true → s.isLocated n = true) :
    s.locatedRanges = s.closedRanges startIndex entryCount := by
  rw [h.locatedRanges_eq, closedRanges, closedNumbers]
  congr 2
  funext n
  exact Bool.eq_iff_iff.mpr ⟨closed_of_isLocated, hall n⟩

theorem Tiled.sum_entryCount (h : s.Tiled startIndex entryCount) :
    ((List.range s.size).map entryCount).sum = s.lastAppendIndex := by
  rw [← sum_map_filter h.zero, ← h.tiles.add_sum, Nat.zero_add, closedRanges, List.map_map]
  congr 1
  refine List.map_congr_left fun n hn => ?_
  have hpos := h.pos n (mem_closedNumbers.mp hn).2
  simp only [Function.comp_apply]
  omega

end ServerStream

end Simutrace
