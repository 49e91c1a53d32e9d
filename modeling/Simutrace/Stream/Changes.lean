import Simutrace.Stream.Execution
import Mathlib.Data.Set.Insert

/-! # What operations change

Every operation of a stream changes one segment, its place in the open list and
the buffer segments it holds. This says for each of them what it leaves there.
-/

namespace Simutrace

namespace ServerState

def held (s : ServerState) (n : StreamSegmentId) : Set SegmentId := {id | s.buffer id = some n}

/-- Only the given segment changes, and this is what it changes to. -/
structure Changes (n : StreamSegmentId) (segment : Option SegmentLocation) (listed : ℕ)
    (held : Set SegmentId) (s s' : ServerState) : Prop where
  segments : s'.stream.segments = Function.update s.stream.segments n segment
  listed : s'.stream.openList.count n = listed
  listed_of_ne : ∀ m ≠ n, s'.stream.openList.count m = s.stream.openList.count m
  held : s'.held n = held
  held_of_ne : ∀ m ≠ n, s'.held m = s.held m

variable {s s' s'' : ServerState} {n : StreamSegmentId} {id : SegmentId} {loc : SegmentLocation}
  {segment : Option SegmentLocation}

theorem Changes.trans {segment' : Option SegmentLocation} {listed listed' : ℕ}
    {held held' : Set SegmentId} (h : Changes n segment listed held s s')
    (h' : Changes n segment' listed' held' s' s'') : Changes n segment' listed' held' s s'' where
  segments := by rw [h'.segments, h.segments, Function.update_idem]
  listed := h'.listed
  listed_of_ne m hm := (h'.listed_of_ne m hm).trans (h.listed_of_ne m hm)
  held := h'.held
  held_of_ne m hm := (h'.held_of_ne m hm).trans (h.held_of_ne m hm)

theorem count_filter_ne (l : List StreamSegmentId) (n m : StreamSegmentId) :
    (l.filter (· ≠ n)).count m = if m = n then 0 else l.count m := by
  split
  · rename_i h
    subst h
    exact List.count_eq_zero.mpr (by simp)
  · rename_i h
    exact List.count_filter (by simpa using h)

theorem held_update_none (hid : s.held n = {id}) (m : StreamSegmentId) :
    {i | Function.update s.buffer id none i = some m} = if m = n then ∅ else s.held m := by
  have hown : s.buffer id = some n := by
    have : id ∈ s.held n := hid ▸ rfl
    exact this
  ext i
  by_cases hi : i = id
  · subst hi
    split
    · simp
    · rename_i hm
      simp [held, hown, Ne.symm hm]
  · split
    · rename_i hm
      subst hm
      have : i ∉ s.held m := hid ▸ hi
      simpa [Function.update_of_ne hi, held] using this
    · simp [held, Function.update_of_ne hi]

theorem held_update_some (hfree : s.buffer id = none) (hnone : s.held n = ∅)
    (m : StreamSegmentId) :
    {i | Function.update s.buffer id (some n) i = some m} = if m = n then {id} else s.held m := by
  ext i
  by_cases hi : i = id
  · subst hi
    split
    · rename_i hm
      simp [hm]
    · rename_i hm
      simp [held, hfree, Ne.symm hm]
  · split
    · rename_i hm
      subst hm
      have : i ∉ s.held m := hnone ▸ Set.notMem_empty i
      simpa [Function.update_of_ne hi, hi, held] using this
    · simp [held, Function.update_of_ne hi]

theorem changes_setSegment (s : ServerState) (n : StreamSegmentId)
    (segment : Option SegmentLocation) (waits : WaitId → StreamWait) :
    Changes n segment (s.stream.openList.count n) (s.held n) s
      { s with stream := s.stream.setSegment n segment, waits := waits } :=
  ⟨rfl, rfl, fun _ _ => rfl, rfl, fun _ _ => rfl⟩

theorem changes_remove (hid : s.held n = {id}) (segment : Option SegmentLocation)
    (waits : WaitId → StreamWait) :
    Changes n segment 0 ∅ s
      { stream := { s.stream.setSegment n segment with
          openList := s.stream.openList.filter (· ≠ n) }
        buffer := releaseBuffer s.buffer (some id)
        waits := waits } where
  segments := rfl
  listed := by simp only [count_filter_ne, if_pos]
  listed_of_ne m hm := by simp only [count_filter_ne, if_neg hm]
  held := by
    have h := held_update_none hid n
    rwa [if_pos rfl] at h
  held_of_ne m hm := by
    have h := held_update_none hid m
    rwa [if_neg hm] at h

theorem changes_remove_of_empty (hheld : s.held n = ∅) (segment : Option SegmentLocation)
    (waits : WaitId → StreamWait) :
    Changes n segment 0 ∅ s
      { s with
        stream := { s.stream.setSegment n segment with
          openList := s.stream.openList.filter (· ≠ n) }
        waits := waits } where
  segments := rfl
  listed := by simp only [count_filter_ne, if_pos]
  listed_of_ne m hm := by simp only [count_filter_ne, if_neg hm]
  held := hheld
  held_of_ne _ _ := rfl

theorem changes_of_eq (hloc : s.stream.segments n = some loc) (h : s' = s) :
    Changes n (some loc) (s.stream.openList.count n) (s.held n) s s' := by
  subst h
  exact ⟨by rw [← hloc, Function.update_eq_self], rfl, fun _ _ => rfl, rfl, fun _ _ => rfl⟩

theorem changes_registerWait (s : ServerState) (loc : SegmentLocation) (wait : Option WaitId) :
    ∃ waitList, Changes loc.sequenceNumber (some { loc with waitList := waitList })
      (s.stream.openList.count loc.sequenceNumber) (s.held loc.sequenceNumber) s
      (s.registerWait loc wait) := by
  cases wait with
  | none => exact ⟨loc.waitList, changes_setSegment s _ _ _⟩
  | some w => exact ⟨loc.waitList ++ [w], changes_setSegment s _ _ _⟩

end ServerState

/-- A stored segment without references. -/
structure SegmentLocation.Unreferenced (n : StreamSegmentId) (loc : SegmentLocation) : Prop where
  key : loc.sequenceNumber = n
  located : loc.location ≠ none
  count : loc.referenceCount = 0
  map : loc.referenceMap = 0

/-- A stored segment that is not in use. -/
structure SegmentLocation.Closed (n : StreamSegmentId) (loc : SegmentLocation) : Prop
    extends loc.Unreferenced n where
  unloaded : loc.id = none
  side : loc.sideId = none

namespace ServerState

variable {s s' : ServerState} {n : StreamSegmentId} {id : SegmentId} {loc : SegmentLocation}

/-- A read that failed or was canceled, or a read segment that is purged, is closed. -/
theorem completeRead_of_undone (s : ServerState) (loc : SegmentLocation)
    (located success synchronous : Bool) (hlocated : loc.location ≠ none)
    (hside : loc.sideId = some id) (hheld : s.held loc.sequenceNumber = {id})
    (hundone : located = false ∨ loc.cancel = true)
    (hrelease : success = false ∨ loc.cancel = true) :
    ∃ loc', loc'.Closed loc.sequenceNumber ∧ Changes loc.sequenceNumber (some loc') 0 ∅ s
      (s.completeRead loc located success synchronous) := by
  refine ⟨{ loc with
    id := none, sideId := none, cancel := false
    prefetched := if success then loc.prefetched else false
    referenceCount := 0, referenceMap := 0
    waitList := if synchronous then loc.waitList else [] },
    ⟨⟨rfl, hlocated, rfl, rfl⟩, rfl, rfl⟩, ?_⟩
  have hc : (!located || loc.cancel) = true := by
    rcases hundone with h | h <;> simp [h]
  have hb : (if (!success) = true then releaseBuffer s.buffer loc.sideId
      else if loc.cancel = true then releaseBuffer s.buffer loc.sideId else s.buffer) =
      releaseBuffer s.buffer (some id) := by
    rcases hrelease with h | h <;> simp [h, hside]
  rw [completeRead, if_pos hc, hb]
  exact changes_remove hheld _ _

theorem completeRead_of_submitted (s : ServerState) (loc : SegmentLocation) (synchronous : Bool)
    (hlocated : loc.location ≠ none) (hcancel : loc.cancel = false)
    (hheld : s.held loc.sequenceNumber = ∅) :
    ∃ loc', loc'.Closed loc.sequenceNumber ∧ Changes loc.sequenceNumber (some loc') 0 ∅ s
      (s.completeRead loc false true synchronous) := by
  refine ⟨{ loc with
    id := none, sideId := none, cancel := false, prefetched := loc.prefetched
    referenceCount := 0, referenceMap := 0
    waitList := if synchronous then loc.waitList else [] },
    ⟨⟨rfl, hlocated, rfl, rfl⟩, rfl, rfl⟩, ?_⟩
  simp only [completeRead, hcancel, Bool.not_false, Bool.or_false, Bool.not_true, if_true,
    Bool.false_eq_true, if_false]
  exact changes_remove_of_empty hheld _ _

theorem completeRead_of_loaded (s : ServerState) (loc : SegmentLocation)
    (success synchronous : Bool) (hcancel : loc.cancel = false) :
    ∃ waitList, Changes loc.sequenceNumber
      (some { loc with id := loc.sideId, sideId := none, cancel := false, waitList := waitList })
      (s.stream.openList.count loc.sequenceNumber) (s.held loc.sequenceNumber) s
      (s.completeRead loc true success synchronous) := by
  refine ⟨if synchronous then loc.waitList else [], ?_⟩
  simp only [completeRead, hcancel, Bool.not_true, Bool.or_false, Bool.false_eq_true, if_false]
  exact changes_setSegment s _ _ _

/-- A segment whose encoding ended is stored, or deleted. -/
theorem completeSegmentWith_spec {location : Option StorageLocation}
    (hloc : s.stream.segments n = some loc) (hkey : loc.sequenceNumber = n)
    (hnew : loc.location = none) (hid : loc.id = none) (hside : loc.sideId = some id)
    (hheld : s.held n = {id}) (hlink : ∀ l ∈ location, l.sequenceNumber = n)
    (h : s.completeSegmentWith n location = some s') :
    ∃ segment : Option SegmentLocation, (∀ loc' ∈ segment, loc'.Closed n) ∧
      Changes n segment 0 ∅ s s' := by
  subst hkey
  unfold completeSegmentWith at h
  split at h
  · cases h
  · rename_i hguard
    have halloc := not_not.mp (not_or.mp hguard).1
    cases location with
    | none =>
      simp only [completeLocked, hloc, hnew, completeWrite, ServerStream.completeEncoding,
        Option.isSome_none, hside, Option.bind_eq_bind, Option.bind_some, Bool.not_false,
        Bool.true_or, if_true] at h
      obtain rfl := Option.some.inj h
      exact ⟨none, (fun _ h => by cases h), changes_remove hheld none _⟩
    | some location =>
      simp only [completeLocked, hloc, hnew, completeWrite, ServerStream.completeEncoding,
        Option.isSome_some, hside, Option.bind_eq_bind, Option.bind_some, Bool.false_eq_true,
        if_false, Option.bind_assoc] at h
      obtain ⟨stream, hadd, h⟩ := Option.bind_eq_some_iff.mp h
      have hkey : location.sequenceNumber = loc.sequenceNumber := hlink location rfl
      obtain ⟨hsegs, hopen⟩ := ServerStream.addSegment_of_segment hadd (hkey ▸ halloc)
        (hkey ▸ hloc)
      rw [hkey] at hsegs
      obtain rfl := Option.some.inj h
      refine ⟨some { loc with
        location := some location.normalize, sideId := none, referenceCount := 0
        referenceMap := 0, cancel := false, waitList := [] }, ?_, ?_⟩
      · rintro loc' ⟨⟩
        exact ⟨⟨rfl, Option.some_ne_none _, rfl, rfl⟩, hid, rfl⟩
      · have hc := changes_remove hheld (some { loc with
          location := some location.normalize, sideId := none, referenceCount := 0
          referenceMap := 0, cancel := false, waitList := [] }) (s.completeWaits loc true false)
        refine ⟨?_, ?_, ?_, hc.held, hc.held_of_ne⟩
        · simp only [ServerStream.setSegment, hsegs, Function.update_self, Function.update_idem,
            Option.map_some]
        · simpa only [hopen] using hc.listed
        · simpa only [hopen] using hc.listed_of_ne

theorem writerMain_spec {location : Option StorageLocation}
    (hloc : s.stream.segments n = some loc) (hkey : loc.sequenceNumber = n)
    (hnew : loc.location = none) (hid : loc.id = none) (hside : loc.sideId = some id)
    (hheld : s.held n = {id}) (hlink : ∀ l ∈ location, l.sequenceNumber = n)
    (h : s.writerMain n location = some s') :
    ∃ segment : Option SegmentLocation, (∀ loc' ∈ segment, loc'.Closed n) ∧
      Changes n segment 0 ∅ s s' := by
  unfold writerMain at h
  split at h
  · rename_i s'' hwith
    obtain rfl := Option.some.inj h
    split at hwith
    · exact completeSegmentWith_spec hloc hkey hnew hid hside hheld hlink hwith
    · cases hwith
  · exact completeSegmentWith_spec hloc hkey hnew hid hside hheld (by rintro _ ⟨⟩) h

/-! ## Opening -/

theorem lookup_spec {session : SessionId} {wait : Option WaitId} {handled : Bool}
    (hloc : s.stream.segments n = some loc) (hkey : loc.sequenceNumber = n)
    (h : s.lookup session n wait = some (s', handled)) :
    loc.location ≠ none ∧ (handled = false ∧ s' = s ∧ loc.referenceCount = 0 ∨
      handled = true ∧ 0 < loc.referenceCount ∧ ∃ waitList, Changes n
        (some { loc.shareReference session with waitList := waitList })
        (s.stream.openList.count n) (s.held n) s s') := by
  subst hkey
  simp only [lookup, hloc, Option.bind_eq_bind, Option.bind_some] at h
  by_cases hnone : loc.sequenceNumber ≥ s.stream.size ∨ loc.location = none
  · rw [if_pos hnone] at h
    cases h
  · rw [if_neg hnone] at h
    refine ⟨fun hl => hnone (.inr hl), ?_⟩
    by_cases hpos : loc.referenceCount > 0
    · rw [if_pos hpos, Option.some.injEq, Prod.mk.injEq] at h
      obtain ⟨rfl, rfl⟩ := h
      exact .inr ⟨rfl, hpos, changes_registerWait s (loc.shareReference session) _⟩
    · rw [if_neg hpos, Option.some.injEq, Prod.mk.injEq] at h
      obtain ⟨rfl, rfl⟩ := h
      exact .inl ⟨rfl, rfl, Nat.eq_zero_of_not_pos hpos⟩

theorem changes_beginOpen (prefetch : Bool) (outcome : OpenOutcome) (hheld : s.held n = ∅)
    (hkey : loc.sequenceNumber = n) (hfree : ∀ id ∈ outcome.id, s.buffer id = none) :
    Changes n (some { loc with prefetched := prefetch, cancel := prefetch, sideId := outcome.id })
      (s.stream.openList.count n) {id | outcome.id = some id} s
      (s.beginOpen loc prefetch outcome) := by
  subst hkey
  cases hout : outcome.id with
  | none =>
    have hempty : {id | (none : Option SegmentId) = some id} = ∅ := by ext; simp
    refine ⟨by simp [beginOpen, ServerStream.setSegment, hout], rfl, fun _ _ => rfl, ?_, ?_⟩
    · rw [hempty, ← hheld]
      simp [held, beginOpen, hout]
    · intro m hm
      simp [held, beginOpen, hout]
  | some id =>
    have hsingle : {i | some id = some i} = {id} := by ext; simp [eq_comm]
    have hupd := held_update_some (hfree id hout) hheld
    refine ⟨by simp [beginOpen, ServerStream.setSegment, hout], rfl, fun _ _ => rfl, ?_, ?_⟩
    · rw [hsingle]
      have h := hupd loc.sequenceNumber
      rw [if_pos rfl] at h
      simpa [held, beginOpen, hout] using h
    · intro m hm
      have h := hupd m
      rw [if_neg hm] at h
      simpa [held, beginOpen, hout] using h

theorem changes_addReference (s : ServerState) (session : SessionId) (loc : SegmentLocation) :
    Changes loc.sequenceNumber (some (loc.addReference session))
      (s.stream.openList.count loc.sequenceNumber + 1) (s.held loc.sequenceNumber) s
      (s.addReference session loc) where
  segments := rfl
  listed := by simp [addReference]
  listed_of_ne m hm := by simp [addReference, Ne.symm hm]
  held := rfl
  held_of_ne _ _ := rfl

theorem Changes.segment {segment : Option SegmentLocation} {listed : ℕ} {held : Set SegmentId}
    (h : Changes n segment listed held s s') : s'.stream.segments n = segment := by
  rw [h.segments, Function.update_self]

theorem completeLocked_of_located {location : Option StorageLocation} {success synchronous : Bool}
    (hloc : s.stream.segments n = some loc) (hlocated : loc.location ≠ none) :
    s.completeLocked n location success synchronous =
      some (s.completeRead loc location.isSome success synchronous) := by
  obtain ⟨l, hl⟩ := Option.ne_none_iff_exists'.mp hlocated
  simp [completeLocked, hloc, hl]

theorem completeLocked_of_new {success synchronous : Bool}
    (hloc : s.stream.segments n = some loc) (hnew : loc.location = none) :
    s.completeLocked n none success synchronous =
      s.completeWrite loc none success synchronous := by
  simp [completeLocked, hloc, hnew]

theorem finishOpen_of_closed {session : SessionId} {complete : Bool} {wait : Option WaitId}
    (hkey : loc.sequenceNumber = n) (hid : loc.id = none) (hside : loc.sideId = none)
    (h : s.finishOpen session loc complete wait = some s') :
    Changes n (some { loc with cancel := false, prefetched := false })
      (s.stream.openList.count n) (s.held n) s s' := by
  subst hkey
  simp only [finishOpen, hid, hside] at h
  obtain rfl := Option.some.inj h
  have hc := changes_setSegment s loc.sequenceNumber
    (some { loc with cancel := false, prefetched := false }) s.waits
  exact ⟨by simp only [hid, hside]; rfl, rfl, fun _ _ => rfl, rfl, fun _ _ => rfl⟩

theorem finishOpen_of_loading {session : SessionId} {wait : Option WaitId}
    (hkey : loc.sequenceNumber = n) (hid : loc.id = none) (hside : loc.sideId = some id)
    (h : s.finishOpen session loc false wait = some s') :
    ∃ waitList, Changes n (some { loc.addReference session with waitList := waitList })
      (s.stream.openList.count n + 1) (s.held n) s s' := by
  subst hkey
  simp only [finishOpen, hid, hside, Bool.false_eq_true, if_false] at h
  obtain rfl := Option.some.inj h
  have hadd := changes_addReference s session loc
  obtain ⟨waitList, hc⟩ := changes_registerWait (s.addReference session loc)
    (loc.addReference session) wait
  have hc' := hadd.trans hc
  exact ⟨waitList, ⟨hc'.segments, hc'.listed.trans hadd.listed, hc'.listed_of_ne, hc'.held,
    hc'.held_of_ne⟩⟩

theorem finishOpen_of_complete {session : SessionId} {wait : Option WaitId}
    (hkey : loc.sequenceNumber = n) (hlocated : loc.location ≠ none) (hid : loc.id = none)
    (hside : loc.sideId = some id) (hcancel : loc.cancel = false)
    (h : s.finishOpen session loc true wait = some s') :
    ∃ waitList, Changes n (some { loc.addReference session with
        id := some id, sideId := none, cancel := false, waitList := waitList })
      (s.stream.openList.count n + 1) (s.held n) s s' := by
  subst hkey
  have hadd := changes_addReference s session loc
  have hsome : loc.location.isSome = true := Option.isSome_iff_ne_none.mpr hlocated
  simp only [finishOpen, hid, hside, if_true] at h
  rw [completeLocked_of_located hadd.segment hlocated, hsome] at h
  obtain rfl := Option.some.inj h
  obtain ⟨waitList, hc⟩ := completeRead_of_loaded (s.addReference session loc)
    (loc.addReference session) true true hcancel
  have hc' := hadd.trans hc
  refine ⟨waitList, ⟨?_, hc'.listed.trans hadd.listed, hc'.listed_of_ne, hc'.held,
    hc'.held_of_ne⟩⟩
  rw [hc'.segments, ← hside]
  rfl

theorem finishOpen_of_prefetched {session : SessionId} {wait : Option WaitId}
    (hkey : loc.sequenceNumber = n) (hlocated : loc.location ≠ none) (hid : loc.id = none)
    (hside : loc.sideId = some id) (hcancel : loc.cancel = true) (hheld : s.held n = {id})
    (h : s.finishOpen session loc true wait = some s') :
    ∃ loc', loc'.Closed n ∧ Changes n (some loc') 0 ∅ s s' := by
  subst hkey
  have hadd := changes_addReference s session loc
  simp only [finishOpen, hid, hside, if_true] at h
  rw [completeLocked_of_located hadd.segment hlocated] at h
  obtain rfl := Option.some.inj h
  obtain ⟨loc', hclosed, hc⟩ := completeRead_of_undone (s.addReference session loc)
    (loc.addReference session) loc.location.isSome true true hlocated hside
    (hadd.held.trans hheld) (.inr hcancel) (.inr hcancel)
  exact ⟨loc', hclosed, hadd.trans hc⟩

theorem finishOpen_of_loaded {session : SessionId} {wait : Option WaitId}
    (hkey : loc.sequenceNumber = n) (hid : loc.id = some id)
    (h : s.finishOpen session loc false wait = some s') :
    Changes n (some (loc.addReference session)) (s.stream.openList.count n + 1)
      (s.held n) s s' := by
  subst hkey
  simp only [finishOpen, hid, Bool.false_eq_true, if_false] at h
  obtain rfl := Option.some.inj h
  exact changes_addReference s session loc

/-! ## Closing -/

theorem Changes.finishAppend {segment : Option SegmentLocation} {listed : ℕ}
    {held : Set SegmentId} (h : Changes n segment listed held s s') (m : StreamSegmentId)
    (entryCount : ℕ) : Changes n segment listed held s (s'.finishAppend m entryCount) := by
  unfold ServerState.finishAppend
  split
  · exact ⟨h.segments, h.listed, h.listed_of_ne, h.held, h.held_of_ne⟩
  · exact h

theorem changes_submit (hheld : s.held n = {id}) (segment : Option SegmentLocation) :
    Changes n segment (s.stream.openList.count n) ∅ s
      { s with
        stream := s.stream.setSegment n segment
        buffer := releaseBuffer s.buffer (some id) } where
  segments := rfl
  listed := rfl
  listed_of_ne _ _ := rfl
  held := by
    have h := held_update_none hheld n
    rwa [if_pos rfl] at h
  held_of_ne m hm := by
    have h := held_update_none hheld m
    rwa [if_neg hm] at h

theorem changes_closeSegment {wait : Option WaitId} {ignoreErrors throws : Bool}
    {submit : SubmitOutcome} (hkey : loc.sequenceNumber = n) (hid : loc.id = none)
    (h : s.closeSegment loc wait ignoreErrors submit = (s', throws)) :
    ∃ waitList, Changes n (some { loc with cancel := true, waitList := waitList })
      (s.stream.openList.count n) (s.held n) s s' := by
  subst hkey
  simp only [closeSegment, hid, Prod.mk.injEq] at h
  obtain ⟨rfl, -⟩ := h
  obtain ⟨waitList, hc⟩ := changes_registerWait s { loc with cancel := true } wait
  exact ⟨waitList, by rw [← hid]; exact hc⟩

theorem closeSegment_of_located {wait : Option WaitId} {ignoreErrors throws : Bool}
    {submit : SubmitOutcome} (hkey : loc.sequenceNumber = n) (hlocated : loc.location ≠ none)
    (hid : loc.id = some id) (hcancel : loc.cancel = false) (hheld : s.held n = {id})
    (hsubmit : Execution.Submittable loc submit)
    (h : s.closeSegment loc wait ignoreErrors submit = (s', throws)) :
    throws = false ∧ ∃ loc', loc'.Closed n ∧ Changes n (some loc') 0 ∅ s s' := by
  subst hkey
  simp only [closeSegment, hid] at h
  cases submit with
  | failed =>
    have hsome : loc.location.isNone = false :=
      Bool.eq_false_iff.mpr fun h => hlocated (Option.isNone_iff_eq_none.mp h)
    have hset := changes_setSegment s loc.sequenceNumber
      (some { loc with sideId := some id, id := none }) s.waits
    obtain ⟨loc', hclosed, hc⟩ := completeRead_of_undone
      { s with
        stream := s.stream.setSegment loc.sequenceNumber
          (some { loc with sideId := some id, id := none }) }
      { loc with sideId := some id, id := none } false false true hlocated rfl hheld
      (.inl rfl) (.inl rfl)
    rw [completeLocked_of_located hset.segment hlocated] at h
    simp only [hsome, Bool.and_false, Bool.false_eq_true, if_false, Prod.mk.injEq] at h
    obtain ⟨rfl, rfl⟩ := h
    exact ⟨rfl, loc', hclosed, (hset.trans hc).finishAppend _ _⟩
  | complete location =>
    obtain rfl : location = none := hsubmit
    have hset := changes_submit hheld (some { loc with sideId := some id, id := none })
    obtain ⟨loc', hclosed, hc⟩ := completeRead_of_submitted
      { s with
        stream := s.stream.setSegment loc.sequenceNumber
          (some { loc with sideId := some id, id := none })
        buffer := releaseBuffer s.buffer (some id) }
      { loc with sideId := some id, id := none } true hlocated hcancel hset.held
    dsimp only at h
    rw [completeLocked_of_located hset.segment hlocated] at h
    simp only [Prod.mk.injEq] at h
    obtain ⟨rfl, rfl⟩ := h
    exact ⟨rfl, loc', hclosed, (hset.trans hc).finishAppend _ _⟩
  | pending entryCount => exact (hlocated hsubmit).elim

/-- Closing a segment that is written discards it or starts to encode it, unless it is kept because
the buffer threw an exception. -/
theorem closeSegment_of_new {wait : Option WaitId} {ignoreErrors throws : Bool}
    {submit : SubmitOutcome} (hkey : loc.sequenceNumber = n) (hnew : loc.location = none)
    (hid : loc.id = some id) (hheld : s.held n = {id})
    (hsubmit : Execution.Submittable loc submit)
    (h : s.closeSegment loc wait ignoreErrors submit = (s', throws)) :
    s' = s ∨ Changes n none 0 ∅ s s' ∨
      ∃ waitList, Changes n (some { loc with id := none, sideId := some id, waitList := waitList })
        (s.stream.openList.count n) {id} s s' := by
  subst hkey
  simp only [closeSegment, hid] at h
  cases submit with
  | failed =>
    dsimp only at h
    by_cases hthrow : (!ignoreErrors && loc.location.isNone) = true
    · rw [if_pos hthrow] at h
      exact .inl (Prod.mk.inj h).1.symm
    · rw [if_neg hthrow] at h
      have hset := changes_setSegment s loc.sequenceNumber
        (some { loc with sideId := some id, id := none }) s.waits
      rw [completeLocked_of_new hset.segment hnew] at h
      simp only [completeWrite, ServerStream.completeEncoding, Option.bind_eq_bind,
        Option.bind_some, Bool.not_false, Bool.or_true, if_true, Prod.mk.injEq] at h
      obtain ⟨rfl, -⟩ := h
      refine .inr (.inl ((hset.trans ?_).finishAppend _ _))
      exact changes_remove (hset.held.trans hheld) none _
  | complete location =>
    obtain rfl : location = none := hsubmit
    have hset := changes_submit hheld (some { loc with sideId := some id, id := none })
    dsimp only at h
    rw [completeLocked_of_new hset.segment hnew] at h
    simp only [completeWrite, ServerStream.completeEncoding, Option.bind_eq_bind,
      Option.bind_some, Bool.not_true, Bool.or_false, Bool.false_eq_true, if_false,
      Prod.mk.injEq] at h
    obtain ⟨rfl, -⟩ := h
    refine .inr (.inl ((hset.trans ?_).finishAppend _ _))
    exact changes_remove_of_empty hset.held none _
  | pending entryCount =>
    obtain ⟨waitList, hc⟩ := changes_registerWait s { loc with sideId := some id, id := none } wait
    simp only [Prod.mk.injEq] at h
    obtain ⟨rfl, -⟩ := h
    rw [hheld] at hc
    exact .inr (.inr ⟨waitList, hc.finishAppend _ _⟩)

end ServerState

end Simutrace
