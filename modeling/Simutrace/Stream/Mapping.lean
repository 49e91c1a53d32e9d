import Simutrace.Stream.Execution
import Simutrace.Stream.Neighbours

/-! # The buffer segments of a stream

A segment points to buffer segments with its data. Whatever runs of a stream,
these are in use for this very segment, so that no two segments share one.
-/

namespace Simutrace

namespace ServerState

variable {s s' s'' : ServerState} {n : StreamSegmentId} {loc : SegmentLocation}
  {segment : Option SegmentLocation} {location : Option StorageLocation}

structure Owned (s : ServerState) (n : StreamSegmentId) (loc : SegmentLocation) : Prop where
  key : loc.sequenceNumber = n
  id : ∀ i ∈ loc.id, s.buffer i = some n
  side : ∀ i ∈ loc.sideId, s.buffer i = some n

def Mapped (s : ServerState) : Prop := ∀ n, ∀ loc ∈ s.stream.segments n, s.Owned n loc

structure Remaps (n : StreamSegmentId) (s s' : ServerState) : Prop where
  segments : ∀ m ≠ n, s'.stream.segments m = s.stream.segments m
  buffer : ∀ m ≠ n, ∀ i, s.buffer i = some m → s'.buffer i = some m
  owned : ∀ loc ∈ s'.stream.segments n, s'.Owned n loc

theorem Owned.congr (h : s.Owned n loc) (hb : s'.buffer = s.buffer) : s'.Owned n loc :=
  ⟨h.key, hb ▸ h.id, hb ▸ h.side⟩

theorem Mapped.remaps (h : s.Mapped) (hr : Remaps n s s') : s'.Mapped := by
  intro m loc hloc
  by_cases hm : m = n
  · subst hm
    exact hr.owned loc hloc
  · rw [hr.segments m hm] at hloc
    have howned := h m loc hloc
    exact ⟨howned.key, fun i hi => hr.buffer m hm i (howned.id i hi),
      fun i hi => hr.buffer m hm i (howned.side i hi)⟩

theorem Mapped.unique {m : StreamSegmentId} {loc' : SegmentLocation} {i : SegmentId}
    (h : s.Mapped) (hloc : s.stream.segments n = some loc)
    (hloc' : s.stream.segments m = some loc') (hi : loc.id = some i) (hi' : loc'.id = some i) :
    n = m :=
  Option.some.inj (((h n loc hloc).id i hi).symm.trans ((h m loc' hloc').id i hi'))

theorem Remaps.trans (h : Remaps n s s') (h' : Remaps n s' s'') : Remaps n s s'' where
  segments m hm := (h'.segments m hm).trans (h.segments m hm)
  buffer m hm i hi := h'.buffer m hm i (h.buffer m hm i hi)
  owned := h'.owned

theorem remaps_of_segment (hsegs : s'.stream.segments = Function.update s.stream.segments n segment)
    (hbuffer : s'.buffer = s.buffer) (howned : ∀ loc ∈ segment, s.Owned n loc) :
    Remaps n s s' where
  segments m hm := by rw [hsegs, Function.update_of_ne hm]
  buffer m hm i hi := by rwa [hbuffer]
  owned loc hloc := by
    rw [hsegs, Function.update_self] at hloc
    exact (howned loc hloc).congr hbuffer

theorem remaps_of_release (segment : Option SegmentLocation) (released : Option SegmentId)
    (hsegs : s'.stream.segments = Function.update s.stream.segments n segment)
    (hbuffer : s'.buffer = releaseBuffer s.buffer released)
    (hreleased : ∀ i ∈ released, s.buffer i = some n)
    (hfree : ∀ loc ∈ segment, loc.sequenceNumber = n ∧ loc.id = none ∧ loc.sideId = none) :
    Remaps n s s' where
  segments m hm := by rw [hsegs, Function.update_of_ne hm]
  buffer m hm i hi := by
    rw [hbuffer]
    cases released with
    | none => exact hi
    | some id =>
      have hne : i ≠ id := by
        rintro rfl
        exact hm (Option.some.inj (hi.symm.trans (hreleased i rfl)))
      exact (Function.update_of_ne hne _ _).trans hi
  owned loc hloc := by
    rw [hsegs, Function.update_self] at hloc
    obtain ⟨hkey, hid, hside⟩ := hfree loc hloc
    refine ⟨hkey, fun i hi => ?_, fun i hi => ?_⟩
    · rw [hid] at hi
      cases hi
    · rw [hside] at hi
      cases hi

theorem remaps_of_acquire {id : SegmentId}
    (hsegs : s'.stream.segments = Function.update s.stream.segments n (some loc))
    (hbuffer : s'.buffer = Function.update s.buffer id (some n)) (hfree : s.buffer id = none)
    (hkey : loc.sequenceNumber = n) (hid : ∀ i ∈ loc.id, i = id ∨ s.buffer i = some n)
    (hside : ∀ i ∈ loc.sideId, i = id ∨ s.buffer i = some n) : Remaps n s s' := by
  have hkept (m : StreamSegmentId) (i : SegmentId) (hi : s.buffer i = some m) :
      s'.buffer i = some m := by
    have hne : i ≠ id := by
      rintro rfl
      cases hfree.symm.trans hi
    rw [hbuffer, Function.update_of_ne hne]
    exact hi
  have hnew (i : SegmentId) (hi : i = id ∨ s.buffer i = some n) : s'.buffer i = some n := by
    rcases hi with rfl | hi
    · rw [hbuffer, Function.update_self]
    · exact hkept n i hi
  refine ⟨fun m hm => by rw [hsegs, Function.update_of_ne hm], fun m _ => hkept m, ?_⟩
  intro loc' hloc'
  rw [hsegs, Function.update_self] at hloc'
  obtain rfl := Option.some.inj hloc'
  exact ⟨hkey, fun i hi => hnew i (hid i hi), fun i hi => hnew i (hside i hi)⟩

theorem remaps_registerWait (h : s.Owned n loc) (wait : Option WaitId) :
    Remaps n s (s.registerWait loc wait) := by
  obtain ⟨rfl, hid, hside⟩ := h
  cases wait with
  | none => exact remaps_of_segment rfl rfl (by rintro _ ⟨⟩; exact ⟨rfl, hid, hside⟩)
  | some w => exact remaps_of_segment rfl rfl (by rintro _ ⟨⟩; exact ⟨rfl, hid, hside⟩)

theorem remaps_completeRead (h : s.Owned n loc) (located success synchronous : Bool) :
    Remaps n s (s.completeRead loc located success synchronous) := by
  obtain ⟨rfl, hid, hside⟩ := h
  unfold completeRead
  dsimp only
  by_cases hundone : (!located || loc.cancel) = true
  · rw [if_pos hundone]
    refine remaps_of_release _ (if !success || loc.cancel then loc.sideId else none) rfl ?_ ?_
      (by rintro _ ⟨⟩; exact ⟨rfl, rfl, rfl⟩)
    · cases success <;> cases loc.cancel <;> rfl
    · intro i hi
      split_ifs at hi
      · exact hside i hi
      · cases hi
  · rw [if_neg hundone]
    refine remaps_of_segment rfl rfl ?_
    rintro _ ⟨⟩
    exact ⟨rfl, hside, by rintro _ ⟨⟩⟩

theorem remaps_completeWrite {success synchronous : Bool} (h : s.Owned n loc)
    (hloc : s.stream.segments n = some loc) (hid : location ≠ none → loc.id = none)
    (hlink : ∀ l ∈ location, l.sequenceNumber = n ∧ s.stream.SegmentIsAllocated n ∧
      synchronous = false)
    (hc : s.completeWrite loc location success synchronous = some s') : Remaps n s s' := by
  obtain ⟨rfl, -, hside⟩ := h
  unfold completeWrite ServerStream.completeEncoding at hc
  dsimp only at hc
  cases location with
  | none =>
    obtain rfl := Option.some.inj hc
    refine remaps_of_release _ (if !synchronous || !success then loc.sideId else none) rfl ?_ ?_
      (by rintro _ ⟨⟩)
    · cases synchronous <;> cases success <;> rfl
    · intro i hi
      split_ifs at hi
      · exact hside i hi
      · cases hi
  | some location =>
    obtain ⟨hkey, halloc, rfl⟩ := hlink location rfl
    simp only [Option.bind_eq_bind, Option.bind_assoc, Option.bind_some] at hc
    obtain ⟨stream, hadd, hc⟩ := Option.bind_eq_some_iff.mp hc
    obtain ⟨hsegs, -⟩ := ServerStream.addSegment_of_segment hadd (hkey ▸ halloc) (hkey ▸ hloc)
    rw [hkey] at hsegs
    obtain rfl := Option.some.inj hc
    refine remaps_of_release (some { loc with
      location := some location.normalize, sideId := none, referenceCount := 0
      referenceMap := 0, cancel := false, waitList := [] }) loc.sideId ?_ rfl hside ?_
    · simp only [ServerStream.setSegment, hsegs, Function.update_self, Function.update_idem,
        Option.map_some, Bool.false_eq_true, if_false]
    · rintro _ ⟨⟩
      exact ⟨rfl, hid (Option.some_ne_none _), rfl⟩

theorem remaps_completeLocked {success synchronous : Bool} (h : s.Owned n loc)
    (hloc : s.stream.segments n = some loc) (hnew : loc.location = none → location = none)
    (hc : s.completeLocked n location success synchronous = some s') : Remaps n s s' := by
  unfold completeLocked at hc
  simp only [hloc, Option.bind_eq_bind, Option.bind_some] at hc
  cases hl : loc.location with
  | some l =>
    rw [hl] at hc
    obtain rfl := Option.some.inj hc
    exact remaps_completeRead h _ _ _
  | none =>
    rw [hl] at hc
    obtain rfl := hnew hl
    exact remaps_completeWrite h hloc (fun h => absurd rfl h) (by rintro _ ⟨⟩) hc

theorem remaps_completeSegmentWith (h : s.Owned n loc) (hloc : s.stream.segments n = some loc)
    (hid : location ≠ none → loc.id = none) (hlink : ∀ l ∈ location, l.sequenceNumber = n)
    (hc : s.completeSegmentWith n location = some s') : Remaps n s s' := by
  unfold completeSegmentWith at hc
  split_ifs at hc with hguard
  obtain ⟨halloc, hnew⟩ := not_or.mp hguard
  rw [hloc, Option.bind_some, not_not] at hnew
  unfold completeLocked at hc
  simp only [hloc, hnew, Option.bind_eq_bind, Option.bind_some] at hc
  exact remaps_completeWrite h hloc hid
    (fun l hl => ⟨hlink l hl, not_not.mp halloc, rfl⟩) hc

theorem remaps_writerMain (h : s.Owned n loc) (hloc : s.stream.segments n = some loc)
    (hid : loc.id = none) (hlink : ∀ l ∈ location, l.sequenceNumber = n)
    (hc : s.writerMain n location = some s') : Remaps n s s' := by
  unfold writerMain at hc
  split at hc
  · rename_i s'' hwith
    obtain rfl := Option.some.inj hc
    split_ifs at hwith
    exact remaps_completeSegmentWith h hloc (fun _ => hid) hlink hwith
  · exact remaps_completeSegmentWith h hloc (fun _ => hid) (by rintro _ ⟨⟩) hc

theorem remaps_readerMain {decode : Bool} (h : s.Owned n loc)
    (hloc : s.stream.segments n = some loc) (hc : s.readerMain n false decode = some s') :
    Remaps n s s' := by
  unfold readerMain at hc
  rw [if_neg Bool.false_ne_true] at hc
  split at hc
  · rename_i s'' hsegment
    obtain rfl := Option.some.inj hc
    split_ifs at hsegment
    unfold completeSegment at hsegment
    split_ifs at hsegment
    rw [hloc, Option.bind_some] at hsegment
    exact remaps_completeLocked h hloc id hsegment
  · exact remaps_completeSegmentWith h hloc (fun h => absurd rfl h) (by rintro _ ⟨⟩) hc

theorem exists_of_readerMain {decode : Bool} (hc : s.readerMain n false decode = some s') :
    ∃ loc, s.stream.segments n = some loc := by
  refine Option.ne_none_iff_exists'.mp fun hnone => ?_
  have halloc : ¬ s.stream.SegmentIsAllocated n := fun h => h.2 hnone
  unfold readerMain completeSegment completeSegmentWith at hc
  simp [halloc] at hc

theorem remaps_refl (h : s.Mapped) (n : StreamSegmentId) : Remaps n s s :=
  ⟨fun _ _ => rfl, fun _ _ _ hi => hi, h n⟩

theorem Owned.of_eq {loc' : SegmentLocation} (h : s.Owned n loc)
    (hkey : loc'.sequenceNumber = loc.sequenceNumber) (hid : loc'.id = loc.id)
    (hside : loc'.sideId = loc.sideId) : s.Owned n loc' :=
  ⟨hkey.trans h.key, hid ▸ h.id, hside ▸ h.side⟩

theorem remaps_lookup {session : SessionId} {wait : Option WaitId} {handled : Bool}
    (h : s.Mapped) (hc : s.lookup session n wait = some (s', handled)) : Remaps n s s' := by
  unfold lookup at hc
  rw [Option.bind_eq_bind] at hc
  obtain ⟨loc, hloc, hc⟩ := Option.bind_eq_some_iff.mp hc
  by_cases hnone : n ≥ s.stream.size ∨ loc.location = none
  · rw [if_pos hnone] at hc
    cases hc
  · rw [if_neg hnone] at hc
    by_cases hpos : loc.referenceCount > 0
    · rw [if_pos hpos] at hc
      obtain ⟨rfl, -⟩ := Prod.mk.inj (Option.some.inj hc)
      have hshared : s.Owned n (loc.shareReference session) := (h n loc hloc).of_eq rfl rfl rfl
      exact remaps_registerWait hshared _
    · rw [if_neg hpos] at hc
      obtain ⟨rfl, -⟩ := Prod.mk.inj (Option.some.inj hc)
      exact remaps_refl h n

theorem remaps_beginOpen {outcome : OpenOutcome} (h : s.Owned n loc) (prefetch : Bool)
    (hfree : ∀ i ∈ outcome.id, s.buffer i = none) :
    Remaps n s (s.beginOpen loc prefetch outcome) := by
  obtain ⟨rfl, hid, hside⟩ := h
  cases hout : outcome.id with
  | none =>
    refine remaps_of_segment rfl ?_ ?_
    · unfold beginOpen
      rw [hout]
    · rintro _ ⟨⟩
      exact ⟨rfl, hid, by rw [hout]; rintro _ ⟨⟩⟩
  | some id =>
    refine remaps_of_acquire rfl ?_ (hfree id hout) rfl (fun i hi => .inr (hid i hi)) ?_
    · unfold beginOpen
      rw [hout]
    · rw [hout]
      rintro _ ⟨⟩
      exact .inl rfl

theorem remaps_addReference (h : s.Owned n loc) (session : SessionId) :
    Remaps n s (s.addReference session loc) ∧
      (s.addReference session loc).stream.segments n = some (loc.addReference session) ∧
        (s.addReference session loc).Owned n (loc.addReference session) := by
  have hreferenced : s.Owned n (loc.addReference session) := h.of_eq rfl rfl rfl
  obtain rfl := h.key
  exact ⟨remaps_of_segment rfl rfl (by rintro _ ⟨⟩; exact hreferenced),
    Function.update_self _ _ _, hreferenced.congr rfl⟩

theorem remaps_finishOpen {session : SessionId} {complete : Bool} {wait : Option WaitId}
    (h : s.Owned n loc) (hc : s.finishOpen session loc complete wait = some s') :
    Remaps n s s' := by
  obtain ⟨hadd, hsegment, howned⟩ := remaps_addReference h session
  have hcomplete : (s.addReference session loc).completeLocked loc.sequenceNumber loc.location
      true true = some s' → Remaps n s s' := by
    intro hc
    rw [h.key] at hc
    exact hadd.trans (remaps_completeLocked howned hsegment id hc)
  unfold finishOpen at hc
  split at hc
  · obtain rfl := Option.some.inj hc
    obtain ⟨rfl, hid, hside⟩ := h
    exact remaps_of_segment rfl rfl (by rintro _ ⟨⟩; exact ⟨rfl, hid, hside⟩)
  · dsimp only at hc
    split_ifs at hc
    · exact hcomplete hc
    · obtain rfl := Option.some.inj hc
      exact hadd.trans (remaps_registerWait howned wait)
  · dsimp only at hc
    split_ifs at hc
    · exact hcomplete hc
    · obtain rfl := Option.some.inj hc
      exact hadd

theorem Remaps.finishAppend (h : Remaps n s s') (m entryCount : ℕ) :
    Remaps n s (s'.finishAppend m entryCount) := by
  unfold ServerState.finishAppend
  split
  · exact ⟨h.segments, h.buffer, fun loc hloc => (h.owned loc hloc).congr rfl⟩
  · exact h

/-- A submitted segment that is finished at once has given its buffer segment back before. -/
theorem remaps_submitted {id : SegmentId} (h : s.Owned loc.sequenceNumber loc)
    (hid : loc.id = some id) : ∃ s', completeLocked { s with
      stream := s.stream.setSegment loc.sequenceNumber
        (some { loc with sideId := some id, id := none })
      buffer := releaseBuffer s.buffer (some id) } loc.sequenceNumber none true true = some s' ∧
    Remaps loc.sequenceNumber s s' := by
  have hreleased : ∀ i ∈ some id, s.buffer i = some loc.sequenceNumber := hid ▸ h.id
  unfold completeLocked
  simp only [ServerStream.setSegment, Function.update_self, Option.bind_eq_bind,
    Option.bind_some]
  cases loc.location with
  | some l =>
    refine ⟨_, rfl, remaps_of_release _ (some id) (Function.update_idem _ _ _) ?_ hreleased
      (by rintro _ ⟨⟩; exact ⟨rfl, rfl, rfl⟩)⟩
    cases loc.cancel <;> simp [completeRead, releaseBuffer]
  | none =>
    exact ⟨_, rfl, remaps_of_release none (some id) (Function.update_idem _ _ _) rfl hreleased
      (by rintro _ ⟨⟩)⟩

theorem remaps_closeSegment {wait : Option WaitId} {ignoreErrors throws : Bool}
    {submit : SubmitOutcome} (h : s.Mapped) (hloc : s.stream.segments n = some loc)
    (hsubmit : ∀ location, submit = .complete location → location = none)
    (hc : s.closeSegment loc wait ignoreErrors submit = (s', throws)) : Remaps n s s' := by
  have howned := h n loc hloc
  obtain rfl := howned.key
  unfold closeSegment at hc
  dsimp only at hc
  cases hid : loc.id with
  | none =>
    rw [hid] at hc
    obtain ⟨rfl, -⟩ := Prod.mk.inj hc
    have hcanceled : s.Owned loc.sequenceNumber { loc with id := none, cancel := true } :=
      howned.of_eq rfl hid.symm rfl
    exact remaps_registerWait hcanceled wait
  | some id =>
    rw [hid] at hc
    dsimp only at hc
    have hsubmitted : s.Owned loc.sequenceNumber { loc with sideId := some id, id := none } :=
      ⟨rfl, by rintro _ ⟨⟩, hid ▸ howned.id⟩
    cases submit with
    | failed =>
      dsimp only at hc
      have hkept : Remaps loc.sequenceNumber s { s with
          stream := s.stream.setSegment loc.sequenceNumber
            (some { loc with sideId := some id, id := none }) } :=
        remaps_of_segment rfl rfl (by rintro _ ⟨⟩; exact hsubmitted)
      split_ifs at hc
      · obtain ⟨rfl, -⟩ := Prod.mk.inj hc
        exact remaps_refl h _
      · split at hc
        · rename_i s'' hcomplete
          obtain ⟨rfl, -⟩ := Prod.mk.inj hc
          refine (hkept.trans (remaps_completeLocked (hsubmitted.congr ?_) ?_ (fun _ => rfl)
            hcomplete)).finishAppend _ 0
          · rfl
          · exact Function.update_self _ _ _
        · obtain ⟨rfl, -⟩ := Prod.mk.inj hc
          exact hkept
    | complete location =>
      obtain rfl := hsubmit location rfl
      obtain ⟨s'', hcomplete, hremaps⟩ := remaps_submitted howned hid
      dsimp only at hc
      rw [hcomplete] at hc
      obtain ⟨rfl, -⟩ := Prod.mk.inj hc
      exact hremaps.finishAppend _ 0
    | pending entryCount =>
      obtain ⟨rfl, -⟩ := Prod.mk.inj hc
      exact (remaps_registerWait hsubmitted wait).finishAppend _ entryCount

theorem remaps_close {session : SessionId} {wait : Option WaitId} {ignoreErrors throws : Bool}
    {submit : SubmitOutcome} (h : s.Mapped)
    (hsubmit : ∀ location, submit = .complete location → location = none)
    (hc : s.close session n wait ignoreErrors submit = some (s', throws)) : Remaps n s s' := by
  unfold close at hc
  rw [Option.bind_eq_bind] at hc
  obtain ⟨loc, hloc, hc⟩ := Option.bind_eq_some_iff.mp hc
  split_ifs at hc
  · exact remaps_closeSegment h hloc hsubmit (Option.some.inj hc)
  · obtain ⟨rfl, -⟩ := Prod.mk.inj (Option.some.inj hc)
    have howned := h n loc hloc
    exact remaps_of_segment rfl rfl
      (by rintro _ ⟨⟩; exact ⟨howned.key, howned.id, howned.side⟩)

/-- A number of the open list without a segment is passed over. -/
theorem remaps_closeReferences {session : SessionId} {wait : Option WaitId}
    {ignoreErrors throws : Bool} {submit : SubmitOutcome} (h : s.Mapped)
    (hsubmit : s.stream.segments n ≠ none →
      ∀ location, submit = .complete location → location = none)
    (hc : s.closeReferences session wait ignoreErrors submit n = (s', throws)) :
    Remaps n s s' ∧ (s.stream.segments n = none → s' = s) := by
  unfold closeReferences at hc
  cases hloc : s.stream.segments n with
  | none =>
    rw [hloc] at hc
    obtain ⟨rfl, -⟩ := Prod.mk.inj hc
    exact ⟨remaps_refl h n, fun _ => rfl⟩
  | some loc =>
    refine ⟨?_, by rintro ⟨⟩⟩
    rw [hloc] at hc
    dsimp only at hc
    split_ifs at hc
    · exact remaps_closeSegment h hloc (hsubmit (hloc ▸ Option.some_ne_none loc)) hc
    · obtain ⟨rfl, -⟩ := Prod.mk.inj hc
      have howned := h n loc hloc
      exact remaps_of_segment rfl rfl
        (by rintro _ ⟨⟩; exact ⟨howned.key, howned.id, howned.side⟩)
    · obtain ⟨rfl, -⟩ := Prod.mk.inj hc
      exact remaps_refl h n

theorem mapped_closeSession {session : SessionId} {wait : Option WaitId} {ignoreErrors : Bool}
    {submit : StreamSegmentId → SubmitOutcome} {openList rest : List StreamSegmentId}
    (h : s.Mapped) (hsubmit : ∀ m, s.stream.segments m ≠ none →
      ∀ location, submit m = .complete location → location = none)
    (hc : closeSession session wait ignoreErrors submit openList s = (s', rest)) :
    s'.Mapped := by
  induction openList generalizing s with
  | nil =>
    obtain ⟨rfl, -⟩ := Prod.mk.inj hc
    exact h
  | cons n openList ih =>
    unfold closeSession at hc
    cases hclosed : s.closeReferences session wait ignoreErrors (submit n) n with
    | mk s'' throws =>
      obtain ⟨hremaps, hsame⟩ := remaps_closeReferences h (hsubmit n) hclosed
      rw [hclosed] at hc
      cases throws with
      | true =>
        obtain ⟨rfl, -⟩ := Prod.mk.inj hc
        exact h.remaps hremaps
      | false =>
        refine ih (h.remaps hremaps) (fun m hm => hsubmit m fun hnone => hm ?_) hc
        by_cases hmn : m = n
        · subst hmn
          rw [hsame hnone]
          exact hnone
        · rw [hremaps.segments m hmn]
          exact hnone

end ServerState

namespace Execution

open ServerState

variable {e e' : Execution} {a : Action}

theorem complete_eq_none {loc : SegmentLocation} {submit : SubmitOutcome}
    (h : Submittable loc submit) (location : Option StorageLocation)
    (hs : submit = .complete location) : location = none := by
  subst hs
  exact h

theorem mapped_step (h : e.server.Mapped) (step : Step e a e') : e'.server.Mapped := by
  cases step with
  | @load location stream new added =>
    obtain ⟨hsegs, -⟩ := ServerStream.addSegment_of_none added new
    refine h.remaps (remaps_of_segment hsegs rfl ?_)
    rintro _ ⟨⟩
    exact ⟨rfl, by rintro _ ⟨⟩, by rintro _ ⟨⟩⟩
  | @allocate session n id append new free =>
    refine h.remaps (remaps_of_acquire rfl rfl free rfl ?_ (by rintro _ ⟨⟩))
    rintro _ ⟨⟩
    exact .inl rfl
  | encoded segment notLocated notWritable encoding link completed =>
    exact h.remaps (remaps_writerMain (h _ _ segment) segment notWritable link completed)
  | lookup unlocked other found => exact h.remaps (remaps_lookup h found)
  | skipAhead => exact h
  | @enterAhead o n loc outcome opening free first segment located closed needed allocatable =>
    have hmapped := h.remaps (remaps_beginOpen (h _ _ segment) true allocatable)
    split_ifs
    · exact hmapped
    · exact hmapped
  | leaveAhead opening entered first segment finished =>
    exact h.remaps (remaps_finishOpen (h _ _ segment) finished)
  | @enter o loc outcome opening free last awaiting segment allocatable =>
    have hmapped := h.remaps (remaps_beginOpen (h _ _ segment) false allocatable)
    split_ifs
    · exact hmapped
    · exact hmapped
  | leave opening free entered segment finished =>
    have hmapped := h.remaps (remaps_finishOpen (h _ _ segment) finished)
    split_ifs
    · exact hmapped
    · exact hmapped
  | ret opening free last stage =>
    split_ifs
    · exact h
    · exact h
  | @decoded n decode read =>
    dsimp only [tryProcessWorkItem]
    cases hread : e.server.readerMain n false decode with
    | none => exact h
    | some s =>
      obtain ⟨loc, hloc⟩ := exists_of_readerMain hread
      exact h.remaps (remaps_readerMain (h n loc hloc) hloc hread)
  | close segment submittable closed =>
    exact h.remaps (remaps_close h (complete_eq_none submittable) closed)
  | closeSession submittable closed =>
    refine mapped_closeSession h (fun m hm => ?_) closed
    obtain ⟨loc, hloc⟩ := Option.ne_none_iff_exists'.mp hm
    exact complete_eq_none (submittable m loc hloc)

end Execution

end Simutrace
