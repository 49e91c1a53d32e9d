import Simutrace.Stream.Appended
import Simutrace.Stream.Mapping

/-! # Where the data of a segment is

The data of a segment is in the buffer segment that a session writes to, in the
one that an encoder reads, or in the store. A segment that is closed is handed to
the encoder with its data, or it is given up.
-/

namespace Simutrace

inductive DataPlace
  | writing (id : SegmentId)
  | encoding (id : SegmentId)
  | stored (location : StorageLocation)
  | lost

def SegmentLocation.place (loc : SegmentLocation) : DataPlace :=
  match loc.location, loc.id, loc.sideId with
  | some location, _, _ => .stored location
  | none, some id, _ => .writing id
  | none, none, some id => .encoding id
  | none, none, none => .lost

section

variable {loc : SegmentLocation} {id : SegmentId} {location : StorageLocation}

theorem SegmentLocation.place_of_location (h : loc.location = some location) :
    loc.place = .stored location := by
  simp [place, h]

theorem SegmentLocation.place_of_id (hnew : loc.location = none) (h : loc.id = some id) :
    loc.place = .writing id := by
  simp [place, hnew, h]

theorem SegmentLocation.place_of_side (hnew : loc.location = none) (hid : loc.id = none)
    (h : loc.sideId = some id) : loc.place = .encoding id := by
  simp [place, hnew, hid, h]

theorem SegmentLocation.place_eq_writing :
    loc.place = .writing id ↔ loc.location = none ∧ loc.id = some id := by
  unfold place
  cases loc.location <;> cases loc.id <;> cases loc.sideId <;> simp

theorem SegmentLocation.place_eq_encoding :
    loc.place = .encoding id ↔ loc.location = none ∧ loc.id = none ∧ loc.sideId = some id := by
  unfold place
  cases loc.location <;> cases loc.id <;> cases loc.sideId <;> simp

theorem SegmentLocation.place_eq_stored :
    loc.place = .stored location ↔ loc.location = some location := by
  unfold place
  cases loc.location <;> cases loc.id <;> cases loc.sideId <;> simp

theorem SegmentLocation.writable_iff_place :
    loc.writable = true ↔ ∃ id, loc.place = .writing id := by
  unfold place writable
  cases loc.location <;> cases loc.id <;> cases loc.sideId <;> simp

end

namespace ServerStream

def place (s : ServerStream) (n : StreamSegmentId) : Option DataPlace :=
  (s.segments n).map (·.place)

/-- What the calls that close segments do to one of them. A segment with entries is handed to the
encoder. One without entries is dropped, like one whose submission failed if errors are ignored. -/
inductive Closing (ignoreErrors : Bool) (submit : SubmitOutcome) (n : StreamSegmentId)
    (s s' : ServerStream) : Prop
  | kept (place : s'.place n = s.place n)
  | dropped {id : SegmentId} (writing : s.place n = some (.writing id)) (place : s'.place n = none)
      (submitted : submit = .complete none ∨ submit = .failed ∧ ignoreErrors = true)
  | handed {id : SegmentId} {entryCount : ℕ} (writing : s.place n = some (.writing id))
      (place : s'.place n = some (.encoding id)) (submitted : submit = .pending entryCount)

variable {s s' s'' : ServerStream} {n m : StreamSegmentId} {loc : SegmentLocation} {id : SegmentId}
  {location : StorageLocation} {submit : SubmitOutcome} {ignoreErrors throws : Bool}
  {submits : StreamSegmentId → SubmitOutcome} {entryCount : StreamSegmentId → ℕ}

theorem place_of_segment (h : s.segments n = some loc) : s.place n = some loc.place := by
  simp [place, h]

theorem place_of_none (h : s.segments n = none) : s.place n = none := by
  simp [place, h]

theorem place_congr (h : s'.segments n = s.segments n) : s'.place n = s.place n := by
  simp [place, h]

theorem place_eq_some {p : DataPlace} :
    s.place n = some p ↔ ∃ loc, s.segments n = some loc ∧ loc.place = p :=
  Option.map_eq_some_iff

theorem place_eq_none : s.place n = none ↔ s.segments n = none := Option.map_eq_none_iff

theorem writable_iff_place : s.writable n = true ↔ ∃ id, s.place n = some (.writing id) := by
  rw [writable_iff]
  constructor
  · rintro ⟨loc, hloc, hw⟩
    obtain ⟨id, hid⟩ := SegmentLocation.writable_iff_place.mp hw
    exact ⟨id, place_eq_some.mpr ⟨loc, hloc, hid⟩⟩
  · rintro ⟨id, hid⟩
    obtain ⟨loc, hloc, hplace⟩ := place_eq_some.mp hid
    exact ⟨loc, hloc, SegmentLocation.writable_iff_place.mpr ⟨id, hplace⟩⟩

/-- A segment is closed by its writer if its data is not in a buffer segment for writing. -/
theorem closed_iff_place :
    s.closed n = true ↔ ∃ p, s.place n = some p ∧ ∀ id, p ≠ .writing id := by
  rw [closed_iff]
  constructor
  · rintro ⟨loc, hloc, hw⟩
    refine ⟨loc.place, place_of_segment hloc, fun id hid => ?_⟩
    exact Bool.false_ne_true (hw.symm.trans (SegmentLocation.writable_iff_place.mpr ⟨id, hid⟩))
  · rintro ⟨p, hp, hne⟩
    obtain ⟨loc, hloc, rfl⟩ := place_eq_some.mp hp
    refine ⟨loc, hloc, ?_⟩
    by_contra hw
    obtain ⟨id, hid⟩ :=
      SegmentLocation.writable_iff_place.mp (Bool.eq_true_of_not_eq_false hw)
    exact hne id hid

theorem Closing.trans (h : s.Closing ignoreErrors submit n s')
    (h' : s'.Closing ignoreErrors submit n s'') : s.Closing ignoreErrors submit n s'' := by
  cases h with
  | kept hplace =>
    cases h' with
    | kept hplace' => exact .kept (hplace'.trans hplace)
    | dropped writing hplace' submitted => exact .dropped (hplace ▸ writing) hplace' submitted
    | handed writing hplace' submitted => exact .handed (hplace ▸ writing) hplace' submitted
  | dropped writing hplace submitted =>
    cases h' with
    | kept hplace' => exact .dropped writing (hplace'.trans hplace) submitted
    | dropped writing' => cases hplace.symm.trans writing'
    | handed writing' => cases hplace.symm.trans writing'
  | handed writing hplace submitted =>
    cases h' with
    | kept hplace' => exact .handed writing (hplace'.trans hplace) submitted
    | dropped writing' => cases hplace.symm.trans writing'
    | handed writing' => cases hplace.symm.trans writing'

theorem Closing.ne_lost (h : s.Closing ignoreErrors submit n s') (hn : s.place n ≠ some .lost) :
    s'.place n ≠ some .lost := by
  cases h with
  | kept hplace => rwa [hplace]
  | dropped _ hplace => simp [hplace]
  | handed _ hplace => simp [hplace]

/-- The control element of a segment that is handed to the encoder has the number of its entries;
those of the others stay as they are. -/
theorem Closing.recordCounts (h : s.Closing ignoreErrors (submits n) n s')
    (entryCount : StreamSegmentId → ℕ) :
    s.recordCounts s' submits entryCount n = entryCount n ∨
      ∃ id count, s.place n = some (.writing id) ∧ s'.place n = some (.encoding id) ∧
        submits n = .pending count ∧ s.recordCounts s' submits entryCount n = count := by
  unfold ServerStream.recordCounts
  cases h with
  | kept hplace =>
    refine .inl (if_neg ?_)
    rintro ⟨hw, hc⟩
    obtain ⟨id, hid⟩ := writable_iff_place.mp hw
    obtain ⟨p, hp, hne⟩ := closed_iff_place.mp hc
    exact hne id (Option.some.inj (hp.symm.trans (hplace.trans hid)))
  | dropped _ hplace =>
    refine .inl (if_neg ?_)
    rintro ⟨-, hc⟩
    obtain ⟨p, hp, -⟩ := closed_iff_place.mp hc
    cases hplace.symm.trans hp
  | @handed id count writing hplace submitted =>
    refine .inr ⟨id, count, writing, hplace, submitted, ?_⟩
    have hw : s.writable n = true := writable_iff_place.mpr ⟨id, writing⟩
    have hc : s'.closed n = true := closed_iff_place.mpr ⟨_, hplace, by simp⟩
    simp [hw, hc, submitted, SubmitOutcome.entryCount]

theorem Stores.place_eq (h : s.Stores n location s') (m : StreamSegmentId) :
    s'.place m = if m = n then some (.stored location.normalize) else s.place m := by
  obtain ⟨loc, -, hlocation, hsegments⟩ := h.segments
  split_ifs with hm
  · have hloc : s'.segments m = some loc := by rw [hsegments, hm, Function.update_self]
    rw [place_of_segment hloc, SegmentLocation.place_of_location hlocation]
  · exact place_congr (by rw [hsegments, Function.update_of_ne hm])

theorem ClosesNew.size_eq (h : s.ClosesNew n loc submit throws s') : s'.size = s.size := by
  cases h with
  | threw _ same => rw [same]
  | marked _ _ replaces | dropped _ replaces | encoding _ _ _ _ replaces => exact replaces.size

theorem Closings.size_eq {session : SessionId} (hc : Closings session submits s s') :
    s'.size = s.size := by
  induction hc with
  | refl => rfl
  | step segment new closes rest ih => exact ih.trans closes.size_eq

end ServerStream

namespace ServerState

open ServerStream

variable {s s' : ServerState} {n m : StreamSegmentId} {loc : SegmentLocation} {id : SegmentId}
  {wait : Option WaitId} {ignoreErrors throws : Bool} {submit : SubmitOutcome}
  {session : SessionId} {submits : StreamSegmentId → SubmitOutcome}

theorem segments_closeSegment (hid : loc.id = some id) (hnew : loc.location = none)
    (hloc : s.stream.segments loc.sequenceNumber = some loc)
    (hsubmit : (∃ count, submit = .pending count) ∨ submit = .failed ∧ ignoreErrors = false)
    (hc : s.closeSegment loc wait ignoreErrors submit = (s', throws)) :
    s'.stream.segments loc.sequenceNumber ≠ none := by
  unfold closeSegment at hc
  rw [hid] at hc
  rcases hsubmit with ⟨count, rfl⟩ | ⟨rfl, rfl⟩
  · obtain ⟨rfl, -⟩ := Prod.mk.inj hc
    unfold finishAppend
    cases wait <;> split <;> simp [registerWait, ServerStream.setSegment]
  · rw [hnew] at hc
    obtain ⟨rfl, -⟩ := Prod.mk.inj hc
    simp [hloc]

theorem closing_closeSegment (hloc : s.stream.segments n = some loc) (hnew : loc.New n session)
    (hpossible : submit.Possible loc)
    (hc : s.closeSegment loc wait ignoreErrors submit = (s', throws)) :
    s.stream.Closing ignoreErrors submit n s'.stream := by
  have hplace := place_of_segment hloc
  have hkept (hsubmit : (∃ count, submit = .pending count) ∨
      submit = .failed ∧ ignoreErrors = false) (hid : loc.id ≠ none) :
      s'.stream.segments n ≠ none := by
    obtain ⟨id, hid⟩ := Option.ne_none_iff_exists'.mp hid
    obtain rfl := hnew.key
    exact segments_closeSegment hid hnew.new hloc hsubmit hc
  cases closesNew hloc hnew.key hnew.new hpossible hc with
  | threw _ same => exact .kept (by rw [same])
  | marked waitList hid replaces =>
    refine .kept ?_
    rw [place_of_segment replaces.self, hplace]
    rfl
  | dropped hid replaces =>
    obtain ⟨id, hid'⟩ := Option.ne_none_iff_exists'.mp hid
    have hwriting : s.stream.place n = some (.writing id) := by
      rw [hplace, SegmentLocation.place_of_id hnew.new hid']
    refine .dropped hwriting (place_of_none replaces.self) ?_
    cases submit with
    | pending count => exact absurd replaces.self (hkept (.inl ⟨count, rfl⟩) hid)
    | complete location =>
      obtain rfl : location = none := hpossible
      exact .inl rfl
    | failed =>
      cases ignoreErrors with
      | true => exact .inr ⟨rfl, rfl⟩
      | false => exact absurd replaces.self (hkept (.inr ⟨rfl, rfl⟩) hid)
  | encoding waitList hid pos lt replaces =>
    obtain ⟨id, hid'⟩ := Option.ne_none_iff_exists'.mp hid
    have hwriting : s.stream.place n = some (.writing id) := by
      rw [hplace, SegmentLocation.place_of_id hnew.new hid']
    cases submit with
    | failed | complete location => exact absurd pos (lt_irrefl 0)
    | pending count =>
      refine .handed hwriting ?_ rfl
      rw [place_of_segment replaces.self]
      exact congrArg some (SegmentLocation.place_of_side hnew.new rfl hid')

/-- A call that throws an exception has no effect on a segment that is written. -/
theorem closeSegment_of_throws (hnew : loc.New n session) (hid : loc.id = some id)
    (hpossible : submit.Possible loc)
    (hc : s.closeSegment loc wait ignoreErrors submit = (s', true)) : s' = s := by
  unfold closeSegment at hc
  rw [hid] at hc
  dsimp only at hc
  cases submit with
  | failed =>
    dsimp only at hc
    split_ifs at hc
    · exact (Prod.mk.inj hc).1.symm
    · obtain ⟨s'', hs, -⟩ := @replaces_completeLocked s loc.sequenceNumber
        { loc with sideId := some id, id := none }
        { s with
          stream := s.stream.setSegment loc.sequenceNumber
            (some { loc with sideId := some id, id := none }) } false true rfl rfl hnew.new
      rw [hs] at hc
      cases (Prod.mk.inj hc).2
  | complete location =>
    obtain rfl : location = none := hpossible
    dsimp only at hc
    obtain ⟨s'', hs, -⟩ := @replaces_completeLocked s loc.sequenceNumber
      { loc with sideId := some id, id := none }
      { s with
        stream := s.stream.setSegment loc.sequenceNumber
          (some { loc with sideId := some id, id := none })
        buffer := releaseBuffer s.buffer (some id) } true true rfl rfl hnew.new
    rw [hs] at hc
    cases (Prod.mk.inj hc).2
  | pending count => cases (Prod.mk.inj hc).2

theorem close_of_throws (h : s.stream.Written)
    (hpossible : ∀ loc, s.stream.segments n = some loc → submit.Possible loc)
    (hwriting : s.stream.place n = some (.writing id))
    (hc : s.close session n wait ignoreErrors submit = some (s', true)) : s' = s := by
  obtain ⟨loc, hloc, hc⟩ := Option.bind_eq_some_iff.mp hc
  obtain ⟨loc', hloc', hplace⟩ := place_eq_some.mp hwriting
  obtain rfl := Option.some.inj (hloc.symm.trans hloc')
  split_ifs at hc with hnone hone
  · have hnew := h.new_of_mem hloc (not_not.mp (not_or.mp hnone).2)
    exact closeSegment_of_throws hnew (SegmentLocation.place_eq_writing.mp hplace).2
      (hpossible loc hloc) (Option.some.inj hc)
  · cases (Prod.mk.inj (Option.some.inj hc)).2

theorem closing_close (h : s.stream.Written)
    (hpossible : ∀ loc, s.stream.segments n = some loc → submit.Possible loc)
    (hc : s.close session n wait ignoreErrors submit = some (s', throws)) :
    (∀ m, s.stream.Closing ignoreErrors submit m s'.stream) ∧
      ∀ m ≠ n, s'.stream.segments m = s.stream.segments m := by
  obtain ⟨loc, hloc, hc⟩ := Option.bind_eq_some_iff.mp hc
  split_ifs at hc with hnone hone
  · have hnew := h.new_of_mem hloc (not_not.mp (not_or.mp hnone).2)
    have hclose := Option.some.inj hc
    have hothers (m : StreamSegmentId) (hm : m ≠ n) :
        s'.stream.segments m = s.stream.segments m :=
      (closesNew hloc hnew.key hnew.new (hpossible loc hloc) hclose).of_ne hm
    refine ⟨fun m => ?_, hothers⟩
    by_cases hm : m = n
    · subst hm
      exact closing_closeSegment hloc hnew (hpossible loc hloc) hclose
    · exact .kept (place_congr (hothers m hm))
  · exact absurd (h.new_of_mem hloc (not_not.mp (not_or.mp hnone).2)).count hone

theorem closing_closeReferences (h : s.stream.Written)
    (hpossible : ∀ loc, s.stream.segments n = some loc → (submits n).Possible loc)
    (hc : s.closeReferences session wait ignoreErrors (submits n) n = (s', throws))
    (m : StreamSegmentId) : s.stream.Closing ignoreErrors (submits m) m s'.stream := by
  unfold closeReferences at hc
  split at hc
  · obtain ⟨rfl, -⟩ := Prod.mk.inj hc
    exact .kept rfl
  · rename_i loc hloc
    split_ifs at hc with hm hcount
    · have hnew := h.new_of_mem hloc hm
      by_cases hmn : m = n
      · subst hmn
        exact closing_closeSegment hloc hnew (hpossible loc hloc) hc
      · refine .kept (place_congr ?_)
        exact (closesNew hloc hnew.key hnew.new (hpossible loc hloc) hc).of_ne hmn
    · have hnew := h.new_of_mem hloc hm
      refine absurd ?_ hcount
      rw [hnew.count, hnew.map, Multiset.count_singleton_self]
    · obtain ⟨rfl, -⟩ := Prod.mk.inj hc
      exact .kept rfl

theorem closing_closeSession {openList rest : List StreamSegmentId} (h : s.stream.Written)
    (hpossible : ∀ n loc, s.stream.segments n = some loc → (submits n).Possible loc)
    (hc : closeSession session wait ignoreErrors submits openList s = (s', rest))
    (m : StreamSegmentId) : s.stream.Closing ignoreErrors (submits m) m s'.stream := by
  induction openList generalizing s with
  | nil =>
    obtain ⟨rfl, -⟩ := Prod.mk.inj hc
    exact .kept rfl
  | cons n openList ih =>
    unfold closeSession at hc
    split at hc
    · rename_i s₁ hclose
      obtain ⟨rfl, -⟩ := Prod.mk.inj hc
      exact closing_closeReferences h (hpossible n) hclose m
    · rename_i s₁ hclose
      have hfirst := closings_closeReferences h (hpossible n) hclose
      have hrest := ih (hfirst.written h) (possible_of_closings hfirst hpossible) hc
      exact (closing_closeReferences h (hpossible n) hclose m).trans hrest

theorem closing_submitLast (h : s.stream.Written) (hpossible : ∀ n loc,
      s.stream.lastAppendSequenceNumber = some n → s.stream.segments n = some loc →
        submit.Possible loc)
    (hc : s.submitLast wait submit = some (s', throws)) (m : StreamSegmentId) :
    s.stream.Closing false submit m s'.stream := by
  unfold submitLast at hc
  cases hn : s.stream.lastAppendSequenceNumber with
  | none =>
    rw [hn] at hc
    obtain ⟨rfl, -⟩ := Prod.mk.inj (Option.some.inj hc)
    exact .kept rfl
  | some n =>
    rw [hn] at hc
    obtain ⟨loc, owner, hloc, hnew, -⟩ := h.exists_owner hn
    obtain ⟨loc', hloc', hclose⟩ := Option.map_eq_some_iff.mp hc
    obtain rfl := Option.some.inj (hloc.symm.trans hloc')
    by_cases hmn : m = n
    · subst hmn
      exact closing_closeSegment hloc hnew (hpossible m loc hn hloc) hclose
    · refine .kept (place_congr ?_)
      exact (closesNew hloc hnew.key hnew.new (hpossible n loc hn hloc) hclose).of_ne hmn

theorem Mapped.buffer_of_place (h : s.Mapped)
    (hplace : s.stream.place n = some (.writing id) ∨ s.stream.place n = some (.encoding id)) :
    s.buffer id = some n := by
  rcases hplace with hplace | hplace
  · obtain ⟨loc, hloc, hp⟩ := place_eq_some.mp hplace
    exact (h n loc hloc).id id (SegmentLocation.place_eq_writing.mp hp).2
  · obtain ⟨loc, hloc, hp⟩ := place_eq_some.mp hplace
    exact (h n loc hloc).side id (SegmentLocation.place_eq_encoding.mp hp).2.2

end ServerState

namespace Writing

open ServerState

variable {w w' : Writing} {a : WriteAction} {n : StreamSegmentId} {loc : SegmentLocation}

theorem complete_eq_none {submit : SubmitOutcome} (h : submit.Possible loc)
    (location : Option StorageLocation) (hs : submit = .complete location) : location = none := by
  subst hs
  exact h

theorem mapped_submitLast {s s' : ServerState} {wait : Option WaitId} {submit : SubmitOutcome}
    {throws : Bool} (h : s.Mapped) (hpossible : ∀ n loc,
      s.stream.lastAppendSequenceNumber = some n → s.stream.segments n = some loc →
        submit.Possible loc)
    (hc : s.submitLast wait submit = some (s', throws)) : s'.Mapped := by
  unfold submitLast at hc
  cases hn : s.stream.lastAppendSequenceNumber with
  | none =>
    rw [hn] at hc
    obtain ⟨rfl, -⟩ := Prod.mk.inj (Option.some.inj hc)
    exact h
  | some n =>
    rw [hn] at hc
    obtain ⟨loc, hloc, hclose⟩ := Option.map_eq_some_iff.mp hc
    exact h.remaps (remaps_closeSegment h hloc (complete_eq_none (hpossible n loc hn hloc)) hclose)

/-- The buffer segments of a stream stay in use while it is written. -/
theorem mapped_step (h : w.server.Mapped) (step : Step w a w') : w'.server.Mapped := by
  cases step with
  | submitLast unlocked possible submitted => exact mapped_submitLast h possible submitted
  | @allocateNext session id appending free =>
    unfold allocateNext
    cases id with
    | none => exact h
    | some id =>
      dsimp only
      split_ifs
      · exact h
      · refine h.remaps (remaps_of_acquire rfl rfl (free id rfl) rfl ?_ (by rintro _ ⟨⟩))
        rintro _ ⟨⟩
        exact .inl rfl
  | @close session n wait ignoreErrors throws submit s possible closed =>
    obtain ⟨loc, hloc, -⟩ := Option.bind_eq_some_iff.mp closed
    exact h.remaps (remaps_close h (complete_eq_none (possible loc hloc)) closed)
  | closeSession possible closed =>
    refine mapped_closeSession h (fun m hm => ?_) closed
    obtain ⟨loc, hloc⟩ := Option.ne_none_iff_exists'.mp hm
    exact complete_eq_none (possible m loc hloc)
  | @encoded n frame loc s segment encoding completed =>
    refine h.remaps (remaps_writerMain (h _ _ segment) segment encoding.2 ?_ completed)
    intro l hl
    obtain ⟨f, -, rfl⟩ := Option.map_eq_some_iff.mp hl
    rfl

end Writing

end Simutrace
