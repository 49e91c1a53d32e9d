import Simutrace.Stream.Written

/-! # The writers of a stream

A segment that is written or encoded has one owner. The calls of a session close
its own segments, one after the other, and leave those of others alone.
-/

namespace Simutrace

inductive SegmentLocation.Written (n : StreamSegmentId) (loc : SegmentLocation) : Prop
  | writing (session : SessionId) (new : loc.New n session) (id : loc.id ≠ none)
      (side : loc.sideId = none)
  | encoding (session : SessionId) (new : loc.New n session) (id : loc.id = none)
  | stored (closed : loc.Closed n)

namespace ServerStream

/-- Every segment has at most one owner, and the one that was appended last is written. -/
structure Written (s : ServerStream) : Prop where
  slots : s.Slots
  segment : ∀ n, ∀ loc ∈ s.segments n, loc.Written n
  last : ∀ n, s.lastAppendSequenceNumber = some n → s.writable n = true

inductive Closings (session : SessionId) (submit : StreamSegmentId → SubmitOutcome) :
    ServerStream → ServerStream → Prop
  | refl (s : ServerStream) : Closings session submit s s
  | step {s s' s'' : ServerStream} {n : StreamSegmentId} {loc : SegmentLocation}
      {throws : Bool} (segment : s.segments n = some loc) (new : loc.New n session)
      (closes : s.ClosesNew n loc (submit n) throws s') (rest : Closings session submit s' s'') :
      Closings session submit s s''

variable {s s' : ServerStream} {n m : StreamSegmentId} {loc : SegmentLocation}
  {segment : Option SegmentLocation} {submit : SubmitOutcome} {session : SessionId}
  {submits : StreamSegmentId → SubmitOutcome} {throws : Bool}

theorem ClosesNew.of_ne (h : s.ClosesNew n loc submit throws s') (hm : m ≠ n) :
    s'.segments m = s.segments m := by
  cases h with
  | threw _ same => rw [same]
  | marked _ _ replaces => exact replaces.of_ne hm
  | dropped _ replaces => exact replaces.of_ne hm
  | encoding _ _ _ _ replaces => exact replaces.of_ne hm

theorem ClosesNew.location (h : s.ClosesNew n loc submit throws s') (hloc : s.segments n = some loc)
    (hnew : loc.location = none) : ∀ loc' ∈ s'.segments n, loc'.location = none := by
  intro loc' hloc'
  cases h with
  | threw _ same =>
    rw [same, hloc] at hloc'
    obtain rfl := Option.some.inj hloc'
    exact hnew
  | marked _ _ replaces =>
    rw [replaces.self] at hloc'
    obtain rfl := Option.some.inj hloc'
    exact hnew
  | dropped _ replaces =>
    rw [replaces.self] at hloc'
    cases hloc'
  | encoding _ _ _ _ replaces =>
    rw [replaces.self] at hloc'
    obtain rfl := Option.some.inj hloc'
    exact hnew

theorem writable_of_replaces (h : s.Replaces n segment s') :
    s'.writable m = if m = n then segment.any (·.writable) else s.writable m := by
  unfold writable
  by_cases hm : m = n
  · rw [if_pos hm, hm, h.self]
  · rw [if_neg hm, h.of_ne hm]

theorem Written.replaces (h : s.Written) (hr : s.Replaces n segment s') (hn : n < s.size)
    (hw : ∀ loc ∈ segment, loc.Written n)
    (hlast : ∀ m, s'.lastAppendSequenceNumber = some m → m ≠ n ∧
      s.lastAppendSequenceNumber = some m) : s'.Written where
  slots := by
    refine h.slots.of_update ?_ hr.size.ge hr.segments fun loc hloc => ?_
    · rw [hr.lastSequenceNumber, hr.size, h.slots.last]
    · refine ⟨hr.size ▸ hn, ?_⟩
      cases hw loc hloc with
      | writing _ new => exact new.key
      | encoding _ new => exact new.key
      | stored closed => exact closed.key
  segment m loc hloc := by
    by_cases hm : m = n
    · subst hm
      rw [hr.self] at hloc
      exact hw loc hloc
    · rw [hr.of_ne hm] at hloc
      exact h.segment m loc hloc
  last m hm := by
    obtain ⟨hne, hm⟩ := hlast m hm
    rw [writable_of_replaces hr, if_neg hne]
    exact h.last m hm

theorem Written.lt_size (h : s.Written) (hloc : s.segments n = some loc) : n < s.size :=
  h.slots.lt_size n (by rw [hloc]; exact Option.some_ne_none loc)

theorem EndsAppend.last {entryCount : ℕ} (h : s.EndsAppend n entryCount s')
    (hm : s'.lastAppendSequenceNumber = some m) :
    m ≠ n ∧ s.lastAppendSequenceNumber = some m := by
  rw [h.number] at hm
  split_ifs at hm with hn
  refine ⟨?_, hm⟩
  rintro rfl
  exact hn hm

theorem Written.closesNew (h : s.Written) (hloc : s.segments n = some loc)
    (hnew : loc.New n session) (hc : s.ClosesNew n loc submit throws s') : s'.Written := by
  have hn := h.lt_size hloc
  cases hc with
  | threw _ same => exact same ▸ h
  | marked waitList id replaces keeps =>
    refine h.replaces replaces hn ?_ fun m hm => ?_
    · rintro _ ⟨⟩
      exact .encoding session ⟨hnew.key, hnew.new, hnew.count, hnew.map, hnew.prefetched⟩ id
    · rw [keeps.number] at hm
      refine ⟨?_, hm⟩
      rintro rfl
      obtain ⟨loc', hloc', hw⟩ := writable_iff.mp (h.last m hm)
      obtain rfl := Option.some.inj (hloc.symm.trans hloc')
      exact (SegmentLocation.writable_iff.mp hw).2 id
  | dropped id replaces ends =>
    refine h.replaces replaces hn ?_ fun m hm => ends.last hm
    rintro _ ⟨⟩
  | encoding waitList id pos lt replaces ends =>
    refine h.replaces replaces hn ?_ fun m hm => ends.last hm
    rintro _ ⟨⟩
    exact .encoding session ⟨hnew.key, hnew.new, hnew.count, hnew.map, hnew.prefetched⟩ rfl

theorem ClosesNew.last_eq_none (h : s.ClosesNew n loc submit false s') (hid : loc.id ≠ none)
    (hlast : s.lastAppendSequenceNumber = some n) : s'.lastAppendSequenceNumber = none := by
  cases h with
  | threw throws => cases throws
  | marked _ id => exact absurd id hid
  | dropped _ _ ends => rw [ends.number, if_pos hlast]
  | encoding _ _ _ _ _ ends => rw [ends.number, if_pos hlast]

theorem Closings.written (hc : Closings session submits s s') (h : s.Written) : s'.Written := by
  induction hc with
  | refl => exact h
  | step segment new closes rest ih => exact ih (h.closesNew segment new closes)

theorem Closings.segment_eq (hc : Closings session submits s s')
    (hn : ∀ loc ∈ s.segments n, session ∉ loc.referenceMap) :
    s'.segments n = s.segments n := by
  induction hc with
  | refl => rfl
  | @step s₁ s₂ s₃ m loc _ segment new closes rest ih =>
    have hne : n ≠ m := by
      rintro rfl
      refine hn loc segment ?_
      rw [new.map]
      exact Multiset.mem_singleton_self session
    have heq := closes.of_ne hne
    rw [ih (by rwa [heq]), heq]

theorem Closings.trans {s'' : ServerStream} (h : Closings session submits s s')
    (h' : Closings session submits s' s'') : Closings session submits s s'' := by
  induction h with
  | refl => exact h'
  | step segment new closes rest ih => exact .step segment new closes (ih h')

theorem Closings.of_closesNew (hloc : s.segments n = some loc) (hnew : loc.New n session)
    (hc : s.ClosesNew n loc (submits n) throws s') : Closings session submits s s' :=
  .step hloc hnew hc (.refl s')

theorem Written.new_of_mem (h : s.Written) (hloc : s.segments n = some loc)
    (hm : session ∈ loc.referenceMap) : loc.New n session := by
  cases h.segment n loc hloc with
  | writing owner new | encoding owner new =>
    rw [new.map] at hm
    exact Multiset.mem_singleton.mp hm ▸ new
  | stored closed =>
    rw [closed.map] at hm
    exact absurd hm (Multiset.notMem_zero session)

theorem Written.exists_owner (h : s.Written) (hn : s.lastAppendSequenceNumber = some n) :
    ∃ loc owner, s.segments n = some loc ∧ loc.New n owner ∧ loc.id ≠ none ∧ loc.sideId = none := by
  obtain ⟨loc, hloc, hw⟩ := writable_iff.mp (h.last n hn)
  have hid := (SegmentLocation.writable_iff.mp hw).2
  refine ⟨loc, ?_⟩
  cases h.segment n loc hloc with
  | writing owner new id side => exact ⟨owner, hloc, new, id, side⟩
  | encoding owner new id => exact absurd id hid
  | stored closed => exact absurd closed.unloaded hid

theorem Written.stores (h : s.Written) {location : StorageLocation}
    (hs : s.Stores n location s') (hn : n < s.size) (hw : s.writable n = false) : s'.Written where
  slots := by
    obtain ⟨loc, hclosed, -, hsegs⟩ := hs.segments
    refine h.slots.of_update ?_ hs.size.ge hsegs ?_
    · rw [hs.lastSequenceNumber, hs.size, h.slots.last]
    · rintro _ ⟨⟩
      exact ⟨hs.size ▸ hn, hclosed.key⟩
  segment m loc' hloc' := by
    obtain ⟨loc, hclosed, -, hsegs⟩ := hs.segments
    rw [hsegs] at hloc'
    by_cases hm : m = n
    · subst hm
      rw [Function.update_self] at hloc'
      obtain rfl := Option.some.inj hloc'
      exact .stored hclosed
    · rw [Function.update_of_ne hm] at hloc'
      exact h.segment m loc' hloc'
  last m hm := by
    obtain ⟨loc, -, -, hsegs⟩ := hs.segments
    rw [hs.keeps.number] at hm
    have hlast := h.last m hm
    have hne : m ≠ n := by
      rintro rfl
      exact Bool.false_ne_true (hw.symm.trans hlast)
    rw [writable, hsegs, Function.update_of_ne hne]
    exact hlast

theorem Slots.nextSequenceNumber (h : s.Slots) : s.nextSequenceNumber = s.size := by
  rw [ServerStream.nextSequenceNumber, h.last]
  by_cases hsize : s.size = 0
  · rw [if_pos hsize, hsize]
  · rw [if_neg hsize]
    exact Nat.succ_pred hsize

def append (s : ServerStream) (session : SessionId) (id : SegmentId) : ServerStream :=
  { s.addSegmentLocation (.allocated s.size session id) with
    lastSequenceNumber := some s.size
    lastAppendSequenceNumber := some s.size }

theorem size_append (s : ServerStream) (session : SessionId) (id : SegmentId) :
    (s.append session id).size = s.size + 1 :=
  max_eq_right (Nat.le_succ _)

theorem segments_append (s : ServerStream) (session : SessionId) (id : SegmentId) :
    (s.append session id).segments =
      Function.update s.segments s.size (some (.allocated s.size session id)) := rfl

theorem Slots.append (h : s.Slots) (session : SessionId) (id : SegmentId) :
    (s.append session id).Slots := by
  refine h.of_update ?_ ?_ (segments_append s session id) ?_
  · rw [size_append, if_neg (Nat.succ_ne_zero _)]
    rfl
  · rw [size_append]
    exact Nat.le_succ _
  · rintro _ ⟨⟩
    rw [size_append]
    exact ⟨Nat.lt_succ_self _, rfl⟩

theorem Written.append (h : s.Written) (session : SessionId) (id : SegmentId) :
    (s.append session id).Written where
  slots := h.slots.append session id
  segment n loc hloc := by
    rw [segments_append] at hloc
    by_cases hn : n = s.size
    · subst hn
      rw [Function.update_self] at hloc
      obtain rfl := Option.some.inj hloc
      exact .writing session ⟨rfl, rfl, rfl, rfl, rfl⟩ (Option.some_ne_none id) rfl
    · rw [Function.update_of_ne hn] at hloc
      exact h.segment n loc hloc
  last n hn := by
    obtain rfl : s.size = n := Option.some.inj hn
    rw [writable, segments_append, Function.update_self]
    rfl

theorem Written.encoding (h : s.Written) (hloc : s.segments n = some loc)
    (hnew : loc.location = none) (hid : loc.id = none) : ∃ owner, loc.New n owner := by
  cases h.segment n loc hloc with
  | writing owner new id => exact absurd hid id
  | encoding owner new => exact ⟨owner, new⟩
  | stored closed => exact absurd hnew closed.located

end ServerStream

namespace ServerState

open ServerStream

variable {s s' : ServerState} {n : StreamSegmentId} {loc : SegmentLocation} {wait : Option WaitId}
  {ignoreErrors throws : Bool} {submit : SubmitOutcome} {session : SessionId}
  {submits : StreamSegmentId → SubmitOutcome}

theorem closesNew_close (h : s.stream.Written)
    (hpossible : ∀ loc, s.stream.segments n = some loc → submit.Possible loc)
    (hc : s.close session n wait ignoreErrors submit = some (s', throws)) :
    ∃ loc, s.stream.segments n = some loc ∧ loc.New n session ∧
      s.stream.ClosesNew n loc submit throws s'.stream := by
  obtain ⟨loc, hloc, hc⟩ := Option.bind_eq_some_iff.mp hc
  split_ifs at hc with hnone hone
  · have hnew := h.new_of_mem hloc (not_not.mp (not_or.mp hnone).2)
    exact ⟨loc, hloc, hnew,
      closesNew hloc hnew.key hnew.new (hpossible loc hloc) (Option.some.inj hc)⟩
  · exact absurd (h.new_of_mem hloc (not_not.mp (not_or.mp hnone).2)).count hone

theorem closings_close (h : s.stream.Written)
    (hpossible : ∀ loc, s.stream.segments n = some loc → submit.Possible loc)
    (hc : s.close session n wait ignoreErrors submit = some (s', throws)) :
    Closings session (fun _ => submit) s.stream s'.stream := by
  obtain ⟨loc, hloc, hnew, hcloses⟩ := closesNew_close h hpossible hc
  exact .of_closesNew hloc hnew hcloses

/-- The segment is left alone, or it belongs to the session and is closed. -/
theorem closesNew_closeReferences (h : s.stream.Written)
    (hpossible : ∀ loc, s.stream.segments n = some loc → submit.Possible loc)
    (hc : s.closeReferences session wait ignoreErrors submit n = (s', throws)) :
    s' = s ∧ throws = false ∧ (∀ loc ∈ s.stream.segments n, session ∉ loc.referenceMap) ∨
      ∃ loc, s.stream.segments n = some loc ∧ loc.New n session ∧
        s.stream.ClosesNew n loc submit throws s'.stream := by
  unfold closeReferences at hc
  split at hc
  · rename_i hnone
    obtain ⟨rfl, rfl⟩ := Prod.mk.inj hc
    refine .inl ⟨rfl, rfl, fun loc hloc => ?_⟩
    cases hnone.symm.trans hloc
  · rename_i loc hloc
    split_ifs at hc with hm hcount
    · have hnew := h.new_of_mem hloc hm
      exact .inr ⟨loc, hloc, hnew, closesNew hloc hnew.key hnew.new (hpossible loc hloc) hc⟩
    · have hnew := h.new_of_mem hloc hm
      refine absurd ?_ hcount
      rw [hnew.count, hnew.map, Multiset.count_singleton_self]
    · obtain ⟨rfl, rfl⟩ := Prod.mk.inj hc
      refine .inl ⟨rfl, rfl, fun loc' hloc' => ?_⟩
      obtain rfl := Option.some.inj (hloc.symm.trans hloc')
      exact hm

theorem closings_closeReferences (h : s.stream.Written)
    (hpossible : ∀ loc, s.stream.segments n = some loc → (submits n).Possible loc)
    (hc : s.closeReferences session wait ignoreErrors (submits n) n = (s', throws)) :
    Closings session submits s.stream s'.stream := by
  rcases closesNew_closeReferences h hpossible hc with ⟨rfl, -⟩ | ⟨loc, hloc, hnew, hcloses⟩
  · exact .refl _
  · exact .of_closesNew hloc hnew hcloses

theorem possible_of_closesNew {s s' : ServerStream} (hloc : s.segments n = some loc)
    (hnew : loc.location = none) (hc : s.ClosesNew n loc submit throws s')
    (hpossible : ∀ m loc, s.segments m = some loc → (submits m).Possible loc) (m : StreamSegmentId)
    (loc' : SegmentLocation) (hloc' : s'.segments m = some loc') : (submits m).Possible loc' := by
  by_cases hm : m = n
  · subst hm
    have hnew' := hc.location hloc hnew loc' hloc'
    have hold := hpossible m loc hloc
    cases hsubmit : submits m with
    | failed => trivial
    | complete location =>
      rw [hsubmit] at hold
      exact hold
    | pending entryCount =>
      rw [hsubmit] at hold
      exact ⟨hnew', hold.2⟩
  · rw [hc.of_ne hm] at hloc'
    exact hpossible m loc' hloc'

theorem possible_of_closings {s s' : ServerStream} (hc : Closings session submits s s')
    (hpossible : ∀ m loc, s.segments m = some loc → (submits m).Possible loc) :
    ∀ m loc, s'.segments m = some loc → (submits m).Possible loc := by
  induction hc with
  | refl => exact hpossible
  | step segment new closes rest ih =>
    exact ih (possible_of_closesNew segment new.new closes hpossible)

theorem closings_closeSession {openList rest : List StreamSegmentId} (h : s.stream.Written)
    (hpossible : ∀ n loc, s.stream.segments n = some loc → (submits n).Possible loc)
    (hc : closeSession session wait ignoreErrors submits openList s = (s', rest)) :
    Closings session submits s.stream s'.stream := by
  induction openList generalizing s with
  | nil =>
    obtain ⟨rfl, -⟩ := Prod.mk.inj hc
    exact .refl _
  | cons n openList ih =>
    unfold closeSession at hc
    split at hc
    · rename_i s₁ hclose
      obtain ⟨rfl, -⟩ := Prod.mk.inj hc
      exact closings_closeReferences h (hpossible n) hclose
    · rename_i s₁ hclose
      have hfirst := closings_closeReferences h (hpossible n) hclose
      exact hfirst.trans (ih (hfirst.written h) (possible_of_closings hfirst hpossible) hc)

/-- The submission of an `append` closes the last segment, which may belong to any session. -/
theorem closings_submitLast (h : s.stream.Written) (hpossible : ∀ n loc,
      s.stream.lastAppendSequenceNumber = some n → s.stream.segments n = some loc →
        submit.Possible loc)
    (hc : s.submitLast wait submit = some (s', throws)) :
    s' = s ∧ s.stream.lastAppendSequenceNumber = none ∨
      ∃ n loc owner, s.stream.lastAppendSequenceNumber = some n ∧
        s.stream.segments n = some loc ∧ loc.New n owner ∧ loc.id ≠ none ∧
        s.stream.ClosesNew n loc submit throws s'.stream := by
  unfold submitLast at hc
  cases hn : s.stream.lastAppendSequenceNumber with
  | none =>
    rw [hn] at hc
    exact .inl ⟨(Prod.mk.inj (Option.some.inj hc)).1.symm, rfl⟩
  | some n =>
    rw [hn] at hc
    obtain ⟨loc, owner, hloc, hnew, hid, -⟩ := h.exists_owner hn
    obtain ⟨loc', hloc', hc⟩ := Option.map_eq_some_iff.mp hc
    obtain rfl := Option.some.inj (hloc.symm.trans hloc')
    exact .inr ⟨n, loc, owner, rfl, hloc, hnew, hid,
      closesNew hloc hnew.key hnew.new (hpossible n loc hn hloc) hc⟩

end ServerState

end Simutrace
