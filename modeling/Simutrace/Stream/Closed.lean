import Simutrace.Stream.Writers

/-! # Closed segments

A segment is closed when its writer has handed it to the encoder. Closing others
and the end of encodings that succeed keep it so, with its entry count.
-/

namespace Simutrace

namespace ServerStream

variable {s s' s'' : ServerStream} {n m : StreamSegmentId} {loc : SegmentLocation}
  {submits : StreamSegmentId → SubmitOutcome} {session : SessionId}
  {entryCount : StreamSegmentId → ℕ} {throws : Bool}

theorem writable_eq_false (h : s.closed n = true) : s.writable n = false := by
  obtain ⟨loc, hloc, hw⟩ := closed_iff.mp h
  rw [writable, hloc, Option.any_some, hw]

theorem closed_of_replaces {segment : Option SegmentLocation} (h : s.Replaces n segment s') :
    s'.closed m = if m = n then segment.any (!·.writable) else s.closed m := by
  unfold closed
  by_cases hm : m = n
  · rw [if_pos hm, hm, h.self]
  · rw [if_neg hm, h.of_ne hm]

theorem writable_congr (h : s'.segments m = s.segments m) : s'.writable m = s.writable m := by
  unfold writable
  rw [h]

theorem closed_congr (h : s'.segments m = s.segments m) : s'.closed m = s.closed m := by
  unfold closed
  rw [h]

theorem ClosesNew.writable_imp {submit : SubmitOutcome} (h : s.ClosesNew n loc submit throws s')
    (hm : s'.writable m = true) : s.writable m = true := by
  by_cases hmn : m = n
  · subst hmn
    cases h with
    | threw _ same => exact same ▸ hm
    | marked waitList id replaces =>
      rw [writable_of_replaces replaces, if_pos rfl] at hm
      exact absurd id (SegmentLocation.writable_iff.mp hm).2
    | dropped id replaces =>
      rw [writable_of_replaces replaces, if_pos rfl] at hm
      cases hm
    | encoding waitList id pos lt replaces =>
      rw [writable_of_replaces replaces, if_pos rfl] at hm
      exact absurd rfl (SegmentLocation.writable_iff.mp hm).2
  · rwa [writable_congr (h.of_ne hmn)] at hm

theorem writable_of_segment (hloc : s.segments n = some loc) : s.writable n = loc.writable := by
  rw [writable, hloc, Option.any_some]

theorem closed_of_segment (hloc : s.segments n = some loc) : s.closed n = !loc.writable := by
  rw [closed, hloc, Option.any_some]

theorem closed_eq_false_of_none (hn : s.segments n = none) : s.closed n = false := by
  rw [closed, hn, Option.any_none]

theorem segments_eq_none (hw : ¬ s.writable n = true) (hc : ¬ s.closed n = true) :
    s.segments n = none := by
  cases hloc : s.segments n with
  | none => rfl
  | some loc =>
    rw [writable_of_segment hloc] at hw
    rw [closed_of_segment hloc] at hc
    simp [hw] at hc

theorem writable_iff_of_new (h : loc.New n session) : loc.writable = true ↔ loc.id ≠ none := by
  rw [SegmentLocation.writable_iff, and_iff_right h.new]

theorem ClosesNew.closed_imp {submit : SubmitOutcome} (h : s.ClosesNew n loc submit throws s')
    (hloc : s.segments n = some loc) (hnew : loc.New n session) (hm : s.closed m = true) :
    s'.closed m = true := by
  by_cases hmn : m = n
  · subst hmn
    have hw : s.writable m = false := writable_eq_false hm
    rw [writable_of_segment hloc] at hw
    have hid : ¬ loc.id ≠ none := fun hid =>
      Bool.false_ne_true (hw.symm.trans ((writable_iff_of_new hnew).mpr hid))
    cases h with
    | threw _ same => exact same ▸ hm
    | marked waitList id replaces =>
      rw [closed_of_replaces replaces, if_pos rfl]
      exact congrArg (!·) hw
    | dropped id => exact absurd id hid
    | encoding waitList id => exact absurd id hid
  · rwa [closed_congr (h.of_ne hmn)]

theorem ClosesNew.none_imp {submit : SubmitOutcome} (h : s.ClosesNew n loc submit throws s')
    (hloc : s.segments n = some loc) (hm : s.segments m = none) : s'.segments m = none := by
  have hmn : m ≠ n := by
    rintro rfl
    cases hm.symm.trans hloc
  rw [h.of_ne hmn, hm]

theorem Closings.closed_imp (hc : Closings session submits s s') (hm : s.closed m = true) :
    s'.closed m = true := by
  induction hc with
  | refl => exact hm
  | step segment new closes rest ih => exact ih (closes.closed_imp segment new hm)

theorem Closings.none_imp (hc : Closings session submits s s') (hm : s.segments m = none) :
    s'.segments m = none := by
  induction hc with
  | refl => exact hm
  | step segment new closes rest ih => exact ih (closes.none_imp segment hm)

/-! ## Recorded entry counts -/

theorem recordCounts_of_closed (h : ∀ n, s'.closed n = s.closed n) :
    s.recordCounts s' submits entryCount = entryCount := by
  funext n
  unfold recordCounts
  rw [if_neg]
  rintro ⟨hw, hc⟩
  rw [h] at hc
  exact Bool.false_ne_true ((writable_eq_false hc).symm.trans hw)

theorem recordCounts_trans (hcloses : s.ClosesNew n loc (submits n) throws s')
    (hc : Closings session submits s' s'') :
    s'.recordCounts s'' submits (s.recordCounts s' submits entryCount) =
      s.recordCounts s'' submits entryCount := by
  funext m
  unfold recordCounts
  by_cases hw : s.writable m = true
  · by_cases hclosed : s'.closed m = true
    · simp [hw, hclosed, hc.closed_imp hclosed, writable_eq_false hclosed]
    · by_cases hw' : s'.writable m = true
      · simp [hw, hw', hclosed]
      · have hnone : s''.segments m = none := hc.none_imp (segments_eq_none hw' hclosed)
        simp [hw, hw', hclosed, closed_eq_false_of_none hnone]
  · have hw' : ¬ s'.writable m = true := fun h => hw (hcloses.writable_imp h)
    simp [hw, hw']

theorem ClosesNew.last_eq_none_of (h : s.ClosesNew n loc (submits n) throws s')
    (hlast : s.lastAppendSequenceNumber = none) : s'.lastAppendSequenceNumber = none := by
  cases h with
  | threw _ same => rw [same, hlast]
  | marked _ _ _ keeps => rw [keeps.number, hlast]
  | dropped _ _ ends => rw [ends.number, hlast, if_neg (Option.some_ne_none n).symm]
  | encoding _ _ _ _ _ ends => rw [ends.number, hlast, if_neg (Option.some_ne_none n).symm]

theorem Closings.last_eq_none (hc : Closings session submits s s')
    (hlast : s.lastAppendSequenceNumber = none) : s'.lastAppendSequenceNumber = none := by
  induction hc with
  | refl => exact hlast
  | step segment new closes rest ih => exact ih (closes.last_eq_none_of hlast)

end ServerStream

end Simutrace
