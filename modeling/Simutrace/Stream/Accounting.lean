import Simutrace.Stream.Closing

/-! # Reference accounting

The references of a session to a segment are its opens that succeeded less its
closes, as long as no segment loses its last references while it is being read
and no `open` ends with an exception after it took a reference.
-/

namespace Simutrace

def SegmentLocation.PrefetchInProgress (loc : SegmentLocation) : Prop :=
  loc.prefetched ∧ 0 < loc.referenceCount

instance (loc : SegmentLocation) : Decidable loc.PrefetchInProgress :=
  inferInstanceAs (Decidable (_ ∧ _))

namespace Execution

variable {e e' : Execution} {n : StreamSegmentId} {loc : SegmentLocation}

/-- The segment is being read, or an `open` has yet to take its reference to it. -/
def AccessInProgress (e : Execution) (n : StreamSegmentId) (loc : SegmentLocation) : Prop :=
  loc.sideId ≠ none ∨ loc.id ≠ none ∧ e.entered n ≠ none

/-- The references to a stored segment are accounted for by its opens and closes, with one more
for a read ahead in progress, and it has a buffer segment exactly as long as it needs one. -/
structure Accounted (e : Execution) (n : StreamSegmentId) (loc : SegmentLocation) : Prop where
  sessions : ∃ prefetch : Multiset SessionId,
    prefetch.card = (if loc.PrefetchInProgress then 1 else 0) ∧
      ∀ session, (loc.referenceMap.count session : ℤ) = e.balance n session + prefetch.count session
  count : loc.referenceCount = loc.referenceMap.card
  released : e.server.held n = ∅ ↔ loc.referenceCount = 0 ∧ ¬ e.AccessInProgress n loc

/-- No last reference to a segment is given back while it is being read, and no `open` throws an
exception after it took its reference. -/
def Harmless (e : Execution) : Action → Prop
  | .close session n _ _ _ => ∀ loc, e.server.stream.segments n = some loc → loc.location ≠ none →
      loc.referenceCount = 1 → session ∈ loc.referenceMap → loc.id ≠ none
  | .closeSession session _ _ _ => ∀ n loc, e.server.stream.segments n = some loc →
      loc.location ≠ none → session ∈ loc.referenceMap →
      loc.referenceCount = loc.referenceMap.count session → loc.id = none → loc.prefetched = true
  | .enterAhead .failed | .ret true => ∀ o ∈ e.opening, o.taken = false
  | _ => True

theorem Inv.balance_of_notMem_openList (h : Inv e) (hn : n ∉ e.server.stream.openList) :
    e.balance n = 0 := by
  have hlisted : e.server.stream.openList.count n = 0 := List.count_eq_zero.mpr hn
  rcases h n with hv | ⟨loc, hp⟩
  · exact congrArg SegmentView.balance hv
  · cases hp with
    | writing _ _ _ view | encoding _ _ _ view | prefetching _ _ _ view | loading _ _ _ view
    | opened _ _ _ view =>
      cases hlisted.symm.trans (congrArg SegmentView.listed view)
    | closed _ _ _ view | entering _ _ _ _ _ view | entered _ _ _ _ view =>
      exact congrArg SegmentView.balance view

theorem Inv.nodup_openList (h : Inv e) : e.server.stream.openList.Nodup := by
  rw [List.nodup_iff_count_le_one]
  intro n
  have hlisted : e.server.stream.openList.count n = (e.view n).listed := rfl
  rcases h n with hv | ⟨loc, hp⟩
  · rw [hlisted, hv]
    exact Nat.zero_le 1
  · cases hp with
    | writing _ _ _ view | encoding _ _ _ view | closed _ _ _ view | entering _ _ _ _ _ view
    | entered _ _ _ _ view | prefetching _ _ _ view | loading _ _ _ view | opened _ _ _ view =>
      simp [hlisted, view]

theorem inv_step {a : Action} (h : Inv e) (harmless : Harmless e a) (step : Step e a e') :
    Inv e' := by
  cases step with
  | load new added => exact inv_load h new added
  | allocate new free => exact inv_allocate h new free
  | encoded segment notLocated notWritable encoding link completed =>
    exact inv_encoded h segment notLocated notWritable encoding link completed
  | lookup unlocked other found =>
    obtain ⟨loc, segment, located, hfound⟩ := h.lookup_cases found
    rcases hfound with ⟨rfl, rfl, count⟩ | ⟨rfl, pos, waitList, hc⟩
    · exact inv_lookup_awaiting h unlocked segment located count rfl rfl
    · exact inv_lookup_handled h unlocked segment located pos hc rfl rfl
  | skipAhead opening free _ _ _ => exact inv_skipAhead h opening free
  | enterAhead opening free first segment located closed needed allocatable =>
    refine inv_enterAhead h opening free first segment located closed allocatable ?_
    rintro rfl
    exact harmless _ opening
  | leaveAhead opening entered first segment finished =>
    exact inv_leaveAhead h opening entered first segment finished
  | enter opening free last awaiting segment allocatable =>
    exact inv_enter h opening free last awaiting segment allocatable
  | leave opening free entered segment finished =>
    split
    · rename_i hnone
      exact inv_leave_closed h opening free entered free rfl segment hnone.1 hnone.2 finished
    · rename_i hsome
      exact inv_leave_taken h opening free entered free rfl segment hsome finished
  | ret opening free last stage =>
    refine inv_ret h opening free stage ?_
    rintro rfl
    exact harmless _ opening
  | decoded read => exact inv_decoded h read
  | close segment submittable closed =>
    exact inv_close h segment submittable closed (harmless _ segment)
  | @closeSession session _ _ submit _ rest submittable closed =>
    have hinv := inv_closeSession e.server.stream.openList h.nodup_openList h
      (fun n _ => ⟨submittable n, harmless n⟩) closed
    have hsame : (e.settle session fun n =>
        rest = [] ∨ n ∈ e.server.stream.openList ∧ n ∉ rest) =
        e.settle session fun n => n ∈ e.server.stream.openList ∧ n ∉ rest := by
      funext n t
      by_cases hn : n ∈ e.server.stream.openList
      · by_cases hrest : rest = [] <;> simp [settle, hn, hrest]
      · simp [settle, hn, congrFun (h.balance_of_notMem_openList hn) t]
    rw [hsame]
    exact hinv

theorem inv_run (run : Run Harmless e) : Inv e := by
  induction run with
  | new => exact inv_new
  | step _ meets step ih => exact inv_step ih meets step

theorem Inv.accounted (h : Inv e) (segment : e.server.stream.segments n = some loc)
    (located : loc.location ≠ none) : Accounted e n loc := by
  cases h.phase segment with
  | writing new _ _ _ | encoding new _ _ _ => exact (located new.new).elim
  | closed free unloaded side view =>
    obtain ⟨-, hheld, hbal, -, -, -⟩ := view_eq view
    refine ⟨⟨0, ?_, fun t => ?_⟩, ?_, ?_⟩
    · simp [SegmentLocation.PrefetchInProgress, free.count]
    · simp [free.map, hbal]
    · simp [free.count, free.map]
    · simp [hheld, free.count, AccessInProgress, unloaded, side]
  | entering free unloaded side flags _ view =>
    obtain ⟨-, hheld, hbal, -, -, -⟩ := view_eq view
    refine ⟨⟨0, ?_, fun t => ?_⟩, ?_, ?_⟩
    · simp [SegmentLocation.PrefetchInProgress, free.count]
    · simp [free.map, hbal]
    · simp [free.count, free.map]
    · simp [hheld, AccessInProgress, side]
  | entered free loaded side flags view =>
    obtain ⟨-, hheld, hbal, -, hent, -⟩ := view_eq view
    refine ⟨⟨0, ?_, fun t => ?_⟩, ?_, ?_⟩
    · simp [SegmentLocation.PrefetchInProgress, free.count]
    · simp [free.map, hbal]
    · simp [free.count, free.map]
    · simp [hheld, AccessInProgress, loaded, hent]
  | @prefetching id session _ ahead unloaded side view =>
    obtain ⟨-, hheld, hbal, -, -, -⟩ := view_eq view
    refine ⟨⟨{session}, ?_, fun t => ?_⟩, ?_, ?_⟩
    · simp [SegmentLocation.PrefetchInProgress, ahead.count, ahead.prefetched]
    · simp [ahead.map, hbal]
    · simp [ahead.count, ahead.map]
    · simp [hheld, AccessInProgress, side]
  | loading used _ _ view | opened used _ _ view =>
    obtain ⟨-, hheld, hbal, -, -, -⟩ := view_eq view
    refine ⟨⟨0, ?_, fun t => ?_⟩, used.count, ?_⟩
    · simp [SegmentLocation.PrefetchInProgress, used.prefetched]
    · rw [used.map, hbal]
      simp
    · simp [hheld, used.pos.ne']

def tenEntries : StorageLocation := ⟨0, fun _ => ⟨0, 9⟩, 64, 10⟩

end Execution

end Simutrace
