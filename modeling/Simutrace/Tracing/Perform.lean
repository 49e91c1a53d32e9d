import Simutrace.Tracing.Writer

/-! # Performing the steps of a run

A step that loses nothing is computed from its action, with the checks that allow
it. The conditions on all segments are checked for those that the stream has.
-/

namespace Simutrace

instance (d : TracedStream) (segment : BufferSegment) (submit : SubmitOutcome) :
    Decidable (d.Submits segment submit) :=
  match submit with
  | .failed => .isTrue trivial
  | .complete _ => inferInstanceAs (Decidable (_ = _))
  | .pending _ => inferInstanceAs (Decidable (_ ∧ _))

namespace Tracing

variable {d : TracedStream} (t : Tracing d)

def allWriting (p : StreamSegmentId → SegmentId → Bool) : Bool :=
  (List.range t.stream.size).all fun n =>
    match t.stream.place n with
    | some (.writing id) => p n id
    | _ => true

def submitsAll (memory : Option SessionId → SegmentId → BufferSegment)
    (submit : StreamSegmentId → SubmitOutcome) : Bool :=
  t.allWriting fun n id => d.Submits (memory none id) (submit n)

def keepsAll (ignoreErrors : Bool) (submit : StreamSegmentId → SubmitOutcome) : Bool :=
  t.allWriting fun n id =>
    match ignoreErrors, submit n with
    | true, .failed => (t.memory none id).rawEntryCount = 0
    | _, _ => true

/-- The step of an action that loses nothing, if it can be taken. A session gets the answer to an
`append`. -/
def perform : TraceAction → Option (Tracing d)
  | .getNextEntry handle =>
    if handle ∈ t.handles ∧ handle.requested = none ∧
        handle.entry + d.stype.entrySize ≤ d.segmentSize then
      some (t.getNextEntry handle)
    else none
  | .submitEntry handle entry =>
    handle.requested.bind fun offset =>
      if handle ∈ t.handles ∧ entry.length = d.stype.entrySize then
        some (t.submitEntry handle offset entry)
      else none
  | .release handle =>
    if handle ∈ t.handles ∧ d.shared handle.session = true then some (t.releaseHandle handle)
    else none
  | .append handle session submit =>
    (t.receive handle t.stream.getCurrentSegmentId).bind fun memory =>
      if t.handles = handle.toList ∧ handle.all (·.session = session) ∧
          t.submitsAll memory fun _ => submit then
        (t.writing.perform (.submitLast session none submit)).map fun w =>
          { t with writing := w, memory := memory, handles := t.otherHandles handle }
      else none
  | .closeHandle handle submit =>
    (t.receive (some handle) handle.sequenceNumber).bind fun memory =>
      if handle ∈ t.handles ∧ (t.submitsAll memory fun _ => submit) ∧
          (t.stream.segments handle.sequenceNumber).all fun loc => submit.Possible loc then
        (t.writing.server.close handle.session handle.sequenceNumber none false submit).map
          fun (s, throws) => { t with
            writing := t.writing.record s fun _ => submit
            memory := memory
            handles := if throws then t.handles else t.handles.erase handle }
      else none
  | .server (.allocateNext id) =>
    t.writing.appending.bind fun session =>
      (t.writing.perform (.allocateNext id)).map fun w => { t with
        writing := w
        memory := t.prepareSegment session true id
        handles := (t.initializeHandle session true id).toList ++ t.handles }
  | .server (.close session n wait ignoreErrors submit) =>
    if t.handles.all (·.sequenceNumber ≠ n) ∧ (t.submitsAll t.memory fun _ => submit) ∧
        t.keepsAll ignoreErrors fun _ => submit then
      (t.writing.perform (.close session n wait ignoreErrors submit)).map fun w =>
        { t with writing := w }
    else none
  | .server (.closeSession session wait ignoreErrors submit) =>
    if t.handles.all (·.session ≠ session) ∧ t.submitsAll t.memory submit ∧
        t.keepsAll ignoreErrors submit then
      (t.writing.perform (.closeSession session wait ignoreErrors submit)).map fun w =>
        { t with writing := w }
    else none
  | .server (.encoded n (some frame)) =>
    (d.codec.encode (t.content n)).bind fun stored =>
      if frame.rawEntryCount = t.writing.entryCount n ∧
          t.writing.Succeeds (.encoded n (some frame)) then
        (t.writing.perform (.encoded n (some frame))).map fun w => { t with
          writing := w
          stored := Function.update t.stored n (some stored) }
      else none
  | .server (.encoded _ none) | .server (.submitLast _ _ _) => none

variable {t} {t' : Tracing d} {a : TraceAction}

theorem of_allWriting {p : StreamSegmentId → SegmentId → Bool} (h : t.stream.Slots)
    (hall : t.allWriting p = true) {n : StreamSegmentId} {id : SegmentId}
    (hplace : t.stream.place n = some (.writing id)) : p n id = true := by
  obtain ⟨loc, hloc, -⟩ := ServerStream.place_eq_some.mp hplace
  have hn := h.lt_size n (by rw [hloc]; exact Option.some_ne_none loc)
  have hp := List.all_eq_true.mp hall n (List.mem_range.mpr hn)
  rwa [hplace] at hp

theorem submitsAll_sound {memory : Option SessionId → SegmentId → BufferSegment}
    {submit : StreamSegmentId → SubmitOutcome} (h : t.stream.Slots)
    (hall : t.submitsAll memory submit = true) : t.SubmitsAll memory submit :=
  fun _ _ hplace => of_decide_eq_true (of_allWriting h hall hplace)

theorem keepsAll_sound {ignoreErrors : Bool} {submit : StreamSegmentId → SubmitOutcome}
    (h : t.stream.Slots) (hall : t.keepsAll ignoreErrors submit = true) (n : StreamSegmentId) :
    t.Keeps ignoreErrors (submit n) n := by
  rintro rfl hfailed id hplace
  have hkeeps := of_allWriting h hall hplace
  rw [hfailed] at hkeeps
  exact of_decide_eq_true hkeeps

theorem losslessStep_perform (h : t.stream.Slots) (hperform : t.perform a = some t') :
    LosslessStep t a t' := by
  unfold perform at hperform
  cases a with
  | getNextEntry handle =>
    obtain ⟨⟨hopened, hsubmitted, hroom⟩, hnext⟩ := Option.ite_none_right_eq_some.mp hperform
    obtain rfl := Option.some.inj hnext
    exact ⟨.getNextEntry hopened hsubmitted hroom, trivial⟩
  | submitEntry handle entry =>
    obtain ⟨offset, hrequested, hnext⟩ := Option.bind_eq_some_iff.mp hperform
    obtain ⟨⟨hopened, hsize⟩, hnext⟩ := Option.ite_none_right_eq_some.mp hnext
    obtain rfl := Option.some.inj hnext
    exact ⟨.submitEntry hopened hrequested hsize, trivial⟩
  | release handle =>
    obtain ⟨⟨hopened, hshared⟩, hnext⟩ := Option.ite_none_right_eq_some.mp hperform
    obtain rfl := Option.some.inj hnext
    exact ⟨.release hopened, hshared⟩
  | append handle session submit =>
    obtain ⟨memory, hreceived, hnext⟩ := Option.bind_eq_some_iff.mp hperform
    obtain ⟨⟨hhandles, hsession, hsubmits⟩, hnext⟩ := Option.ite_none_right_eq_some.mp hnext
    obtain ⟨w, hw, rfl⟩ := Option.map_eq_some_iff.mp hnext
    refine ⟨.append (fun other hother => ?_) hreceived (submitsAll_sound h hsubmits)
      (Writing.step_perform h hw), fun other hother => ?_⟩
    · rw [Option.mem_def] at hother
      rw [hother] at hsession
      rw [hhandles, hother]
      exact ⟨List.mem_singleton_self other, of_decide_eq_true hsession⟩
    · rw [hhandles] at hother
      exact Option.mem_toList.mp hother
  | closeHandle handle submit =>
    obtain ⟨memory, hreceived, hnext⟩ := Option.bind_eq_some_iff.mp hperform
    obtain ⟨⟨hopened, hsubmits, hpossible⟩, hnext⟩ := Option.ite_none_right_eq_some.mp hnext
    obtain ⟨⟨s, throws⟩, hclosed, rfl⟩ := Option.map_eq_some_iff.mp hnext
    refine ⟨.closeHandle hopened hreceived (submitsAll_sound h hsubmits) (fun loc hloc => ?_)
      hclosed, trivial⟩
    rw [hloc] at hpossible
    exact of_decide_eq_true hpossible
  | server action =>
    cases action with
    | submitLast => cases hperform
    | allocateNext id =>
      obtain ⟨session, happending, hnext⟩ := Option.bind_eq_some_iff.mp hperform
      obtain ⟨w, hw, rfl⟩ := Option.map_eq_some_iff.mp hnext
      exact ⟨.allocateNext happending (Writing.step_perform h hw), trivial⟩
    | close session n wait ignoreErrors submit =>
      obtain ⟨⟨hother, hsubmits, hkeeps⟩, hnext⟩ := Option.ite_none_right_eq_some.mp hperform
      obtain ⟨w, hw, rfl⟩ := Option.map_eq_some_iff.mp hnext
      refine ⟨.close (submitsAll_sound h hsubmits) (Writing.step_perform h hw),
        fun handle hopened => ?_, keepsAll_sound h hkeeps n⟩
      exact of_decide_eq_true (List.all_eq_true.mp hother handle hopened)
    | closeSession session wait ignoreErrors submit =>
      obtain ⟨⟨hother, hsubmits, hkeeps⟩, hnext⟩ := Option.ite_none_right_eq_some.mp hperform
      obtain ⟨w, hw, rfl⟩ := Option.map_eq_some_iff.mp hnext
      refine ⟨.closeSession (submitsAll_sound h hsubmits) (Writing.step_perform h hw),
        fun handle hopened => ?_, keepsAll_sound h hkeeps⟩
      exact of_decide_eq_true (List.all_eq_true.mp hother handle hopened)
    | encoded n frame =>
      cases frame with
      | none => cases hperform
      | some frame =>
        obtain ⟨stored, hencoded, hnext⟩ := Option.bind_eq_some_iff.mp hperform
        obtain ⟨⟨hcount, hsucceeds⟩, hnext⟩ := Option.ite_none_right_eq_some.mp hnext
        obtain ⟨w, hw, rfl⟩ := Option.map_eq_some_iff.mp hnext
        exact ⟨.encoded hencoded hcount (Writing.step_perform h hw), hsucceeds⟩

end Tracing

end Simutrace
