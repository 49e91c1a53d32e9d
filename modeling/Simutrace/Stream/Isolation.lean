import Simutrace.Stream.Writers

/-! # Sessions that append to one stream

The segment that was appended last belongs to the session that appended it. The
next `append` submits it, whichever session that comes from.
-/

namespace Simutrace

namespace Writing

variable {w w' : Writing} {a : WriteAction} {l : List (Transition.Taken Writing WriteAction)}

/-- A stream that is not in use. Segments may have been loaded into it. -/
structure Initial (w : Writing) : Prop where
  slots : w.server.stream.Slots
  stored : ∀ n, ∀ loc ∈ w.server.stream.segments n, loc.Closed n
  last : w.server.stream.lastAppendSequenceNumber = none
  appending : w.appending = none

/-- The session that a step is made for; the encoders work for none. -/
def caller (w : Writing) : WriteAction → Option SessionId
  | .submitLast session _ _ | .close session _ _ _ _ | .closeSession session _ _ _ => some session
  | .allocateNext _ => w.appending
  | .encoded _ _ => none

/-- What `append` asserts of the segment that was appended last. -/
def AppendAsserts (s : ServerStream) (session : SessionId) : Prop :=
  ∀ n, s.lastAppendSequenceNumber = some n → n < s.size ∧ ∃ loc, s.segments n = some loc ∧
    loc.id ≠ none ∧ loc.sideId = none ∧ loc.referenceCount = 1 ∧ loc.referenceMap = {session}

/-- The assertions hold, and segments that sessions write to are left alone by all others. -/
structure Isolated (x : Transition.Taken Writing WriteAction) : Prop where
  asserts : ∀ session wait submit, x.label = .submitLast session wait submit →
    AppendAsserts x.before.server.stream session
  keeps : ∀ n loc session, x.before.server.stream.segments n = some loc → loc.writable = true →
    session ∈ loc.referenceMap → x.before.caller x.label ≠ some session →
      x.after.server.stream.segments n = some loc

/-- An `append` comes from the session that the last segment belongs to, if there is one. -/
def AppendsOwn (x : Transition.Taken Writing WriteAction) : Prop :=
  ∀ session wait submit n loc, x.label = .submitLast session wait submit →
    x.before.server.stream.lastAppendSequenceNumber = some n →
      x.before.server.stream.segments n = some loc → session ∈ loc.referenceMap

instance : DecidablePred AppendsOwn := fun x =>
  let last := x.before.server.stream.lastAppendSequenceNumber.bind x.before.server.stream.segments
  decidable_of_iff ((match x.label with
      | .submitLast session _ _ => last.all fun loc => session ∈ loc.referenceMap
      | _ => true) = true) (by
    unfold AppendsOwn
    cases x.label with
    | submitLast session wait submit =>
      simp only [last, Option.all_eq_true, Option.bind_eq_some_iff, decide_eq_true_iff]
      constructor
      · rintro h _ _ _ n loc ⟨⟩ hn hloc
        exact h loc ⟨n, hn, hloc⟩
      · rintro h loc ⟨n, hn, hloc⟩
        exact h session wait submit n loc rfl hn hloc
    | _ => simp)

theorem Initial.written (h : w.Initial) : w.server.stream.Written where
  slots := h.slots
  segment n loc hloc := .stored (h.stored n loc hloc)
  last n hn := by cases h.last.symm.trans hn

theorem server_allocateNext {session : SessionId} {id : Option SegmentId}
    (h : w.server.stream.Written) :
    (w.allocateNext session id).server.stream = w.server.stream ∨
      ∃ i, (w.allocateNext session id).server.stream = w.server.stream.append session i := by
  unfold allocateNext
  cases id with
  | none => exact .inl rfl
  | some id =>
    dsimp only
    split_ifs
    · exact .inl rfl
    · refine .inr ⟨id, ?_⟩
      rw [h.slots.nextSequenceNumber]
      rfl

theorem encoded_cases {n : StreamSegmentId} {frame : Option Frame} {loc : SegmentLocation}
    {s : ServerState} (h : w.server.stream.Written)
    (segment : w.server.stream.segments n = some loc)
    (encoding : loc.location = none ∧ loc.id = none)
    (completed : w.server.writerMain n (frame.map (w.makeStorageLocation n)) = some s) :
    (∃ f, frame = some f ∧ w.server.stream.Stores n (w.makeStorageLocation n f) s.stream) ∨
      (∀ f ∈ frame, ¬ w.server.stream.LocationAccepted (w.makeStorageLocation n f)) ∧
        w.server.stream.Replaces n none s.stream ∧ w.server.stream.KeepsAppend s.stream := by
  obtain ⟨owner, hnew⟩ := h.encoding segment encoding.1 encoding.2
  have hlink : ∀ l ∈ frame.map (w.makeStorageLocation n), l.sequenceNumber = n := by
    intro l hl
    obtain ⟨f, -, rfl⟩ := Option.map_eq_some_iff.mp hl
    rfl
  rcases ServerState.stores_or_replaces segment hnew.key encoding.1 encoding.2 (h.lt_size segment)
    hlink completed with ⟨l, hl, hstores⟩ | ⟨hrejected, hreplaces⟩
  · obtain ⟨f, hf, rfl⟩ := Option.map_eq_some_iff.mp hl
    exact .inl ⟨f, hf, hstores⟩
  · exact .inr ⟨fun f hf => hrejected _ (Option.mem_map_of_mem _ hf), hreplaces⟩

theorem written_step (h : w.server.stream.Written) (step : Step w a w') :
    w'.server.stream.Written := by
  cases step with
  | submitLast unlocked possible submitted =>
    rcases ServerState.closings_submitLast h possible submitted with
      ⟨rfl, -⟩ | ⟨n, loc, owner, -, hloc, hnew, -, hc⟩
    · exact h
    · exact h.closesNew hloc hnew hc
  | allocateNext appending free =>
    rcases server_allocateNext h with heq | ⟨i, heq⟩ <;> rw [heq]
    · exact h
    · exact h.append _ i
  | close possible closed => exact (ServerState.closings_close h possible closed).written h
  | closeSession possible closed =>
    exact (ServerState.closings_closeSession h possible closed).written h
  | @encoded n frame loc s segment encoding completed =>
    have hwritable : w.server.stream.writable n = false := by
      rw [ServerStream.writable, segment, Option.any_some, SegmentLocation.writable, encoding.2]
      exact Bool.and_false _
    rcases encoded_cases h segment encoding completed with
      ⟨f, -, hstores⟩ | ⟨-, hreplaces, hkeeps⟩
    · exact h.stores hstores (h.lt_size segment) hwritable
    · refine h.replaces hreplaces (h.lt_size segment) (by rintro _ ⟨⟩) fun m hm => ?_
      rw [hkeeps.number] at hm
      refine ⟨?_, hm⟩
      rintro rfl
      exact Bool.false_ne_true (hwritable.symm.trans (h.last m hm))

theorem invariant_written :
    Transition.Invariant Initial Step fun w => w.server.stream.Written :=
  ⟨fun _ h => h.written, fun _ _ _ h step => written_step h step⟩

theorem mem_of_new {n : StreamSegmentId} {owner session : SessionId} {loc : SegmentLocation}
    (h : loc.New n owner) : session ∈ loc.referenceMap ↔ session = owner := by
  rw [h.map, Multiset.mem_singleton]

theorem keeps_written {n : StreamSegmentId} {loc : SegmentLocation} {session : SessionId}
    (h : w.server.stream.Written) (hown : AppendsOwn ⟨w, a, w'⟩) (step : Step w a w')
    (hloc : w.server.stream.segments n = some loc) (hw : loc.writable = true)
    (hm : session ∈ loc.referenceMap) (hcaller : w.caller a ≠ some session) :
    w'.server.stream.segments n = some loc := by
  have hothers {caller : SessionId} (hc : some caller ≠ some session) :
      ∀ loc' ∈ w.server.stream.segments n, caller ∉ loc'.referenceMap := by
    intro loc' hloc' hcaller
    obtain rfl := Option.some.inj (hloc.symm.trans hloc')
    exact hc (congrArg some ((mem_of_new (h.new_of_mem hloc hm)).mp hcaller))
  cases step with
  | @submitLast caller wait submit s throws unlocked possible submitted =>
    rcases ServerState.closings_submitLast h possible submitted with
      ⟨rfl, -⟩ | ⟨m, loc', owner, hlast, hloc', hnew, -, hc⟩
    · exact hloc
    · have hmem := hown caller wait submit m loc' rfl hlast hloc'
      have hne : n ≠ m := by
        rintro rfl
        exact hothers hcaller loc' hloc' hmem
      exact (hc.of_ne hne).trans hloc
  | allocateNext appending free =>
    rcases server_allocateNext h with heq | ⟨i, heq⟩ <;> rw [heq]
    · exact hloc
    · rw [ServerStream.segments_append, Function.update_of_ne (h.lt_size hloc).ne]
      exact hloc
  | close possible closed =>
    exact ((ServerState.closings_close h possible closed).segment_eq (hothers hcaller)).trans hloc
  | closeSession possible closed =>
    have hc := ServerState.closings_closeSession h possible closed
    exact (hc.segment_eq (hothers hcaller)).trans hloc
  | @encoded m frame loc' s segment encoding completed =>
    have hne : n ≠ m := by
      rintro rfl
      obtain rfl := Option.some.inj (hloc.symm.trans segment)
      exact (SegmentLocation.writable_iff.mp hw).2 encoding.2
    rcases encoded_cases h segment encoding completed with ⟨f, -, hstores⟩ | ⟨-, hreplaces, -⟩
    · obtain ⟨_, -, -, hsegs⟩ := hstores.segments
      exact (congrFun hsegs n).trans ((Function.update_of_ne hne _ _).trans hloc)
    · exact (hreplaces.of_ne hne).trans hloc

/-- A step is isolated unless it is an `append` that submits the segment of another session. -/
theorem isolated_iff {w' : Writing} (h : w.server.stream.Written) (step : Step w a w') :
    Isolated ⟨w, a, w'⟩ ↔ AppendsOwn ⟨w, a, w'⟩ := by
  constructor
  · intro hi session wait submit n loc hlabel hn hloc
    obtain ⟨-, loc', hloc', -, -, -, hmap⟩ := hi.asserts session wait submit hlabel n hn
    obtain rfl := Option.some.inj (hloc.symm.trans hloc')
    rw [hmap]
    exact Multiset.mem_singleton_self session
  · intro hown
    constructor
    · intro session wait submit hlabel n hn
      obtain ⟨loc, owner, hloc, hnew, hid, hside⟩ := h.exists_owner hn
      obtain rfl := (mem_of_new hnew).mp (hown session wait submit n loc hlabel hn hloc)
      exact ⟨h.lt_size hloc, loc, hloc, hid, hside, hnew.count, hnew.map⟩
    · intro n loc session hloc hw hm hcaller
      exact keeps_written h hown step hloc hw hm hcaller

/-- In a run, all assertions hold and no session is affected by the calls of others, exactly if
each `append` finds no last segment of another session. -/
theorem isolated_iff_appendsOwn {w : Writing} (run : Transition.Run Initial Step l w) :
    (∀ x ∈ l, Isolated x) ↔ ∀ x ∈ l, AppendsOwn x :=
  invariant_written.forall_iff (fun _ _ _ h step => isolated_iff h step) run

/-- A stream without segments. -/
def fresh : Writing := ⟨.new, none, fun _ => 0, fun _ => 0⟩

theorem initial_fresh : Initial fresh where
  slots := .new
  stored _ _ h := by cases h
  last := rfl
  appending := rfl

/-- An `append` that has to submit nothing. -/
def started (w : Writing) (session : SessionId) : Writing :=
  { w.record w.server (fun _ => .failed) with appending := some session }

theorem step_started {session : SessionId} (hidle : w.appending = none)
    (hlast : w.server.stream.lastAppendSequenceNumber = none) :
    Step w (.submitLast session none .failed) (w.started session) :=
  @Step.submitLast w session none .failed w.server false hidle (fun _ _ _ _ => trivial)
    (by rw [ServerState.submitLast, hlast])

/-- Two sessions write in turn. The first one leaves its second segment empty, and the other one
closes with its segment still open. The encodings end in the other order. -/
def turns : List (Transition.Taken Writing WriteAction) × Writing :=
  Transition.replay perform fresh
    [.submitLast 1 none .failed, .allocateNext (some 0), .submitLast 1 none (.pending 3),
      .allocateNext (some 1), .close 1 1 none false (.complete none), .submitLast 2 none .failed,
      .allocateNext (some 2), .closeSession 2 none false fun _ => .pending 2,
      .encoded 2 (some ⟨⟨10, 12⟩, ⟨3, 4⟩, 48, 2⟩), .encoded 0 (some ⟨⟨5, 9⟩, ⟨1, 2⟩, 64, 3⟩)]

theorem run_turns : Transition.Run Initial Step turns.1 turns.2 :=
  invariant_written.replay (fun _ _ _ h hperform => step_perform h.slots hperform) initial_fresh
    (by decide)

theorem isolated_turns : turns.1.length = 10 ∧ ∀ x ∈ turns.1, Isolated x :=
  ⟨by decide, (isolated_iff_appendsOwn run_turns).mpr (by decide)⟩

/-- Session 2 submits the segment that session 1 has appended. -/
theorem not_isolated_of_shared : ¬ ∀ (l : List (Transition.Taken Writing WriteAction))
    (w : Writing), Transition.Run Initial Step l w → ∀ x ∈ l, Isolated x := by
  intro hall
  have hfree : ∀ i ∈ some (0 : SegmentId), (fresh.started 1).server.buffer i = none :=
    fun _ _ => rfl
  have hstarted := (Transition.Run.start initial_fresh).step (@step_started fresh 1 rfl rfl)
  have hallocate := hstarted.step (@Step.allocateNext (fresh.started 1) 1 (some 0) rfl hfree)
  have hpossible : ∀ n loc,
      ((fresh.started 1).allocateNext 1 (some 0)).server.stream.lastAppendSequenceNumber = some n →
        ((fresh.started 1).allocateNext 1 (some 0)).server.stream.segments n = some loc →
          SubmitOutcome.Possible loc (.pending 1) := by
    intro n loc hn hloc
    obtain rfl := Option.some.inj hn
    obtain rfl := Option.some.inj hloc
    exact ⟨rfl, Nat.one_pos, by decide⟩
  have hsubmit := hallocate.step (@Step.submitLast _ 2 none (.pending 1) _ false rfl hpossible rfl)
  have hisolated := hall _ _ hsubmit _ List.mem_cons_self
  obtain ⟨-, loc, hloc, -, -, -, hmap⟩ := hisolated.asserts 2 none (.pending 1) rfl 0 rfl
  obtain rfl := Option.some.inj hloc
  exact absurd hmap (by decide)

end Writing

end Simutrace
