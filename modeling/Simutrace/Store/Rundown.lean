import Simutrace.Store.Detach

/-! # When a rundown loses no data

The events of a rundown up to the first acquisition are those of the segments
before it. There is none as long as the encoders that get a segment have their
hidden streams, and then each segment is handed over or purged by itself.
-/

namespace Simutrace.Detach

open Buffer (ClientSegment Submission)

variable {events events' : List Event} (again : Reacquisition) (held : Bool)

/-- The lock is not touched. -/
def Quiet (events : List Event) : Prop := .acquire ∉ events ∧ .release ∉ events

/-- The lock is acquired, and was not touched before. -/
def Reacquires (events : List Event) : Prop :=
  ∃ before after, events = before ++ .acquire :: after ∧ Quiet before

theorem quiet_nil : Quiet [] := ⟨List.not_mem_nil, List.not_mem_nil⟩

theorem quiet_append : Quiet (events ++ events') ↔ Quiet events ∧ Quiet events' := by
  simp only [Quiet, List.mem_append, not_or]
  exact and_and_and_comm

theorem Reacquires.append (h : Reacquires events) (events' : List Event) :
    Reacquires (events ++ events') := by
  obtain ⟨before, after, rfl, hbefore⟩ := h
  exact ⟨before, after ++ events', by simp, hbefore⟩

theorem Quiet.append_reacquires (h : Quiet events) (h' : Reacquires events') :
    Reacquires (events ++ events') := by
  obtain ⟨before, after, rfl, hbefore⟩ := h'
  exact ⟨events ++ before, after, by simp, quiet_append.mpr ⟨h, hbefore⟩⟩

theorem Reacquires.relocks (h : Reacquires events) : Relocks (.acquire :: events) := by
  obtain ⟨before, after, rfl, hacquire, hrelease⟩ := h
  refine ⟨.acquire :: before, after, rfl, ?_⟩
  simp [List.count_eq_zero.mpr hacquire, List.count_eq_zero.mpr hrelease]

theorem relocks_of_position (k : ℕ) (acquire : events[k]? = some .acquire)
    (held : (events.take k).count .release < (events.take k).count .acquire) : Relocks events := by
  obtain ⟨hk, hacquire⟩ := List.getElem?_eq_some_iff.mp acquire
  refine ⟨events.take k, events.drop (k + 1), ?_, held⟩
  rw [← hacquire, ← List.drop_eq_getElem_cons hk, List.take_append_drop]

theorem not_relocks_of_notMem (h : Event.acquire ∉ events) : ¬ Relocks (.acquire :: events) := by
  rintro ⟨before, after, heq, hlt⟩
  cases before with
  | nil => exact Nat.not_lt_zero _ hlt
  | cons e before =>
    obtain ⟨-, rfl⟩ := List.cons.inj heq
    exact h (List.mem_append_right _ List.mem_cons_self)

namespace StreamEncoder

variable {e : StreamEncoder} (services : Services)

/-- An encoder without hidden streams to register does not touch the lock. -/
theorem ensureInitialized_of_registered (h : e.Registered) :
    ∃ e', e.ensureInitialized again held services =
        ([], if e.Initialized ∨ services.associate = true then .returns else .throws, e') ∧
      e'.Registered ∧ (e'.Initialized ↔ e.Initialized ∨ services.associate = true) := by
  unfold ensureInitialized
  by_cases hinit : e.Initialized
  · rw [if_pos hinit, if_pos (.inl hinit)]
    exact ⟨e, rfl, h, iff_of_true hinit (.inl hinit)⟩
  · have hcount := h.resolve_left hinit
    rw [if_neg hinit, Nat.sub_eq_zero_of_le hcount]
    by_cases hassociate : services.associate = true
    · exact ⟨{ e with initialized := true }, by simp [initializeLines, hassociate],
        .inl (.inr rfl), iff_of_true (.inr rfl) (.inr hassociate)⟩
    · exact ⟨e, by simp [initializeLines, hassociate, hinit], h, by simp [hassociate]⟩

theorem reacquires_registerHiddenStream (e : StreamEncoder) (id : Option StreamId) :
    Reacquires (e.registerHiddenStream again held id).1 := by
  unfold registerHiddenStream
  split_ifs
  · exact ⟨[], [], rfl, quiet_nil⟩
  · exact ⟨[], [], rfl, quiet_nil⟩
  · cases id
    · exact ⟨[], _, rfl, quiet_nil⟩
    · exact ⟨[], _, rfl, quiet_nil⟩

theorem reacquires_initializeLines (register : ℕ → Option StreamId) (missing : ℕ)
    (e : StreamEncoder) :
    Reacquires (initializeLines again held register (missing + 1) e).1 := by
  have hfirst := reacquires_registerHiddenStream again held e (register e.streams.length)
  unfold initializeLines
  split
  · rename_i heq
    rw [heq] at hfirst
    exact hfirst.append _
  · exact hfirst

theorem reacquires_ensureInitialized (h : ¬ e.Registered) :
    Reacquires (e.ensureInitialized again held services).1 := by
  obtain ⟨hinit, hcount⟩ := not_or.mp h
  obtain ⟨missing, hmissing⟩ : ∃ missing, e.streamCount - e.streams.length = missing + 1 :=
    ⟨e.streamCount - e.streams.length - 1, by omega⟩
  have hlines := reacquires_initializeLines again held services.register missing e
  unfold ensureInitialized
  rw [if_neg hinit, hmissing]
  split
  · rename_i heq
    rw [heq] at hlines
    split <;> exact hlines
  · exact hlines

end StreamEncoder

namespace OpenStream

variable {s s' : OpenStream} {session : SessionId} (wait : WaitId) {n m : StreamSegmentId}
  {loc : SegmentLocation} (services : StreamSegmentId → Services) {outcome : SubmitOutcome}

/-! ## The submission of a segment -/

theorem rawEntryCount_of_dropping {readOnly : Bool} {client : ClientSegment}
    (h : s.check readOnly n client = .dropping) : client.rawEntryCount = 0 := by
  unfold check at h
  split_ifs at h
  assumption

theorem readOnly_of_writing {readOnly : Bool} {client : ClientSegment}
    (h : s.check readOnly n client = .writing) : readOnly = false := by
  unfold check at h
  split_ifs at h
  exact Bool.eq_false_of_not_eq_true ‹_›

/-- The check is the one that the stream buffer makes of a segment with the same data. -/
theorem submitUnchecked_eq_check {size : ℕ} {b : Buffer.ServerStreamBuffer size} {seg : Fin size}
    {client : ClientSegment} {result : Submission × Buffer.ServerStreamBuffer size}
    (segmentSize : b.segmentSize = s.segmentSize)
    (stream : (b.segments seg).stream = some s.type)
    (number : (b.segments seg).sequenceNumber = BitVec.ofNat 32 n)
    (submitted : b.submitUnchecked seg client = some result) :
    result.1 = s.check (b.segments seg).flags.readOnly n client := by
  have hcontrol : Buffer.ServerStreamBuffer.fixEntryCount s.type (b.copyControl s.type seg client) =
      s.control n client := by
    rw [control, Buffer.ServerStreamBuffer.copyControl, number]
  have hvalid : b.entriesValid s.type (s.control n client) =
      s.entriesValid (s.control n client) := by
    rw [Buffer.ServerStreamBuffer.entriesValid, entriesValid, segmentSize]
  have hraw : (b.copyControl s.type seg client).rawEntryCount = client.rawEntryCount := rfl
  simp only [Buffer.ServerStreamBuffer.submitUnchecked, stream, Option.bind_some, hcontrol, hvalid,
    hraw] at submitted
  unfold check
  cases hcookie : client.cookieValid <;> cases hread : (b.segments seg).flags.readOnly <;>
    simp only [hcookie, hread, Bool.false_eq_true, if_true, if_false] at submitted ⊢
  · obtain rfl := Option.some.inj submitted
    rfl
  · obtain rfl := Option.some.inj submitted
    rfl
  · split_ifs at submitted ⊢ <;> obtain rfl := Option.some.inj submitted <;> rfl
  · obtain ⟨b', -, rfl⟩ := Option.map_eq_some_iff.mp submitted
    rfl

theorem callEncoder_outcome {service : Services} {event : Event} {outcome' : SubmitOutcome}
    (h : (s.callEncoder again held service event outcome).2.2 = some outcome') :
    outcome' = outcome ∨ outcome' = .failed := by
  unfold callEncoder at h
  split at h
  · obtain rfl := Option.some.inj h
    split
    · exact .inl rfl
    · exact .inr rfl
  · exact .inr (Option.some.inj h).symm
  · cases h

theorem submittable_submitSegment {service : Services}
    (h : (s.submitSegment again held service n loc.location.isSome).2.2 = some outcome) :
    Execution.Submittable loc outcome := by
  unfold submitSegment at h
  split at h
  · obtain rfl := Option.some.inj h
    trivial
  · obtain rfl := Option.some.inj h
    rfl
  · rcases callEncoder_outcome again held h with rfl | rfl
    · rfl
    · trivial
  · rename_i hcheck
    rcases callEncoder_outcome again held h with rfl | rfl
    · simpa [Execution.Submittable] using readOnly_of_writing hcheck
    · trivial

theorem exists_submitSegment (service : Services) {readOnly : Bool}
    (dropping : s.check readOnly n (s.clients n) ≠ .dropping)
    (writing : s.check readOnly n (s.clients n) ≠ .writing) :
    ∃ outcome, s.submitSegment again held service n readOnly = ([], s.encoder, some outcome) := by
  unfold submitSegment
  cases hcheck : s.check readOnly n (s.clients n) with
  | rejected => exact ⟨.failed, rfl⟩
  | completed => exact ⟨.complete none, rfl⟩
  | dropping => exact absurd hcheck dropping
  | writing => exact absurd hcheck writing

theorem eq_of_mem_purged {i : StreamId} {e : Event} (h : e ∈ purged i n outcome) :
    e = .purge i n := by
  cases outcome with
  | failed => exact List.mem_singleton.mp h
  | complete location => cases h
  | pending entryCount => cases h

/-! ## Closing one segment -/

/-- What closing a segment leaves as it is. -/
structure Keeps (n : StreamSegmentId) (s s' : OpenStream) : Prop where
  type : s'.type = s.type
  segmentSize : s'.segmentSize = s.segmentSize
  clients : s'.clients = s.clients
  segments : ∀ m ≠ n, s'.stream.segments m = s.stream.segments m

theorem Keeps.refl (n : StreamSegmentId) (s : OpenStream) : Keeps n s s :=
  ⟨rfl, rfl, rfl, fun _ _ => rfl⟩

theorem Keeps.check (h : Keeps n s s') : s'.check = s.check := by
  funext readOnly m client
  rw [OpenStream.check, OpenStream.check, entriesValid, entriesValid, control, control, h.type,
    h.segmentSize]

theorem Keeps.passes_iff (h : Keeps n s s') (hm : m ≠ n) :
    s'.Passes session m ↔ s.Passes session m := by
  rw [Passes, Passes, h.segments m hm, h.clients, h.check]

variable (s session outcome) in
/-- An error is ignored, so that the references are given back whatever the submission comes to. -/
theorem release_returns (h : s.execution.Sound)
    (submittable : ∀ loc, s.stream.segments n = some loc → Execution.Submittable loc outcome) :
    ∃ s', s.release session wait outcome n = (.returns, s') ∧ s'.execution.Sound ∧
      s'.encoder = s.encoder ∧ Keeps n s s' := by
  rcases hclosed : s.execution.server.closeReferences session (some wait) true outcome n with
    ⟨server, throws⟩
  let execution : Execution := { s.execution with
    server := server
    balance := s.execution.settle session (· = n) }
  have hsound : execution.Sound := Execution.sound_closeReferences h submittable hclosed
  let submit : StreamSegmentId → SubmitOutcome := fun _ => outcome
  have hsubmitted : s.execution.server.closeReferences session (some wait) true (submit n) n =
      (server, throws) := hclosed
  rcases Execution.closeReferences_cases h submittable hsubmitted with
    ⟨-, ⟨loc, -, -, -, hthrows⟩, -⟩ | ⟨rfl, -, hcloses⟩
  · cases hthrows.2.2.2
  · have hreturns : s.release session wait outcome n =
        (.returns, { s with execution := execution }) := by
      rw [release, hclosed]
      rfl
    exact ⟨_, hreturns, hsound, rfl, rfl, rfl, rfl, hcloses.segments⟩

theorem submits_of_writes (h : s.execution.Sound) (segment : s.stream.segments n = some loc)
    (writes : Writes session loc) : Submits session loc := by
  obtain ⟨hlocation, hid, hmem⟩ := writes
  obtain ⟨-, hsound⟩ := h.at segment
  obtain ⟨hcount, -⟩ := hsound.written hlocation
  obtain ⟨t, ht⟩ := Multiset.card_eq_one.mp (hsound.count.symm.trans hcount)
  refine ⟨hmem, ?_, hid⟩
  rw [ht, Multiset.mem_singleton] at hmem
  rw [hcount, ht, hmem, Multiset.count_singleton_self]

/-- A segment is closed without the lock. If the session writes to it, it is handed over or
purged. -/
structure ClosesQuietly (services : StreamSegmentId → Services) (session : SessionId)
    (n : StreamSegmentId) (s s' : OpenStream) (events : List Event) : Prop
    extends Keeps n s s' where
  quiet : Quiet events
  registered : s'.encoder.Registered ↔ s.encoder.Registered
  initialized : s'.encoder.Initialized ↔
    s.encoder.Initialized ∨ s.Passes session n ∧ (services n).associate = true
  own : ∀ i m, .write i m ∈ events ∨ .purge i m ∈ events → i = s.type.id ∧ m = n
  handed : ∀ loc, s.stream.segments n = some loc → Writes session loc →
    (s.clients n).rawEntryCount ≠ 0 →
      (.write s.type.id n ∈ events ∧ .purge s.type.id n ∉ events ↔
        s.check false n (s.clients n) = .writing ∧ (services n).accept = true ∧
          (s.encoder.Initialized ∨ (services n).associate = true))

theorem closesQuietly_of_not_passes {events : List Event} (keeps : Keeps n s s')
    (encoder : s'.encoder = s.encoder) (passes : ¬ s.Passes session n)
    (purge : ∀ e ∈ events, e = .purge s.type.id n) (h : s.execution.Sound) :
    ClosesQuietly services session n s s' events where
  toKeeps := keeps
  quiet := ⟨fun he => (by cases purge _ he), fun he => (by cases purge _ he)⟩
  registered := by rw [encoder]
  initialized := by rw [encoder, or_iff_left fun hp => passes hp.1]
  own i m he := by
    rcases he with he | he
    · cases purge _ he
    · cases purge _ he
      exact ⟨rfl, rfl⟩
  handed loc hloc hwrites _ := by
    refine iff_of_false (fun he => (by cases purge _ he.1)) fun hw => passes ?_
    refine ⟨loc, hloc, submits_of_writes h hloc hwrites, .inr ?_⟩
    rw [hwrites.1]
    exact hw.1

theorem closeSegment_of_not_passes (h : s.execution.Sound) (passes : ¬ s.Passes session n) :
    ∃ events s', s.closeSegment again services session wait n = (events, .returns, s') ∧
      s'.execution.Sound ∧ ClosesQuietly services session n s s' events := by
  unfold closeSegment
  cases segment : s.stream.segments n with
  | none =>
    exact ⟨[], s, rfl, h, closesQuietly_of_not_passes services (.refl n s) rfl passes
      (fun _ he => absurd he List.not_mem_nil) h⟩
  | some loc =>
    dsimp only
    by_cases hsubmits : Submits session loc
    · rw [if_pos hsubmits]
      obtain ⟨outcome, hsubmit⟩ := exists_submitSegment again true (services n)
        (fun hc => passes ⟨loc, segment, hsubmits, .inl hc⟩)
        fun hc => passes ⟨loc, segment, hsubmits, .inr hc⟩
      obtain ⟨s', hrelease, hsound, hencoder, hkeeps⟩ := release_returns
        { s with encoder := s.encoder } session wait outcome h fun loc' hloc' => by
          obtain rfl := Option.some.inj (segment.symm.trans hloc')
          exact submittable_submitSegment again true (congrArg (·.2.2) hsubmit)
      rw [hsubmit]
      dsimp only
      rw [hrelease]
      exact ⟨_, s', rfl, hsound, closesQuietly_of_not_passes services hkeeps hencoder passes
        (fun e he => eq_of_mem_purged he) h⟩
    · rw [if_neg hsubmits]
      obtain ⟨s', hrelease, hsound, hencoder, hkeeps⟩ := release_returns s session wait .failed h
        fun _ _ => trivial
      rw [hrelease]
      exact ⟨[], s', rfl, hsound, closesQuietly_of_not_passes services hkeeps hencoder passes
        (fun _ he => absurd he List.not_mem_nil) h⟩

variable (outcome) in
/-- The call of an encoder that has its hidden streams fails if the frame that names them is not
committed or if the segment is not taken. -/
theorem callEncoder_of_registered (service : Services) (event : Event) (h : s.encoder.Registered)
    (ne : outcome ≠ .failed) :
    ∃ e outcome', s.callEncoder again held service event outcome = ([event], e, some outcome') ∧
      e.Registered ∧ (e.Initialized ↔ s.encoder.Initialized ∨ service.associate = true) ∧
      (outcome' ≠ .failed ↔ service.accept = true ∧
        (s.encoder.Initialized ∨ service.associate = true)) := by
  obtain ⟨e, hinitialized, hregistered, hiff⟩ := StreamEncoder.ensureInitialized_of_registered
    again held service h
  unfold callEncoder
  rw [hinitialized]
  by_cases hready : s.encoder.Initialized ∨ service.associate = true
  · rw [if_pos hready]
    refine ⟨e, _, rfl, hregistered, hiff, ?_⟩
    rw [and_iff_left hready]
    split
    · rename_i haccept
      exact iff_of_true ne haccept
    · rename_i haccept
      exact iff_of_false (fun hne => hne rfl) haccept
  · rw [if_neg hready]
    exact ⟨e, _, rfl, hregistered, hiff, iff_of_false (fun hne => hne rfl) fun h => hready h.2⟩

theorem submitSegment_of_registered (service : Services) {readOnly : Bool}
    (h : s.encoder.Registered) (passes : s.check readOnly n (s.clients n) = .dropping ∨
      s.check readOnly n (s.clients n) = .writing) :
    ∃ event e outcome,
      s.submitSegment again held service n readOnly = ([event], e, some outcome) ∧
      (event = .drop s.type.id n ∧ s.check readOnly n (s.clients n) = .dropping ∨
        event = .write s.type.id n ∧ s.check readOnly n (s.clients n) = .writing) ∧
      e.Registered ∧ (e.Initialized ↔ s.encoder.Initialized ∨ service.associate = true) ∧
      (outcome ≠ .failed ↔ service.accept = true ∧
        (s.encoder.Initialized ∨ service.associate = true)) := by
  unfold submitSegment
  rcases passes with hcheck | hcheck <;> rw [hcheck]
  · obtain ⟨e, outcome, hcall, hrest⟩ := callEncoder_of_registered again held
      (.complete none) service (.drop s.type.id n) h nofun
    exact ⟨_, e, outcome, hcall, .inl ⟨rfl, rfl⟩, hrest⟩
  · obtain ⟨e, outcome, hcall, hrest⟩ := callEncoder_of_registered again held
      (.pending (s.control n (s.clients n)).entryCount.toNat) service (.write s.type.id n) h nofun
    exact ⟨_, e, outcome, hcall, .inr ⟨rfl, rfl⟩, hrest⟩

/-- A segment that gets to an encoder with its hidden streams is closed without the lock. -/
theorem closeSegment_of_registered (h : s.execution.Sound) (passes : s.Passes session n)
    (registered : s.encoder.Registered) :
    ∃ events s', s.closeSegment again services session wait n = (events, .returns, s') ∧
      s'.execution.Sound ∧ ClosesQuietly services session n s s' events := by
  obtain ⟨loc, segment, hsubmits, hcheck⟩ := id passes
  obtain ⟨event, e, outcome, hsubmit, hevent, hregistered, hinitialized, houtcome⟩ :=
    submitSegment_of_registered again true (services n) registered hcheck
  obtain ⟨s', hrelease, hsound, hencoder, hkeeps⟩ := release_returns { s with encoder := e }
    session wait outcome h fun loc' hloc' => by
      obtain rfl := Option.some.inj (segment.symm.trans hloc')
      exact submittable_submitSegment again true (congrArg (·.2.2) hsubmit)
  have hclose : s.closeSegment again services session wait n =
      (event :: purged s.type.id n outcome, .returns, s') := by
    simp only [closeSegment, segment, if_pos hsubmits, hsubmit, hrelease, List.singleton_append]
  have hmem {e : Event} (he : e ∈ event :: purged s.type.id n outcome) :
      e = event ∨ e = .purge s.type.id n :=
    (List.mem_cons.mp he).imp_right eq_of_mem_purged
  refine ⟨_, s', hclose, hsound, ⟨hkeeps.type, hkeeps.segmentSize, hkeeps.clients,
    hkeeps.segments⟩, ⟨fun he => ?_, fun he => ?_⟩, ?_, ?_, fun i m he => ?_, ?_⟩
  · rcases hevent with ⟨rfl, -⟩ | ⟨rfl, -⟩ <;> rcases hmem he with he | he <;> cases he
  · rcases hevent with ⟨rfl, -⟩ | ⟨rfl, -⟩ <;> rcases hmem he with he | he <;> cases he
  · rw [hencoder]
    exact iff_of_true hregistered registered
  · rw [hencoder, and_iff_right passes]
    exact hinitialized
  · rcases hevent with ⟨rfl, -⟩ | ⟨rfl, -⟩ <;> rcases he with he | he <;>
      rcases hmem he with he | he <;> cases he <;> exact ⟨rfl, rfl⟩
  · intro loc' hloc' hwrites hraw
    obtain rfl := Option.some.inj (segment.symm.trans hloc')
    have hnew : loc.location.isSome = false := by rw [hwrites.1]; rfl
    rw [hnew] at hevent
    obtain ⟨rfl, hwriting⟩ := hevent.resolve_left fun hd =>
      hraw (rawEntryCount_of_dropping hd.2)
    rw [and_iff_right List.mem_cons_self, and_iff_right hwriting, ← houtcome, ← not_iff_not,
      not_not, not_not]
    constructor
    · intro hp
      cases outcome with
      | failed => rfl
      | complete _ | pending _ => rcases List.mem_cons.mp hp with hp | hp <;> cases hp
    · rintro rfl
      exact List.mem_cons_of_mem _ List.mem_cons_self

/-- A segment that gets to an encoder without its hidden streams acquires the lock. -/
theorem reacquires_closeSegment (passes : s.Passes session n)
    (registered : ¬ s.encoder.Registered) :
    Reacquires (s.closeSegment again services session wait n).1 := by
  obtain ⟨loc, segment, hsubmits, hcheck⟩ := passes
  have hcall {service : Services} {event : Event} {outcome : SubmitOutcome}
      (quiet : Quiet [event]) :
      Reacquires (s.callEncoder again true service event outcome).1 := by
    have hensure := StreamEncoder.reacquires_ensureInitialized again true service
      registered
    unfold callEncoder
    split <;> rename_i heq <;> rw [heq] at hensure <;> exact quiet.append_reacquires hensure
  have hsubmit : Reacquires (s.submitSegment again true (services n) n loc.location.isSome).1 := by
    unfold submitSegment
    rcases hcheck with hcheck | hcheck <;> rw [hcheck]
    · exact hcall ⟨by simp, by simp⟩
    · exact hcall ⟨by simp, by simp⟩
  unfold closeSegment
  rw [segment]
  dsimp only
  rw [if_pos hsubmits]
  split <;> rename_i heq <;> rw [heq] at hsubmit
  · exact hsubmit
  · exact hsubmit.append _

variable (session n) in
/-- Closing a segment keeps the structure of the segments, however it ends. -/
theorem sound_closeSegment (h : s.execution.Sound) :
    (s.closeSegment again services session wait n).2.2.execution.Sound ∧
      (s.closeSegment again services session wait n).2.2.type = s.type := by
  unfold closeSegment
  cases segment : s.stream.segments n with
  | none => exact ⟨h, rfl⟩
  | some loc =>
    dsimp only
    split
    · rcases hsubmit : s.submitSegment again true (services n) n loc.location.isSome with
        ⟨events, e, none | outcome⟩
      · exact ⟨h, rfl⟩
      · obtain ⟨s', hrelease, hsound, -, hkeeps⟩ := release_returns
          { s with encoder := e } session wait outcome h fun loc' hloc' => by
            obtain rfl := Option.some.inj (segment.symm.trans hloc')
            exact submittable_submitSegment again true (congrArg (·.2.2) hsubmit)
        dsimp only
        rw [hrelease]
        exact ⟨hsound, hkeeps.type⟩
    · obtain ⟨s', hrelease, hsound, -, hkeeps⟩ := release_returns s session wait .failed h
        fun _ _ => trivial
      dsimp only
      rw [hrelease]
      exact ⟨hsound, hkeeps.type⟩

/-! ## Closing a session -/

variable (session) in
theorem sound_closeSession (l : List StreamSegmentId) (h : s.execution.Sound) :
    (closeSession again services session wait l s).2.2.execution.Sound ∧
      (closeSession again services session wait l s).2.2.type = s.type := by
  induction l generalizing s with
  | nil => exact ⟨h, rfl⟩
  | cons n l ih =>
    obtain ⟨hsound, htype⟩ := sound_closeSegment again session wait n services h
    unfold closeSession
    split
    · rename_i heq
      rw [heq] at hsound htype
      exact ⟨(ih hsound).1, (ih hsound).2.trans htype⟩
    · exact ⟨hsound, htype⟩

theorem reacquires_closeSession (l : List StreamSegmentId) (h : s.execution.Sound) (mem : n ∈ l)
    (passes : s.Passes session n) (registered : ¬ s.encoder.Registered) :
    Reacquires (closeSession again services session wait l s).1 := by
  induction l generalizing s with
  | nil => exact absurd mem List.not_mem_nil
  | cons m l ih =>
    unfold closeSession
    by_cases hm : s.Passes session m
    · have hfirst := reacquires_closeSegment again wait services hm registered
      split
      · rename_i heq
        rw [heq] at hfirst
        exact hfirst.append _
      · exact hfirst
    · have hne : n ≠ m := fun hnm => hm (hnm ▸ passes)
      obtain ⟨events, s', hclose, hsound, hquiet⟩ := closeSegment_of_not_passes again wait
        services h hm
      rw [hclose]
      exact hquiet.quiet.append_reacquires (ih hsound
        ((List.mem_cons.mp mem).resolve_left hne) ((hquiet.toKeeps.passes_iff hne).mpr passes)
        fun hr => registered (hquiet.registered.mp hr))

/-- The segments of a list are closed without the lock, and what the session has written is handed
over exactly if it is accepted. -/
structure ClosesAll (services : StreamSegmentId → Services) (session : SessionId)
    (l : List StreamSegmentId) (s : OpenStream) (events : List Event) : Prop where
  quiet : Quiet events
  own : ∀ i m, .write i m ∈ events ∨ .purge i m ∈ events → i = s.type.id ∧ m ∈ l
  handed : ∀ n ∈ l, ∀ loc, s.stream.segments n = some loc → Writes session loc →
    (s.clients n).rawEntryCount ≠ 0 →
      (.write s.type.id n ∈ events ∧ .purge s.type.id n ∉ events ↔
        s.Accepted session services l n)

theorem initializedBy_head {l : List StreamSegmentId} (hn : n ∉ l) (passes : s.Passes session n) :
    s.InitializedBy session services (n :: l) n ↔
      s.encoder.Initialized ∨ (services n).associate = true := by
  refine or_congr_right ⟨?_, fun ha => ⟨n, List.mem_cons_self, le_rfl, passes, ha⟩⟩
  rintro ⟨m, hm, hle, -, ha⟩
  rcases List.mem_cons.mp hm with rfl | hm
  · exact ha
  · have hne : n ≠ m := fun h => hn (h ▸ hm)
    rw [List.idxOf_cons_self, List.idxOf_cons_ne _ hne] at hle
    exact absurd hle (Nat.not_succ_le_zero _)

theorem initializedBy_tail {l : List StreamSegmentId} (keeps : Keeps m s s') (hm : m ∉ l)
    (initialized : s'.encoder.Initialized ↔
      s.encoder.Initialized ∨ s.Passes session m ∧ (services m).associate = true)
    (hn : n ∈ l) :
    s'.InitializedBy session services l n ↔ s.InitializedBy session services (m :: l) n := by
  have hne {k : StreamSegmentId} (hk : k ∈ l) : m ≠ k := fun h => hm (h ▸ hk)
  rw [InitializedBy, InitializedBy, initialized, or_assoc]
  refine or_congr_right ⟨?_, ?_⟩
  · rintro (⟨hp, ha⟩ | ⟨k, hk, hle, hp, ha⟩)
    · exact ⟨m, List.mem_cons_self, by rw [List.idxOf_cons_self]; exact Nat.zero_le _, hp, ha⟩
    · refine ⟨k, List.mem_cons_of_mem _ hk, ?_, (keeps.passes_iff (hne hk).symm).mp hp, ha⟩
      rw [List.idxOf_cons_ne _ (hne hk), List.idxOf_cons_ne _ (hne hn)]
      exact Nat.succ_le_succ hle
  · rintro ⟨k, hk, hle, hp, ha⟩
    rcases List.mem_cons.mp hk with rfl | hk
    · exact .inl ⟨hp, ha⟩
    · rw [List.idxOf_cons_ne _ (hne hk), List.idxOf_cons_ne _ (hne hn)] at hle
      exact .inr ⟨k, hk, Nat.le_of_succ_le_succ hle, (keeps.passes_iff (hne hk).symm).mpr hp, ha⟩

theorem closeSegment_quietly (h : s.execution.Sound)
    (registered : s.Passes session n → s.encoder.Registered) :
    ∃ events s', s.closeSegment again services session wait n = (events, .returns, s') ∧
      s'.execution.Sound ∧ ClosesQuietly services session n s s' events := by
  by_cases passes : s.Passes session n
  · exact closeSegment_of_registered again wait services h passes (registered passes)
  · exact closeSegment_of_not_passes again wait services h passes

theorem closeSession_quietly (l : List StreamSegmentId) (hl : l.Nodup) (h : s.execution.Sound)
    (registered : ∀ n ∈ l, s.Passes session n → s.encoder.Registered) :
    ∃ events s', closeSession again services session wait l s = (events, .returns, s') ∧
      ClosesAll services session l s events := by
  induction l generalizing s with
  | nil =>
    exact ⟨[], s, rfl, quiet_nil, fun _ _ he => (by rcases he with he | he <;> cases he),
      fun _ hn => absurd hn List.not_mem_nil⟩
  | cons m l ih =>
    obtain ⟨hm, hl⟩ := List.nodup_cons.mp hl
    obtain ⟨events, s', hclose, hsound, hquiet⟩ := closeSegment_quietly again wait services h
      (registered m List.mem_cons_self)
    have hne {k : StreamSegmentId} (hk : k ∈ l) : k ≠ m := fun hkm => hm (hkm ▸ hk)
    obtain ⟨rest, s'', hrest, hall⟩ := ih hl hsound fun k hk hp => hquiet.registered.mpr
      (registered k (List.mem_cons_of_mem _ hk) ((hquiet.toKeeps.passes_iff (hne hk)).mp hp))
    refine ⟨events ++ rest, s'', by simp only [closeSession, hclose, hrest],
      quiet_append.mpr ⟨hquiet.quiet, hall.quiet⟩, fun i k he => ?_,
      fun n hn loc hloc hw hraw => ?_⟩
    · rw [List.mem_append, List.mem_append, or_or_or_comm] at he
      rcases he with he | he
      · obtain ⟨rfl, rfl⟩ := hquiet.own i k he
        exact ⟨rfl, List.mem_cons_self⟩
      · obtain ⟨rfl, hk⟩ := hall.own i k he
        exact ⟨congrArg _ hquiet.type, List.mem_cons_of_mem _ hk⟩
    · rcases List.mem_cons.mp hn with rfl | hn
      · have hnot := not_or.mp fun he => hm (hall.own s.type.id n he).2
        rw [List.mem_append, List.mem_append, or_iff_left hnot.1, or_iff_left hnot.2,
          hquiet.handed loc hloc hw hraw, Accepted]
        refine and_congr_right fun hwriting => and_congr_right fun _ => ?_
        have hpasses : s.check loc.location.isSome n (s.clients n) = .writing := by
          rw [hw.1]
          exact hwriting
        exact (initializedBy_head services hm
          ⟨loc, hloc, submits_of_writes h hloc hw, .inr hpasses⟩).symm
      · have hnot := not_or.mp fun he => hne hn (hquiet.own s.type.id n he).2
        have hkeeps := hquiet.toKeeps
        have hhanded := hall.handed n hn loc ((hkeeps.segments n (hne hn)).trans hloc) hw
          (by rwa [hkeeps.clients])
        rw [hkeeps.type] at hhanded
        rw [List.mem_append, List.mem_append, or_iff_right hnot.1, or_iff_right hnot.2, hhanded,
          Accepted, Accepted, hkeeps.check, hkeeps.clients,
          initializedBy_tail services hkeeps hm hquiet.initialized hn]

theorem mem_openList_of_passes (h : s.execution.Sound) (passes : s.Passes session n) :
    n ∈ s.stream.openList := by
  obtain ⟨loc, hloc, hsubmits, -⟩ := passes
  by_contra hn
  exact h.notMem_of_notMem_openList hn loc hloc hsubmits.1

end OpenStream

namespace Store

open OpenStream

variable (services : StreamId → StreamSegmentId → Services) {session : SessionId} (wait : WaitId)
  {streams : List OpenStream} {x : OpenStream} {n : StreamSegmentId} {s s' : Store}

/-! ## Closing the streams -/

variable (session) in
theorem sound_closeStreams (h : ∀ x ∈ streams, x.execution.Sound) :
    (∀ x ∈ (closeStreams again services session wait streams).2.2, x.execution.Sound) ∧
      (closeStreams again services session wait streams).2.2.map (·.type.id) =
        streams.map (·.type.id) := by
  induction streams with
  | nil => exact ⟨h, rfl⟩
  | cons y streams ih =>
    obtain ⟨hy, hstreams⟩ := List.forall_mem_cons.mp h
    obtain ⟨hsound, htype⟩ := sound_closeSession again session wait (services y.type.id)
      y.stream.openList hy
    obtain ⟨hrest, hids⟩ := ih hstreams
    unfold closeStreams
    split <;> rename_i heq <;> rw [heq] at hsound htype
    · exact ⟨List.forall_mem_cons.mpr ⟨hsound, hrest⟩, by rw [List.map_cons, List.map_cons, htype,
        hids]⟩
    · exact ⟨List.forall_mem_cons.mpr ⟨hsound, hstreams⟩, by rw [List.map_cons, List.map_cons,
        htype]⟩

theorem reacquires_closeStreams (h : ∀ x ∈ streams, x.execution.Sound) (mem : x ∈ streams)
    (passes : x.Passes session n) (registered : ¬ x.encoder.Registered) :
    Reacquires (closeStreams again services session wait streams).1 := by
  induction streams with
  | nil => exact absurd mem List.not_mem_nil
  | cons y streams ih =>
    obtain ⟨hy, hstreams⟩ := List.forall_mem_cons.mp h
    unfold closeStreams
    by_cases hready : ∀ k, y.Passes session k → y.encoder.Registered
    · obtain ⟨events, y', hclose, hall⟩ := closeSession_quietly again wait
        (services y.type.id) y.stream.openList hy.nodup_openList hy
        fun k _ => hready k
      rw [hclose]
      have hx := (List.mem_cons.mp mem).resolve_left fun hxy =>
        registered (hxy ▸ hready n (hxy ▸ passes))
      exact hall.quiet.append_reacquires (ih hstreams hx)
    · obtain ⟨k, hk⟩ := not_forall.mp hready
      obtain ⟨hpasses, hregistered⟩ := Classical.not_imp.mp hk
      have hfirst := reacquires_closeSession again wait (services y.type.id) y.stream.openList hy
        (mem_openList_of_passes hy hpasses) hpasses hregistered
      split <;> rename_i heq <;> rw [heq] at hfirst
      · exact hfirst.append _
      · exact hfirst

theorem closeStreams_quietly (h : ∀ x ∈ streams, x.execution.Sound)
    (ids : (streams.map (·.type.id)).Nodup)
    (registered : ∀ x ∈ streams, ∀ n, x.Passes session n → x.encoder.Registered) :
    ∃ events streams', closeStreams again services session wait streams =
        (events, .returns, streams') ∧ Quiet events ∧
      (∀ i m, .write i m ∈ events ∨ .purge i m ∈ events → i ∈ streams.map (·.type.id)) ∧
      ∀ x ∈ streams, ∀ n loc, x.stream.segments n = some loc → Writes session loc →
        (x.clients n).rawEntryCount ≠ 0 →
          (.write x.type.id n ∈ events ∧ .purge x.type.id n ∉ events ↔
            x.Accepted session (services x.type.id) x.stream.openList n) := by
  induction streams with
  | nil =>
    exact ⟨[], [], rfl, quiet_nil, fun _ _ he => (by rcases he with he | he <;> cases he),
      fun _ hx => absurd hx List.not_mem_nil⟩
  | cons y streams ih =>
    obtain ⟨hy, hstreams⟩ := List.forall_mem_cons.mp h
    obtain ⟨hready, hregistered⟩ := List.forall_mem_cons.mp registered
    rw [List.map_cons, List.nodup_cons] at ids
    obtain ⟨events, y', hclose, hall⟩ := closeSession_quietly again wait
      (services y.type.id) y.stream.openList hy.nodup_openList hy
      fun k _ => hready k
    obtain ⟨rest, streams', hrest, hquiet, hown, hhanded⟩ := ih hstreams ids.2 hregistered
    refine ⟨events ++ rest, y' :: streams', by simp only [closeStreams, hclose, hrest],
      quiet_append.mpr ⟨hall.quiet, hquiet⟩, fun i m he => ?_, List.forall_mem_cons.mpr
        ⟨fun n loc hloc hw hraw => ?_, fun x hx n loc hloc hw hraw => ?_⟩⟩
    · rw [List.mem_append, List.mem_append, or_or_or_comm] at he
      rcases he with he | he
      · exact List.mem_map.mpr ⟨y, List.mem_cons_self, (hall.own i m he).1.symm⟩
      · exact List.mem_cons_of_mem _ (hown i m he)
    · have hnot := not_or.mp fun he => ids.1 (hown y.type.id n he)
      rw [List.mem_append, List.mem_append, or_iff_left hnot.1, or_iff_left hnot.2]
      refine hall.handed n ?_ loc hloc hw hraw
      by_contra hn
      exact hy.notMem_of_notMem_openList hn loc hloc hw.2.2
    · have hne : x.type.id ≠ y.type.id := fun heq => ids.1 (List.mem_map.mpr ⟨x, hx, heq⟩)
      have hnot := not_or.mp fun he => hne (hall.own x.type.id n he).1
      rw [List.mem_append, List.mem_append, or_iff_right hnot.1, or_iff_right hnot.2]
      exact hhanded x hx n loc hloc hw hraw

/-! ## Reachable stores -/

/-- The manager has a reference besides those of the sessions, unless the store is closed. -/
structure Inv (s : Store) : Prop where
  count : s.store.referenceCount = s.store.references.length + 1 ∨
    s.store.referenceCount = 0 ∧ s.store.references = []
  references : s.store.references.Nodup
  ids : (s.streams.map (·.type.id)).Nodup
  sound : ∀ x ∈ s.streams, x.execution.Sound

theorem sound_streamStep {x x' : OpenStream} (h : x.execution.Sound)
    (step : StreamStep again x x') : x'.execution.Sound ∧ x'.type = x.type := by
  cases step with
  | run step => exact ⟨Execution.sound_step h step, rfl⟩
  | fill clients => exact ⟨h, rfl⟩
  | encode services => exact ⟨h, rfl⟩
  | associate count => exact ⟨h, rfl⟩

theorem inv_rundown (h : s.Inv) : (rundown session s).2.Inv := by
  unfold rundown Manager.ServerStore.rundown
  split
  · rename_i heq
    split at heq <;> rename_i hcount
    · split at heq
      · cases heq
      · obtain ⟨rfl, -⟩ := Prod.mk.inj heq
        exact ⟨h.count, h.references, h.ids, h.sound⟩
    · cases heq
  · rename_i heq
    split at heq <;> rename_i hcount
    · split at heq
      · obtain ⟨rfl, -⟩ := Prod.mk.inj heq
        have hnil : s.store.references = [] := by
          rcases h.count with hc | ⟨-, hc⟩
          · exact List.length_eq_zero_iff.mp (by omega)
          · exact hc
        exact ⟨.inr ⟨rfl, hnil⟩, h.references, h.ids, h.sound⟩
      · cases heq
    · obtain ⟨rfl, -⟩ := Prod.mk.inj heq
      exact ⟨h.count, h.references, h.ids, h.sound⟩

variable (session) in
theorem inv_detach (h : s.Inv) : (s.detach again services session wait).2.2.Inv := by
  obtain ⟨hsound, hids⟩ := sound_closeStreams again services session wait h.sound
  unfold detach
  split_ifs with hclosed hseveral hmem
  · exact h
  · split <;> rename_i heq <;> rw [heq] at hsound hids
    · refine inv_rundown ⟨.inl ?_, h.references.filter _, hids ▸ h.ids, hsound⟩
      have hcount := h.count.resolve_right fun hc => hclosed hc.1
      have hlength := Manager.ServerStore.length_others h.references hmem
      simp only [Manager.ServerStore.detached]
      omega
    · exact ⟨h.count, h.references, hids ▸ h.ids, hsound⟩
    · exact ⟨h.count, h.references, hids ▸ h.ids, hsound⟩
  · exact h
  · exact inv_rundown h

theorem inv_step (h : s.Inv) (step : Step again s s') : s'.Inv := by
  cases step with
  | @attach session store attached =>
    unfold Manager.ServerStore.attach at attached
    split_ifs at attached with hmem hzero
    obtain rfl := Except.ok.inj attached
    refine ⟨.inl ?_, ?_, h.ids, h.sound⟩
    · have hcount := h.count.resolve_right fun hc => hzero hc.1
      rw [List.length_append, List.length_singleton, hcount]
    · exact h.references.append (List.nodup_singleton session) (by simpa using hmem)
  | registerStream unlocked new =>
    refine ⟨h.count, h.references, ?_, fun x hx => ?_⟩
    · rw [List.map_append]
      refine h.ids.append (List.nodup_singleton _) ?_
      simpa [OpenStream.new] using new
    · rcases List.mem_append.mp hx with hx | hx
      · exact h.sound x hx
      · obtain rfl := List.mem_singleton.mp hx
        exact Execution.sound_new
  | @stream before after x x' mem step =>
    obtain ⟨hsound, htype⟩ := sound_streamStep again (h.sound x (by simp [mem])) step
    refine ⟨h.count, h.references, ?_, fun y hy => ?_⟩
    · have hids := h.ids
      rw [mem, List.map_append, List.map_cons] at hids
      rw [List.map_append, List.map_cons, htype]
      exact hids
    · rcases List.mem_append.mp hy with hy | hy
      · exact h.sound y (mem ▸ List.mem_append_left _ hy)
      · rcases List.mem_cons.mp hy with rfl | hy
        · exact hsound
        · exact h.sound y (mem ▸ List.mem_append_right _ (List.mem_cons_of_mem _ hy))
  | @detach _ services session wait events ending left ends =>
    have hinv := inv_detach again services session wait h
    rwa [left] at hinv

theorem Reachable.inv (h : Reachable again s) : s.Inv := by
  induction h with
  | @new id name store constructed =>
    unfold Manager.ServerStore.construct at constructed
    split_ifs at constructed
    obtain rfl := Except.ok.inj constructed
    exact ⟨.inl rfl, List.nodup_nil, List.nodup_nil, fun _ hx => absurd hx List.not_mem_nil⟩
  | step _ step ih => exact inv_step again ih step

/-- A detach that returns drops the references that the detach of the manager's store drops. -/
theorem store_detach {events : List Event}
    (left : s.detach again services session wait = (events, .returns, s')) :
    ∃ closed, s.store.detach session false = .ok (s'.store, closed) := by
  have hrundown (s : Store) : ∃ closed, s.store.rundown session =
      ((rundown session s).2.store, closed) := by
    unfold rundown
    rcases s.store.rundown session with ⟨store, closed⟩
    cases closed <;> exact ⟨_, rfl⟩
  unfold detach at left
  rw [Manager.ServerStore.detach, Manager.ServerStore.dropReference]
  by_cases hclosed : s.store.referenceCount = 0
  · rw [if_pos hclosed] at left
    cases left
  rw [if_neg hclosed] at left ⊢
  by_cases hseveral : s.store.referenceCount > 1
  · rw [if_pos hseveral] at left ⊢
    by_cases hmem : session ∉ s.store.references
    · rw [if_pos hmem] at left
      cases left
    · rw [if_neg hmem] at left ⊢
      split at left
      · rename_i streams heq
        obtain ⟨-, -, rfl⟩ := left
        obtain ⟨closed, hstore⟩ := hrundown { s with
          store := s.store.detached session s.store.references
          streams := streams }
        exact ⟨closed, congrArg Except.ok hstore⟩
      · cases left
      · cases left
  · rw [if_neg hseveral] at left ⊢
    obtain ⟨-, -, rfl⟩ := left
    obtain ⟨closed, hstore⟩ := hrundown s
    exact ⟨closed, congrArg Except.ok hstore⟩

/-! ## A rundown -/

variable (session s) in
theorem closes_rundown : .acquire ∉ (rundown session s).1 ∧
    ∀ i m, .write i m ∉ (rundown session s).1 ∧ .purge i m ∉ (rundown session s).1 := by
  unfold rundown
  split <;> simp

/-- The lock is not acquired again and nothing is lost exactly if each encoder that gets a segment
of the session has its hidden streams, and accepts what the session has written. -/
theorem losesNothing_iff (h : Reachable again s) (attached : session ∈ s.store.references) :
    s.LosesNothing again services session wait ↔
      ∀ x ∈ s.streams, x.Prepared session (services x.type.id) := by
  have hinv := h.inv
  have hcount := hinv.count.resolve_right fun hc => by rw [hc.2] at attached; cases attached
  have hpos : 0 < s.store.references.length := List.length_pos_of_mem attached
  by_cases hready : ∀ x ∈ s.streams, ∀ n, x.Passes session n → x.encoder.Registered
  · obtain ⟨events, streams, hclose, hquiet, -, hhanded⟩ := closeStreams_quietly again
      services wait hinv.sound hinv.ids hready
    let left : Store := { s with
      store := s.store.detached session s.store.references
      streams := streams }
    obtain ⟨hacquire, hneither⟩ := closes_rundown session left
    have hdetach : s.detach again services session wait =
        (.acquire :: events ++ (rundown session left).1 ++ [.release], .returns,
          (rundown session left).2) := by
      rw [detach, if_neg (by omega), if_pos (by omega), if_neg (not_not.mpr attached), hclose]
    have hunlocked : ¬ Relocks (s.detach again services session wait).1 := by
      rw [hdetach]
      exact not_relocks_of_notMem (by simp [hquiet.1, hacquire])
    have hmem (i : StreamId) (m : StreamSegmentId) :
        (.write i m ∈ (s.detach again services session wait).1 ↔ .write i m ∈ events) ∧
          (.purge i m ∈ (s.detach again services session wait).1 ↔ .purge i m ∈ events) := by
      rw [hdetach]
      simp [hneither i m]
    constructor
    · intro hloses x hx
      refine ⟨hready x hx, fun n loc hloc hw hraw => ?_⟩
      rw [← hhanded x hx n loc hloc hw hraw, ← (hmem _ _).1, ← (hmem _ _).2]
      exact hloses.handed x hx n loc hloc hw hraw
    · intro hprepared
      refine ⟨hunlocked, fun x hx n loc hloc hw hraw => ?_⟩
      rw [(hmem _ _).1, (hmem _ _).2, hhanded x hx n loc hloc hw hraw]
      exact (hprepared x hx).accepted n loc hloc hw hraw
  · refine iff_of_false (fun hloses => hloses.unlocked ?_) fun hprepared => hready fun x hx =>
      (hprepared x hx).registered
    simp only [not_forall] at hready
    obtain ⟨x, hx, n, hpasses, hregistered⟩ := hready
    have hreacquires := reacquires_closeStreams again services wait hinv.sound hx
      hpasses hregistered
    rw [detach, if_neg (by omega), if_pos (by omega), if_neg (not_not.mpr attached)]
    split <;> rename_i heq <;> rw [heq] at hreacquires
    · exact ((hreacquires.append _).append _).relocks
    · exact (hreacquires.append _).relocks
    · exact hreacquires.relocks

def firstSegment (accessType : Option AccessType) : Store where
  store := ⟨0, "", 2, [1]⟩
  configurationLocked := false
  streams := [{ OpenStream.new ⟨0, 7, 32, true⟩ 0x4000000 accessType
      fun _ => ⟨0, 1, true, 5, 5⟩ with
    execution := { Execution.new with server := { Execution.new.server with
      stream := { Execution.new.server.stream.addSegmentLocation (.allocated 0 1 0) with
        lastAppendSequenceNumber := some 0 }
      buffer := Function.update Execution.new.server.buffer 0 (some 0) } } }]

/-- All hidden streams can be registered, the frame is committed, and the encoder can take the
segment. -/
def unimpaired : StreamId → StreamSegmentId → Services := fun _ _ =>
  ⟨fun i => some (BitVec.ofNat 32 (8 + i)), true, true⟩

theorem reachable_firstSegment (again : Reacquisition) (accessType : Option AccessType) :
    Reachable again (firstSegment accessType) := by
  have h₁ : Reachable again ⟨⟨0, "", 1, []⟩, false, []⟩ :=
    .new (show Manager.ServerStore.construct 0 "" = .ok _ from rfl)
  have h₂ := h₁.step (.attach (show Manager.ServerStore.attach _ 1 = .ok _ from rfl))
  have h₃ := h₂.step (@Step.registerStream again _ ⟨0, 7, 32, true⟩ 0x4000000 accessType
    (fun _ => ⟨0, 1, true, 5, 5⟩) rfl fun _ hx => absurd hx List.not_mem_nil)
  exact h₃.step (@Step.stream again _ [] [] _ _ rfl
    (.run (@Execution.Step.allocate _ 1 0 0 true rfl rfl)))

/-- A session leaves with the first segment of a memory stream. The lock is acquired again, and if
that fails, the entry is lost. -/
theorem not_losesNothing_firstSegment :
    (∀ again, Reachable again (firstSegment (some .dataMemoryAccess64)) ∧
      ¬ (firstSegment (some .dataMemoryAccess64)).LosesNothing again unimpaired 1 0) ∧
    ((firstSegment (some .dataMemoryAccess64)).detach .fails unimpaired 1 0).1 =
      [.acquire, .write 7 0, .acquire, .purge 7 0, .close 7, .release] := by
  refine ⟨fun again => ⟨reachable_firstSegment again _, fun hloses => ?_⟩, by decide⟩
  exact hloses.unlocked (relocks_of_position 2 (by cases again <;> decide)
    (by cases again <;> decide))

/-- The encoder of another stream takes its first segment. -/
theorem losesNothing_firstSegment :
    Reachable .fails (firstSegment none) ∧
      (firstSegment none).LosesNothing .fails unimpaired 1 0 := by
  have h := reachable_firstSegment .fails none
  have attached : 1 ∈ (firstSegment none).store.references := List.mem_cons_self
  have hiff := losesNothing_iff .fails unimpaired 0 h attached
  refine ⟨h, hiff.mpr fun x hx => ?_⟩
  obtain rfl := List.mem_singleton.mp hx
  refine ⟨fun n _ => .inl (.inl rfl), fun n loc hloc _ _ => ⟨?_, rfl, .inl (.inl rfl)⟩⟩
  obtain rfl : n = 0 := by
    by_contra hn
    cases (Function.update_of_ne hn _ _).symm.trans hloc
  decide

end Store

end Simutrace.Detach
