import Simutrace.Stream.Phases

/-! # Opening segments keeps the phases

An `open` first finds its segment, then reads ahead, and at last requests the
segment from the buffer unless it is open already. Reads may be completed by a
worker before the `open` has taken its reference.
-/

namespace Simutrace

namespace Execution

variable {e e' : Execution} {n : StreamSegmentId}

theorem entered_of_unlocked (h : e.opening = none) : e.entered n = none := by
  rw [entered, h]; rfl

theorem entered_of_free {o : OpenCall} (h : e.opening = some o) (free : o.ahead = none)
    (stage : ∀ complete, o.stage ≠ .entered complete) : e.entered n = none := by
  rw [entered, h, Option.bind_some, OpenCall.entered, free]
  cases hs : o.stage with
  | entered complete => exact (stage complete hs).elim
  | awaiting | done => rfl

theorem referenced_of_lookup {loc : SegmentLocation} {session : SessionId}
    {balance : SessionId → ℤ} {waitList : List WaitId}
    (h : loc.Referenced n balance) : SegmentLocation.Referenced n
      (fun s => balance s + if s = session then 1 else 0)
      { loc.shareReference session with waitList := waitList } where
  key := h.key
  located := h.located
  pos := by simp [SegmentLocation.shareReference, h.prefetched]
  count := by simp [SegmentLocation.shareReference, h.prefetched, h.count]
  map s := by
    simp only [SegmentLocation.shareReference, h.prefetched, Bool.false_eq_true, if_false]
    rw [← h.map, Multiset.count_cons]
    split <;> simp
  prefetched := rfl
  cancel := rfl

theorem account_self (e : Execution) (n : StreamSegmentId) (session : SessionId) (k : ℤ) :
    e.account n session k n = fun s => e.balance n s + if s = session then k else 0 := by
  funext s
  by_cases hs : s = session <;> simp [account, hs]

theorem account_of_ne {m : StreamSegmentId} (hm : m ≠ n) (session : SessionId) (k : ℤ) :
    e.account n session k m = e.balance m := by
  funext s
  simp [account, hm]

theorem awaited_of_done {o : OpenCall} {taken : Bool} (h : e.opening = some o)
    (stage : o.stage = .done taken) : e.awaited n = false := by
  rw [awaited, h, Option.any_some, OpenCall.awaits, stage]
  simp

theorem awaited_of_ne {o : OpenCall} (h : e.opening = some o) (hn : n ≠ o.sequenceNumber) :
    e.awaited n = false := by
  rw [awaited, h, Option.any_some, OpenCall.awaits]
  simp [Ne.symm hn]

theorem Phase.key {loc : SegmentLocation} {v : SegmentView} (h : Phase n loc v) :
    loc.sequenceNumber = n := by
  cases h with
  | writing new _ _ _ | encoding new _ _ _ => exact new.key
  | closed free _ _ _ | entering free _ _ _ _ _ | entered free _ _ _ _ => exact free.key
  | prefetching ahead _ _ _ => exact ahead.key
  | loading used _ _ _ | opened used _ _ _ => exact used.key

theorem Inv.lookup_cases {session : SessionId} {wait : Option WaitId} {handled : Bool}
    {s : ServerState} (h : Inv e) (found : e.server.lookup session n wait = some (s, handled)) :
    ∃ loc, e.server.stream.segments n = some loc ∧ loc.location ≠ none ∧
      (handled = false ∧ s = e.server ∧ loc.referenceCount = 0 ∨
        handled = true ∧ 0 < loc.referenceCount ∧ ∃ waitList, ServerState.Changes n
          (some { loc.shareReference session with waitList := waitList })
          (e.server.stream.openList.count n) (e.server.held n) e.server s) := by
  cases segment : e.server.stream.segments n with
  | none => simp [ServerState.lookup, segment] at found
  | some loc =>
    have hspec := ServerState.lookup_spec segment (h.phase segment).key found
    exact ⟨loc, rfl, hspec.1, hspec.2⟩

theorem inv_lookup_handled {session : SessionId} {loc : SegmentLocation} {s : ServerState}
    {o : OpenCall} {waitList : List WaitId} (h : Inv e) (unlocked : e.opening = none)
    (segment : e.server.stream.segments n = some loc) (located : loc.location ≠ none)
    (pos : 0 < loc.referenceCount)
    (hc : ServerState.Changes n
        (some { loc.shareReference session with waitList := waitList })
        (e.server.stream.openList.count n) (e.server.held n) e.server s)
    (free : o.ahead = none) (stage : o.stage = .done true) :
    Inv { e with server := s, opening := some o, balance := e.account n session 1 } := by
  let e' : Execution := { e with server := s, opening := some o, balance := e.account n session 1 }
  have hent (m : StreamSegmentId) : e'.entered m = none :=
    entered_of_free rfl free (by rw [stage]; exact nofun)
  have haw (m : StreamSegmentId) : e'.awaited m = false := awaited_of_done rfl stage
  have ho : Others n e e' := by
    refine ⟨fun m hm => account_of_ne hm session 1, fun _ _ => rfl, fun m _ => ?_, fun m _ =>
      .inr (haw m)⟩
    rw [hent, entered_of_unlocked unlocked]
  apply h.change hc ho
  rw [hent, haw]
  cases h.phase segment with
  | writing new _ _ _ | encoding new _ _ _ => exact (located new.new).elim
  | closed free _ _ _ | entering free _ _ _ _ _ | entered free _ _ _ _ =>
    exact (pos.ne' free.count).elim
  | prefetching ahead unloaded side view =>
    obtain ⟨hlisted, hheld, hbal, hread, -, -⟩ := view_eq view
    have hused : SegmentLocation.Referenced n (e.account n session 1 n)
        { loc.shareReference session with waitList := waitList } := by
      refine ⟨ahead.key, located, ?_, ?_, fun t => ?_, rfl, rfl⟩
      · simp [SegmentLocation.shareReference, ahead.prefetched, ahead.count]
      · simp [SegmentLocation.shareReference, ahead.prefetched, ahead.count]
      · rw [account_self, hbal]
        simp [SegmentLocation.shareReference, ahead.prefetched, Multiset.count_singleton]
    exact .loading hused unloaded side (by rw [hlisted, hheld])
  | loading used unloaded side view =>
    obtain ⟨hlisted, hheld, hbal, hread, -, -⟩ := view_eq view
    have hbal' : e'.balance n = fun s => _ := (account_self e n session 1).trans (by rw [hbal])
    exact .loading (referenced_of_lookup used) unloaded side (by rw [hlisted, hheld, hbal'])
  | opened used loaded side view =>
    obtain ⟨hlisted, hheld, hbal, hread, -, -⟩ := view_eq view
    have hread' : e'.reads n = false := hread
    have hbal' : e'.balance n = fun s => _ := (account_self e n session 1).trans (by rw [hbal])
    exact .opened (referenced_of_lookup used) loaded side (by rw [hlisted, hheld, hbal', hread'])

theorem inv_lookup_awaiting {loc : SegmentLocation} {o : OpenCall} (h : Inv e)
    (unlocked : e.opening = none) (segment : e.server.stream.segments o.sequenceNumber = some loc)
    (located : loc.location ≠ none) (count : loc.referenceCount = 0) (free : o.ahead = none)
    (stage : o.stage = .awaiting) : Inv { e with opening := some o } := by
  let e' : Execution := { e with opening := some o }
  have hent (m : StreamSegmentId) : e'.entered m = none :=
    entered_of_free rfl free (by rw [stage]; exact nofun)
  have hbefore (m : StreamSegmentId) : e.entered m = none := entered_of_unlocked unlocked
  have hc := ServerState.changes_setSegment e.server o.sequenceNumber (some loc) e.server.waits
  have hsame : ({ e.server with
      stream := e.server.stream.setSegment o.sequenceNumber (some loc) } : ServerState) =
      e.server := by
    simp [ServerStream.setSegment, ← segment]
  rw [hsame] at hc
  have ho : Others o.sequenceNumber e e' :=
    ⟨fun _ _ => rfl, fun _ _ => rfl, fun m _ => by rw [hent, hbefore],
      fun m hm => .inr (awaited_of_ne rfl hm)⟩
  refine h.change hc ho ?_
  cases h.phase segment with
  | writing new _ _ _ | encoding new _ _ _ => exact (located new.new).elim
  | prefetching ahead _ _ _ => cases ahead.count.symm.trans count
  | loading used _ _ _ | opened used _ _ _ => exact (used.pos.ne' count).elim
  | entering _ _ _ _ _ view | entered _ _ _ _ view =>
    cases (hbefore o.sequenceNumber).symm.trans (congrArg SegmentView.entered view)
  | closed free unloaded side view =>
    obtain ⟨hlisted, hheld, hbal, hread, -, -⟩ := view_eq view
    have hbal' : e'.balance o.sequenceNumber = 0 := hbal
    have hread' : e'.reads o.sequenceNumber = false := hread
    exact .closed free unloaded side (by rw [hlisted, hheld, hbal', hread'])

theorem inv_request {loc : SegmentLocation} {prefetch : Bool} {outcome : OpenOutcome}
    {o' : Option OpenCall} {ent : Option (Bool × Bool)} {aw : Bool} (h : Inv e)
    (free : loc.Unreferenced n) (unloaded : loc.id = none)
    (view : e.view n = ⟨some loc, 0, ∅, 0, false, ent, aw⟩) (allocatable : e.Allocatable outcome)
    (hent : ∀ m ≠ n, o'.bind (·.entered m) = e.entered m)
    (haw : ∀ m ≠ n, o'.any (·.awaits m) = e.awaited m ∨ o'.any (·.awaits m) = false)
    (hself : outcome.id ≠ none → o'.bind (·.entered n) = some (prefetch, outcome.completes) ∧
      o'.any (·.awaits n) = false) :
    Inv { e.request loc prefetch outcome with opening := o' } := by
  let e' : Execution := { e.request loc prefetch outcome with opening := o' }
  obtain ⟨hlisted, hheld, hbal, hread, -, -⟩ := view_eq view
  have hc := ServerState.changes_beginOpen prefetch outcome hheld free.key allocatable
  have ho : Others n e e' := by
    refine ⟨fun _ _ => rfl, fun m hm => ?_, hent, haw⟩
    simp only [e', request, free.key]
    split
    · rfl
    · exact Function.update_of_ne hm _ _
  have hfree : SegmentLocation.Unreferenced n
      { loc with prefetched := prefetch, cancel := prefetch, sideId := outcome.id } :=
    ⟨free.key, free.located, free.count, free.map⟩
  have hbal' : e'.balance n = 0 := hbal
  refine h.change hc ho ?_
  cases outcome with
  | noMemory | failed =>
    have hread' : e'.reads n = false := hread
    have hempty : {id | (none : Option SegmentId) = some id} = ∅ := by ext; simp
    exact .closed hfree unloaded rfl (by rw [hlisted, hbal', hread', ← hempty]; rfl)
  | complete id =>
    obtain ⟨hent', haw'⟩ := hself nofun
    have hread' : e'.reads n = false := hread
    have hsingle : {i | some id = some i} = {id} := by ext; simp [eq_comm]
    exact .entering hfree unloaded rfl ⟨rfl, rfl⟩ (fun _ => rfl)
      (by rw [hlisted, hbal', hread', ← hsingle]; exact congrArg₂ _ hent' haw')
  | loading id =>
    obtain ⟨hent', haw'⟩ := hself nofun
    have hread' : e'.reads n = true := by
      simp [e', request, OpenOutcome.completes, free.key]
    have hsingle : {i | some id = some i} = {id} := by ext; simp [eq_comm]
    have hsync : (OpenOutcome.loading id).completes = true → true = false := nofun
    exact .entering hfree unloaded rfl ⟨rfl, rfl⟩ hsync
      (by rw [hlisted, hbal', hread', ← hsingle]; exact congrArg₂ _ hent' haw')

theorem inv_skipAhead {o : OpenCall} (h : Inv e) (opening : e.opening = some o)
    (free : o.ahead = none) : Inv { e with opening := some o.next } := by
  refine h.same rfl rfl rfl (fun m => ?_) fun m => .inl ?_
  · simp [entered, opening, OpenCall.entered, OpenCall.next, free]
  · simp [awaited, opening, OpenCall.awaits, OpenCall.next]

/-- As long as segments are read ahead, the segment of the call has not been requested. -/
theorem stage_of_ahead {o : OpenCall} (first : o.readAhead.head? = some n) (complete : Bool) :
    o.stage ≠ .entered complete := by
  intro hs
  rw [o.last complete hs] at first
  cases first

theorem not_awaits_of_ahead {o : OpenCall} (first : o.readAhead.head? = some n) :
    n ≠ o.sequenceNumber := by
  rintro rfl
  exact o.other (List.mem_of_mem_head? first)

theorem inv_enterAhead {o : OpenCall} {loc : SegmentLocation} {outcome : OpenOutcome} (h : Inv e)
    (opening : e.opening = some o) (free : o.ahead = none) (first : o.readAhead.head? = some n)
    (segment : e.server.stream.segments n = some loc) (located : loc.location ≠ none)
    (closed : loc.referenceCount = 0) (allocatable : e.Allocatable outcome)
    (harmless : outcome = .failed → o.taken = false) :
    Inv (if outcome = .failed then (e.request loc true outcome).abort o
      else { e.request loc true outcome with
        opening := some { o with ahead := some outcome.completes } }) := by
  have hbefore (m : StreamSegmentId) : e.entered m = none :=
    entered_of_free opening free (stage_of_ahead first)
  cases h.phase segment with
  | writing new _ _ _ | encoding new _ _ _ => exact (located new.new).elim
  | prefetching ahead _ _ _ => cases ahead.count.symm.trans closed
  | loading used _ _ _ | opened used _ _ _ => exact (used.pos.ne' closed).elim
  | entering _ _ _ _ _ view | entered _ _ _ _ view =>
    cases (hbefore n).symm.trans (congrArg SegmentView.entered view)
  | closed unused unloaded side view =>
    split
    · rename_i hfailed
      simp only [abort, harmless hfailed, Bool.false_eq_true, if_false]
      exact inv_request h unused unloaded view allocatable (fun m _ => (hbefore m).symm)
        (fun _ _ => .inr rfl) (fun hid => by simp [hfailed, OpenOutcome.id] at hid)
    · refine inv_request h unused unloaded view allocatable (fun m hm => ?_) (fun m _ => .inl ?_)
        fun _ => ⟨?_, ?_⟩
      · simp [OpenCall.entered, hbefore, first, Ne.symm hm]
      · simp [awaited, opening, OpenCall.awaits]
      · simp [OpenCall.entered, first]
      · simp [OpenCall.awaits, Ne.symm (not_awaits_of_ahead first)]

theorem inv_enter {o : OpenCall} {loc : SegmentLocation} {outcome : OpenOutcome} (h : Inv e)
    (opening : e.opening = some o) (free : o.ahead = none) (last : o.readAhead = [])
    (awaiting : o.stage = .awaiting)
    (segment : e.server.stream.segments o.sequenceNumber = some loc)
    (allocatable : e.Allocatable outcome) :
    Inv (if outcome = .failed then (e.request loc false outcome).abort o
      else { e.request loc false outcome with
        opening := some (o.withStage (.entered outcome.completes) last) }) := by
  have hbefore (m : StreamSegmentId) : e.entered m = none :=
    entered_of_free opening free (by rw [awaiting]; exact nofun)
  have hawaited : e.awaited o.sequenceNumber = true := by
    simp [awaited, opening, OpenCall.awaits, awaiting]
  cases h.phase segment with
  | writing _ _ _ view | encoding _ _ _ view | prefetching _ _ _ view | loading _ _ _ view
  | opened _ _ _ view | entering _ _ _ _ _ view | entered _ _ _ _ view =>
    cases hawaited.symm.trans (congrArg SegmentView.awaited view)
  | closed unused unloaded side view =>
    split
    · rename_i hfailed
      have htaken : o.taken = false := by simp [OpenCall.taken, awaiting]
      simp only [abort, htaken, Bool.false_eq_true, if_false]
      exact inv_request h unused unloaded view allocatable (fun m _ => (hbefore m).symm)
        (fun _ _ => .inr rfl) (fun hid => by simp [hfailed, OpenOutcome.id] at hid)
    · refine inv_request h unused unloaded view allocatable (fun m hm => ?_) (fun m _ => .inr ?_)
        fun _ => ⟨?_, ?_⟩
      · simp [OpenCall.entered, OpenCall.withStage, hbefore, free, Ne.symm hm]
      · simp [OpenCall.awaits, OpenCall.withStage]
      · simp [OpenCall.entered, OpenCall.withStage, free]
      · simp [OpenCall.awaits, OpenCall.withStage]

theorem entered_of_ahead {o : OpenCall} {complete : Bool} (opening : e.opening = some o)
    (ahead : o.ahead = some complete) (first : o.readAhead.head? = some n) (m : StreamSegmentId) :
    e.entered m = if m = n then some (true, complete) else none := by
  simp only [entered, opening, Option.bind_some, OpenCall.entered, ahead, first,
    Option.some.injEq, eq_comm]

theorem inv_leaveAhead {o : OpenCall} {complete : Bool} {loc : SegmentLocation} {s : ServerState}
    (h : Inv e) (opening : e.opening = some o) (ahead : o.ahead = some complete)
    (first : o.readAhead.head? = some n) (segment : e.server.stream.segments n = some loc)
    (finished : e.server.finishOpen o.session loc complete none = some s) :
    Inv { e with
      server := s
      opening := some (if loc.id = none ∧ loc.sideId = none then o.stop else o.next) } := by
  let e' : Execution := { e with
    server := s
    opening := some (if loc.id = none ∧ loc.sideId = none then o.stop else o.next) }
  have hent := entered_of_ahead opening ahead first
  have hent' (m : StreamSegmentId) : e'.entered m = none := by
    have hstage (c : Bool) : o.stage ≠ .entered c := stage_of_ahead first c
    by_cases hc : loc.id = none ∧ loc.sideId = none
    · exact entered_of_free (o := o.stop) (by simp only [e', if_pos hc]) rfl hstage
    · exact entered_of_free (o := o.next) (by simp only [e', if_neg hc]) rfl hstage
  have haw (m : StreamSegmentId) : e'.awaited m = e.awaited m := by
    simp only [awaited, opening, e']
    split <;> rfl
  have hself : e.entered n = some (true, complete) := by rw [hent, if_pos rfl]
  have ho : Others n e e' := by
    refine ⟨fun _ _ => rfl, fun _ _ => rfl, fun m hm => ?_, fun m _ => .inl (haw m)⟩
    rw [hent', hent, if_neg hm]
  cases h.phase segment with
  | writing _ _ _ view | encoding _ _ _ view | prefetching _ _ _ view | loading _ _ _ view
  | opened _ _ _ view =>
    cases hself.symm.trans (congrArg SegmentView.entered view)
  | entered _ _ _ _ view =>
    cases hself.symm.trans (congrArg SegmentView.entered view)
  | closed free unloaded side view =>
    obtain ⟨hlisted, hheld, hbal, hread, -, -⟩ := view_eq view
    have hbal' : e'.balance n = 0 := hbal
    have hread' : e'.reads n = false := hread
    have hfree : SegmentLocation.Unreferenced n { loc with cancel := false, prefetched := false } :=
      ⟨free.key, free.located, free.count, free.map⟩
    refine h.change (ServerState.finishOpen_of_closed free.key unloaded side finished) ho ?_
    exact .closed hfree unloaded side (by rw [hlisted, hheld, hbal', hread'])
  | entering free unloaded side flags synchronous view =>
    obtain ⟨hlisted, hheld, hbal, hread, hent₀, haw₀⟩ := view_eq view
    obtain ⟨rfl, rfl⟩ := Prod.mk.inj (Option.some.inj (hself.symm.trans hent₀))
    have hbal' : e'.balance n = 0 := hbal
    have hawn : e'.awaited n = false := (haw n).trans haw₀
    cases complete with
    | true =>
      have hread' : e'.reads n = false := hread.trans (synchronous rfl)
      obtain ⟨loc', hclosed, hc⟩ := ServerState.finishOpen_of_prefetched free.key free.located
        unloaded side flags.2 hheld finished
      refine h.change hc ho ?_
      exact .closed hclosed.toUnreferenced hclosed.unloaded hclosed.side (by rw [hbal', hread'])
    | false =>
      obtain ⟨waitList, hc⟩ := ServerState.finishOpen_of_loading free.key unloaded side finished
      have hahead : SegmentLocation.Prefetched n o.session
          { loc.addReference o.session with waitList := waitList } := by
        refine ⟨free.key, free.located, ?_, ?_, flags.1, flags.2⟩
        · simp [SegmentLocation.addReference, free.count]
        · simp [SegmentLocation.addReference, free.map]
      refine h.change hc ho ?_
      exact .prefetching hahead unloaded side (by rw [hlisted, hheld, hbal', hent', hawn])

theorem referenced_of_first {loc : SegmentLocation} (free : loc.Unreferenced n)
    (flags : loc.prefetched = false ∧ loc.cancel = false) (session : SessionId)
    (id sideId : Option SegmentId) (waitList : List WaitId) (hbal : e.balance n = 0) :
    SegmentLocation.Referenced n (e.account n session 1 n)
      { loc.addReference session with
        id := id, sideId := sideId, cancel := false, waitList := waitList } where
  key := free.key
  located := free.located
  pos := Nat.succ_pos _
  count := by simp [SegmentLocation.addReference, free.count, free.map]
  map t := by
    rw [account_self, hbal]
    simp [SegmentLocation.addReference, free.map, Multiset.count_singleton]
  prefetched := flags.1
  cancel := rfl

theorem entered_of_stage {o : OpenCall} {complete : Bool} (opening : e.opening = some o)
    (free : o.ahead = none) (stage : o.stage = .entered complete) (m : StreamSegmentId) :
    e.entered m = if m = o.sequenceNumber then some (false, complete) else none := by
  simp only [entered, opening, Option.bind_some, OpenCall.entered, free, stage, eq_comm]

theorem others_of_done {o o' : OpenCall} {complete taken : Bool} {s : ServerState}
    {balance : StreamSegmentId → SessionId → ℤ} (opening : e.opening = some o)
    (free : o.ahead = none) (stage : o.stage = .entered complete) (free' : o'.ahead = none)
    (stage' : o'.stage = .done taken) (hb : ∀ m ≠ o.sequenceNumber, balance m = e.balance m) :
    Others o.sequenceNumber e
      { e with server := s, opening := some o', balance := balance } := by
  refine ⟨hb, fun _ _ => rfl, fun m hm => ?_, fun m _ => .inr (awaited_of_done rfl stage')⟩
  rw [entered_of_free rfl free' (by rw [stage']; exact nofun),
    entered_of_stage opening free stage, if_neg hm]

theorem inv_leave_closed {o o' : OpenCall} {complete taken : Bool} {loc : SegmentLocation}
    {s : ServerState} (h : Inv e) (opening : e.opening = some o) (free : o.ahead = none)
    (stage : o.stage = .entered complete) (free' : o'.ahead = none)
    (stage' : o'.stage = .done taken)
    (segment : e.server.stream.segments o.sequenceNumber = some loc)
    (unloaded : loc.id = none) (side : loc.sideId = none)
    (finished : e.server.finishOpen o.session loc complete o.wait = some s) :
    Inv { e with server := s, opening := some o' } := by
  let e' : Execution := { e with server := s, opening := some o' }
  have hself : e.entered o.sequenceNumber = some (false, complete) := by
    rw [entered_of_stage opening free stage, if_pos rfl]
  have ho : Others o.sequenceNumber e e' :=
    others_of_done opening free stage free' stage' fun _ _ => rfl
  cases h.phase segment with
  | writing _ _ _ view | encoding _ _ _ view | prefetching _ _ _ view | loading _ _ _ view
  | opened _ _ _ view =>
    cases hself.symm.trans (congrArg SegmentView.entered view)
  | entering _ _ side' _ _ _ => cases side.symm.trans side'
  | entered _ loaded _ _ _ => cases unloaded.symm.trans loaded
  | closed unused _ _ view =>
    obtain ⟨hlisted, hheld, hbal, hread, -, -⟩ := view_eq view
    have hbal' : e'.balance o.sequenceNumber = 0 := hbal
    have hread' : e'.reads o.sequenceNumber = false := hread
    have hfree : SegmentLocation.Unreferenced o.sequenceNumber
        { loc with cancel := false, prefetched := false } :=
      ⟨unused.key, unused.located, unused.count, unused.map⟩
    refine h.change (ServerState.finishOpen_of_closed unused.key unloaded side finished) ho ?_
    exact .closed hfree unloaded side (by rw [hlisted, hheld, hbal', hread'])

theorem inv_leave_taken {o o' : OpenCall} {complete taken : Bool} {loc : SegmentLocation}
    {s : ServerState} (h : Inv e) (opening : e.opening = some o) (free : o.ahead = none)
    (stage : o.stage = .entered complete) (free' : o'.ahead = none)
    (stage' : o'.stage = .done taken)
    (segment : e.server.stream.segments o.sequenceNumber = some loc)
    (used : ¬ (loc.id = none ∧ loc.sideId = none))
    (finished : e.server.finishOpen o.session loc complete o.wait = some s) :
    Inv { e with
      server := s, opening := some o', balance := e.account o.sequenceNumber o.session 1 } := by
  let e' : Execution := { e with
    server := s, opening := some o', balance := e.account o.sequenceNumber o.session 1 }
  have hself : e.entered o.sequenceNumber = some (false, complete) := by
    rw [entered_of_stage opening free stage, if_pos rfl]
  have ho : Others o.sequenceNumber e e' :=
    others_of_done opening free stage free' stage' fun m hm => account_of_ne hm o.session 1
  have hent : e'.entered o.sequenceNumber = none :=
    entered_of_free rfl free' (by rw [stage']; exact nofun)
  have haw : e'.awaited o.sequenceNumber = false := awaited_of_done rfl stage'
  cases h.phase segment with
  | writing _ _ _ view | encoding _ _ _ view | prefetching _ _ _ view | loading _ _ _ view
  | opened _ _ _ view =>
    cases hself.symm.trans (congrArg SegmentView.entered view)
  | closed _ unloaded side _ => exact (used ⟨unloaded, side⟩).elim
  | entering unused unloaded side flags synchronous view =>
    obtain ⟨hlisted, hheld, hbal, hread, hent₀, -⟩ := view_eq view
    obtain ⟨rfl, rfl⟩ := Prod.mk.inj (Option.some.inj (hself.symm.trans hent₀))
    cases complete with
    | true =>
      have hread' : e'.reads o.sequenceNumber = false := hread.trans (synchronous rfl)
      obtain ⟨waitList, hc⟩ := ServerState.finishOpen_of_complete unused.key unused.located
        unloaded side flags.2 finished
      refine h.change hc ho ?_
      exact .opened (referenced_of_first unused flags o.session _ _ waitList hbal) rfl rfl
        (by rw [hlisted, hheld, hread', hent, haw])
    | false =>
      obtain ⟨waitList, hc⟩ := ServerState.finishOpen_of_loading unused.key unloaded side finished
      have href := referenced_of_first unused flags o.session loc.id loc.sideId waitList hbal
      rw [← flags.2] at href
      refine h.change hc ho ?_
      exact .loading href unloaded side (by rw [hlisted, hheld, hent, haw])
  | entered unused loaded side flags view =>
    obtain ⟨hlisted, hheld, hbal, hread, hent₀, -⟩ := view_eq view
    obtain ⟨-, rfl⟩ := Prod.mk.inj (Option.some.inj (hself.symm.trans hent₀))
    have hread' : e'.reads o.sequenceNumber = false := hread
    have href := referenced_of_first unused flags o.session loc.id loc.sideId loc.waitList hbal
    rw [← flags.2] at href
    refine h.change (ServerState.finishOpen_of_loaded unused.key loaded finished) ho ?_
    exact .opened href loaded side (by rw [hlisted, hheld, hread', hent, haw])

theorem inv_ret {o : OpenCall} {taken throws : Bool} (h : Inv e) (opening : e.opening = some o)
    (free : o.ahead = none) (stage : o.stage = .done taken)
    (harmless : throws = true → o.taken = false) :
    Inv (if throws then e.abort o else { e with opening := none }) := by
  have hent (m : StreamSegmentId) : e.entered m = none :=
    entered_of_free opening free (by rw [stage]; exact nofun)
  have hret : Inv { e with opening := none } :=
    h.same rfl rfl rfl (fun m => (hent m).symm) fun _ => .inr rfl
  cases throws with
  | false => exact hret
  | true => simpa only [abort, harmless rfl, if_true, Bool.false_eq_true, if_false] using hret

/-! ## Reading -/

theorem inv_unread (h : Inv e) (n : StreamSegmentId) :
    Inv { e with reads := Function.update e.reads n false } := by
  intro m
  by_cases hm : m = n
  · subst hm
    have hv : ({ e with reads := Function.update e.reads m false } : Execution).view m =
        { e.view m with reading := false } := by
      simp [view, entered, awaited]
    rw [hv]
    rcases h m with hv | ⟨loc, hp⟩
    · exact .inl (by rw [hv]; rfl)
    · refine .inr ⟨loc, ?_⟩
      cases hp with
      | writing new loaded side view => exact .writing new loaded side (by rw [view])
      | encoding new unloaded side view => exact .encoding new unloaded side (by rw [view])
      | closed free unloaded side view => exact .closed free unloaded side (by rw [view])
      | entering free unloaded side flags synchronous view =>
        exact .entering free unloaded side flags (fun _ => rfl) (by rw [view])
      | entered free loaded side flags view => exact .entered free loaded side flags (by rw [view])
      | prefetching ahead unloaded side view =>
        exact .prefetching ahead unloaded side (by rw [view])
      | loading used unloaded side view => exact .loading used unloaded side (by rw [view])
      | opened used loaded side view => exact .opened used loaded side (by rw [view])
  · have hv : ({ e with reads := Function.update e.reads n false } : Execution).view m =
        e.view m := by
      simp [view, entered, awaited, Function.update_of_ne hm]
    rw [hv]
    exact h m

theorem inv_completeRead {loc : SegmentLocation} (h : Inv e)
    (segment : e.server.stream.segments n = some loc) (read : e.reads n = true) :
    Inv { e with
      server := e.server.completeRead loc true true false
      reads := Function.update e.reads n false } := by
  let e' : Execution := { e with
    server := e.server.completeRead loc true true false
    reads := Function.update e.reads n false }
  have ho : Others n e e' :=
    ⟨fun _ _ => rfl, fun m hm => Function.update_of_ne hm _ _, fun _ _ => rfl, fun _ _ => .inl rfl⟩
  have hread : e'.reads n = false := Function.update_self _ _ _
  cases h.phase segment with
  | writing _ _ _ view | encoding _ _ _ view | closed _ _ _ view | entered _ _ _ _ view
  | opened _ _ _ view =>
    cases read.symm.trans (congrArg SegmentView.reading view)
  | prefetching ahead _ side view =>
    obtain ⟨-, hheld, hbal, -, -, -⟩ := view_eq view
    have hbal' : e'.balance n = 0 := hbal
    obtain rfl := ahead.key
    obtain ⟨loc', hclosed, hc⟩ := ServerState.completeRead_of_undone e.server loc true true false
      ahead.located side hheld (.inr ahead.cancel) (.inr ahead.cancel)
    refine h.change hc ho ?_
    exact .closed hclosed.toUnreferenced hclosed.unloaded hclosed.side (by rw [hbal', hread])
  | loading used _ side view =>
    obtain ⟨hlisted, hheld, hbal, -, hent, haw⟩ := view_eq view
    have hent' : e'.entered n = none := hent
    have haw' : e'.awaited n = false := haw
    obtain rfl := used.key
    obtain ⟨waitList, hc⟩ := ServerState.completeRead_of_loaded e.server loc true false used.cancel
    have href : SegmentLocation.Referenced loc.sequenceNumber (e'.balance loc.sequenceNumber)
        { loc with id := loc.sideId, sideId := none, cancel := false, waitList := waitList } :=
      ⟨rfl, used.located, used.pos, used.count,
        fun t => by rw [used.map]; exact congrFun hbal.symm t,
        used.prefetched, rfl⟩
    refine h.change hc ho ?_
    exact .opened href side rfl (by rw [hlisted, hheld, hread, hent', haw'])
  | entering unused unloaded side flags synchronous view =>
    obtain ⟨hlisted, hheld, hbal, hread₀, hent, haw⟩ := view_eq view
    have hbal' : e'.balance n = 0 := hbal
    obtain rfl := unused.key
    rename_i id prefetch complete reading
    cases prefetch with
    | true =>
      obtain ⟨loc', hclosed, hc⟩ := ServerState.completeRead_of_undone e.server loc true true
        false unused.located side hheld (.inr flags.2) (.inr flags.2)
      refine h.change hc ho ?_
      exact .closed hclosed.toUnreferenced hclosed.unloaded hclosed.side (by rw [hbal', hread])
    | false =>
      have hcomplete : complete = false := by
        by_contra hc
        cases read.symm.trans (hread₀.trans (synchronous (Bool.of_not_eq_false hc)))
      have hent' : e'.entered loc.sequenceNumber = some (false, false) :=
        hent.trans (by rw [hcomplete])
      have haw' : e'.awaited loc.sequenceNumber = false := haw
      obtain ⟨waitList, hc⟩ := ServerState.completeRead_of_loaded e.server loc true false flags.2
      have hfree : SegmentLocation.Unreferenced loc.sequenceNumber { loc with
          id := loc.sideId, sideId := none, cancel := false, waitList := waitList } :=
        ⟨rfl, unused.located, unused.count, unused.map⟩
      refine h.change hc ho ?_
      exact .entered hfree side rfl ⟨flags.1, rfl⟩
        (by rw [hlisted, hheld, hbal', hread, hent', haw'])

theorem Phase.located_of_reading {loc : SegmentLocation} {v : SegmentView} (h : Phase n loc v)
    (read : v.reading = true) : loc.location ≠ none := by
  cases h with
  | writing _ _ _ view | encoding _ _ _ view => cases view ▸ read
  | closed free _ _ _ | entering free _ _ _ _ _ | entered free _ _ _ _ => exact free.located
  | prefetching ahead _ _ _ => exact ahead.located
  | loading used _ _ _ | opened used _ _ _ => exact used.located

theorem inv_decoded {decode : Bool} (h : Inv e) (read : e.reads n = true) :
    Inv { e with
      server := e.server.tryProcessWorkItem fun s => s.readerMain n false decode
      reads := Function.update e.reads n false } := by
  obtain ⟨loc, segment⟩ : ∃ loc, e.server.stream.segments n = some loc := by
    rcases h n with hv | ⟨loc, hp⟩
    · cases read.symm.trans (congrArg SegmentView.reading hv)
    · exact ⟨loc, hp.segment⟩
  have hlocated := (h.phase segment).located_of_reading read
  have hsome : loc.location.isSome = true := Option.isSome_iff_ne_none.mpr hlocated
  have hwith : e.server.completeSegmentWith n none = none := by
    rw [ServerState.completeSegmentWith, if_pos (.inr (by rw [segment]; exact hlocated))]
  by_cases hdone : decode = true ∧ e.server.stream.SegmentIsAllocated n
  · have hserver : (e.server.tryProcessWorkItem fun s => s.readerMain n false decode) =
        e.server.completeRead loc true true false := by
      simp [ServerState.tryProcessWorkItem, ServerState.readerMain, ServerState.completeSegment,
        hdone, ServerState.completeLocked_of_located segment hlocated, segment, hsome]
    rw [hserver]
    exact inv_completeRead h segment read
  · have hserver : (e.server.tryProcessWorkItem fun s => s.readerMain n false decode) =
        e.server := by
      have hnone : (if decode = true then e.server.completeSegment n else none) = none := by
        split
        · rename_i hd
          exact if_neg fun ha => hdone ⟨hd, ha⟩
        · rfl
      simp [ServerState.tryProcessWorkItem, ServerState.readerMain, hnone, hwith]
    rw [hserver]
    exact inv_unread h n

end Execution

end Simutrace
