import Simutrace.Stream.Closing
import Simutrace.Stream.Structure

/-! # Runs keep the structure of segments

Every step of a stream keeps the structure of the one segment that it changes.
This holds without any condition on what the sessions do.
-/

namespace Simutrace

namespace Execution

open ServerStream

variable {e e' : Execution} {n : StreamSegmentId} {segment : Option SegmentLocation}
  {loc : SegmentLocation} {listed : ℕ}

/-- A segment that is not allocated has no traces, and another one is sound. -/
def SoundAt (e : Execution) (n : StreamSegmentId) : Prop :=
  (e.server.stream.segments n = none ∧ e.server.stream.openList.count n = 0 ∧ e.reads n = false ∧
    e.entered n = none ∧ e.awaited n = false) ∨
  ∃ loc, e.server.stream.segments n = some loc ∧ n < e.server.stream.size ∧
    loc.Sound n (e.server.stream.openList.count n) (e.reads n) (e.entered n) (e.awaited n)

def Sound (e : Execution) : Prop := ∀ n, e.SoundAt n

/-- For all other segments nothing changes, but that an `open` may give up to wait for them. -/
structure Quiet (n : StreamSegmentId) (e e' : Execution) : Prop where
  reads : ∀ m ≠ n, e'.reads m = e.reads m
  entered : ∀ m ≠ n, e'.entered m = e.entered m
  awaited : ∀ m ≠ n, e'.awaited m = e.awaited m ∨ e'.awaited m = false

theorem sound_new : Sound new :=
  fun _ => .inl ⟨rfl, rfl, rfl, rfl, rfl⟩

theorem sound_of_not_awaited {reading awaited awaited' : Bool} {entered : Option (Bool × Bool)}
    (h : loc.Sound n listed reading entered awaited)
    (ha : awaited' = awaited ∨ awaited' = false) : loc.Sound n listed reading entered awaited' :=
  { h with
    busy := fun hb => h.busy (hb.imp_right fun ht => by
      rcases ha with ha | ha
      · exact ha ▸ ht
      · cases ha.symm.trans ht) }

theorem Sound.at (h : e.Sound) (hs : e.server.stream.segments n = some loc) :
    n < e.server.stream.size ∧
      loc.Sound n (e.server.stream.openList.count n) (e.reads n) (e.entered n) (e.awaited n) := by
  rcases h n with ⟨hnone, -⟩ | ⟨loc', hloc', hsound⟩
  · cases hs.symm.trans hnone
  · obtain rfl := Option.some.inj (hs.symm.trans hloc')
    exact hsound

theorem Sound.absent (h : e.Sound) (hs : e.server.stream.segments n = none) :
    e.server.stream.openList.count n = 0 ∧ e.reads n = false ∧ e.entered n = none ∧
      e.awaited n = false := by
  rcases h n with ⟨-, habsent⟩ | ⟨loc, hloc, -⟩
  · exact habsent
  · cases hs.symm.trans hloc

theorem Sound.change (h : e.Sound)
    (hm : Moves n segment listed e.server.stream e'.server.stream) (hq : Quiet n e e')
    (hn : (segment = none ∧ listed = 0 ∧ e'.reads n = false ∧ e'.entered n = none ∧
        e'.awaited n = false) ∨
      ∃ loc, segment = some loc ∧ n < e'.server.stream.size ∧
        loc.Sound n listed (e'.reads n) (e'.entered n) (e'.awaited n)) : e'.Sound := by
  intro m
  by_cases hmn : m = n
  · subst hmn
    rcases hn with ⟨hnone, hrest⟩ | ⟨loc, hloc, hrest⟩
    · refine .inl ⟨hm.segments_self.trans hnone, ?_⟩
      rw [hm.listed]
      exact hrest
    · refine .inr ⟨loc, hm.segments_self.trans hloc, ?_⟩
      rw [hm.listed]
      exact hrest
  · rcases h m with ⟨hnone, hlisted, hread, hent, haw⟩ | ⟨loc, hloc, hsize, hsound⟩
    · refine .inl ⟨(hm.segments_of_ne hmn).trans hnone, (hm.listed_of_ne m hmn).trans hlisted,
        (hq.reads m hmn).trans hread, (hq.entered m hmn).trans hent, ?_⟩
      rcases hq.awaited m hmn with ha | ha
      · exact ha.trans haw
      · exact ha
    · refine .inr ⟨loc, (hm.segments_of_ne hmn).trans hloc, hsize.trans_le hm.size, ?_⟩
      rw [hm.listed_of_ne m hmn, hq.reads m hmn, hq.entered m hmn]
      exact sound_of_not_awaited hsound (hq.awaited m hmn)

theorem Sound.change_some (h : e.Sound)
    (hm : Moves n (some loc) listed e.server.stream e'.server.stream) (hq : Quiet n e e')
    (allocated : e.server.stream.segments n ≠ none)
    (hn : loc.Sound n listed (e'.reads n) (e'.entered n) (e'.awaited n)) : e'.Sound := by
  obtain ⟨loc', hloc'⟩ := Option.ne_none_iff_exists'.mp allocated
  exact h.change hm hq (.inr ⟨loc, rfl, (h.at hloc').1.trans_le hm.size, hn⟩)

theorem Sound.same (h : e.Sound) (hs : e'.server = e.server) (hr : e'.reads = e.reads)
    (he : ∀ m, e'.entered m = e.entered m)
    (ha : ∀ m, e'.awaited m = e.awaited m ∨ e'.awaited m = false) : e'.Sound := by
  intro m
  unfold SoundAt
  rw [hs, hr, he m]
  rcases h m with ⟨hnone, hlisted, hread, hent, haw⟩ | ⟨loc, hloc, hsize, hsound⟩
  · refine .inl ⟨hnone, hlisted, hread, hent, ?_⟩
    rcases ha m with ha | ha
    · exact ha.trans haw
    · exact ha
  · exact .inr ⟨loc, hloc, hsize, sound_of_not_awaited hsound (ha m)⟩

theorem quiet_server (n : StreamSegmentId) (e : Execution) (s : ServerState)
    (balance : StreamSegmentId → SessionId → ℤ) :
    Quiet n e { e with server := s, balance := balance } :=
  ⟨fun _ _ => rfl, fun _ _ => rfl, fun _ _ => .inl rfl⟩

/-! ## New segments -/

theorem sound_load {location : StorageLocation} {stream : ServerStream} (h : e.Sound)
    (new : e.server.stream.segments location.sequenceNumber = none)
    (added : e.server.stream.addSegment location = some stream) :
    Sound { e with server := { e.server with stream := stream } } := by
  obtain ⟨hlisted, hread, hent, haw⟩ := h.absent new
  obtain ⟨hsegs, hopen⟩ := ServerStream.addSegment_of_none added new
  obtain ⟨-, -, -, hlt, hsize, -⟩ := ServerStream.addSegment_spec added
  have hidle : (SegmentLocation.stored location.normalize).Idle location.sequenceNumber :=
    ⟨⟨⟨rfl, Option.some_ne_none _, rfl, rfl⟩, rfl, rfl⟩, rfl⟩
  have hm : Moves location.sequenceNumber (some (.stored location.normalize)) 0
      e.server.stream stream :=
    ⟨hsegs, hopen ▸ hlisted, fun m _ => congrArg (List.count m) hopen, hsize⟩
  refine h.change hm (quiet_server _ e _ e.balance) (.inr ⟨_, rfl, hlt, ?_⟩)
  change SegmentLocation.Sound location.sequenceNumber 0 (e.reads _) (e.entered _) (e.awaited _) _
  rw [hread]
  exact hidle.sound _ _

theorem sound_allocate {session : SessionId} {id : SegmentId} {last : Option StreamSegmentId}
    {buffer : SegmentId → Option StreamSegmentId} (h : e.Sound)
    (new : e.server.stream.segments n = none) :
    Sound { e with server := { e.server with
      stream := { e.server.stream.addSegmentLocation (.allocated n session id) with
        lastAppendSequenceNumber := last }
      buffer := buffer } } := by
  obtain ⟨hlisted, hread, hent, haw⟩ := h.absent new
  have hm : Moves n (some (.allocated n session id)) 1 e.server.stream
      { e.server.stream.addSegmentLocation (.allocated n session id) with
        lastAppendSequenceNumber := last } := by
    refine ⟨rfl, ?_, fun m hm => ?_, le_max_left _ _⟩
    · simp [ServerStream.addSegmentLocation, SegmentLocation.allocated, hlisted]
    · simp [ServerStream.addSegmentLocation, SegmentLocation.allocated, Ne.symm hm]
  refine h.change hm (quiet_server _ e _ e.balance)
    (.inr ⟨_, rfl, lt_max_of_lt_right (Nat.lt_succ_self _), ?_⟩)
  change SegmentLocation.Sound n 1 (e.reads n) (e.entered n) (e.awaited n) _
  rw [hread, hent, haw]
  exact {
    key := rfl
    count := rfl
    listed := rfl
    written := fun _ => ⟨rfl, rfl, rfl⟩
    side := .inr rfl
    used := fun _ => .inl (Option.some_ne_none _)
    idle := fun hzero => by cases hzero
    ahead := fun _ => le_rfl
    busy := fun hb => by simp at hb
    synchronous := fun _ hs => by cases hs
    reading := fun hr => by cases hr
    waits := fun hw => absurd rfl hw }

theorem sound_encoded {location : Option StorageLocation} {s : ServerState}
    (h : e.Sound) (segment : e.server.stream.segments n = some loc)
    (notLocated : loc.location = none) (notWritable : loc.id = none)
    (link : ∀ l ∈ location, l.sequenceNumber = n)
    (completed : e.server.writerMain n location = some s) : Sound { e with server := s } := by
  obtain ⟨hsize, hsound⟩ := h.at segment
  obtain ⟨hcount, -, hread⟩ := hsound.written notLocated
  have hbusy : ¬ (e.entered n ≠ none ∨ e.awaited n = true) := by
    intro hb
    cases hcount.symm.trans (hsound.busy hb)
  obtain ⟨segment', hidle, hm⟩ := ServerState.moves_writerMain segment hsound.key notLocated
    notWritable link completed
  refine h.change hm (quiet_server n e s e.balance) ?_
  cases segment' with
  | none =>
    rw [not_or, not_not, Bool.not_eq_true] at hbusy
    exact .inl ⟨rfl, rfl, hread, hbusy⟩
  | some loc' =>
    refine .inr ⟨loc', rfl, hsize.trans_le hm.size, ?_⟩
    have hread' : ({ e with server := s } : Execution).reads n = false := hread
    rw [hread']
    exact (hidle loc' rfl).sound _ _

/-! ## Opening segments -/

theorem sound_lookup_handled {session : SessionId} {s : ServerState}
    {o : OpenCall} {balance : StreamSegmentId → SessionId → ℤ} {waitList : List WaitId}
    (h : e.Sound) (unlocked : e.opening = none) (segment : e.server.stream.segments n = some loc)
    (located : loc.location ≠ none) (pos : loc.referenceCount ≠ 0)
    (wait : loc.id ≠ none → waitList = loc.waitList)
    (hm : Moves n (some { loc.shareReference session with waitList := waitList })
      (e.server.stream.openList.count n) e.server.stream s.stream)
    (free : o.ahead = none) (stage : o.stage = .done true) :
    Sound { e with server := s, opening := some o, balance := balance } := by
  let e' : Execution := { e with server := s, opening := some o, balance := balance }
  obtain ⟨hsize, hsound⟩ := h.at segment
  have hent (m : StreamSegmentId) : e'.entered m = none :=
    entered_of_free rfl free (by rw [stage]; exact nofun)
  have haw (m : StreamSegmentId) : e'.awaited m = false := awaited_of_done rfl stage
  have hq : Quiet n e e' := by
    refine ⟨fun _ _ => rfl, fun m _ => ?_, fun m _ => .inr (haw m)⟩
    rw [hent, entered_of_unlocked unlocked]
  have hlisted := hsound.listed
  rw [if_neg pos] at hlisted
  refine h.change_some hm hq (by rw [segment]; exact Option.some_ne_none _) ?_
  rw [hent, haw]
  have hcount : (loc.shareReference session).referenceCount =
      (loc.shareReference session).referenceMap.card := by
    -- the only reference of a read ahead is replaced
    cases hp : loc.prefetched with
    | true =>
      have hone := hsound.ahead hp
      simp only [SegmentLocation.shareReference, hp, if_true, Multiset.card_cons,
        Multiset.card_zero]
      omega
    | false => simp [SegmentLocation.shareReference, hp, hsound.count]
  have hpos : (loc.shareReference session).referenceCount ≠ 0 := by
    rw [hcount]
    simp [SegmentLocation.shareReference]
  exact {
    key := hsound.key
    count := hcount
    listed := hlisted.trans (if_neg hpos).symm
    written := fun hnone => absurd hnone located
    side := hsound.side
    used := fun _ => hsound.used pos
    idle := fun hzero => absurd hzero hpos
    ahead := fun hp => by cases hp
    busy := fun hb => by simp at hb
    synchronous := fun _ hs => by cases hs
    reading := hsound.reading
    waits := fun hw => by
      refine ⟨hpos, ?_⟩
      by_contra hid
      exact hid (hsound.waits (wait hid ▸ hw)).2 }

theorem sound_lookup_awaiting {o : OpenCall} {balance : StreamSegmentId → SessionId → ℤ}
    (h : e.Sound) (unlocked : e.opening = none)
    (segment : e.server.stream.segments o.sequenceNumber = some loc)
    (zero : loc.referenceCount = 0) (free : o.ahead = none) (stage : o.stage = .awaiting) :
    Sound { e with opening := some o, balance := balance } := by
  let e' : Execution := { e with opening := some o, balance := balance }
  obtain ⟨-, hsound⟩ := h.at segment
  have hent (m : StreamSegmentId) : e'.entered m = none :=
    entered_of_free rfl free (by rw [stage]; exact nofun)
  have hq : Quiet o.sequenceNumber e e' :=
    ⟨fun _ _ => rfl, fun m _ => by rw [hent, entered_of_unlocked unlocked],
      fun m hm => .inr (awaited_of_ne rfl hm)⟩
  refine h.change_some (moves_same segment) hq (by rw [segment]; exact Option.some_ne_none _) ?_
  rw [hent, ← entered_of_unlocked unlocked]
  exact { hsound with busy := fun _ => zero }

theorem sound_lookup {session : SessionId} {wait : Option WaitId} {s : ServerState}
    {handled : Bool} (h : e.Sound) (unlocked : e.opening = none)
    (found : e.server.lookup session n wait = some (s, handled)) {o : OpenCall}
    {balance : StreamSegmentId → SessionId → ℤ} (key : o.sequenceNumber = n)
    (free : o.ahead = none) (stage : o.stage = if handled then .done true else .awaiting) :
    Sound { e with server := s, opening := some o, balance := balance } := by
  cases segment : e.server.stream.segments n with
  | none => simp [ServerState.lookup, segment] at found
  | some loc =>
    obtain ⟨located, hcases⟩ := ServerState.moves_lookup segment (h.at segment).2.key found
    rcases hcases with ⟨rfl, rfl, zero⟩ | ⟨rfl, pos, waitList, hwait, hm⟩
    · exact sound_lookup_awaiting h unlocked (key ▸ segment) zero free stage
    · exact sound_lookup_handled h unlocked segment located pos hwait hm free stage

theorem id_ne_none_of_loading {outcome : OpenOutcome} (h : outcome.completes = false) :
    outcome.id ≠ none := by
  cases outcome with
  | loading id => exact Option.some_ne_none _
  | noMemory | complete _ | failed => cases h

theorem sound_request {prefetch : Bool} {outcome : OpenOutcome} {o' : Option OpenCall}
    {balance : StreamSegmentId → SessionId → ℤ} (h : e.Sound)
    (segment : e.server.stream.segments n = some loc) (zero : loc.referenceCount = 0)
    (outside : e.entered n = none) (hent : ∀ m ≠ n, o'.bind (·.entered m) = e.entered m)
    (haw : ∀ m ≠ n, o'.any (·.awaits m) = e.awaited m ∨ o'.any (·.awaits m) = false)
    (hself : outcome.id ≠ none → o'.bind (·.entered n) = some (prefetch, outcome.completes)) :
    Sound { e.request loc prefetch outcome with opening := o', balance := balance } := by
  let e' : Execution := { e.request loc prefetch outcome with opening := o', balance := balance }
  obtain ⟨hsize, hsound⟩ := h.at segment
  obtain ⟨hid, hside⟩ := hsound.idle zero outside
  have hread : e.reads n = false := by
    by_contra hr
    exact (hsound.reading (Bool.of_not_eq_false hr)).2 hside
  have hread' : e'.reads n = true → outcome.completes = false := by
    intro hr
    by_contra hc
    simp only [e', request, if_pos (Bool.of_not_eq_false hc)] at hr
    cases hr.symm.trans hread
  have hq : Quiet n e e' := by
    refine ⟨fun m hm => ?_, hent, haw⟩
    simp only [e', request, hsound.key]
    split
    · rfl
    · exact Function.update_of_ne hm _ _
  refine h.change_some (ServerState.moves_beginOpen _ prefetch outcome hsound.key) hq
    (by rw [segment]; exact Option.some_ne_none _) ?_
  exact {
    key := hsound.key
    count := hsound.count
    listed := hsound.listed
    written := fun hnone => absurd hnone (hsound.located zero)
    side := .inl hid
    used := fun hne => absurd zero hne
    idle := fun _ hnone => by
      refine ⟨hid, ?_⟩
      by_contra hne
      cases hnone.symm.trans (hself hne)
    ahead := fun _ => by rw [zero]; exact Nat.zero_le 1
    busy := fun _ => zero
    synchronous := fun p hp => by
      refine ⟨hid, ?_⟩
      by_contra hr
      have hcompletes := hread' (Bool.of_not_eq_false hr)
      have heq := hp.symm.trans (hself (id_ne_none_of_loading hcompletes))
      rw [hcompletes] at heq
      cases heq
    reading := fun hr => ⟨hid, id_ne_none_of_loading (hread' hr)⟩
    waits := fun hw => absurd zero (hsound.waits hw).1 }

theorem sound_skipAhead {o : OpenCall} (h : e.Sound) (opening : e.opening = some o)
    (free : o.ahead = none) : Sound { e with opening := some o.next } := by
  refine h.same rfl rfl (fun m => ?_) fun m => .inl ?_
  · simp [entered, opening, OpenCall.entered, OpenCall.next, free]
  · simp [awaited, opening, OpenCall.awaits, OpenCall.next]

theorem sound_enterAhead {o : OpenCall} {outcome : OpenOutcome} (h : e.Sound)
    (opening : e.opening = some o) (free : o.ahead = none) (first : o.readAhead.head? = some n)
    (segment : e.server.stream.segments n = some loc) (zero : loc.referenceCount = 0) :
    Sound (if outcome = .failed then (e.request loc true outcome).abort o
      else { e.request loc true outcome with
        opening := some { o with ahead := some outcome.completes } }) := by
  have hbefore (m : StreamSegmentId) : e.entered m = none :=
    entered_of_free opening free (stage_of_ahead first)
  split
  · rename_i hfailed
    exact sound_request h segment zero (hbefore n) (fun m _ => (hbefore m).symm)
      (fun _ _ => .inr rfl) (fun hid => by simp [hfailed, OpenOutcome.id] at hid)
  · refine sound_request h segment zero (hbefore n) (fun m hm => ?_)
      (fun m _ => .inl ?_) fun _ => ?_
    · simp [OpenCall.entered, hbefore, first, Ne.symm hm]
    · simp [awaited, opening, OpenCall.awaits]
    · simp [OpenCall.entered, first]

theorem sound_enter {o : OpenCall} {outcome : OpenOutcome} (h : e.Sound)
    (opening : e.opening = some o) (free : o.ahead = none) (last : o.readAhead = [])
    (awaiting : o.stage = .awaiting)
    (segment : e.server.stream.segments o.sequenceNumber = some loc) :
    Sound (if outcome = .failed then (e.request loc false outcome).abort o
      else { e.request loc false outcome with
        opening := some (o.withStage (.entered outcome.completes) last) }) := by
  have hbefore (m : StreamSegmentId) : e.entered m = none :=
    entered_of_free opening free (by rw [awaiting]; exact nofun)
  have hawaited : e.awaited o.sequenceNumber = true := by
    simp [awaited, opening, OpenCall.awaits, awaiting]
  have hzero := (h.at segment).2.busy (.inr hawaited)
  split
  · rename_i hfailed
    exact sound_request h segment hzero (hbefore _) (fun m _ => (hbefore m).symm)
      (fun _ _ => .inr rfl) (fun hid => by simp [hfailed, OpenOutcome.id] at hid)
  · refine sound_request h segment hzero (hbefore _) (fun m hm => ?_)
      (fun m _ => .inr ?_) fun _ => ?_
    · simp [OpenCall.entered, OpenCall.withStage, hbefore, free, Ne.symm hm]
    · simp [OpenCall.awaits, OpenCall.withStage]
    · simp [OpenCall.entered, OpenCall.withStage, free]

/-- A segment that a session has opened is referenced once. -/
theorem sound_opened {loc' : SegmentLocation} {session : SessionId}
    {prefetch complete reading awaited : Bool}
    (h : loc.Sound n listed reading (some (prefetch, complete)) awaited)
    (hzero : loc.referenceCount = 0) (hkey : loc'.sequenceNumber = n)
    (hloc : loc'.location = loc.location) (hcount : loc'.referenceCount = loc.referenceCount + 1)
    (hmap : loc'.referenceMap = session ::ₘ loc.referenceMap)
    (hids : loc'.id = none ∧ loc'.sideId ≠ none ∧ complete = false ∨
      loc'.id ≠ none ∧ loc'.sideId = none ∧ loc'.waitList = [] ∧
        (complete = true ∨ loc.id ≠ none)) :
    loc'.Sound n (listed + 1) reading none false := by
  have hlisted := h.listed
  rw [if_pos hzero] at hlisted
  have hpos : loc'.referenceCount ≠ 0 := by
    rw [hcount]
    exact Nat.succ_ne_zero _
  have hreading (hid : loc'.id ≠ none) (hr : reading = true) : False := by
    rcases hids with ⟨hnone, -⟩ | ⟨-, -, -, hc | hloaded⟩
    · exact hid hnone
    · cases hr.symm.trans (h.synchronous prefetch (by rw [hc])).2
    · exact hloaded (h.reading hr).1
  exact {
    key := hkey
    count := by rw [hcount, hmap, Multiset.card_cons, h.count]
    listed := by rw [hlisted, if_neg hpos]
    written := fun hnone => absurd (hloc.symm.trans hnone) (h.located hzero)
    side := by
      rcases hids with ⟨hid, -⟩ | ⟨-, hside, -⟩
      · exact .inl hid
      · exact .inr hside
    used := fun _ => by
      rcases hids with ⟨-, hside, -⟩ | ⟨hid, -⟩
      · exact .inr hside
      · exact .inl hid
    idle := fun hz => absurd hz hpos
    ahead := fun _ => by rw [hcount, hzero]
    busy := fun hb => by simp at hb
    synchronous := fun _ hs => by cases hs
    reading := fun hr => by
      rcases hids with ⟨hid, hside, -⟩ | ⟨hid, -⟩
      · exact ⟨hid, hside⟩
      · exact (hreading hid hr).elim
    waits := fun hw => by
      rcases hids with ⟨hid, -⟩ | ⟨-, -, hnil, -⟩
      · exact ⟨hpos, hid⟩
      · exact absurd hnil hw }

theorem sound_finishOpen {session : SessionId} {wait : Option WaitId} {s : ServerState}
    {prefetch complete : Bool} {o' : OpenCall} {balance : StreamSegmentId → SessionId → ℤ}
    (h : e.Sound) (segment : e.server.stream.segments n = some loc)
    (inside : e.entered n = some (prefetch, complete))
    (finished : e.server.finishOpen session loc complete wait = some s)
    (hent : ∀ m, o'.entered m = none) (hout : ∀ m ≠ n, e.entered m = none)
    (haw : ∀ m ≠ n, o'.awaits m = e.awaited m ∨ o'.awaits m = false)
    (hself : o'.awaits n = false) :
    Sound { e with server := s, opening := some o', balance := balance } := by
  let e' : Execution := { e with server := s, opening := some o', balance := balance }
  obtain ⟨-, hsound⟩ := h.at segment
  have hzero : loc.referenceCount = 0 :=
    hsound.busy (.inl (by rw [inside]; exact Option.some_ne_none _))
  have hlocated := hsound.located hzero
  have hallocated : e.server.stream.segments n ≠ none := by
    rw [segment]
    exact Option.some_ne_none _
  have hq : Quiet n e e' :=
    ⟨fun _ _ => rfl, fun m hm => (hent m).trans (hout m hm).symm, fun m hm => haw m hm⟩
  have hent' : e'.entered n = none := hent n
  have haw' : e'.awaited n = false := hself
  have hread' : e'.reads n = e.reads n := rfl
  have hwaits : loc.waitList = [] := by
    by_contra hw
    exact (hsound.waits hw).1 hzero
  have hsynchronous (hc : complete = true) : loc.id = none ∧ e.reads n = false :=
    hsound.synchronous prefetch (by rw [inside, hc])
  rcases ServerState.moves_finishOpen hsound.key hlocated hwaits hsound.side
    (fun hc => (hsynchronous hc).1) finished with
    ⟨hid, hside, hm⟩ | ⟨hc, loc', hidle, hm⟩ | ⟨loc', hkey, hloc, hcount, hmap, -, hids, hm⟩
  · refine h.change_some hm hq hallocated ?_
    rw [hent', haw', hread']
    exact { hsound with
      written := fun hnone => absurd hnone hlocated
      idle := fun _ _ => ⟨hid, hside⟩
      ahead := fun hp => by cases hp
      busy := fun hb => by simp at hb
      synchronous := fun _ hs => by cases hs }
  · refine h.change_some hm hq hallocated ?_
    rw [hread', (hsynchronous hc).2]
    exact hidle.sound _ _
  · refine h.change_some hm hq hallocated ?_
    rw [hent', haw', hread']
    exact sound_opened (inside ▸ hsound) hzero hkey hloc hcount hmap hids

theorem sound_leaveAhead {o : OpenCall} {complete : Bool} {s : ServerState} (h : e.Sound)
    (opening : e.opening = some o) (ahead : o.ahead = some complete)
    (first : o.readAhead.head? = some n) (segment : e.server.stream.segments n = some loc)
    (finished : e.server.finishOpen o.session loc complete none = some s) :
    Sound { e with
      server := s
      opening := some (if loc.id = none ∧ loc.sideId = none then o.stop else o.next) } := by
  have hent := entered_of_ahead opening ahead first
  have hstage (c : Bool) : o.stage ≠ .entered c := stage_of_ahead first c
  have hother := not_awaits_of_ahead first
  have hawaits (m : StreamSegmentId) :
      (if loc.id = none ∧ loc.sideId = none then o.stop else o.next).awaits m = o.awaits m := by
    split <;> rfl
  refine sound_finishOpen h segment ((hent n).trans (if_pos rfl)) finished
    (fun m => ?_) (fun m hm => (hent m).trans (if_neg hm)) (fun m _ => .inl ?_) ?_
  · cases hs : o.stage with
    | entered c => exact absurd hs (hstage c)
    | awaiting => split <;> simp [OpenCall.entered, OpenCall.stop, OpenCall.next, hs]
    | done taken => split <;> simp [OpenCall.entered, OpenCall.stop, OpenCall.next, hs]
  · rw [hawaits, awaited, opening, Option.any_some]
  · rw [hawaits]
    simp [OpenCall.awaits, Ne.symm hother]

theorem sound_leave {o : OpenCall} {complete taken : Bool} {s : ServerState}
    {balance : StreamSegmentId → SessionId → ℤ} (h : e.Sound) (opening : e.opening = some o)
    (free : o.ahead = none) (stage : o.stage = .entered complete)
    (segment : e.server.stream.segments o.sequenceNumber = some loc)
    (finished : e.server.finishOpen o.session loc complete o.wait = some s) :
    Sound { e with
      server := s
      opening := some (o.withStage (.done taken) (o.last _ stage))
      balance := balance } := by
  have hent := entered_of_stage opening free stage
  refine sound_finishOpen h segment ((hent _).trans (if_pos rfl)) finished (fun m => ?_)
    (fun m hm => (hent m).trans (if_neg hm)) (fun m _ => .inr ?_) ?_
  · simp [OpenCall.entered, OpenCall.withStage, free]
  · simp [OpenCall.awaits, OpenCall.withStage]
  · simp [OpenCall.awaits, OpenCall.withStage]

theorem sound_ret {o : OpenCall} {taken throws : Bool} (h : e.Sound) (opening : e.opening = some o)
    (free : o.ahead = none) (stage : o.stage = .done taken) :
    Sound (if throws then e.abort o else { e with opening := none }) := by
  have hent (m : StreamSegmentId) : e.entered m = none :=
    entered_of_free opening free (by rw [stage]; exact nofun)
  split <;> exact h.same rfl rfl (fun m => (hent m).symm) fun _ => .inr rfl

/-! ## Reading -/

theorem sound_unread (h : e.Sound) (segment : e.server.stream.segments n = some loc) :
    Sound { e with reads := Function.update e.reads n false } := by
  let e' : Execution := { e with reads := Function.update e.reads n false }
  have hq : Quiet n e e' :=
    ⟨fun m hm => Function.update_of_ne hm _ _, fun _ _ => rfl, fun _ _ => .inl rfl⟩
  have hread : e'.reads n = false := Function.update_self _ _ _
  obtain ⟨-, hsound⟩ := h.at segment
  refine h.change_some (moves_same segment) hq (by rw [segment]; exact Option.some_ne_none _) ?_
  rw [hread]
  exact { hsound with
    written := fun hnone => ⟨(hsound.written hnone).1, (hsound.written hnone).2.1, rfl⟩
    synchronous := fun p hp => ⟨(hsound.synchronous p hp).1, rfl⟩
    reading := fun hr => by cases hr }

theorem sound_completeRead (h : e.Sound) (segment : e.server.stream.segments n = some loc)
    (located : loc.location ≠ none) (read : e.reads n = true) :
    Sound { e with
      server := e.server.completeRead loc true true false
      reads := Function.update e.reads n false } := by
  let e' : Execution := { e with
    server := e.server.completeRead loc true true false
    reads := Function.update e.reads n false }
  have hq : Quiet n e e' :=
    ⟨fun m hm => Function.update_of_ne hm _ _, fun _ _ => rfl, fun _ _ => .inl rfl⟩
  have hread : e'.reads n = false := Function.update_self _ _ _
  have hallocated : e.server.stream.segments n ≠ none := by
    rw [segment]
    exact Option.some_ne_none _
  obtain ⟨-, hsound⟩ := h.at segment
  obtain ⟨-, hside⟩ := hsound.reading read
  cases hcancel : loc.cancel with
  | true =>
    obtain ⟨loc', hidle, hm⟩ := ServerState.moves_completeRead_undone e.server loc true
      true false hsound.key located (.inr hcancel) (by simp)
    refine h.change_some hm hq hallocated ?_
    rw [hread]
    exact hidle.sound _ _
  | false =>
    have hm := ServerState.moves_completeRead_loaded e.server loc true false hsound.key hcancel
    refine h.change_some hm hq hallocated ?_
    rw [hread]
    exact {
      key := hsound.key
      count := hsound.count
      listed := hsound.listed
      written := fun hnone => absurd hnone located
      side := .inr rfl
      used := fun _ => .inl hside
      idle := fun hz hent => absurd (hsound.idle hz hent).2 hside
      ahead := hsound.ahead
      busy := hsound.busy
      synchronous := fun p hp => by
        cases read.symm.trans (hsound.synchronous p hp).2
      reading := fun hr => by cases hr
      waits := fun hw => absurd rfl hw }

theorem sound_decoded {decode : Bool} (h : e.Sound) (read : e.reads n = true) :
    Sound { e with
      server := e.server.tryProcessWorkItem fun s => s.readerMain n false decode
      reads := Function.update e.reads n false } := by
  obtain ⟨loc, segment⟩ : ∃ loc, e.server.stream.segments n = some loc := by
    rcases h n with ⟨-, -, hread, -⟩ | ⟨loc, hloc, -⟩
    · cases read.symm.trans hread
    · exact ⟨loc, hloc⟩
  have hlocated : loc.location ≠ none := by
    intro hnone
    cases read.symm.trans ((h.at segment).2.written hnone).2.2
  rcases ServerState.tryProcessWorkItem_readerMain segment hlocated decode with hs | hs
  · rw [hs]
    exact sound_completeRead h segment hlocated read
  · rw [hs]
    exact sound_unread h segment

/-! ## Closing segments -/

theorem sound_closeSegment {wait : Option WaitId} {ignoreErrors throws : Bool}
    {submit : SubmitOutcome} {s : ServerState} {balance : StreamSegmentId → SessionId → ℤ}
    (h : e.Sound) (segment : e.server.stream.segments n = some loc) (pos : loc.referenceCount ≠ 0)
    (submittable : Submittable loc submit)
    (closed : e.server.closeSegment loc wait ignoreErrors submit = (s, throws)) :
    Sound { e with server := s, balance := balance } := by
  let e' : Execution := { e with server := s, balance := balance }
  obtain ⟨hsize, hsound⟩ := h.at segment
  have hq := quiet_server n e s balance
  have hallocated : e.server.stream.segments n ≠ none := by
    rw [segment]
    exact Option.some_ne_none _
  cases hid : loc.id with
  | none =>
    obtain ⟨-, -, waitList, hm⟩ := ServerState.closeSegment_of_unloaded hsound.key hid closed
    refine h.change_some hm hq hallocated ?_
    exact { hsound with waits := fun _ => ⟨pos, hid⟩ }
  | some id =>
    have hloaded : loc.id ≠ none := by
      rw [hid]
      exact Option.some_ne_none _
    have hread : e'.reads n = false := by
      by_contra hr
      exact hloaded (hsound.reading (Bool.of_not_eq_false hr)).1
    have hwaits : loc.waitList = [] := by
      by_contra hw
      exact hloaded (hsound.waits hw).2
    rcases ServerState.closeSegment_of_loaded hsound.key hid hwaits submittable closed with
      ⟨-, -, rfl⟩ | ⟨-, -, -, ⟨segment', hidle, -, hm⟩ | ⟨hnew, waitList, hm⟩⟩
    · exact h
    · refine h.change hm hq ?_
      cases segment' with
      | none =>
        have hbusy := mt hsound.busy pos
        rw [not_or, not_not, Bool.not_eq_true] at hbusy
        exact .inl ⟨rfl, rfl, hread, hbusy⟩
      | some loc' =>
        refine .inr ⟨loc', rfl, hsize.trans_le hm.size, ?_⟩
        rw [hread]
        exact (hidle loc' rfl).sound _ _
    · refine h.change_some hm hq hallocated ?_
      exact { hsound with
        side := .inl rfl
        used := fun _ => .inr (Option.some_ne_none _)
        idle := fun hz => absurd hz pos
        synchronous := fun p hp => absurd (hsound.busy (.inl (by
          rw [show e.entered n = _ from hp]
          exact Option.some_ne_none _))) pos
        reading := fun hr => by cases hr.symm.trans hread
        waits := fun _ => ⟨pos, rfl⟩ }

theorem sound_release {count : ℕ} {map : Multiset SessionId} {s : ServerState}
    {balance : StreamSegmentId → SessionId → ℤ} (h : e.Sound)
    (segment : e.server.stream.segments n = some loc) (pos : count ≠ 0) (card : count = map.card)
    (several : count < loc.referenceCount)
    (hs : s = { e.server with
      stream := e.server.stream.setSegment n
        (some { loc with referenceCount := count, referenceMap := map }) }) :
    Sound { e with server := s, balance := balance } := by
  subst hs
  obtain ⟨-, hsound⟩ := h.at segment
  have hmore : 1 < loc.referenceCount := by omega
  have hpos : loc.referenceCount ≠ 0 := by omega
  refine h.change_some (moves_setSegment _ _ _) (quiet_server n e _ balance)
    (by rw [segment]; exact Option.some_ne_none _) ?_
  exact { hsound with
    count := card
    listed := by rw [hsound.listed, if_neg hpos, if_neg pos]
    written := fun hnone => absurd (hsound.written hnone).1 hmore.ne'
    used := fun _ => hsound.used hpos
    idle := fun hz => absurd hz pos
    ahead := fun hp => by
      have hone := hsound.ahead hp
      omega
    busy := fun hb => absurd (hsound.busy hb) hpos
    waits := fun hw => ⟨pos, (hsound.waits hw).2⟩ }

theorem sound_close {session : SessionId} {wait : Option WaitId} {ignoreErrors throws : Bool}
    {submit : SubmitOutcome} {s : ServerState} {balance : StreamSegmentId → SessionId → ℤ}
    (h : e.Sound) (segment : e.server.stream.segments n = some loc)
    (submittable : Submittable loc submit)
    (closed : e.server.close session n wait ignoreErrors submit = some (s, throws)) :
    Sound { e with server := s, balance := balance } := by
  simp only [ServerState.close, segment, Option.bind_eq_bind, Option.bind_some] at closed
  split_ifs at closed with hno hone
  · rw [Option.some.injEq] at closed
    exact sound_closeSegment h segment (by rw [hone]; exact Nat.one_ne_zero) submittable closed
  · rw [not_or, not_not] at hno
    rw [Option.some.injEq, Prod.mk.injEq] at closed
    have hcount := (h.at segment).2.count
    refine sound_release h segment ?_ ?_ ?_ closed.1.symm
    · omega
    · rw [Multiset.card_erase_of_mem hno.2, ← hcount]
      rfl
    · omega

theorem Sound.several {session : SessionId} (h : e.Sound)
    (segment : e.server.stream.segments n = some loc)
    (hne : loc.referenceCount ≠ loc.referenceMap.count session) :
    loc.referenceMap.count session < loc.referenceCount := by
  have hcount := (h.at segment).2.count
  have hle := Multiset.count_le_card session loc.referenceMap
  omega

theorem sound_closeReferences {session : SessionId} {wait : Option WaitId}
    {ignoreErrors throws : Bool} {submit : SubmitOutcome} {s : ServerState}
    {balance : StreamSegmentId → SessionId → ℤ} (h : e.Sound)
    (submittable : ∀ loc, e.server.stream.segments n = some loc → Submittable loc submit)
    (closed : e.server.closeReferences session wait ignoreErrors submit n = (s, throws)) :
    Sound { e with server := s, balance := balance } := by
  unfold ServerState.closeReferences at closed
  cases segment : e.server.stream.segments n with
  | none =>
    simp only [segment, Prod.mk.injEq] at closed
    obtain ⟨rfl, -⟩ := closed
    exact h
  | some loc =>
    simp only [segment] at closed
    split_ifs at closed with hmem hall
    · have hpos := Multiset.count_pos.mpr hmem
      exact sound_closeSegment h segment (by omega) (submittable loc segment) closed
    · have hpos := Multiset.count_pos.mpr hmem
      have hless := h.several segment hall
      refine sound_release h segment ?_ ?_ ?_ (Prod.mk.inj closed).1.symm
      · omega
      · rw [card_filter_ne, (h.at segment).2.count]
      · omega
    · obtain ⟨rfl, -⟩ := Prod.mk.inj closed
      exact h

end Execution

end Simutrace
