import Simutrace.Stream.Changes
import Mathlib.Algebra.BigOperators.Group.Multiset.Basic
import Mathlib.Tactic.Ring

/-! # Phases of segments

A segment is written and encoded, or stored and then closed, loading, or open for
the sessions that hold references to it. Every step of a stream moves one segment
from one phase to another.
-/

namespace Simutrace

namespace SegmentLocation

structure New (n : StreamSegmentId) (session : SessionId) (loc : SegmentLocation) : Prop where
  key : loc.sequenceNumber = n
  new : loc.location = none
  count : loc.referenceCount = 1
  map : loc.referenceMap = {session}
  prefetched : loc.prefetched = false

structure Prefetched (n : StreamSegmentId) (session : SessionId) (loc : SegmentLocation) :
    Prop where
  key : loc.sequenceNumber = n
  located : loc.location ≠ none
  count : loc.referenceCount = 1
  map : loc.referenceMap = {session}
  prefetched : loc.prefetched = true
  cancel : loc.cancel = true

structure Referenced (n : StreamSegmentId) (balance : SessionId → ℤ) (loc : SegmentLocation) :
    Prop where
  key : loc.sequenceNumber = n
  located : loc.location ≠ none
  pos : 0 < loc.referenceCount
  count : loc.referenceCount = loc.referenceMap.card
  map : ∀ session, (loc.referenceMap.count session : ℤ) = balance session
  prefetched : loc.prefetched = false
  cancel : loc.cancel = false

end SegmentLocation

/-- What a step can see of one segment. -/
structure SegmentView where
  segment : Option SegmentLocation
  listed : ℕ
  held : Set SegmentId
  balance : SessionId → ℤ
  reading : Bool
  entered : Option (Bool × Bool)
  awaited : Bool

/-- A segment that is not allocated. -/
def SegmentView.absent : SegmentView := ⟨none, 0, ∅, 0, false, none, false⟩

namespace Execution

variable {e e' : Execution} {n : StreamSegmentId}

def view (e : Execution) (n : StreamSegmentId) : SegmentView where
  segment := e.server.stream.segments n
  listed := e.server.stream.openList.count n
  held := e.server.held n
  balance := e.balance n
  reading := e.reads n
  entered := e.entered n
  awaited := e.awaited n

inductive Phase (n : StreamSegmentId) (loc : SegmentLocation) (v : SegmentView) : Prop
  | writing {id : SegmentId} {session : SessionId}
      (new : loc.New n session) (loaded : loc.id = some id) (side : loc.sideId = none)
      (view : v = ⟨some loc, 1, {id}, 0, false, none, false⟩)
  | encoding {id : SegmentId} {session : SessionId}
      (new : loc.New n session) (unloaded : loc.id = none) (side : loc.sideId = some id)
      (view : v = ⟨some loc, 1, {id}, 0, false, none, false⟩)
  | closed {entered : Option (Bool × Bool)} {awaited : Bool}
      (free : loc.Unreferenced n) (unloaded : loc.id = none) (side : loc.sideId = none)
      (view : v = ⟨some loc, 0, ∅, 0, false, entered, awaited⟩)
  | entering {id : SegmentId} {prefetch complete reading : Bool}
      (free : loc.Unreferenced n) (unloaded : loc.id = none) (side : loc.sideId = some id)
      (flags : loc.prefetched = prefetch ∧ loc.cancel = prefetch)
      (synchronous : complete = true → reading = false)
      (view : v = ⟨some loc, 0, {id}, 0, reading, some (prefetch, complete), false⟩)
  | entered {id : SegmentId} (free : loc.Unreferenced n) (loaded : loc.id = some id)
      (side : loc.sideId = none) (flags : loc.prefetched = false ∧ loc.cancel = false)
      (view : v = ⟨some loc, 0, {id}, 0, false, some (false, false), false⟩)
  | prefetching {id : SegmentId} {session : SessionId} {reading : Bool}
      (ahead : loc.Prefetched n session) (unloaded : loc.id = none) (side : loc.sideId = some id)
      (view : v = ⟨some loc, 1, {id}, 0, reading, none, false⟩)
  | loading {id : SegmentId} {balance : SessionId → ℤ} {reading : Bool}
      (used : loc.Referenced n balance) (unloaded : loc.id = none) (side : loc.sideId = some id)
      (view : v = ⟨some loc, 1, {id}, balance, reading, none, false⟩)
  | opened {id : SegmentId} {balance : SessionId → ℤ}
      (used : loc.Referenced n balance) (loaded : loc.id = some id) (side : loc.sideId = none)
      (view : v = ⟨some loc, 1, {id}, balance, false, none, false⟩)

/-- Every segment that is allocated is in one of the phases. -/
def Inv (e : Execution) : Prop :=
  ∀ n, e.view n = .absent ∨ ∃ loc, Phase n loc (e.view n)

theorem inv_new : Inv new := by
  intro n
  left
  simp [view, new, SegmentView.absent, ServerState.new, ServerStream.new, ServerState.held, entered,
    awaited]
  rfl

/-- For all other segments nothing changes, but that an `open` may give up to wait for them. -/
structure Others (n : StreamSegmentId) (e e' : Execution) : Prop where
  balance : ∀ m ≠ n, e'.balance m = e.balance m
  reads : ∀ m ≠ n, e'.reads m = e.reads m
  entered : ∀ m ≠ n, e'.entered m = e.entered m
  awaited : ∀ m ≠ n, e'.awaited m = e.awaited m ∨ e'.awaited m = false

theorem Phase.segment {loc : SegmentLocation} {v : SegmentView} (h : Phase n loc v) :
    v.segment = some loc := by
  cases h with
  | writing _ _ _ view | encoding _ _ _ view | closed _ _ _ view | entering _ _ _ _ _ view
  | entered _ _ _ _ view | prefetching _ _ _ view | loading _ _ _ view | opened _ _ _ view =>
    rw [view]

theorem Phase.of_not_awaited {loc : SegmentLocation} {v : SegmentView} (h : Phase n loc v) :
    Phase n loc { v with awaited := false } := by
  cases h with
  | writing new loaded side view => exact .writing new loaded side (by rw [view])
  | encoding new unloaded side view => exact .encoding new unloaded side (by rw [view])
  | closed free unloaded side view => exact .closed free unloaded side (by rw [view])
  | entering free unloaded side flags synchronous view =>
    exact .entering free unloaded side flags synchronous (by rw [view])
  | entered free loaded side flags view => exact .entered free loaded side flags (by rw [view])
  | prefetching ahead unloaded side view => exact .prefetching ahead unloaded side (by rw [view])
  | loading used unloaded side view => exact .loading used unloaded side (by rw [view])
  | opened used loaded side view => exact .opened used loaded side (by rw [view])

theorem Inv.of_not_awaited {v : SegmentView} (h : v = .absent ∨ ∃ loc, Phase n loc v) :
    { v with awaited := false } = .absent ∨ ∃ loc, Phase n loc { v with awaited := false } := by
  rcases h with rfl | ⟨loc, h⟩
  · exact .inl rfl
  · exact .inr ⟨loc, h.of_not_awaited⟩

theorem Inv.phase {loc : SegmentLocation} (h : Inv e)
    (hs : e.server.stream.segments n = some loc) : Phase n loc (e.view n) := by
  rcases h n with hv | ⟨loc', hp⟩
  · cases hs.symm.trans (congrArg SegmentView.segment hv)
  · obtain rfl := Option.some.inj (hs.symm.trans hp.segment)
    exact hp

theorem Inv.absent (h : Inv e) (hnone : e.server.stream.segments n = none) :
    e.view n = ⟨none, 0, ∅, 0, false, none, false⟩ := by
  rcases h n with hv | ⟨loc, hp⟩
  · exact hv
  · cases hnone.symm.trans hp.segment

theorem view_eq {v : SegmentView} (h : e.view n = v) :
    e.server.stream.openList.count n = v.listed ∧ e.server.held n = v.held ∧
      e.balance n = v.balance ∧ e.reads n = v.reading ∧ e.entered n = v.entered ∧
      e.awaited n = v.awaited := by
  subst h
  exact ⟨rfl, rfl, rfl, rfl, rfl, rfl⟩

theorem Inv.change_view {segment : Option SegmentLocation} {listed : ℕ} {held : Set SegmentId}
    (h : Inv e) (hc : ServerState.Changes n segment listed held e.server e'.server)
    (ho : Others n e e')
    (hn : e'.view n = .absent ∨ ∃ loc, Phase n loc (e'.view n)) : Inv e' := by
  intro m
  by_cases hm : m = n
  · exact hm ▸ hn
  · have hv : e'.view m = { e.view m with awaited := e'.awaited m } := by
      simp only [view, hc.segments, Function.update_of_ne hm, hc.listed_of_ne m hm,
        hc.held_of_ne m hm, ho.balance m hm, ho.reads m hm, ho.entered m hm]
    rw [hv]
    rcases ho.awaited m hm with ha | ha
    · rw [ha]
      exact h m
    · rw [ha]
      exact Inv.of_not_awaited (h m)

/-- Only the phase of the changed segment has to be shown after a step. -/
theorem Inv.change {loc : SegmentLocation} {listed : ℕ} {held : Set SegmentId}
    (h : Inv e) (hc : ServerState.Changes n (some loc) listed held e.server e'.server)
    (ho : Others n e e')
    (hn : Phase n loc
      ⟨some loc, listed, held, e'.balance n, e'.reads n, e'.entered n, e'.awaited n⟩) :
    Inv e' := by
  refine h.change_view hc ho (.inr ⟨loc, ?_⟩)
  rwa [view, hc.segment, hc.listed, hc.held]

theorem Inv.change_absent (h : Inv e)
    (hc : ServerState.Changes n none 0 ∅ e.server e'.server) (ho : Others n e e')
    (hn : (⟨none, 0, ∅, e'.balance n, e'.reads n, e'.entered n, e'.awaited n⟩ : SegmentView) =
      .absent) : Inv e' := by
  refine h.change_view hc ho (.inl ?_)
  rwa [view, hc.segment, hc.listed, hc.held]

theorem Inv.move {loc : SegmentLocation} {listed : ℕ} {held : Set SegmentId}
    (h : Inv e) (hc : ServerState.Changes n (some loc) listed held e.server e'.server)
    (ho : Others n e e')
    (hn : Phase n loc
      ⟨some loc, listed, held, e'.balance n, e'.reads n, e'.entered n, e'.awaited n⟩) :
    Inv e' ∧ ∀ m ≠ n, e'.server.stream.segments m = e.server.stream.segments m :=
  ⟨h.change hc ho hn, fun m hm => by rw [hc.segments, Function.update_of_ne hm]⟩

theorem Inv.same (h : Inv e) (hs : e'.server = e.server) (hb : e'.balance = e.balance)
    (hr : e'.reads = e.reads) (he : ∀ m, e'.entered m = e.entered m)
    (ha : ∀ m, e'.awaited m = e.awaited m ∨ e'.awaited m = false) : Inv e' := by
  intro m
  have hv : e'.view m = { e.view m with awaited := e'.awaited m } := by
    simp only [view, hs, hb, hr, he m]
  rw [hv]
  rcases ha m with ha | ha
  · rw [ha]
    exact h m
  · rw [ha]
    exact Inv.of_not_awaited (h m)

theorem others_server (n : StreamSegmentId) (e : Execution) (s : ServerState) :
    Others n e { e with server := s } :=
  ⟨fun _ _ => rfl, fun _ _ => rfl, fun _ _ => rfl, fun _ _ => .inl rfl⟩

/-! ## New segments -/

theorem inv_load {location : StorageLocation} {stream : ServerStream} (h : Inv e)
    (new : e.server.stream.segments location.sequenceNumber = none)
    (added : e.server.stream.addSegment location = some stream) :
    Inv { e with server := { e.server with stream := stream } } := by
  obtain ⟨hlisted, hheld, hbal, hread, -, -⟩ := view_eq (h.absent new)
  obtain ⟨hsegs, hopen⟩ := ServerStream.addSegment_of_none added new
  have hfree : (SegmentLocation.stored location.normalize).Unreferenced location.sequenceNumber :=
    ⟨rfl, nofun, rfl, rfl⟩
  have hc : ServerState.Changes location.sequenceNumber (some (.stored location.normalize)) 0 ∅
      e.server { e.server with stream := stream } := by
    refine ⟨hsegs, ?_, fun m _ => ?_, hheld, fun _ _ => rfl⟩
    · exact hopen ▸ hlisted
    · exact congrArg (List.count m) hopen
  apply h.change hc (others_server _ _ _)
  exact .closed hfree rfl rfl (by rw [hbal, hread])

theorem inv_allocate {session : SessionId} {id : SegmentId} {last : Option StreamSegmentId}
    (h : Inv e) (new : e.server.stream.segments n = none) (free : e.server.buffer id = none) :
    Inv { e with server := { e.server with
      stream := { e.server.stream.addSegmentLocation (.allocated n session id) with
        lastAppendSequenceNumber := last }
      buffer := Function.update e.server.buffer id (some n) } } := by
  obtain ⟨hlisted, hheld, hbal, hread, hent, haw⟩ := view_eq (h.absent new)
  have hupd := ServerState.held_update_some free hheld
  have hnew : (SegmentLocation.allocated n session id).New n session := ⟨rfl, rfl, rfl, rfl, rfl⟩
  have hc : ServerState.Changes n (some (.allocated n session id)) 1 {id} e.server { e.server with
      stream := { e.server.stream.addSegmentLocation (.allocated n session id) with
        lastAppendSequenceNumber := last }
      buffer := Function.update e.server.buffer id (some n) } := by
    refine ⟨rfl, ?_, fun m hm => ?_, (hupd n).trans (if_pos rfl), fun m hm =>
      (hupd m).trans (if_neg hm)⟩
    · simp [ServerStream.addSegmentLocation, SegmentLocation.allocated, hlisted]
    · simp [ServerStream.addSegmentLocation, SegmentLocation.allocated, Ne.symm hm]
  apply h.change hc (others_server _ _ _)
  refine .writing hnew rfl rfl ?_
  simp only [hbal, hread]
  exact congrArg₂ _ hent haw

theorem inv_encoded {loc : SegmentLocation} {id : SegmentId} {location : Option StorageLocation}
    {s : ServerState} (h : Inv e) (segment : e.server.stream.segments n = some loc)
    (notLocated : loc.location = none) (notWritable : loc.id = none)
    (_ : loc.sideId = some id) (link : ∀ l ∈ location, l.sequenceNumber = n)
    (completed : e.server.writerMain n location = some s) : Inv { e with server := s } := by
  cases h.phase segment with
  | writing _ loaded _ _ | entered _ loaded _ _ _ | opened _ loaded _ _ =>
    cases notWritable.symm.trans loaded
  | closed free _ _ _ | entering free _ _ _ _ _ => exact (free.located notLocated).elim
  | prefetching ahead _ _ _ => exact (ahead.located notLocated).elim
  | loading used _ _ _ => exact (used.located notLocated).elim
  | encoding new _ side view =>
    obtain ⟨-, hheld, hbal, hread, hent, haw⟩ := view_eq view
    obtain ⟨segment', hclosed, hc⟩ := ServerState.writerMain_spec segment new.key notLocated
      notWritable side hheld link completed
    cases segment' with
    | none =>
      apply h.change_absent hc (others_server _ _ _)
      simp only [hbal, hread]
      exact congrArg₂ _ hent haw
    | some loc' =>
      apply h.change hc (others_server _ _ _)
      have hcl := hclosed loc' rfl
      exact .closed hcl.toUnreferenced hcl.unloaded hcl.side (by rw [hbal, hread])

end Execution

end Simutrace
