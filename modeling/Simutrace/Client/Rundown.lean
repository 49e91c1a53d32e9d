import Mathlib.Data.List.Basic

/-! # Rundown of a client store

A store that is destroyed flushes its streams one after the other and then closes
itself at the server. All of this is done under one exception handler, so that
nothing is done any more after a stream could not be closed.
-/

namespace Simutrace

structure PendingSegment where
  sequenceNumber : ℕ
  data : List UInt8

/-- A stream of a client. The client is the master of a buffer that it does not share with the
server. -/
structure ClientStream where
  id : ℕ
  isMaster : Bool
  writeHandle : Option PendingSegment

inductive ClientRequest
  | streamClose (payload : List UInt8) (stream sequenceNumber : ℕ)
  | storeClose
  deriving DecidableEq, Repr

namespace ClientStream

variable (fails : ClientRequest → Bool) (stream : ClientStream)

/-- The server has the data of shared buffers. -/
def getPayload (segment : PendingSegment) : List UInt8 :=
  if stream.isMaster then segment.data else []

def closeRequest (segment : PendingSegment) : ClientRequest :=
  .streamClose (stream.getPayload segment) stream.id segment.sequenceNumber

def releaseHandle : ClientStream := { stream with writeHandle := none }

def flush : ClientStream × List ClientRequest × Bool :=
  match stream.writeHandle with
  | none => (stream, [], false)
  | some segment =>
    if stream.isMaster then
      let request := stream.closeRequest segment
      if fails request then (stream, [request], true)
      else (stream.releaseHandle, [request], false)
    else (stream.releaseHandle, [], false)

/-- The stream has data that cannot be sent to the server. -/
def Unsendable : Prop :=
  stream.isMaster = true ∧ ∃ segment ∈ stream.writeHandle,
    fails (stream.closeRequest segment) = true

variable {fails stream}

theorem flush_of_unsendable (h : stream.Unsendable fails) :
    ∃ segment, stream.flush fails = (stream, [stream.closeRequest segment], true) := by
  obtain ⟨hmaster, segment, hsegment, hfails⟩ := h
  refine ⟨segment, ?_⟩
  unfold flush
  rw [Option.mem_def.mp hsegment]
  dsimp only
  rw [if_pos hmaster, if_pos hfails]

/-- Otherwise the handle is released, after the data has been sent. -/
theorem flush_of_sendable (h : ¬ stream.Unsendable fails) :
    ∃ requests, stream.flush fails = (stream.releaseHandle, requests, false) ∧
      ClientRequest.storeClose ∉ requests ∧
      ∀ segment ∈ stream.writeHandle, stream.isMaster = true →
        stream.closeRequest segment ∈ requests := by
  unfold flush
  cases hhandle : stream.writeHandle with
  | none =>
    have hreleased : stream.releaseHandle = stream := by
      unfold releaseHandle
      rw [← hhandle]
    rw [hreleased]
    exact ⟨[], rfl, List.not_mem_nil, fun segment hsegment => by cases hsegment⟩
  | some segment =>
    dsimp only
    cases hmaster : stream.isMaster with
    | false =>
      rw [if_neg Bool.false_ne_true]
      exact ⟨[], rfl, List.not_mem_nil, fun _ _ hfalse => by cases hfalse⟩
    | true =>
      have hfails : ¬ fails (stream.closeRequest segment) = true := fun hfails =>
        h ⟨hmaster, segment, hhandle, hfails⟩
      rw [if_pos rfl, if_neg hfails]
      refine ⟨_, rfl, fun hmem => ?_, fun segment' hsegment _ => ?_⟩
      · cases List.mem_singleton.mp hmem
      · obtain rfl := Option.some.inj hsegment
        exact List.mem_singleton_self _

end ClientStream

structure Rundown where
  streams : List ClientStream
  requests : List ClientRequest
  failed : Bool

namespace ClientStore

variable (fails : ClientRequest → Bool)

/-- The loop over the streams. -/
def flushStreams : List ClientStream → Rundown
  | [] => ⟨[], [], false⟩
  | stream :: streams =>
    match stream.flush fails with
    | (stream, requests, true) => ⟨stream :: streams, requests, true⟩
    | (stream, requests, false) =>
      let rest := flushStreams streams
      ⟨stream :: rest.streams, requests ++ rest.requests, rest.failed⟩

def rundown (streams : List ClientStream) : Rundown :=
  let flushed := flushStreams fails streams
  if flushed.failed then flushed
  else ⟨flushed.streams, flushed.requests ++ [.storeClose], fails .storeClose⟩

/-- The data of the streams that can be closed is sent, all write handles are released, and the
store is closed at the server. -/
structure RunsDown (streams : List ClientStream) : Prop where
  sent : ∀ stream ∈ streams, ∀ segment ∈ stream.writeHandle, stream.isMaster = true →
    fails (stream.closeRequest segment) = false →
      stream.closeRequest segment ∈ (rundown fails streams).requests
  released : ∀ stream ∈ (rundown fails streams).streams, stream.writeHandle = none
  closed : ClientRequest.storeClose ∈ (rundown fails streams).requests

variable {fails} {streams front : List ClientStream} {stream : ClientStream}

theorem flushStreams_of_failed {requests : List ClientRequest}
    (h : stream.flush fails = (stream, requests, true)) :
    flushStreams fails (stream :: streams) = ⟨stream :: streams, requests, true⟩ := by
  unfold flushStreams
  rw [h]

theorem flushStreams_of_flushed {requests : List ClientRequest}
    (h : stream.flush fails = (stream.releaseHandle, requests, false)) :
    flushStreams fails (stream :: streams) =
      ⟨stream.releaseHandle :: (flushStreams fails streams).streams,
        requests ++ (flushStreams fails streams).requests,
        (flushStreams fails streams).failed⟩ := by
  conv_lhs => unfold flushStreams
  rw [h]

theorem flushStreams_of_sendable (h : ∀ stream ∈ streams, ¬ stream.Unsendable fails) :
    (flushStreams fails streams).failed = false ∧
      (flushStreams fails streams).streams = streams.map (·.releaseHandle) ∧
      ClientRequest.storeClose ∉ (flushStreams fails streams).requests ∧
      ∀ stream ∈ streams, ∀ segment ∈ stream.writeHandle, stream.isMaster = true →
        stream.closeRequest segment ∈ (flushStreams fails streams).requests := by
  induction streams with
  | nil => exact ⟨rfl, rfl, List.not_mem_nil, fun stream hstream => by cases hstream⟩
  | cons stream streams ih =>
    obtain ⟨hfailed, hstreams, hclose, hsent⟩ :=
      ih fun s hs => h s (List.mem_cons_of_mem _ hs)
    obtain ⟨requests, hflush, hclose', hsent'⟩ :=
      ClientStream.flush_of_sendable (h stream List.mem_cons_self)
    rw [flushStreams_of_flushed hflush]
    refine ⟨hfailed, congrArg _ hstreams, ?_, fun s hs segment hsegment hmaster => ?_⟩
    · rw [List.mem_append]
      exact not_or.mpr ⟨hclose', hclose⟩
    · rw [List.mem_append]
      rcases List.mem_cons.mp hs with rfl | hs
      · exact .inl (hsent' segment hsegment hmaster)
      · exact .inr (hsent s hs segment hsegment hmaster)

/-- The first stream with data that cannot be sent ends the loop. The streams behind it keep their
handles. -/
theorem flushStreams_append (streams : List ClientStream)
    (h : ∀ stream ∈ front, ¬ stream.Unsendable fails)
    (unsendable : stream.Unsendable fails) :
    ∃ segment, flushStreams fails (front ++ stream :: streams) =
      ⟨front.map (·.releaseHandle) ++ stream :: streams,
        (flushStreams fails front).requests ++ [stream.closeRequest segment], true⟩ := by
  induction front with
  | nil =>
    obtain ⟨segment, hflush⟩ := ClientStream.flush_of_unsendable unsendable
    refine ⟨segment, ?_⟩
    rw [List.nil_append, flushStreams_of_failed hflush]
    rfl
  | cons s front ih =>
    obtain ⟨segment, hrest⟩ := ih fun s hs => h s (List.mem_cons_of_mem _ hs)
    obtain ⟨requests, hflush, -⟩ := ClientStream.flush_of_sendable (h s List.mem_cons_self)
    refine ⟨segment, ?_⟩
    rw [List.cons_append, flushStreams_of_flushed hflush, flushStreams_of_flushed hflush, hrest,
      List.append_assoc]
    rfl

theorem not_runsDown_of_unsendable (h : ∀ stream ∈ front, ¬ stream.Unsendable fails)
    (unsendable : stream.Unsendable fails) : ¬ RunsDown fails (front ++ stream :: streams) := by
  obtain ⟨segment, hflushed⟩ := flushStreams_append streams h unsendable
  intro hruns
  have hclosed := hruns.closed
  unfold rundown at hclosed
  rw [hflushed] at hclosed
  rcases List.mem_append.mp hclosed with hmem | hmem
  · exact (flushStreams_of_sendable h).2.2.1 hmem
  · cases List.mem_singleton.mp hmem

theorem exists_first_unsendable (h : ∃ stream ∈ streams, stream.Unsendable fails) :
    ∃ front stream back, streams = front ++ stream :: back ∧ stream.Unsendable fails ∧
      ∀ s ∈ front, ¬ s.Unsendable fails := by
  induction streams with
  | nil =>
    obtain ⟨stream, hstream, -⟩ := h
    cases hstream
  | cons s streams ih =>
    by_cases hs : s.Unsendable fails
    · exact ⟨[], s, streams, rfl, hs, fun s hs => by cases hs⟩
    · obtain ⟨stream, hstream, hunsendable⟩ := h
      have hrest : stream ∈ streams := by
        rcases List.mem_cons.mp hstream with rfl | hmem
        · exact absurd hunsendable hs
        · exact hmem
      obtain ⟨front, first, back, heq, hfirst, hfront⟩ := ih ⟨stream, hrest, hunsendable⟩
      refine ⟨s :: front, first, back, by rw [heq]; rfl, hfirst, fun t ht => ?_⟩
      rcases List.mem_cons.mp ht with rfl | ht
      · exact hs
      · exact hfront t ht

/-- A store runs down if and only if no stream has data that cannot be sent. -/
theorem runsDown_iff : RunsDown fails streams ↔ ∀ stream ∈ streams, ¬ stream.Unsendable fails := by
  constructor
  · intro hruns
    by_contra hnot
    simp only [not_forall, not_not] at hnot
    obtain ⟨stream, hstream, hunsendable⟩ := hnot
    obtain ⟨front, first, back, rfl, hfirst, hfront⟩ :=
      exists_first_unsendable ⟨stream, hstream, hunsendable⟩
    exact not_runsDown_of_unsendable hfront hfirst hruns
  · intro h
    obtain ⟨hfailed, hstreams, -, hsent⟩ := flushStreams_of_sendable h
    have hrundown : rundown fails streams = ⟨(flushStreams fails streams).streams,
        (flushStreams fails streams).requests ++ [.storeClose], fails .storeClose⟩ := by
      unfold rundown
      dsimp only
      rw [hfailed, if_neg Bool.false_ne_true]
    constructor
    · intro stream hstream segment hsegment hmaster _
      rw [hrundown]
      exact List.mem_append_left _ (hsent stream hstream segment hsegment hmaster)
    · rw [hrundown]
      dsimp only
      rw [hstreams]
      intro stream hstream
      obtain ⟨s, -, rfl⟩ := List.mem_map.mp hstream
      rfl
    · rw [hrundown]
      exact List.mem_append_right _ (List.mem_singleton_self _)

/-- The second of two streams is not flushed after the first one has failed. -/
theorem not_runsDown_twoStreams :
    ¬ RunsDown (fun request => request = .streamClose [1] 0 0)
      [⟨0, true, some ⟨0, [1]⟩⟩, ⟨1, true, some ⟨0, [2]⟩⟩] := by
  intro hruns
  have hsent := hruns.sent ⟨1, true, some ⟨0, [2]⟩⟩ (by simp) ⟨0, [2]⟩ rfl rfl (by decide)
  exact absurd hsent (by decide)

end ClientStore

end Simutrace
