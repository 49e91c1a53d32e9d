import Simutrace.Library.Transition
import Simutrace.Stream.Mapping
import Simutrace.Stream.Appending

/-! # Payloads of remote clients

A client without shared memory sends the data of a segment as the payload of a
request. The payload is received into the buffer segment that the request names,
before the request itself is handled.
-/

namespace Simutrace

abbrev StreamId := ℕ

abbrev BufferId := ℕ

/-- The requests with a payload. Only two kinds of them are received into a buffer segment. -/
inductive PayloadCode | streamAppend | streamClose | other
  deriving DecidableEq, Repr

structure PayloadMessage where
  code : PayloadCode
  stream : StreamId
  sequenceNumber : StreamSegmentId
  payload : List UInt8

/-- Why the payload of a request is rejected. -/
inductive PayloadError | notFound | outOfBounds | malformed
  deriving DecidableEq, Repr

structure PayloadAllocation where
  payload : Option (BufferId × SegmentId)
  error : Option PayloadError

def ServerStream.getBufferMapping (s : ServerStream) (n : StreamSegmentId) : Option SegmentId :=
  if s.SegmentIsAllocated n then (s.segments n).bind (·.id) else none

def ServerStream.getCurrentSegmentId (s : ServerStream) : StreamSegmentId :=
  s.lastAppendSequenceNumber.getD invalidStreamSegmentId

structure BufferedStream where
  buffer : BufferId
  execution : Execution

namespace BufferedStream

variable (t : BufferedStream)

def stream : ServerStream := t.execution.server.stream

end BufferedStream

/-- The streams of a store, and the bytes in the segments of the stream buffers. A payload has the
size of a segment with its control element. -/
structure Server where
  streams : StreamId → Option BufferedStream
  payloadSize : BufferId → ℕ
  contents : BufferId → SegmentId → List UInt8

inductive ServerAction
  | register (id : StreamId) (buffer : BufferId)
  | stream (id : StreamId) (action : Action)
  | write (contents : BufferId → SegmentId → List UInt8)
  | receive (session : SessionId) (message : PayloadMessage)

namespace Server

variable (v : Server)

def payloadSegment (message : PayloadMessage) : Option (BufferedStream × StreamSegmentId) :=
  match message.code with
  | .other => none
  | .streamAppend => (v.streams message.stream).map fun t => (t, t.stream.getCurrentSegmentId)
  | .streamClose => (v.streams message.stream).map fun t => (t, message.sequenceNumber)

/-- Where the payload of a message is received, or none for memory of its own, and why the allocator
throws. It has stored the address of the segment when it compares the sizes. -/
def messagePayloadAllocator (message : PayloadMessage) : PayloadAllocation :=
  if message.code = .other then ⟨none, none⟩
  else
    match v.payloadSegment message with
    | none => ⟨none, some .notFound⟩
    | some (t, n) =>
      match t.stream.getBufferMapping n with
      | none => ⟨none, some .outOfBounds⟩
      | some id =>
        ⟨some (t.buffer, id),
          if message.payload.length = v.payloadSize t.buffer then none else some .malformed⟩

def setSegment (b : BufferId) (id : SegmentId) (bytes : List UInt8) : Server :=
  { v with contents := Function.update v.contents b (Function.update (v.contents b) id bytes) }

/-- Discard a message after its allocator has thrown. The address of the payload is freed, which
is not defined for a buffer segment. -/
def discard (allocation : PayloadAllocation) : Option Server :=
  if allocation.payload = none then some v else none

/-- Receive the payload of a message. An empty one is not received at all. -/
def receivePayload (message : PayloadMessage) : Option Server :=
  if message.payload = [] then some v
  else
    let allocation := v.messagePayloadAllocator message
    match allocation.error, allocation.payload with
    | some _, _ => v.discard allocation
    | none, some (b, id) => some (v.setSegment b id message.payload)
    | none, none => some v

structure Initial (v : Server) : Prop where
  streams : v.streams = fun _ => none

/-- The steps of the server. Buffer segments are taken by one of the streams that share a buffer,
and are written at any time. -/
inductive Step : Server → ServerAction → Server → Prop
  | register {v : Server} {id : StreamId} {b : BufferId} (new : v.streams id = none) :
      Step v (.register id b)
        { v with streams := Function.update v.streams id (some ⟨b, .new⟩) }
  | stream {v : Server} {id : StreamId} {t : BufferedStream} {a : Action} {e : Execution}
      (registered : v.streams id = some t) (step : Execution.Step t.execution a e)
      (free : ∀ i, e.server.buffer i ≠ none → t.execution.server.buffer i = none →
        ∀ id' ≠ id, ∀ t' ∈ v.streams id', t'.buffer = t.buffer →
          t'.execution.server.buffer i = none) :
      Step v (.stream id a)
        { v with streams := Function.update v.streams id (some { t with execution := e }) }
  | write {v : Server} {contents : BufferId → SegmentId → List UInt8} :
      Step v (.write contents) { v with contents := contents }
  | receive {v v' : Server} {session : SessionId} {message : PayloadMessage}
      (received : v.receivePayload message = some v') : Step v (.receive session message) v'

def HoldsForWriting (session : SessionId) (b : BufferId) (id : SegmentId) : Prop :=
  ∃ sid t n loc, v.streams sid = some t ∧ t.buffer = b ∧ t.stream.segments n = some loc ∧
    loc.id = some id ∧ loc.writable = true ∧ session ∈ loc.referenceMap

/-- Only what a session writes changes. What is read, or open for other sessions, stays as it
is. -/
structure Preserves (session : SessionId) (v' : Server) : Prop where
  changes : ∀ b id, v'.contents b id ≠ v.contents b id → v.HoldsForWriting session b id
  keeps : ∀ sid t n loc id, v.streams sid = some t → t.stream.segments n = some loc →
    loc.id = some id → (loc.location ≠ none ∨ session ∉ loc.referenceMap) →
      v'.contents t.buffer id = v.contents t.buffer id

/-- It is defined what receiving a payload does, and it preserves what the session does not
write. -/
def Isolated (session : SessionId) (message : PayloadMessage) : Prop :=
  ∃ v', v.receivePayload message = some v' ∧ v.Preserves session v'

/-- If the segment that a message names is mapped to a buffer segment, the payload has its size, and
the session has it open for writing, unless it has the bytes of the payload already. -/
def WritesOwn (session : SessionId) (message : PayloadMessage) : Prop :=
  ∀ t n loc id, v.payloadSegment message = some (t, n) → t.stream.segments n = some loc →
    loc.id = some id → n < t.stream.size → message.payload ≠ [] →
      message.payload.length = v.payloadSize t.buffer ∧
        (v.contents t.buffer id ≠ message.payload →
          loc.writable = true ∧ session ∈ loc.referenceMap)

structure Separate (v : Server) : Prop where
  mapped : ∀ id, ∀ t ∈ v.streams id, t.execution.server.Mapped
  disjoint : ∀ id id', id ≠ id' → ∀ t ∈ v.streams id, ∀ t' ∈ v.streams id', t.buffer = t'.buffer →
    ∀ i, t.execution.server.buffer i = none ∨ t'.execution.server.buffer i = none

variable {v : Server} {v' : Server} {a : ServerAction} {session : SessionId}
  {message : PayloadMessage} {l : List (Transition.Taken Server ServerAction)}

theorem mapped_new : Execution.new.server.Mapped := by
  rintro n loc ⟨⟩

theorem separate_update {id : StreamId} {t : BufferedStream} (h : v.Separate)
    (hmapped : t.execution.server.Mapped)
    (hfree : ∀ id' ≠ id, ∀ t' ∈ v.streams id', t.buffer = t'.buffer →
      ∀ i, t.execution.server.buffer i = none ∨ t'.execution.server.buffer i = none) :
    Separate { v with streams := Function.update v.streams id (some t) } where
  mapped id' t' ht' := by
    by_cases hid : id' = id
    · subst hid
      dsimp only at ht'
      rw [Function.update_self] at ht'
      obtain rfl := Option.some.inj ht'
      exact hmapped
    · dsimp only at ht'
      rw [Function.update_of_ne hid] at ht'
      exact h.mapped id' t' ht'
  disjoint id₁ id₂ hne t₁ ht₁ t₂ ht₂ hbuffer i := by
    dsimp only at ht₁ ht₂
    by_cases hid₁ : id₁ = id
    · subst hid₁
      rw [Function.update_self] at ht₁
      rw [Function.update_of_ne hne.symm] at ht₂
      obtain rfl := Option.some.inj ht₁
      exact hfree id₂ hne.symm t₂ ht₂ hbuffer i
    · rw [Function.update_of_ne hid₁] at ht₁
      by_cases hid₂ : id₂ = id
      · subst hid₂
        rw [Function.update_self] at ht₂
        obtain rfl := Option.some.inj ht₂
        exact (hfree id₁ hne t₁ ht₁ hbuffer.symm i).symm
      · rw [Function.update_of_ne hid₂] at ht₂
        exact h.disjoint id₁ id₂ hne t₁ ht₁ t₂ ht₂ hbuffer i

theorem streams_receivePayload (h : v.receivePayload message = some v') :
    v'.streams = v.streams := by
  unfold receivePayload at h
  split_ifs at h
  · obtain rfl := Option.some.inj h
    rfl
  · dsimp only at h
    split at h
    · unfold discard at h
      split_ifs at h
      obtain rfl := Option.some.inj h
      rfl
    · obtain rfl := Option.some.inj h
      rfl
    · obtain rfl := Option.some.inj h
      rfl

theorem Separate.congr (h : v.Separate) (hs : v'.streams = v.streams) : v'.Separate :=
  ⟨fun id t ht => h.mapped id t (hs ▸ ht), fun id id' hne t ht t' ht' =>
    h.disjoint id id' hne t (hs ▸ ht) t' (hs ▸ ht')⟩

theorem separate_step (h : v.Separate) (step : Step v a v') : v'.Separate := by
  cases step with
  | register new => exact separate_update h mapped_new fun _ _ _ _ _ _ => .inl rfl
  | @stream id t a e registered step free =>
    refine separate_update h (Execution.mapped_step (h.mapped id t registered) step) ?_
    intro id' hne t' ht' hbuffer i
    cases hold : t.execution.server.buffer i with
    | some n =>
      have hdisjoint := h.disjoint id id' hne.symm t registered t' ht' hbuffer i
      rw [hold] at hdisjoint
      exact .inr (hdisjoint.resolve_left (Option.some_ne_none n))
    | none =>
      by_cases hnew : e.server.buffer i = none
      · exact .inl hnew
      · exact .inr (free i hnew hold id' hne t' ht' hbuffer.symm)
  | write => exact h.congr rfl
  | receive received => exact h.congr (streams_receivePayload received)

theorem invariant_separate : Transition.Invariant Initial Step Separate where
  start v h := by
    constructor
    · intro id t ht
      rw [h.streams] at ht
      cases ht
    · intro id id' _ t ht
      rw [h.streams] at ht
      cases ht
  step _ _ _ h step := separate_step h step

theorem Separate.unique (h : v.Separate) {sid sid' : StreamId} {t t' : BufferedStream}
    {n n' : StreamSegmentId} {loc loc' : SegmentLocation} {id : SegmentId}
    (ht : v.streams sid = some t) (ht' : v.streams sid' = some t') (hbuffer : t.buffer = t'.buffer)
    (hloc : t.stream.segments n = some loc) (hloc' : t'.stream.segments n' = some loc')
    (hid : loc.id = some id) (hid' : loc'.id = some id) : loc = loc' := by
  have hused := (h.mapped sid t ht n loc hloc).id id hid
  have hused' := (h.mapped sid' t' ht' n' loc' hloc').id id hid'
  by_cases hsid : sid = sid'
  · subst hsid
    obtain rfl := Option.some.inj (ht.symm.trans ht')
    obtain rfl := (h.mapped sid t ht).unique hloc hloc' hid hid'
    exact Option.some.inj (hloc.symm.trans hloc')
  · rcases h.disjoint sid sid' hsid t ht t' ht' hbuffer id with hnone | hnone
    · cases hnone.symm.trans hused
    · cases hnone.symm.trans hused'

/-- The message has a payload and names a segment that is mapped to a buffer segment. -/
structure Names (v : Server) (message : PayloadMessage) (t : BufferedStream)
    (n : StreamSegmentId) (loc : SegmentLocation) (id : SegmentId) : Prop where
  names : v.payloadSegment message = some (t, n)
  segment : t.stream.segments n = some loc
  mapped : loc.id = some id
  lt_size : n < t.stream.size
  nonempty : message.payload ≠ []

variable {t : BufferedStream} {n : StreamSegmentId} {loc : SegmentLocation} {id : SegmentId}
  {b : BufferId}

theorem Names.streams (h : v.Names message t n loc id) :
    v.streams message.stream = some t ∧ message.code ≠ .other := by
  have hnames := h.names
  unfold payloadSegment at hnames
  cases hcode : message.code with
  | other =>
    rw [hcode] at hnames
    cases hnames
  | streamAppend | streamClose =>
    rw [hcode] at hnames
    obtain ⟨t', ht, heq⟩ := Option.map_eq_some_iff.mp hnames
    obtain ⟨rfl, -⟩ := Prod.mk.inj heq
    exact ⟨ht, by decide⟩

theorem Names.allocator (h : v.Names message t n loc id) :
    v.messagePayloadAllocator message = ⟨some (t.buffer, id),
      if message.payload.length = v.payloadSize t.buffer then none else some .malformed⟩ := by
  have hmapping : t.stream.getBufferMapping n = some id := by
    have halloc : t.stream.SegmentIsAllocated n :=
      ⟨h.lt_size, h.segment ▸ Option.some_ne_none loc⟩
    unfold ServerStream.getBufferMapping
    rw [if_pos halloc, h.segment, Option.bind_some, h.mapped]
  unfold messagePayloadAllocator
  rw [if_neg h.streams.2, h.names]
  dsimp only
  rw [hmapping]

/-- A payload of another size is freed where it should be received. -/
theorem Names.receivePayload (h : v.Names message t n loc id) :
    v.receivePayload message =
      if message.payload.length = v.payloadSize t.buffer then
        some (v.setSegment t.buffer id message.payload)
      else none := by
  unfold Server.receivePayload
  rw [if_neg h.nonempty, h.allocator]
  split_ifs <;> rfl

/-- Otherwise nothing is received into a buffer segment. -/
theorem receivePayload_cases (v : Server) (message : PayloadMessage) :
    v.receivePayload message = some v ∨ ∃ t n loc id, v.Names message t n loc id := by
  by_cases hnonempty : message.payload = []
  · exact .inl (if_pos hnonempty)
  · unfold receivePayload
    rw [if_neg hnonempty]
    unfold messagePayloadAllocator
    split_ifs with hcode
    · exact .inl rfl
    · cases hnames : v.payloadSegment message with
      | none => exact .inl rfl
      | some target =>
        obtain ⟨t, n⟩ := target
        dsimp only
        cases hmapping : t.stream.getBufferMapping n with
        | none => exact .inl rfl
        | some id =>
          unfold ServerStream.getBufferMapping at hmapping
          split_ifs at hmapping with halloc
          obtain ⟨loc, hloc, hid⟩ := Option.bind_eq_some_iff.mp hmapping
          exact .inr ⟨t, n, loc, id, hnames, hloc, hid, halloc.1, hnonempty⟩

theorem contents_setSegment (bytes : List UInt8) (b' : BufferId) (i : SegmentId) :
    (v.setSegment b id bytes).contents b' i =
      if b' = b ∧ i = id then bytes else v.contents b' i := by
  unfold setSegment
  dsimp only
  by_cases hb : b' = b
  · subst hb
    rw [Function.update_self]
    by_cases hi : i = id
    · rw [hi, Function.update_self, if_pos ⟨rfl, rfl⟩]
    · rw [Function.update_of_ne hi, if_neg fun h => hi h.2]
  · rw [Function.update_of_ne hb, if_neg fun h => hb h.1]

theorem preserves_refl : v.Preserves session v :=
  ⟨fun _ _ h => absurd rfl h, fun _ _ _ _ _ _ _ _ _ => rfl⟩

/-- The segment that a message names may be overwritten by the session that writes it, and with the
bytes that it has. -/
theorem Names.preserves (h : v.Names message t n loc id) (hseparate : v.Separate)
    (hown : v.contents t.buffer id ≠ message.payload →
      loc.writable = true ∧ session ∈ loc.referenceMap) :
    v.Preserves session (v.setSegment t.buffer id message.payload) := by
  have htarget {b : BufferId} {i : SegmentId}
      (hchanged : (v.setSegment t.buffer id message.payload).contents b i ≠ v.contents b i) :
      b = t.buffer ∧ i = id ∧ loc.writable = true ∧ session ∈ loc.referenceMap := by
    rw [contents_setSegment] at hchanged
    split_ifs at hchanged with htarget
    · obtain ⟨rfl, rfl⟩ := htarget
      exact ⟨rfl, rfl, hown hchanged.symm⟩
    · exact absurd rfl hchanged
  constructor
  · intro b i hchanged
    obtain ⟨rfl, rfl, hwritable, hsession⟩ := htarget hchanged
    exact ⟨_, t, n, loc, h.streams.1, rfl, h.segment, h.mapped, hwritable, hsession⟩
  · intro sid t' n' loc' i ht' hloc' hid' hforeign
    by_contra hchanged
    obtain ⟨hbuffer, rfl, hwritable, hsession⟩ := htarget hchanged
    obtain rfl := hseparate.unique ht' h.streams.1 hbuffer hloc' h.segment hid' h.mapped
    rcases hforeign with hlocated | hforeign
    · exact hlocated (SegmentLocation.writable_iff.mp hwritable).1
    · exact hforeign hsession

/-- In every reachable state, receiving a payload leaves what others read or write alone if and
only if the payload has the size of the segment that the message names and the session writes that
segment, or the payload is not received into a segment or changes none. -/
theorem isolated_iff_writesOwn (run : Transition.Run Initial Step l v) (session : SessionId)
    (message : PayloadMessage) :
    v.Isolated session message ↔ v.WritesOwn session message := by
  have hseparate := invariant_separate.run run
  constructor
  · rintro ⟨v', hreceived, hpreserves⟩ t n loc id hnames hloc hid hn hnonempty
    have h : v.Names message t n loc id := ⟨hnames, hloc, hid, hn, hnonempty⟩
    rw [h.receivePayload] at hreceived
    split_ifs at hreceived with hlength
    obtain rfl := Option.some.inj hreceived
    refine ⟨hlength, fun hdiffers => ?_⟩
    have hchanged : (v.setSegment t.buffer id message.payload).contents t.buffer id ≠
        v.contents t.buffer id := by
      rw [contents_setSegment, if_pos ⟨rfl, rfl⟩]
      exact hdiffers.symm
    obtain ⟨sid, t', n', loc', ht', hbuffer, hloc', hid', hwritable, hsession⟩ :=
      hpreserves.changes t.buffer id hchanged
    obtain rfl := hseparate.unique h.streams.1 ht' hbuffer.symm hloc hloc' hid hid'
    exact ⟨hwritable, hsession⟩
  · intro hown
    rcases receivePayload_cases v message with hsame | ⟨t, n, loc, id, h⟩
    · exact ⟨v, hsame, preserves_refl⟩
    · obtain ⟨hlength, hwrites⟩ := hown t n loc id h.names h.segment h.mapped h.lt_size h.nonempty
      exact ⟨_, h.receivePayload.trans (if_pos hlength), h.preserves hseparate hwrites⟩

/-- A store with one stream, and segments of one byte. -/
def single (e : Execution) : Server where
  streams := Function.update (fun _ => none) 0 (some ⟨0, e⟩)
  payloadSize _ := 1
  contents _ _ := [0]

theorem run_single {e : Execution} (run : Execution.Run (fun _ _ => True) e) :
    ∃ l, Transition.Run Initial Step l (single e) := by
  induction run with
  | new =>
    have hstart : Initial ⟨fun _ => none, fun _ => 1, fun _ _ => [0]⟩ := ⟨rfl⟩
    exact ⟨_, Transition.Run.step (.start hstart) (.register rfl)⟩
  | @step e e' a _ _ step ih =>
    obtain ⟨l, run⟩ := ih
    have hself : (single e).streams 0 = some ⟨0, e⟩ := rfl
    have hother (id : StreamId) (hid : id ≠ 0) : (single e).streams id = none := by
      unfold single
      dsimp only
      rw [Function.update_of_ne hid]
    have hstep : Step (single e) (.stream 0 a) { single e with
        streams := Function.update (single e).streams 0 (some ⟨0, e'⟩) } := by
      refine .stream hself step fun i _ _ id hid t ht => ?_
      rw [hother id hid] at ht
      cases ht
    have hsingle : { single e with
        streams := Function.update (single e).streams 0 (some ⟨0, e'⟩) } = single e' := by
      unfold single
      rw [Function.update_idem]
    exact ⟨_, run.step (hsingle ▸ hstep)⟩

/-- Session 1 has a stored segment open in buffer segment 3, and session 2 writes the next one in
buffer segment 5. -/
theorem exists_run_both : ∃ e loc loc', Execution.Run (fun _ _ => True) e ∧
    e.server.stream.segments 0 = some loc ∧ loc.id = some 3 ∧ loc.location ≠ none ∧
      e.server.stream.segments 1 = some loc' ∧ loc'.id = some 5 ∧ loc'.writable = true ∧
        2 ∈ loc'.referenceMap ∧ e.server.stream.lastAppendSequenceNumber = some 1 ∧
          e.server.stream.size = 2 := by
  have next {e e' : Execution} {a : Action} (r : Execution.Run (fun _ _ => True) e)
      (h : Execution.Step e a e') : Execution.Run (fun _ _ => True) e' := r.step trivial h
  have r₁ := next .new (show Execution.Step _ (.load ⟨0, fun _ => ⟨0, 9⟩, 64, 10⟩) _ from
    .load rfl rfl)
  have r₂ := next r₁
    (show Execution.Step _ (.lookup 1 0 none []) _ from .lookup rfl List.not_mem_nil rfl)
  have r₃ := next r₂ (show Execution.Step _ (.enter (.loading 3)) _ from
    .enter rfl rfl rfl rfl rfl (by rintro _ ⟨⟩; rfl))
  have r₄ := next r₃ (show Execution.Step _ .leave _ from .leave rfl rfl rfl rfl rfl)
  have r₅ := next r₄ (show Execution.Step _ (.ret false) _ from .ret rfl rfl rfl rfl)
  have r₆ := next r₅ (show Execution.Step _ (.decoded 0 true) _ from .decoded rfl)
  have r₇ := next r₆ (show Execution.Step _ (.allocate 2 1 5 true) _ from .allocate rfl rfl)
  exact ⟨_, _, _, r₇, rfl, rfl, Option.some_ne_none _, rfl, rfl, rfl, Multiset.mem_singleton_self 2,
    rfl, rfl⟩

/-- Session 2 appends again and sends one byte as the data of the segment that it wrote. -/
def ownAppend : PayloadMessage := ⟨.streamAppend, 0, 0, [1]⟩

/-- Session 2 closes the segment that it wrote and sends two bytes as its data. -/
def longClose : PayloadMessage := ⟨.streamClose, 0, 1, [1, 2]⟩

/-- Session 2 closes segment 0 and sends one byte as its data. -/
def foreignClose : PayloadMessage := ⟨.streamClose, 0, 0, [1]⟩

theorem isolated_iff_writesOwn_both : ∃ v l, Transition.Run Initial Step l v ∧
    v.Isolated 2 ownAppend ∧ ¬ v.Isolated 2 longClose ∧ ¬ v.Isolated 2 foreignClose := by
  obtain ⟨e, loc, loc', run, hloc, hid, hlocated, hloc', hid', hwritable, hsession, happend,
    hsize⟩ := exists_run_both
  obtain ⟨l, run⟩ := run_single run
  refine ⟨_, l, run, ?_, ?_, ?_⟩
  · rw [isolated_iff_writesOwn run]
    intro t n loc id hnames hsegment hmapped hn _
    have htarget : ((⟨0, e⟩ : BufferedStream), 1) = (t, n) := by
      simpa [payloadSegment, ownAppend, single, BufferedStream.stream,
        ServerStream.getCurrentSegmentId, happend] using hnames
    obtain ⟨rfl, rfl⟩ := Prod.mk.inj htarget
    obtain rfl := Option.some.inj (hloc'.symm.trans hsegment)
    exact ⟨rfl, fun _ => ⟨hwritable, hsession⟩⟩
  · rw [isolated_iff_writesOwn run]
    intro hown
    have h := hown ⟨0, e⟩ 1 loc' 5 rfl hloc' hid' (by simp [BufferedStream.stream, hsize])
      (by decide)
    exact absurd h.1 (show longClose.payload.length ≠ 1 by decide)
  · rw [isolated_iff_writesOwn run]
    intro hown
    have h := hown ⟨0, e⟩ 0 loc 3 rfl hloc hid (by simp [BufferedStream.stream, hsize])
      (by decide)
    have hdiffers : [0] ≠ foreignClose.payload := by decide
    exact hlocated (SegmentLocation.writable_iff.mp (h.2 hdiffers).1).1

theorem not_isolated_of_foreignClose : ¬ ∀ (v : Server) (l : List (Transition.Taken Server
    ServerAction)), Transition.Run Initial Step l v → ∀ (session : SessionId)
      (message : PayloadMessage), v.Isolated session message := by
  intro hall
  obtain ⟨e, loc, -, run, hloc, hid, hlocated, -, -, -, -, -, hsize⟩ := exists_run_both
  obtain ⟨l, run⟩ := run_single run
  have hnames : (single e).Names foreignClose ⟨0, e⟩ 0 loc 3 :=
    ⟨rfl, hloc, hid, by simp [BufferedStream.stream, hsize], by decide⟩
  obtain ⟨v', hreceived, hpreserves⟩ := hall _ l run 2 foreignClose
  have hreceive := hnames.receivePayload.trans (if_pos rfl)
  obtain rfl := Option.some.inj (hreceive.symm.trans hreceived)
  have hkept := hpreserves.keeps 0 ⟨0, e⟩ 0 loc 3 rfl hloc hid (.inl hlocated)
  rw [contents_setSegment, if_pos ⟨rfl, rfl⟩] at hkept
  cases hkept

end Server

end Simutrace
