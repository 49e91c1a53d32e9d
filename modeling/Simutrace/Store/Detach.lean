import Simutrace.Buffer.Validation
import Simutrace.Manager.Changes
import Simutrace.MemoryEncoder.SegmentBounds
import Simutrace.Stream.SessionClose

/-! # A session leaves a store

The store holds its lock while it closes the segments that a session has left
open. The encoder of a memory stream registers its hidden streams with the first
segment that it gets, and to register a stream is to acquire the lock.
-/

namespace Simutrace.Detach

open Buffer (ClientSegment Submission SegmentControlElement)

abbrev StreamId := Buffer.StreamId

/-- What becomes of a thread that acquires a lock again: the lock reports an error, it never
returns, or it is recursive. -/
inductive Reacquisition | fails | blocks | enters
  deriving DecidableEq, Repr

inductive Ending | returns | throws | blocks
  deriving DecidableEq, Repr

inductive Event
  | acquire
  | release
  | drop (stream : StreamId) (sequenceNumber : StreamSegmentId)
  | write (stream : StreamId) (sequenceNumber : StreamSegmentId)
  | purge (stream : StreamId) (sequenceNumber : StreamSegmentId)
  | close (stream : StreamId)
  deriving DecidableEq, Repr

/-- What the rest of the server has for a segment that is submitted: the ids that hidden streams
are registered with, if the frame that names them is committed, and if the encoder can then take
the segment. -/
structure Services where
  register : ℕ → Option StreamId
  associate : Bool
  accept : Bool

/-- The encoder of a stream with the hidden streams it has registered. A generic encoder has no
access type. -/
structure StreamEncoder where
  accessType : Option AccessType
  streams : List StreamId
  initialized : Bool
  deriving DecidableEq, Repr

namespace StreamEncoder

def new (accessType : Option AccessType) : StreamEncoder := ⟨accessType, [], false⟩

variable (e : StreamEncoder) (again : Reacquisition) (held : Bool)

def streamCount : ℕ := e.accessType.elim 0 AccessType.totalStreamCount

def Initialized : Prop := e.accessType = none ∨ e.initialized = true

def Registered : Prop := e.Initialized ∨ e.streamCount ≤ e.streams.length

instance : Decidable e.Initialized := inferInstanceAs (Decidable (_ ∨ _))

instance : Decidable e.Registered := inferInstanceAs (Decidable (_ ∨ _))

/-- `registerStream` and `getStream`, each of which acquires the lock of the store. -/
def registerHiddenStream (id : Option StreamId) : List Event × Ending × StreamEncoder :=
  if held ∧ again = .fails then ([.acquire], .throws, e)
  else if held ∧ again = .blocks then ([.acquire], .blocks, e)
  else match id with
    | none => ([.acquire, .release], .throws, e)
    | some id =>
      ([.acquire, .release, .acquire, .release], .returns, { e with streams := e.streams ++ [id] })

/-- The loops over the hidden streams; those that are registered are skipped. -/
def initializeLines (register : ℕ → Option StreamId) :
    ℕ → StreamEncoder → List Event × Ending × StreamEncoder
  | 0, e => ([], .returns, e)
  | missing + 1, e =>
    match e.registerHiddenStream again held (register e.streams.length) with
    | (events, .returns, e) =>
      let rest := initializeLines register missing e
      (events ++ rest.1, rest.2)
    | failed => failed

def ensureInitialized (services : Services) : List Event × Ending × StreamEncoder :=
  if e.Initialized then ([], .returns, e)
  else
    match initializeLines again held services.register (e.streamCount - e.streams.length) e with
    | (events, .returns, e) =>
      if services.associate then (events, .returns, { e with initialized := true })
      else (events, .throws, e)
    | failed => failed

end StreamEncoder

/-- A stream of a store, with the control elements and data that the clients have left in its
segments. -/
structure OpenStream where
  type : Buffer.ServerStream
  segmentSize : ℕ
  encoder : StreamEncoder
  execution : Execution
  clients : StreamSegmentId → ClientSegment

def purged (stream : StreamId) (n : StreamSegmentId) : SubmitOutcome → List Event
  | .failed => [.purge stream n]
  | .complete _ | .pending _ => []

namespace OpenStream

variable (s : OpenStream) (again : Reacquisition) (held : Bool)

abbrev stream : ServerStream := s.execution.server.stream

def control (n : StreamSegmentId) (client : ClientSegment) : SegmentControlElement :=
  Buffer.ServerStreamBuffer.fixEntryCount s.type
    ⟨⟨s.type.id, BitVec.ofNat 32 n⟩, client.entryCount, client.rawEntryCount⟩

/-- The number of entries is possible for the stream and its buffer. -/
def entriesValid (control : SegmentControlElement) : Bool :=
  decide ((s.type.getEntrySize * control.rawEntryCount).toNat ≤ s.segmentSize) &&
    (s.type.isVariableEntrySize || control.entryCount == control.rawEntryCount) &&
    decide (control.entryCount ≤ control.rawEntryCount)

def check (readOnly : Bool) (n : StreamSegmentId) (client : ClientSegment) : Submission :=
  if client.cookieValid = false then .rejected
  else if readOnly then .completed
  else if client.rawEntryCount = 0 then .dropping
  else if s.entriesValid (s.control n client) &&
      Buffer.ServerStreamBuffer.cyclesValid s.type client then .writing
  else .rejected

/-- Call the encoder for a segment. The result is `none` if the call never returns. -/
def callEncoder (services : Services) (event : Event) (outcome : SubmitOutcome) :
    List Event × StreamEncoder × Option SubmitOutcome :=
  match s.encoder.ensureInitialized again held services with
  | (events, .returns, e) =>
    (event :: events, e, some (if services.accept then outcome else .failed))
  | (events, .throws, e) => (event :: events, e, some .failed)
  | (events, .blocks, e) => (event :: events, e, none)

def submitSegment (services : Services) (n : StreamSegmentId) (readOnly : Bool) :
    List Event × StreamEncoder × Option SubmitOutcome :=
  match s.check readOnly n (s.clients n) with
  | .rejected => ([], s.encoder, some .failed)
  | .completed => ([], s.encoder, some (.complete none))
  | .dropping => s.callEncoder again held services (.drop s.type.id n) (.complete none)
  | .writing => s.callEncoder again held services (.write s.type.id n)
      (.pending (s.control n (s.clients n)).entryCount.toNat)

def Submits (session : SessionId) (loc : SegmentLocation) : Prop :=
  session ∈ loc.referenceMap ∧ loc.referenceCount = loc.referenceMap.count session ∧ loc.id ≠ none

instance (session : SessionId) (loc : SegmentLocation) : Decidable (Submits session loc) :=
  inferInstanceAs (Decidable (_ ∧ _ ∧ ¬ _ = none))

variable (services : StreamSegmentId → Services) (session : SessionId) (wait : WaitId)

def release (outcome : SubmitOutcome) (n : StreamSegmentId) : Ending × OpenStream :=
  let closed := s.execution.server.closeReferences session (some wait) true outcome n
  (if closed.2 then .throws else .returns, { s with execution := { s.execution with
    server := closed.1
    balance := s.execution.settle session (· = n) } })

def closeSegment (n : StreamSegmentId) : List Event × Ending × OpenStream :=
  match s.stream.segments n with
  | none => ([], .returns, s)
  | some loc =>
    if Submits session loc then
      match s.submitSegment again true (services n) n loc.location.isSome with
      | (events, e, none) => (events, .blocks, { s with encoder := e })
      | (events, e, some outcome) =>
        (events ++ purged s.type.id n outcome,
          { s with encoder := e }.release session wait outcome n)
    else ([], s.release session wait .failed n)

def closeSession : List StreamSegmentId → OpenStream → List Event × Ending × OpenStream
  | [], s => ([], .returns, s)
  | n :: openList, s =>
    match s.closeSegment again services session wait n with
    | (events, .returns, s) =>
      let rest := closeSession openList s
      (events ++ rest.1, rest.2)
    | failed => failed

end OpenStream

structure Store where
  store : Manager.ServerStore
  configurationLocked : Bool
  streams : List OpenStream

namespace Store

variable (again : Reacquisition) (services : StreamId → StreamSegmentId → Services)
  (session : SessionId) (wait : WaitId)

def closeStreams : List OpenStream → List Event × Ending × List OpenStream
  | [] => ([], .returns, [])
  | s :: streams =>
    match s.closeSession again (services s.type.id) session wait s.stream.openList with
    | (events, .returns, s) =>
      let rest := closeStreams streams
      (events ++ rest.1, rest.2.1, s :: rest.2.2)
    | (events, ending, s) => (events, ending, s :: streams)

variable (s : Store)

def rundown : List Event × Store :=
  match s.store.rundown session with
  | (store, true) => (s.streams.map fun stream => .close stream.type.id,
      { s with store := store, configurationLocked := true })
  | (store, false) => ([], { s with store := store })

def detach : List Event × Ending × Store :=
  if s.store.referenceCount = 0 then ([.acquire, .release], .throws, s)
  else if s.store.referenceCount > 1 then
    if session ∉ s.store.references then ([.acquire, .release], .throws, s)
    else
      match closeStreams again services session wait s.streams with
      | (events, .returns, streams) =>
        let closed := rundown session { s with
          store := s.store.detached session s.store.references
          streams := streams }
        (.acquire :: events ++ closed.1 ++ [.release], .returns, closed.2)
      | (events, .throws, streams) =>
        (.acquire :: events ++ [.release], .throws, { s with streams := streams })
      | (events, .blocks, streams) => (.acquire :: events, .blocks, { s with streams := streams })
  else
    let closed := rundown session s
    (.acquire :: closed.1 ++ [.release], .returns, closed.2)

end Store

/-! ## Runs -/

/-- What happens to a stream: its segments are used, the clients write to their buffer segments,
and its encoder gets a segment, or is opened with a frame that names the hidden streams. -/
inductive StreamStep (again : Reacquisition) : OpenStream → OpenStream → Prop
  | run {s : OpenStream} {a : Action} {e : Execution} (step : Execution.Step s.execution a e) :
      StreamStep again s { s with execution := e }
  | fill {s : OpenStream} (clients : StreamSegmentId → ClientSegment) :
      StreamStep again s { s with clients := clients }
  | encode {s : OpenStream} (services : Services) : StreamStep again s
      { s with encoder := (s.encoder.ensureInitialized again false services).2.2 }
  | associate {s : OpenStream} {ids : List StreamId} (count : ids.length = s.encoder.streamCount) :
      StreamStep again s { s with encoder := ⟨s.encoder.accessType, ids, true⟩ }

/-- A stream that has just been registered. -/
def OpenStream.new (type : Buffer.ServerStream) (segmentSize : ℕ)
    (accessType : Option AccessType) (clients : StreamSegmentId → ClientSegment) : OpenStream :=
  ⟨type, segmentSize, .new accessType, .new, clients⟩

namespace Store

inductive Step (again : Reacquisition) : Store → Store → Prop
  | attach {s : Store} {session : SessionId} {store : Manager.ServerStore}
      (attached : s.store.attach session = .ok store) : Step again s { s with store := store }
  | registerStream {s : Store} {type : Buffer.ServerStream} {segmentSize : ℕ}
      {accessType : Option AccessType} {clients : StreamSegmentId → ClientSegment}
      (unlocked : s.configurationLocked = false) (new : ∀ x ∈ s.streams, x.type.id ≠ type.id) :
      Step again s
        { s with streams := s.streams ++ [.new type segmentSize accessType clients] }
  | stream {s : Store} {before after : List OpenStream} {x x' : OpenStream}
      (mem : s.streams = before ++ x :: after) (step : StreamStep again x x') :
      Step again s { s with streams := before ++ x' :: after }
  | detach {s s' : Store} {services : StreamId → StreamSegmentId → Services}
      {session : SessionId} {wait : WaitId} {events : List Event} {ending : Ending}
      (left : s.detach again services session wait = (events, ending, s'))
      (ends : ending ≠ .blocks) : Step again s s'

inductive Reachable (again : Reacquisition) : Store → Prop
  | new {id : Manager.StoreId} {name : String} {store : Manager.ServerStore}
      (constructed : Manager.ServerStore.construct id name = .ok store) :
      Reachable again ⟨store, false, []⟩
  | step {s s' : Store} (h : Reachable again s) (step : Step again s s') : Reachable again s'

end Store

/-! ## What a rundown must do -/

/-- An acquisition is reached by a thread that holds the lock. -/
def Relocks (events : List Event) : Prop :=
  ∃ before after, events = before ++ .acquire :: after ∧
    before.count .release < before.count .acquire

namespace OpenStream

variable (s : OpenStream) (session : SessionId) (services : StreamSegmentId → Services)

def Writes (loc : SegmentLocation) : Prop :=
  loc.location = none ∧ loc.id ≠ none ∧ session ∈ loc.referenceMap

def Passes (n : StreamSegmentId) : Prop :=
  ∃ loc, s.stream.segments n = some loc ∧ Submits session loc ∧
    (s.check loc.location.isSome n (s.clients n) = .dropping ∨
      s.check loc.location.isSome n (s.clients n) = .writing)

def InitializedBy (openList : List StreamSegmentId) (n : StreamSegmentId) : Prop :=
  s.encoder.Initialized ∨ ∃ m ∈ openList, openList.idxOf m ≤ openList.idxOf n ∧
    s.Passes session m ∧ (services m).associate = true

def Accepted (openList : List StreamSegmentId) (n : StreamSegmentId) : Prop :=
  s.check false n (s.clients n) = .writing ∧ (services n).accept = true ∧
    s.InitializedBy session services openList n

/-- No hidden stream is left to register when a segment gets to the encoder, and what the session
has written is accepted. -/
structure Prepared : Prop where
  registered : ∀ n, s.Passes session n → s.encoder.Registered
  accepted : ∀ n loc, s.stream.segments n = some loc → Writes session loc →
    (s.clients n).rawEntryCount ≠ 0 → s.Accepted session services s.stream.openList n

end OpenStream

/-- The lock is not acquired again, and all that the session has written is handed to the encoders
and not purged. -/
structure Store.LosesNothing (s : Store) (again : Reacquisition)
    (services : StreamId → StreamSegmentId → Services) (session : SessionId) (wait : WaitId) :
    Prop where
  unlocked : ¬ Relocks (s.detach again services session wait).1
  handed : ∀ x ∈ s.streams, ∀ n loc, x.stream.segments n = some loc →
    OpenStream.Writes session loc → (x.clients n).rawEntryCount ≠ 0 →
      .write x.type.id n ∈ (s.detach again services session wait).1 ∧
        .purge x.type.id n ∉ (s.detach again services session wait).1

end Simutrace.Detach
