import Simutrace.Session.Types

/-! # The sessions of the server

Connections create sessions or attach to existing ones, workers process the
requests of their clients and detach, and one thread closes all sessions when the
server stops. The sections that hold the lock of a session are single steps,
except for the calls of the store manager and for the thread that closes, which
waits for the workers while it holds the lock.
-/

namespace Simutrace.Sessions

open Manager (StoreId StoreCall StoreError StoreEvent CallStage ManagerState)

/-- Where the thread is that closes the sessions it has found. It is about to test if the next one
is alive, to take its lock, to stop one of its workers, or waits for the worker to finish, or it is
about to have the session released. -/
inductive Closer
  | idle
  | testing (rest : List SessionId)
  | locking (id : SessionId) (rest : List SessionId)
  | stopping (id : SessionId) (i : ℕ) (rest : List SessionId)
  | awaiting (id : SessionId) (i : ℕ) (rest : List SessionId)
  | releasing (id : SessionId) (rest : List SessionId)
  | threw
  deriving DecidableEq, Repr

namespace Closer

def Releases : Closer → SessionId → Prop
  | releasing id _, k => id = k
  | _, _ => False

end Closer

/-- The sessions of the manager, the workers and the connections that have found a session to
attach to. After a thread has accessed a session that was destroyed, nothing is defined. -/
structure System (W P : Type*) where
  stores : ManagerState W
  nextId : SessionId
  sessions : SessionId → Option (Session W)
  canCreateSession : Bool
  workers : W → Option ServerSessionWorker
  found : P → Option SessionId
  closer : Closer
  undefined : Bool

inductive Action (W P : Type*)
  | createSession (w : W) (peerApiVersion : ApiVersion) (startup : Startup)
  | openLocalSession (p : P) (session : SessionId) (peerApiVersion : ApiVersion)
  | attach (p : P) (w : W) (startup : Startup)
  | worker (w : W)
  | close
  | access
  deriving DecidableEq, Repr

variable {W P : Type*}

namespace System

def new (stores : ManagerState W) : System W P :=
  ⟨stores, 0, fun _ => none, true, fun _ => none, fun _ => none, .idle, false⟩

def Initial (s : System W P) : Prop := ∃ stores, ManagerState.Initial stores ∧ s = new stores

variable (s : System W P)

def setSession (id : SessionId) (session : Option (Session W)) : System W P :=
  { s with sessions := Function.update s.sessions id session }

@[simp] theorem setSession_sessions {s : System W P} {id : SessionId}
    {session : Option (Session W)} :
    (s.setSession id session).sessions = Function.update s.sessions id session := rfl

@[simp] theorem setSession_workers {s : System W P} {id : SessionId}
    {session : Option (Session W)} : (s.setSession id session).workers = s.workers := rfl

/-- The sessions in the map, in ascending order. -/
def enumerateSessions : List SessionId :=
  (List.range s.nextId).filter fun id => (s.sessions id).isSome

def StoreUnlocked (id : SessionId) : Prop := ∀ w, s.workers w ≠ some ⟨id, .opening⟩

variable [DecidableEq W]

def setWorker (w : W) (worker : ServerSessionWorker) : System W P :=
  { s with workers := Function.update s.workers w (some worker) }

@[simp] theorem setWorker_workers {s : System W P} {w : W} {worker : ServerSessionWorker} :
    (s.setWorker w worker).workers = Function.update s.workers w (some worker) := rfl

def startWorker (id : SessionId) (w : W) : Startup → System W P
  | .started => s.setWorker w ⟨id, .starting⟩
  | .notStarted => s.setWorker w ⟨id, .unstarted⟩
  | .notCreated => s

/-- `_closeStore` detaches a session from its store, if it has one. -/
inductive ClosesStore (id : SessionId) (stores : ManagerState W) :
    Option StoreId → ManagerState W → Prop
  | none : ClosesStore id stores none stores
  | some {k : StoreId} {throws : Bool} {time : ℕ} {m : Manager.ServerStoreManager}
      {events : List StoreEvent} (closed : stores.manager.closeStore id k throws time =
        .ok (m, events)) :
      ClosesStore id stores (some k) { stores with
        manager := m
        opened := Function.update stores.opened k ((stores.opened k).filter (· ≠ id)) }

def storeAfter (reference : Option StoreId) : Except StoreError Unit → Option StoreId
  | .ok () => reference
  | .error _ => none

/-- A thread has a session that is not there any more. -/
inductive Dangles : Prop
  | worker {w : W} {id : SessionId} {place : Place} (worker : s.workers w = some ⟨id, place⟩)
      (uses : place.isAttached = true ∨ place = .releasing) (destroyed : s.sessions id = none)
  | attaching {p : P} {id : SessionId} (found : s.found p = some id)
      (destroyed : s.sessions id = none)
  | testing {id : SessionId} {rest : List SessionId} (closer : s.closer = .testing (id :: rest))
      (destroyed : s.sessions id = none)
  | locking {id : SessionId} {rest : List SessionId} (closer : s.closer = .locking id rest)
      (destroyed : s.sessions id = none)
  | stopping {id : SessionId} {i : ℕ} {rest : List SessionId}
      (closer : s.closer = .stopping id i rest) (destroyed : s.sessions id = none)
  | awaiting {id : SessionId} {i : ℕ} {rest : List SessionId}
      (closer : s.closer = .awaiting id i rest) (destroyed : s.sessions id = none)
  | releasing {id : SessionId} {rest : List SessionId} (closer : s.closer = .releasing id rest)
      (destroyed : s.sessions id = none)

variable [DecidableEq P]

/-- The steps of the threads. The flag of a transition tells which session was destroyed in it. A
thread that throws an exception out of its finalizer ends the process. -/
inductive DefinedStep : System W P → Action W P × Option SessionId → System W P → Prop
  | createSession {s : System W P} {w : W} {peerApiVersion : ApiVersion}
      (canCreate : s.canCreateSession = true) (available : s.nextId ≠ 2 ^ 32 - 1)
      (fresh : s.workers w = none) :
      DefinedStep s (.createSession w peerApiVersion .started, none)
        { (s.setWorker w ⟨s.nextId, .starting⟩).setSession s.nextId
            (some (.new w peerApiVersion)) with
          nextId := s.nextId + 1 }
  -- The session is destroyed when its constructor throws, with its worker.
  | createSessionThrew {s : System W P} {w : W} {peerApiVersion : ApiVersion} {startup : Startup}
      (canCreate : s.canCreateSession = true) (available : s.nextId ≠ 2 ^ 32 - 1)
      (failed : startup ≠ .started) :
      DefinedStep s (.createSession w peerApiVersion startup, none)
        { s with nextId := s.nextId + 1 }
  | openLocalSession {s : System W P} {p : P} {id : SessionId} {session : Session W}
      (idle : s.found p = none) (live : s.sessions id = some session) :
      DefinedStep s (.openLocalSession p id session.peerApiVersion, none)
        { s with found := Function.update s.found p (some id) }
  | openLocalSessionThrew {s : System W P} {p : P} {id : SessionId} {peerApiVersion : ApiVersion}
      (idle : s.found p = none)
      (refused : ∀ session ∈ s.sessions id, session.peerApiVersion ≠ peerApiVersion) :
      DefinedStep s (.openLocalSession p id peerApiVersion, none) s
  | attach {s : System W P} {p : P} {w : W} {startup : Startup} {id : SessionId}
      {session : Session W} (found : s.found p = some id) (live : s.sessions id = some session)
      (unlocked : session.locked = false) (alive : session.isAlive = true)
      (fresh : s.workers w = none) :
      DefinedStep s (.attach p w startup, none)
        { (s.startWorker id w startup).setSession id (some (session.attach w startup)) with
          found := Function.update s.found p none }
  | attachThrew {s : System W P} {p : P} {w : W} {startup : Startup} {id : SessionId}
      {session : Session W} (found : s.found p = some id) (live : s.sessions id = some session)
      (unlocked : session.locked = false) (dead : session.isAlive = false) :
      DefinedStep s (.attach p w startup, none)
        { s with found := Function.update s.found p none }
  | run {s : System W P} {w : W} {id : SessionId} (worker : s.workers w = some ⟨id, .starting⟩) :
      DefinedStep s (.worker w, none) (s.setWorker w ⟨id, .processing⟩)
  -- `createStore` and `openStore` hold the lock of the store until they return.
  | openStore {s : System W P} {w : W} {id : SessionId} {session : Session W} {name : String}
      {isOpen : Bool} (worker : s.workers w = some ⟨id, .processing⟩)
      (live : s.sessions id = some session) (unlocked : s.StoreUnlocked id)
      (closed : session.store = none) (alive : session.isAlive = true) :
      DefinedStep s (.worker w, none) { s.setWorker w ⟨id, .opening⟩ with
        stores := s.stores.setStage w (.searching ⟨id, name, isOpen⟩) }
  | search {s : System W P} {w : W} {id : SessionId} {events : List StoreEvent}
      {stores : ManagerState W} (worker : s.workers w = some ⟨id, .opening⟩)
      (searched : ManagerState.Step s.stores (.search w, events) stores) :
      DefinedStep s (.worker w, none) { s with stores := stores }
  | enter {s : System W P} {w : W} {id : SessionId} {provided : Bool} {events : List StoreEvent}
      {stores : ManagerState W} (worker : s.workers w = some ⟨id, .opening⟩)
      (entered : ManagerState.Step s.stores (.enter w provided, events) stores) :
      DefinedStep s (.worker w, none) { s with stores := stores }
  | returnStore {s : System W P} {w : W} {id : SessionId} {session : Session W} {call : StoreCall}
      {reference : Option StoreId} {result : Except StoreError Unit}
      (worker : s.workers w = some ⟨id, .opening⟩) (live : s.sessions id = some session)
      (stage : s.stores.stage w = .leaving call reference result) :
      DefinedStep s (.worker w, none)
        { (s.setWorker w ⟨id, .processing⟩).setSession id
            (some { session with store := storeAfter reference result }) with
          stores := s.stores.setStage w .idle }
  | closeStore {s : System W P} {w : W} {id : SessionId} {session : Session W}
      {stores : ManagerState W} (worker : s.workers w = some ⟨id, .processing⟩)
      (live : s.sessions id = some session) (unlocked : s.StoreUnlocked id)
      (alive : session.isAlive = true) (closes : ClosesStore id s.stores session.store stores) :
      DefinedStep s (.worker w, none)
        { s.setSession id (some { session with store := none }) with stores := stores }
  | receiveSetting {s : System W P} {w : W} {id : SessionId}
      (worker : s.workers w = some ⟨id, .processing⟩) :
      DefinedStep s (.worker w, none) (s.setWorker w ⟨id, .applying⟩)
  | applySetting {s : System W P} {w : W} {id : SessionId} {session : Session W}
      (worker : s.workers w = some ⟨id, .applying⟩) (live : s.sessions id = some session)
      (unlocked : session.locked = false) :
      DefinedStep s (.worker w, none) (s.setWorker w ⟨id, .processing⟩)
  -- The client has closed the session, the connection was lost, or the worker was stopped.
  | finish {s : System W P} {w : W} {id : SessionId}
      (worker : s.workers w = some ⟨id, .processing⟩) :
      DefinedStep s (.worker w, none) (s.setWorker w ⟨id, .finished⟩)
  | detach {s : System W P} {w : W} {id : SessionId} {session : Session W}
      (worker : s.workers w = some ⟨id, .finished⟩) (live : s.sessions id = some session)
      (unlocked : session.locked = false) (alive : session.isAlive = true)
      (several : (session.detach w).2 = false) :
      DefinedStep s (.worker w, none)
        ((s.setWorker w ⟨id, .detached⟩).setSession id (some (session.detach w).1))
  | detachLast {s : System W P} {w : W} {id : SessionId} {session : Session W}
      {stores : ManagerState W} (worker : s.workers w = some ⟨id, .finished⟩)
      (live : s.sessions id = some session) (unlocked : session.locked = false)
      (storeUnlocked : s.StoreUnlocked id) (alive : session.isAlive = true)
      (last : (session.detach w).2 = true)
      (closes : ClosesStore id s.stores session.store stores) :
      DefinedStep s (.worker w, none)
        { (s.setWorker w ⟨id, .releasing⟩).setSession id (some (session.detach w).1) with
          stores := stores }
  | releaseSession {s : System W P} {w : W} {id : SessionId} {session : Session W}
      (worker : s.workers w = some ⟨id, .releasing⟩) (live : s.sessions id = some session) :
      DefinedStep s (.worker w, some id) ((s.setWorker w ⟨id, .detached⟩).setSession id none)
  | closeSessions {s : System W P} (idle : s.closer = .idle) :
      DefinedStep s (.close, none)
        { s with canCreateSession := false, closer := .testing s.enumerateSessions }
  | closeDone {s : System W P} (closer : s.closer = .testing []) :
      DefinedStep s (.close, none) { s with closer := .idle }
  | testAlive {s : System W P} {id : SessionId} {rest : List SessionId} {session : Session W}
      (closer : s.closer = .testing (id :: rest)) (live : s.sessions id = some session) :
      DefinedStep s (.close, none)
        { s with closer := if session.isAlive then .locking id rest else .threw }
  | lockSession {s : System W P} {id : SessionId} {rest : List SessionId} {session : Session W}
      (closer : s.closer = .locking id rest) (live : s.sessions id = some session)
      (unlocked : session.locked = false) :
      DefinedStep s (.close, none)
        { s.setSession id (some { session with locked := true }) with
          closer := .stopping id 0 rest }
  | stopWorker {s : System W P} {id : SessionId} {rest : List SessionId} {session : Session W}
      {i : ℕ} {w : W} {place : Place} (closer : s.closer = .stopping id i rest)
      (live : s.sessions id = some session) (next : session.workers[i]? = some w)
      (worker : s.workers w = some ⟨id, place⟩) (running : place.isRunning = true) :
      DefinedStep s (.close, none) { s with closer := .awaiting id i rest }
  -- A worker cannot be stopped that has finished by itself or was never started.
  | stopThrew {s : System W P} {id : SessionId} {rest : List SessionId} {session : Session W}
      {i : ℕ} {w : W} {place : Place} (closer : s.closer = .stopping id i rest)
      (live : s.sessions id = some session) (next : session.workers[i]? = some w)
      (worker : s.workers w = some ⟨id, place⟩) (running : place.isRunning = false) :
      DefinedStep s (.close, none)
        { s.setSession id (some { session with locked := false }) with closer := .threw }
  | awaitWorker {s : System W P} {id : SessionId} {rest : List SessionId} {session : Session W}
      {i : ℕ} {w : W} (closer : s.closer = .awaiting id i rest)
      (live : s.sessions id = some session) (next : session.workers[i]? = some w)
      (finished : s.workers w = some ⟨id, .finished⟩) :
      DefinedStep s (.close, none) { s with closer := .stopping id (i + 1) rest }
  | timeout {s : System W P} {id : SessionId} {rest : List SessionId} {session : Session W} {i : ℕ}
      (closer : s.closer = .awaiting id i rest) (live : s.sessions id = some session) :
      DefinedStep s (.close, none)
        { s.setSession id (some { session with locked := false }) with closer := .threw }
  | keepSession {s : System W P} {id : SessionId} {rest : List SessionId} {session : Session W}
      {i : ℕ} (closer : s.closer = .stopping id i rest) (live : s.sessions id = some session)
      (stopped : session.workers[i]? = none) (referenced : session.referenceCount > 0) :
      DefinedStep s (.close, none)
        { s.setSession id (some { session with locked := false }) with closer := .testing rest }
  | closeSession {s : System W P} {id : SessionId} {rest : List SessionId} {session : Session W}
      {i : ℕ} {stores : ManagerState W} (closer : s.closer = .stopping id i rest)
      (live : s.sessions id = some session) (stopped : session.workers[i]? = none)
      (unreferenced : ¬ session.referenceCount > 0) (storeUnlocked : s.StoreUnlocked id)
      (closes : ClosesStore id s.stores session.store stores) :
      DefinedStep s (.close, none)
        { s.setSession id
            (some { session with store := none, isAlive := false, locked := false }) with
          stores := stores
          closer := .releasing id rest }
  | releaseClosed {s : System W P} {id : SessionId} {rest : List SessionId} {session : Session W}
      (closer : s.closer = .releasing id rest) (live : s.sessions id = some session) :
      DefinedStep s (.close, some id) { s.setSession id none with closer := .testing rest }

inductive Step : System W P → Action W P × Option SessionId → System W P → Prop
  | defined {s s' : System W P} {a : Action W P × Option SessionId} (ok : s.undefined = false)
      (step : DefinedStep s a s') : Step s a s'
  | access {s : System W P} (ok : s.undefined = false) (dangles : s.Dangles) :
      Step s (.access, none) { s with undefined := true }

end System

end Simutrace.Sessions
