import Simutrace.Manager.Calls

/-! # Sessions and their workers

A session counts the threads that are attached to it. On the server these are its
workers, one for each connection of the client. The worker that detaches last
closes the store of the session.
-/

namespace Simutrace.Sessions

open Manager (StoreId)

/-- Where a worker is. Its thread could not be started, has not begun yet, processes requests, or
waits for the lock of the session to apply a setting, or calls the store manager. When it has left
the loop it detaches from the session, and releases it if it was the last one. -/
inductive Place
  | unstarted
  | starting
  | processing
  | applying
  | opening
  | finished
  | releasing
  | detached
  deriving DecidableEq, Repr

namespace Place

/-- The thread runs, so that it can be requested to stop. -/
def isRunning : Place → Bool
  | starting | processing | applying | opening => true
  | unstarted | finished | releasing | detached => false

/-- The worker is attached to its session. -/
def isAttached : Place → Bool
  | starting | processing | applying | opening | finished => true
  | unstarted | releasing | detached => false

/-- The session owns the worker, also if its thread could not be started. -/
def isOwned : Place → Bool
  | unstarted => true
  | place => place.isAttached

end Place

structure ServerSessionWorker where
  session : SessionId
  place : Place
  deriving DecidableEq, Repr

/-- The thread of a new worker starts or cannot be started, or the worker cannot be created. -/
inductive Startup
  | started
  | notStarted
  | notCreated
  deriving DecidableEq, Repr

abbrev ApiVersion := BitVec 16

/-- A session with its workers. The lock is only kept over several steps by the thread that closes
all sessions. -/
structure Session (W : Type*) where
  referenceCount : ℕ
  isAlive : Bool
  store : Option StoreId
  workers : List W
  locked : Bool
  peerApiVersion : ApiVersion
  deriving DecidableEq, Repr

namespace Session

variable {W : Type*}

/-- The session of a new connection. Its first worker is started by the constructor. -/
def new (w : W) (peerApiVersion : ApiVersion) : Session W :=
  ⟨1, true, none, [w], false, peerApiVersion⟩

variable (session : Session W)

/-- `attach` adds a worker and counts it. A worker whose thread does not start is not counted, but
it stays in the list. -/
def attach (w : W) : Startup → Session W
  | .started =>
    { session with
      workers := session.workers ++ [w]
      referenceCount := session.referenceCount + 1 }
  | .notStarted => { session with workers := session.workers ++ [w] }
  | .notCreated => session

variable [DecidableEq W]

/-- `_detach`, without the test for the calling thread. -/
def detachWorker (w : W) : Session W := { session with workers := session.workers.erase w }

/-- The last thread is only tested here. It needs the session until the store is closed. -/
def dodetach (w : W) : Session W :=
  if session.referenceCount = 1 then session
  else { session.detachWorker w with referenceCount := session.referenceCount - 1 }

/-- `detach`, and if the thread was the last one. Then the store is closed on the way. -/
def detach (w : W) : Session W × Bool :=
  let refCount := session.referenceCount
  let session := session.dodetach w
  if refCount > 1 then (session, false)
  else
    ({ session.detachWorker w with store := none, isAlive := false, referenceCount := 0 }, true)

end Session

end Simutrace.Sessions
