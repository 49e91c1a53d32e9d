import Mathlib.Data.Fin.Basic
import Simutrace.Library.Transition
import Simutrace.Threading.WorkQueue

/-! # The worker pool

The workers wait for the event of the queue, take items until it is empty and
look at their state in between. To close the pool, a thread blocks the queue,
waits until it is empty, requests each worker to stop, wakes one of them up and
waits for all.
-/

namespace Simutrace

inductive ThreadState
  | idle
  | starting
  | running
  | stopping
  | finished
  deriving DecidableEq, Repr

/-- Where a worker is. It is about to set its state, to test one of the two loop conditions, to
wait for the event, to take an item, or it executes one. -/
inductive WorkerPlace (α : Type*)
  | created
  | outer
  | waiting
  | dequeuing
  | executing (item : α)
  | inner
  | exited

structure Worker (α : Type*) where
  state : ThreadState
  place : WorkerPlace α

namespace Worker

variable {α : Type*} (w : Worker α)

def new : Worker α := ⟨.starting, .created⟩

/-- The thread stores its state when it begins to run, whatever the state was. -/
def threadStart (_ : Worker α) : Worker α := ⟨.running, .outer⟩

def IsRunning : Prop := w.state = .starting ∨ w.state = .running ∨ w.state = .stopping

instance : Decidable w.IsRunning :=
  inferInstanceAs (Decidable (w.state = .starting ∨ w.state = .running ∨ w.state = .stopping))

/-- A request to stop throws if the thread does not run. -/
def stop : Option (Worker α) := if w.IsRunning then some { w with state := .stopping } else none

def ShouldStop : Prop := w.state = .stopping

instance : Decidable w.ShouldStop := inferInstanceAs (Decidable (w.state = .stopping))

/-- The condition of the outer loop. Behind it the thread finishes. -/
def testOuter : Worker α :=
  if w.ShouldStop then ⟨.finished, .exited⟩ else { w with place := .waiting }

/-- The condition of the inner loop, after an item was processed. -/
def testInner : Worker α := { w with place := if w.ShouldStop then .outer else .dequeuing }

end Worker

/-- Where the thread is that closes the pool. In `blocking` it waits for a lock that it holds. -/
inductive Closing
  | notCalled
  | blocking
  | waitingEmpty
  | stopping (i : ℕ)
  | joining (i : ℕ)
  deriving DecidableEq, Repr

/-- The pool, with the items that were accepted, taken from the queue and executed so far. -/
structure WorkerPool (n : ℕ) (α : Type*) where
  queue : WorkQueue α
  workers : Fin n → Worker α
  closing : Closing
  accepted : List (Priority × α)
  dequeued : List (Priority × α)
  executed : List α

inductive PoolAction (n : ℕ) (α : Type*)
  | submitWork (p : Priority) (item : α)
  | worker (i : Fin n)
  | close

namespace WorkerPool

variable {n : ℕ} {α : Type*}

/-- The threads are created but do not run yet. -/
def new (platform : Platform) : WorkerPool n α :=
  ⟨.new platform, fun _ => .new, .notCalled, [], [], []⟩

variable (c : WorkerPool n α)

def setWorker (i : Fin n) (w : Worker α) : WorkerPool n α :=
  { c with workers := Function.update c.workers i w }

def submitWork (p : Priority) (item : α) : WorkerPool n α :=
  (c.queue.enqueueWork p item).elim c fun q =>
    { c with queue := q, accepted := c.accepted ++ [(p, item)] }

def waitForWork (i : Fin n) : Option (WorkerPool n α) :=
  if 0 < c.queue.workEvent then
    some { c.setWorker i { c.workers i with place := .dequeuing } with
      queue := { c.queue with workEvent := c.queue.workEvent - 1 } }
  else none

/-- A worker goes on with the item, or leaves the inner loop if there is none. -/
def dequeueWork (i : Fin n) : WorkerPool n α :=
  let r := c.queue.dequeueWork
  { c.setWorker i { c.workers i with place := r.1.elim .outer fun x => .executing x.2 } with
    queue := r.2
    dequeued := c.dequeued ++ r.1.toList }

/-- An item may also end by an exception, which is logged. -/
def execute (i : Fin n) (item : α) : WorkerPool n α :=
  { c.setWorker i { c.workers i with place := .inner } with executed := c.executed ++ [item] }

/-- The next step of a worker, if it is not blocked. -/
def stepWorker (i : Fin n) : Option (WorkerPool n α) :=
  match (c.workers i).place with
  | .created => some (c.setWorker i (c.workers i).threadStart)
  | .outer => some (c.setWorker i (c.workers i).testOuter)
  | .waiting => c.waitForWork i
  | .dequeuing => if c.queue.locked then none else some (c.dequeueWork i)
  | .executing item => some (c.execute i item)
  | .inner => some (c.setWorker i (c.workers i).testInner)
  | .exited => none

def block : WorkerPool n α :=
  { c with
    queue := c.queue.block
    closing := if c.queue.platform.reenters then .waitingEmpty else .blocking }

def waitEmpty : Option (WorkerPool n α) :=
  if 0 < c.queue.emptyEvent then
    some { c with
      queue := { c.queue with emptyEvent := c.queue.emptyEvent - 1 }
      closing := .stopping 0 }
  else none

/-- The next worker is requested to stop. After the last one a single signal is given. -/
def stop (i : ℕ) : Option (WorkerPool n α) :=
  if h : i < n then
    (c.workers ⟨i, h⟩).stop.map fun w => { c.setWorker ⟨i, h⟩ w with closing := .stopping (i + 1) }
  else some { c with queue := c.queue.wakeUpWorkers, closing := .joining 0 }

/-- The next worker is waited for. -/
def join (i : ℕ) : Option (WorkerPool n α) :=
  if h : i < n then
    if (c.workers ⟨i, h⟩).IsRunning then none else some { c with closing := .joining (i + 1) }
  else none

/-- The next step of the thread that closes the pool, if it is not blocked. -/
def stepClose : Option (WorkerPool n α) :=
  match c.closing with
  | .notCalled => some c.block
  | .blocking => none
  | .waitingEmpty => c.waitEmpty
  | .stopping i => c.stop i
  | .joining i => c.join i

/-- The steps of all threads in any order. A thread that submits an item enters the lock. -/
inductive Step (c : WorkerPool n α) : PoolAction n α → WorkerPool n α → Prop
  | submitWork {p : Priority} {item : α} (entered : c.queue.locked = false) :
      Step c (.submitWork p item) (c.submitWork p item)
  | worker {i : Fin n} {c' : WorkerPool n α} (taken : c.stepWorker i = some c') :
      Step c (.worker i) c'
  | close {c' : WorkerPool n α} (taken : c.stepClose = some c') : Step c .close c'

end WorkerPool

end Simutrace
