import Simutrace.Library.Transition
import Simutrace.Manager.Types

/-! # Calls of the manager

Threads call the manager for their sessions. A call to create or open a store
first holds the lock of the manager and then the lock of the reference that it
has found or inserted. Between the two, other calls may do anything.
-/

namespace Simutrace.Manager

structure StoreCall where
  session : SessionId
  name : String
  isOpen : Bool
  deriving DecidableEq, Repr

/-- Where a thread is in `_createOrOpenStore`. It is about to take the lock of the manager, or that
of a reference, or to return. -/
inductive CallStage
  | idle
  | searching (call : StoreCall)
  | entering (call : StoreCall) (reference id : StoreId)
  | leaving (call : StoreCall) (reference : Option StoreId) (result : Except StoreError Unit)

namespace CallStage

/-- The thread shares the ownership of a reference. -/
def Holds : CallStage → StoreId → Prop
  | .entering _ reference _, k => reference = k
  | .leaving _ reference _, k => reference = some k
  | _, _ => False

def call? : CallStage → Option StoreCall
  | .idle => none
  | .searching call | .entering call _ _ | .leaving call _ _ => some call

end CallStage

structure ManagerState (T : Type*) where
  manager : ServerStoreManager
  stage : T → CallStage
  opened : StoreId → List SessionId

inductive Action (T : Type*)
  | call (t : T) (call : StoreCall)
  | search (t : T)
  | enter (t : T) (provided : Bool)
  | ret (t : T)
  | close (session : SessionId) (id : StoreId) (throws : Bool) (time : ℕ)

namespace ManagerState

variable {T : Type*} [DecidableEq T]

def Initial (s : ManagerState T) : Prop :=
  ∃ persistentCache, s = ⟨.new persistentCache, fun _ => .idle, fun _ => []⟩

def setStage (s : ManagerState T) (t : T) (stage : CallStage) : ManagerState T :=
  { s with stage := Function.update s.stage t stage }

def afterSearch (call : StoreCall) : Except StoreError (StoreId × StoreId) → CallStage
  | .ok (reference, id) => .entering call reference id
  | .error e => .leaving call none (.error e)

/-- A thread goes on after it has released the lock of its reference. -/
def afterEnter (call : StoreCall) (reference : StoreId) :
    Option (Except StoreError Unit) → CallStage
  | none => .searching call
  | some result => .leaving call (some reference) result

def openedAfter (opened : StoreId → List SessionId) (session : SessionId) (reference : StoreId) :
    Option (Except StoreError Unit) → StoreId → List SessionId
  | some (.ok ()) => Function.update opened reference (opened reference ++ [session])
  | _ => opened

/-- The steps of the threads. Sessions only close stores that they have open. -/
inductive Step : ManagerState T → Action T × List StoreEvent → ManagerState T → Prop
  | call {s : ManagerState T} {t : T} {call : StoreCall} (idle : s.stage t = .idle) :
      Step s (.call t call, []) (s.setStage t (.searching call))
  | search {s : ManagerState T} {t : T} {call : StoreCall} {shared : StoreId → Bool}
      {m : ServerStoreManager} {events : List StoreEvent}
      {result : Except StoreError (StoreId × StoreId)} (stage : s.stage t = .searching call)
      (owned : ∀ k, shared k = true ↔ ∃ t', (s.stage t').Holds k)
      (searched : s.manager.search call.name call.isOpen shared = (m, events, result)) :
      Step s (.search t, events) { s.setStage t (afterSearch call result) with manager := m }
  | enter {s : ManagerState T} {t : T} {call : StoreCall} {reference id : StoreId} {provided : Bool}
      {m : ServerStoreManager} {events : List StoreEvent}
      {result : Option (Except StoreError Unit)} (stage : s.stage t = .entering call reference id)
      (entered : s.manager.enterReference call.session call.name call.isOpen reference id provided =
        (m, events, result)) :
      Step s (.enter t provided, events) { s.setStage t (afterEnter call reference result) with
        manager := m
        opened := openedAfter s.opened call.session reference result }
  | ret {s : ManagerState T} {t : T} {call : StoreCall} {reference : Option StoreId}
      {result : Except StoreError Unit} (stage : s.stage t = .leaving call reference result) :
      Step s (.ret t, []) (s.setStage t .idle)
  | close {s : ManagerState T} {session : SessionId} {id : StoreId} {throws : Bool} {time : ℕ}
      {m : ServerStoreManager} {events : List StoreEvent} (holds : session ∈ s.opened id)
      (closed : s.manager.closeStore session id throws time = .ok (m, events)) :
      Step s (.close session id throws time, events) { s with
        manager := m
        opened := Function.update s.opened id ((s.opened id).filter (· ≠ session)) }
  | closeThrew {s : ManagerState T} {session : SessionId} {id : StoreId} {throws : Bool} {time : ℕ}
      {e : StoreError} (holds : session ∈ s.opened id)
      (closed : s.manager.closeStore session id throws time = .error e) :
      Step s (.close session id throws time, []) s

end ManagerState

end Simutrace.Manager
