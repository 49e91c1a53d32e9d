import Simutrace.Stream.Types

/-! # Stores that sessions share

A store counts the sessions that are attached to it and the manager itself. The
manager keeps its stores under references that it publishes before the store is
created, and keeps a store without sessions as a dormant one.
-/

namespace Simutrace.Manager

abbrev StoreId := ℕ

def invalidStoreId : StoreId := 2 ^ 32 - 1

def serverSessionId : SessionId := 2 ^ 32 - 2

def invalidTimeStamp : ℕ := invalidLargeObjectId

inductive StoreError
  | invalidArgument
  | invalidOperation
  | operationInProgress
  | notFound
  | provider
  | alreadyOpen
  | stream
  | nullStore
  deriving DecidableEq, Repr

structure ServerStore where
  id : StoreId
  name : String
  referenceCount : ℕ
  references : List SessionId
  deriving DecidableEq, Repr

namespace ServerStore

/-- The constructor of `Store` rejects the invalid id. The manager holds the first reference. -/
def construct (id : StoreId) (name : String) : Except StoreError ServerStore :=
  if id = invalidStoreId then .error .invalidArgument else .ok ⟨id, name, 1, []⟩

variable (store : ServerStore) (session : SessionId)

def attach : Except StoreError ServerStore :=
  if session ∈ store.references then .error .invalidOperation
  else if store.referenceCount = 0 then .error .operationInProgress
  else .ok { store with
    referenceCount := store.referenceCount + 1
    references := store.references ++ [session] }

/-- A session gives back its reference, if there are references other than that of the manager.
To close the segments of the session may throw an exception. -/
def dropReference (throws : Bool) : Except StoreError ServerStore :=
  if store.referenceCount > 1 then
    if session ∉ store.references then .error .invalidOperation
    else if throws then .error .stream
    else .ok { store with
      referenceCount := store.referenceCount - 1
      references := store.references.filter (· ≠ session) }
  else .ok store

/-- With only the reference of the manager left, a session has the encoders closed, and the manager
gives back its own reference. The flag tells if the encoders were closed. -/
def rundown : ServerStore × Bool :=
  if store.referenceCount = 1 then
    if session = serverSessionId then ({ store with referenceCount := 0 }, false) else (store, true)
  else (store, false)

def detach (throws : Bool) : Except StoreError (ServerStore × Bool) :=
  if store.referenceCount = 0 then .error .invalidOperation
  else (store.dropReference session throws).map fun store => store.rundown session

end ServerStore

/-- A reference without a store is empty, or invalid if it is also dormant. -/
structure ServerStoreReference where
  name : String
  store : Option ServerStore
  dormant : Bool
  dormantTime : ℕ
  deriving DecidableEq, Repr

namespace ServerStoreReference

def empty (name : String) : ServerStoreReference := ⟨name, none, false, invalidTimeStamp⟩

variable (ref : ServerStoreReference)

def Invalid : Prop := ref.store = none ∧ ref.dormant = true

instance : Decidable ref.Invalid := inferInstanceAs (Decidable (_ ∧ _))

end ServerStoreReference

/-- What happens to the stores on the way. -/
inductive StoreEvent
  | invoked (id : StoreId)
  | encodersClosed (store : ServerStore)
  | dormant (store : ServerStore)
  | destroyed (store : ServerStore)
  deriving DecidableEq, Repr

/-- The map has the ids of its references in ascending order. The references are shared with the
calls that have found them, and stay there when they are erased from the map. -/
structure ServerStoreManager where
  persistentCache : ℕ
  nextId : StoreId
  stores : List StoreId
  references : StoreId → ServerStoreReference

namespace ServerStoreManager

def new (persistentCache : ℕ) : ServerStoreManager := ⟨persistentCache, 0, [], fun _ => .empty ""⟩

variable (m : ServerStoreManager)

def store (id : StoreId) : Option ServerStore := (m.references id).store

def setReference (id : StoreId) (ref : ServerStoreReference) : ServerStoreManager :=
  { m with references := Function.update m.references id ref }

def eraseReference (id : StoreId) : ServerStoreManager :=
  { m with stores := m.stores.filter (· ≠ id) }

def dropStore (id : StoreId) : ServerStoreManager :=
  (m.setReference id { m.references id with store := none }).eraseReference id

/-- `_releaseStore`, the manager gives back its own reference and the store is destroyed. -/
def releaseStore (id : StoreId) : Except StoreError (ServerStoreManager × List StoreEvent) :=
  match m.store id with
  | none => .ok (m.eraseReference id, [])
  | some store =>
    (store.detach serverSessionId false).map fun _ => (m.dropStore id, [.destroyed store])

/-- The dormant store that has not been used for the longest time, with the number of times the
search has found an older one. References that calls hold are spared. -/
def findVictim (shared : StoreId → Bool) (ids : List StoreId) : ℕ × ℕ × StoreId :=
  ids.foldl (fun (num, evictTime, evictId) id =>
    let ref := m.references id
    if ref.dormant && ref.dormantTime < evictTime && !shared id && ref.store.isSome then
      (num + 1, ref.dormantTime, id)
    else (num, evictTime, evictId)) (0, invalidTimeStamp, invalidStoreId)

def evictStore (shared : StoreId → Bool) :
    Except StoreError (ServerStoreManager × List StoreEvent) :=
  let (num, _, evictId) := m.findVictim shared m.stores
  if num > m.persistentCache then m.releaseStore evictId else .ok (m, [])

/-- What the search for a path found. A dormant store is outdated for a call that creates one. -/
inductive SearchResult
  | missing
  | outdated (id : StoreId)
  | found (id : StoreId)
  deriving DecidableEq, Repr

/-- Look for a path in the open list. Invalid references are erased on the way. -/
def findReference (name : String) (isOpen : Bool) (m : ServerStoreManager) :
    List StoreId → ServerStoreManager × SearchResult
  | [] => (m, .missing)
  | id :: ids =>
    let ref := m.references id
    if ref.Invalid then findReference name isOpen (m.eraseReference id) ids
    else if ref.name = name then
      (m, if ref.dormant && !isOpen then .outdated id else .found id)
    else findReference name isOpen m ids

/-- The new reference is published before its store exists. -/
def insertReference (name : String) : ServerStoreManager :=
  { m with
    nextId := m.nextId + 1
    stores := m.stores ++ [m.nextId]
    references := Function.update m.references m.nextId (.empty name) }

/-- Insert an empty reference and evict a store. The result has the reference and the id to create
the store with. -/
def addReference (name : String) (shared : StoreId → Bool) :
    ServerStoreManager × List StoreEvent × Except StoreError (StoreId × StoreId) :=
  if m.nextId = invalidStoreId then (m, [], .error .invalidOperation)
  else
    match (m.insertReference name).evictStore shared with
    | .error e => (m.insertReference name, [], .error e)
    | .ok (m', events) => (m', events, .ok (m.nextId, m.nextId))

/-- The part of `_createOrOpenStore` that holds the lock of the manager. -/
def search (name : String) (isOpen : Bool) (shared : StoreId → Bool) :
    ServerStoreManager × List StoreEvent × Except StoreError (StoreId × StoreId) :=
  match findReference name isOpen m m.stores with
  | (m, .found id) => (m, [], .ok (id, invalidStoreId))
  | (m, .missing) => m.addReference name shared
  | (m, .outdated id) =>
    match m.releaseStore id with
    | .error e => (m, [], .error e)
    | .ok (m, events) =>
      let (m, events', result) := m.addReference name shared
      (m, events ++ events', result)

def attachSession (session : SessionId) (reference : StoreId) (ref : ServerStoreReference)
    (store : ServerStore) : ServerStoreManager × Except StoreError Unit :=
  match store.attach session with
  | .error e => (m.setReference reference { ref with store := some store }, .error e)
  | .ok store => (m.setReference reference { ref with store := some store }, .ok ())

/-- The part of `_createOrOpenStore` that holds the lock of the reference. The result is `none` if
the reference has become invalid, and the call starts again. -/
def enterReference (session : SessionId) (name : String) (isOpen : Bool) (reference id : StoreId)
    (provided : Bool) :
    ServerStoreManager × List StoreEvent × Option (Except StoreError Unit) :=
  let ref := m.references reference
  match ref.store with
  | none =>
    if ref.dormant then (m, [], none)
    else
      let created := if provided then ServerStore.construct id name else .error .provider
      match created with
      | .error e => (m.setReference reference { ref with dormant := true }, [.invoked id],
          some (.error e))
      | .ok store =>
        let (m, result) := m.attachSession session reference ref store
        (m, [.invoked id], some result)
  | some store =>
    if ref.dormant then
      let (m, result) := m.attachSession session reference { ref with dormant := false } store
      (m, [], some result)
    else if !isOpen then (m, [], some (.error .alreadyOpen))
    else
      let (m, result) := m.attachSession session reference ref store
      (m, [], some result)

/-- What `_closeStore` does with a store after a session has detached. -/
def afterDetach (id : StoreId) (store : ServerStore) (time : ℕ) :
    Except StoreError (ServerStoreManager × List StoreEvent) :=
  let ref := { m.references id with store := some store }
  if store.referenceCount = 1 then
    if m.persistentCache = 0 then (m.setReference id ref).releaseStore id
    else .ok (m.setReference id { ref with dormant := true, dormantTime := time }, [.dormant store])
  else .ok (m.setReference id ref, [])

/-- `closeStore`, which holds the locks of the manager and of the reference. -/
def closeStore (session : SessionId) (id : StoreId) (throws : Bool) (time : ℕ) :
    Except StoreError (ServerStoreManager × List StoreEvent) :=
  if session = serverSessionId ∨ id ∉ m.stores then .error .notFound
  else
    match m.store id with
    | none => .error .nullStore
    | some store =>
      match store.detach session throws with
      | .error e => .error e
      | .ok (store, closed) =>
        (m.afterDetach id store time).map fun (m, events) =>
          (m, (if closed then [.encodersClosed store] else []) ++ events)

end ServerStoreManager

end Simutrace.Manager
