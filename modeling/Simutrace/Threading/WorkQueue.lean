import Mathlib.Algebra.Group.Nat.Defs
import Mathlib.Algebra.Order.Group.Multiset
import Mathlib.Logic.Function.Basic

/-! # The queue of work items

A work queue keeps the items of each priority in order. One event holds the
signals for the workers, and another one tells that a blocked queue is empty.
What an event keeps, and whether a thread may enter a lock again that it holds,
depends on the platform.
-/

namespace Simutrace

inductive Priority
  | low
  | normal
  | high
  deriving DecidableEq, Repr

def Priority.value : Priority → ℕ
  | .low => 0
  | .normal => 1
  | .high => 2

inductive Platform
  | posix
  | windows
  deriving DecidableEq, Repr

namespace Platform

/-- A semaphore counts its signals. An auto-reset event is signalled or it is not. -/
def signal : Platform → ℕ → ℕ
  | .posix, count => count + 1
  | .windows, _ => 1

/-- A critical section admits its owner again, a default mutex does not. -/
def reenters : Platform → Bool
  | .posix => false
  | .windows => true

theorem signal_pos {platform : Platform} {count : ℕ} : 0 < platform.signal count := by
  cases platform
  · exact Nat.succ_pos _
  · exact Nat.one_pos

end Platform

/-- An event is given by the number of its signals that no thread has waited for. The lock is
taken if a thread will never leave it. -/
structure WorkQueue (α : Type*) where
  platform : Platform
  locked : Bool
  queue : Priority → List α
  workEvent : ℕ
  emptyEvent : ℕ
  blocked : Bool

namespace WorkQueue

variable {α : Type*}

def new (platform : Platform) : WorkQueue α := ⟨platform, false, fun _ => [], 0, 0, false⟩

variable (q : WorkQueue α) (p : Priority) (item : α)

def IsEmpty : Prop := ∀ p, q.queue p = []

instance : Decidable q.IsEmpty :=
  decidable_of_iff (q.queue .low = [] ∧ q.queue .normal = [] ∧ q.queue .high = []) (by
    constructor
    · rintro ⟨hl, hn, hh⟩ p
      cases p <;> assumption
    · exact fun h => ⟨h _, h _, h _⟩)

def wakeUpWorkers : WorkQueue α := { q with workEvent := q.platform.signal q.workEvent }

def signalEmpty : WorkQueue α := { q with emptyEvent := q.platform.signal q.emptyEvent }

def enqueueWork : Option (WorkQueue α) :=
  if q.blocked then none
  else some
    { q with queue := Function.update q.queue p (q.queue p ++ [item]) }.wakeUpWorkers

def front : Option (Priority × α) :=
  [Priority.high, .normal, .low].findSome? fun p => (q.queue p).head?.map (p, ·)

def pop : WorkQueue α := { q with queue := Function.update q.queue p (q.queue p).tail }

def dequeueWork : Option (Priority × α) × WorkQueue α :=
  (q.front, q.front.elim
    (if q.blocked then q.signalEmpty else q) fun x => q.pop x.1)

/-- The test for an empty queue enters the lock that the thread already holds. -/
def block : WorkQueue α :=
  let q := { q with blocked := true }
  if q.platform.reenters then
    if q.IsEmpty then q.signalEmpty else q
  else { q with locked := true }

def pending : Multiset α :=
  (q.queue .high : Multiset α) + (q.queue .normal : Multiset α) + (q.queue .low : Multiset α)

variable {q p item}

theorem front_eq_none (h : q.front = none) : q.IsEmpty := by
  intro p
  cases p <;> simp_all [front]

/-- The front is the oldest item of its priority, and there is none of a higher one. -/
theorem front_eq_some (h : q.front = some (p, item)) :
    q.queue p = item :: (q.queue p).tail ∧ ∀ p', p.value < p'.value → q.queue p' = [] := by
  cases hhigh : q.queue .high with
  | cons x rest =>
    obtain ⟨rfl, rfl⟩ : Priority.high = p ∧ x = item := by simpa [front, hhigh] using h
    constructor
    · simp [hhigh]
    · intro p' hlt
      cases p' <;> simp [Priority.value] at hlt
  | nil =>
    cases hnormal : q.queue .normal with
    | cons x rest =>
      obtain ⟨rfl, rfl⟩ : Priority.normal = p ∧ x = item := by
        simpa [front, hhigh, hnormal] using h
      constructor
      · simp [hnormal]
      · intro p' hlt
        cases p' <;> simp_all [Priority.value]
    | nil =>
      cases hlow : q.queue .low with
      | cons x rest =>
        obtain ⟨rfl, rfl⟩ : Priority.low = p ∧ x = item := by
          simpa [front, hhigh, hnormal, hlow] using h
        constructor
        · simp [hlow]
        · intro p' hlt
          cases p' <;> simp_all [Priority.value]
      | nil => simp [front, hhigh, hnormal, hlow] at h

inductive Dequeued (q : WorkQueue α) : Option (Priority × α) → WorkQueue α → Prop
  | item {p : Priority} {item : α} (front : q.queue p = item :: (q.queue p).tail)
      (highest : ∀ p', p.value < p'.value → q.queue p' = []) :
      Dequeued q (some (p, item)) (q.pop p)
  | signal (empty : q.IsEmpty) (blocked : q.blocked = true) :
      Dequeued q none q.signalEmpty
  | none (empty : q.IsEmpty) (unblocked : q.blocked = false) : Dequeued q none q

theorem dequeued_dequeueWork (q : WorkQueue α) : Dequeued q q.dequeueWork.1 q.dequeueWork.2 := by
  unfold dequeueWork
  cases hfront : q.front with
  | none =>
    by_cases hblocked : q.blocked = true
    · simpa [hblocked] using Dequeued.signal (front_eq_none hfront) hblocked
    · rw [Bool.not_eq_true] at hblocked
      simpa [hblocked] using Dequeued.none (front_eq_none hfront) hblocked
  | some x =>
    obtain ⟨hp, hhigher⟩ := front_eq_some hfront
    exact .item hp hhigher

theorem block_of_reenters (h : q.platform.reenters = true) :
    q.block = if q.IsEmpty then signalEmpty { q with blocked := true }
      else { q with blocked := true } := by
  rw [block]
  exact if_pos h

theorem block_of_not_reenters (h : q.platform.reenters = false) :
    q.block = { q with blocked := true, locked := true } := by
  rw [block]
  exact if_neg (Bool.eq_false_iff.mp h)

@[simp] theorem queue_block : q.block.queue = q.queue := by
  cases h : q.platform.reenters with
  | true =>
    rw [block_of_reenters h]
    split <;> rfl
  | false => rw [block_of_not_reenters h]

@[simp] theorem blocked_block : q.block.blocked = true := by
  cases h : q.platform.reenters with
  | true =>
    rw [block_of_reenters h]
    split <;> rfl
  | false => rw [block_of_not_reenters h]

@[simp] theorem workEvent_block : q.block.workEvent = q.workEvent := by
  cases h : q.platform.reenters with
  | true =>
    rw [block_of_reenters h]
    split <;> rfl
  | false => rw [block_of_not_reenters h]

theorem locked_block : q.block.locked = (q.locked || !q.platform.reenters) := by
  cases h : q.platform.reenters with
  | true =>
    rw [block_of_reenters h]
    split <;> simp [signalEmpty]
  | false =>
    rw [block_of_not_reenters h]
    simp

theorem isEmpty_block : q.block.IsEmpty ↔ q.IsEmpty := by
  simp only [IsEmpty, queue_block]

theorem pending_block : q.block.pending = q.pending := by
  simp only [pending, queue_block]

theorem pending_eq_zero_iff : q.pending = 0 ↔ q.IsEmpty := by
  constructor
  · intro h p
    cases p <;> simp_all [pending]
  · intro h
    simp [pending, h _]

theorem pending_update (l : List α) :
    pending { q with queue := Function.update q.queue p l } + (q.queue p : Multiset α) =
      q.pending + (l : Multiset α) := by
  cases p <;> simp only [pending, Function.update_self, ne_eq, reduceCtorEq, not_false_eq_true,
    Function.update_of_ne] <;> ac_rfl

theorem pending_enqueueWork {q' : WorkQueue α} (h : q.enqueueWork p item = some q') :
    q'.pending = q.pending + {item} := by
  unfold enqueueWork at h
  split at h
  · cases h
  · cases h
    apply add_right_cancel (b := (q.queue p : Multiset α))
    calc _ = q.pending + ((q.queue p ++ [item] : List α) : Multiset α) := pending_update _
      _ = q.pending + {item} + (q.queue p : Multiset α) := by
        rw [← Multiset.coe_add, Multiset.coe_singleton]
        ac_rfl

theorem pending_pop (h : q.queue p = item :: (q.queue p).tail) :
    q.pending = (q.pop p).pending + {item} := by
  apply add_right_cancel (b := ((q.queue p).tail : Multiset α))
  calc _ = (q.pop p).pending + (q.queue p : Multiset α) := (pending_update _).symm
    _ = (q.pop p).pending + {item} + ((q.queue p).tail : Multiset α) := by
      rw [h, List.tail_cons, ← Multiset.cons_coe, ← Multiset.singleton_add]
      ac_rfl

end WorkQueue

end Simutrace
