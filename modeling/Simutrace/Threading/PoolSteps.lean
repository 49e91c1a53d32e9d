import Mathlib.Algebra.BigOperators.Fin
import Simutrace.Threading.WorkerPool

/-! # Steps of the worker pool

What each step of a worker and of the closing thread does, and what a pool
counts over its workers when one of them moves.
-/

namespace Simutrace

namespace Closing

inductive Requested (i : ℕ) : Closing → Prop
  | stopping {k : ℕ} (h : i < k) : Requested i (.stopping k)
  | joining {k : ℕ} : Requested i (.joining k)

/-- The queue was found to be empty. -/
inductive Emptied : Closing → Prop
  | stopping {k : ℕ} : Emptied (.stopping k)
  | joining {k : ℕ} : Emptied (.joining k)

variable {i k : ℕ} {s : Closing}

theorem Requested.emptied (h : s.Requested i) : s.Emptied := by
  cases h
  · exact .stopping
  · exact .joining

theorem requested_stopping_iff : Requested i (.stopping k) ↔ i < k := by
  constructor
  · rintro ⟨h⟩
    exact h
  · exact .stopping

theorem not_emptied_notCalled : ¬ Emptied .notCalled := by
  rintro ⟨⟩

theorem not_emptied_blocking : ¬ Emptied .blocking := by
  rintro ⟨⟩

theorem not_emptied_waitingEmpty : ¬ Emptied .waitingEmpty := by
  rintro ⟨⟩

end Closing

namespace WorkerPool

variable {n : ℕ} {α M : Type*} {c c' : WorkerPool n α} {i j : Fin n} {w : Worker α}
  {p : Priority} {item : α}

@[simp] theorem setWorker_self : (c.setWorker i w).workers i = w := Function.update_self ..

@[simp] theorem setWorker_of_ne (h : j ≠ i) : (c.setWorker i w).workers j = c.workers j :=
  Function.update_of_ne h ..

@[simp] theorem setWorker_queue : (c.setWorker i w).queue = c.queue := rfl

@[simp] theorem setWorker_closing : (c.setWorker i w).closing = c.closing := rfl

@[simp] theorem setWorker_accepted : (c.setWorker i w).accepted = c.accepted := rfl

@[simp] theorem setWorker_dequeued : (c.setWorker i w).dequeued = c.dequeued := rfl

@[simp] theorem setWorker_executed : (c.setWorker i w).executed = c.executed := rfl

@[simp] theorem submitWork_workers : (c.submitWork p item).workers = c.workers := by
  unfold submitWork
  cases c.queue.enqueueWork p item <;> rfl

@[simp] theorem submitWork_closing : (c.submitWork p item).closing = c.closing := by
  unfold submitWork
  cases c.queue.enqueueWork p item <;> rfl

theorem submitWork_queue (p : Priority) (item : α) :
    c.queue.blocked = true ∧ c.submitWork p item = c ∨
      c.queue.blocked = false ∧ (c.submitWork p item).queue.blocked = false ∧
        0 < (c.submitWork p item).queue.workEvent ∧
        (c.submitWork p item).queue.emptyEvent = c.queue.emptyEvent ∧
        (c.submitWork p item).queue.locked = c.queue.locked := by
  unfold submitWork WorkQueue.enqueueWork
  cases hblocked : c.queue.blocked with
  | true => exact Or.inl ⟨rfl, by simp⟩
  | false => exact Or.inr ⟨rfl, by simp [WorkQueue.wakeUpWorkers, Platform.signal_pos]⟩

theorem sum_workers [AddCommMonoid M] (f : Worker α → M)
    (h : ∀ j, j ≠ i → c'.workers j = c.workers j) :
    ∑ j, f (c'.workers j) + f (c.workers i) = ∑ j, f (c.workers j) + f (c'.workers i) := by
  rw [← Finset.add_sum_erase _ _ (Finset.mem_univ i),
    ← Finset.add_sum_erase _ (fun j => f (c.workers j)) (Finset.mem_univ i)]
  have hrest : ∑ j ∈ Finset.univ.erase i, f (c'.workers j) =
      ∑ j ∈ Finset.univ.erase i, f (c.workers j) := by
    apply Finset.sum_congr rfl
    intro j hj
    rw [h j (Finset.ne_of_mem_erase hj)]
  rw [hrest]
  ac_rfl

inductive WorkerStep (c : WorkerPool n α) (i : Fin n) : WorkerPool n α → Prop
  | start (place : (c.workers i).place = .created) :
      WorkerStep c i (c.setWorker i ⟨.running, .outer⟩)
  | finish (place : (c.workers i).place = .outer) (stop : (c.workers i).state = .stopping) :
      WorkerStep c i (c.setWorker i ⟨.finished, .exited⟩)
  | park (place : (c.workers i).place = .outer) (stop : (c.workers i).state ≠ .stopping) :
      WorkerStep c i (c.setWorker i { c.workers i with place := .waiting })
  | wake (place : (c.workers i).place = .waiting) (signal : 0 < c.queue.workEvent) :
      WorkerStep c i { c.setWorker i { c.workers i with place := .dequeuing } with
        queue := { c.queue with workEvent := c.queue.workEvent - 1 } }
  | dequeue (place : (c.workers i).place = .dequeuing) (entered : c.queue.locked = false) :
      WorkerStep c i (c.dequeueWork i)
  | execute {item : α} (place : (c.workers i).place = .executing item) :
      WorkerStep c i (c.execute i item)
  | leave (place : (c.workers i).place = .inner) (stop : (c.workers i).state = .stopping) :
      WorkerStep c i (c.setWorker i { c.workers i with place := .outer })
  | again (place : (c.workers i).place = .inner) (stop : (c.workers i).state ≠ .stopping) :
      WorkerStep c i (c.setWorker i { c.workers i with place := .dequeuing })

theorem workerStep (h : c.stepWorker i = some c') : WorkerStep c i c' := by
  unfold stepWorker at h
  split at h
  case h_1 hp =>
    cases h
    exact .start hp
  case h_2 hp =>
    cases h
    unfold Worker.testOuter
    split
    case isTrue hs => exact .finish hp hs
    case isFalse hs => exact .park hp hs
  case h_3 hp =>
    unfold waitForWork at h
    split at h
    case isTrue hs =>
      cases h
      exact .wake hp hs
    case isFalse => cases h
  case h_4 hp =>
    split at h
    case isTrue => cases h
    case isFalse hlocked =>
      cases h
      exact .dequeue hp (Bool.not_eq_true _ ▸ hlocked)
  case h_5 hp =>
    cases h
    exact .execute hp
  case h_6 hp =>
    cases h
    unfold Worker.testInner
    split
    case isTrue hs => exact .leave hp hs
    case isFalse hs => exact .again hp hs
  case h_7 => cases h

/-- How a worker changes in its own steps. -/
inductive Moved (w : Worker α) : Worker α → Prop
  | start (place : w.place = .created) : Moved w ⟨.running, .outer⟩
  | finish (place : w.place ≠ .created) (stop : w.state = .stopping) :
      Moved w ⟨.finished, .exited⟩
  | move {p : WorkerPlace α} (place : w.place ≠ .created) (created : p ≠ .created) :
      Moved w { w with place := p }

theorem WorkerStep.closing_eq (taken : WorkerStep c i c') : c'.closing = c.closing := by
  cases taken <;> rfl

theorem WorkerStep.workers_of_ne (taken : WorkerStep c i c') (h : j ≠ i) :
    c'.workers j = c.workers j := by
  cases taken <;> exact setWorker_of_ne h

theorem WorkerStep.moved (taken : WorkerStep c i c') : Moved (c.workers i) (c'.workers i) := by
  cases taken with
  | start place =>
    rw [setWorker_self]
    exact .start place
  | finish place stop =>
    rw [setWorker_self]
    exact .finish (by simp [place]) stop
  | park place | leave place | again place =>
    rw [setWorker_self]
    exact .move (by simp [place]) (by simp)
  | wake place signal =>
    change Moved _ ((c.setWorker i { c.workers i with place := .dequeuing }).workers i)
    rw [setWorker_self]
    exact .move (by simp [place]) (by simp)
  | dequeue place entered =>
    change Moved _ ((c.setWorker i { c.workers i with
      place := c.queue.dequeueWork.1.elim .outer fun x => .executing x.2 }).workers i)
    rw [setWorker_self]
    exact .move (by simp [place]) (by cases c.queue.dequeueWork.1 <;> simp)
  | execute place =>
    change Moved _ ((c.setWorker i { c.workers i with place := .inner }).workers i)
    rw [setWorker_self]
    exact .move (by simp [place]) (by simp)

inductive CloseStep (c : WorkerPool n α) : WorkerPool n α → Prop
  | block (closing : c.closing = .notCalled) (reenters : c.queue.platform.reenters = true) :
      CloseStep c { c with queue := c.queue.block, closing := .waitingEmpty }
  | lock (closing : c.closing = .notCalled) (reenters : c.queue.platform.reenters = false) :
      CloseStep c { c with queue := c.queue.block, closing := .blocking }
  | waitEmpty (closing : c.closing = .waitingEmpty) (signal : 0 < c.queue.emptyEvent) :
      CloseStep c { c with
        queue := { c.queue with emptyEvent := c.queue.emptyEvent - 1 }
        closing := .stopping 0 }
  | stop (i : Fin n) (closing : c.closing = .stopping i) (running : (c.workers i).IsRunning) :
      CloseStep c { c.setWorker i { c.workers i with state := .stopping } with
        closing := .stopping (i + 1) }
  | wakeUp {k : ℕ} (closing : c.closing = .stopping k) (all : n ≤ k) :
      CloseStep c { c with queue := c.queue.wakeUpWorkers, closing := .joining 0 }
  | join (i : Fin n) (closing : c.closing = .joining i) (ended : ¬ (c.workers i).IsRunning) :
      CloseStep c { c with closing := .joining (i + 1) }

theorem closeStep (h : c.stepClose = some c') : CloseStep c c' := by
  unfold stepClose at h
  split at h
  case h_1 hc =>
    cases h
    unfold WorkerPool.block
    cases hreenters : c.queue.platform.reenters with
    | true => exact .block hc hreenters
    | false => exact .lock hc hreenters
  case h_2 => cases h
  case h_3 hc =>
    unfold WorkerPool.waitEmpty at h
    split at h
    case isTrue hs =>
      cases h
      exact .waitEmpty hc hs
    case isFalse => cases h
  case h_4 k hc =>
    unfold WorkerPool.stop at h
    split at h
    case isTrue hk =>
      unfold Worker.stop at h
      split at h
      case isTrue hr =>
        cases h
        exact .stop ⟨k, hk⟩ hc hr
      case isFalse => cases h
    case isFalse hk =>
      cases h
      exact .wakeUp hc (Nat.le_of_not_lt hk)
  case h_5 k hc =>
    unfold WorkerPool.join at h
    split at h
    case isTrue hk =>
      split at h
      case isTrue => cases h
      case isFalse hr =>
        cases h
        exact .join ⟨k, hk⟩ hc hr
    case isFalse => cases h

end WorkerPool

end Simutrace
