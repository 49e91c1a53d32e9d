import Simutrace.Threading.PoolSteps

/-! # Accepted items are executed once

In any run, each item that was accepted is in the queue, is being executed or
was executed. The items of a priority leave the queue in the order in which they
were accepted, and an item is only taken if there is none of a higher priority.
-/

namespace Simutrace

open Transition

def WorkerPlace.items {α : Type*} : WorkerPlace α → Multiset α
  | .executing item => {item}
  | _ => 0

namespace WorkerPool

variable {n : ℕ} {α : Type*}

def executing (c : WorkerPool n α) : Multiset α := ∑ i, (c.workers i).place.items

/-- The accepted items are those in the queue, those in execution and those that were executed. For
each priority, those in the queue were accepted after those that were taken. -/
structure Accounted (c : WorkerPool n α) : Prop where
  once : (c.accepted.map Prod.snd : Multiset α) = c.queue.pending + c.executing + c.executed
  order : ∀ p, c.accepted.filter (·.1 = p) =
    c.dequeued.filter (·.1 = p) ++ (c.queue.queue p).map (p, ·)

/-- A worker takes the oldest item of a priority, when all items of the higher ones were taken. -/
def TakesOldest (x : Taken (WorkerPool n α) (PoolAction n α)) : Prop :=
  ∀ i item, x.label = .worker i → (x.before.workers i).place = .dequeuing →
    (x.after.workers i).place = .executing item →
    ∃ p rest, x.after.dequeued = x.before.dequeued ++ [(p, item)] ∧
      x.before.accepted.filter (·.1 = p) =
        x.before.dequeued.filter (·.1 = p) ++ (p, item) :: rest ∧
      ∀ p', p.value < p'.value →
        x.before.accepted.filter (·.1 = p') = x.before.dequeued.filter (·.1 = p')

variable {c c' : WorkerPool n α} {i : Fin n} {w : Worker α} {a : PoolAction n α}
  {l : List (Taken (WorkerPool n α) (PoolAction n α))} {p : Priority} {item : α}
  {platform : Platform}

theorem executing_setWorker : (c.setWorker i w).executing + (c.workers i).place.items =
    c.executing + w.place.items := by
  have hsum : (c.setWorker i w).executing + (c.workers i).place.items =
      c.executing + ((c.setWorker i w).workers i).place.items :=
    sum_workers (fun w => w.place.items) fun _ => setWorker_of_ne
  rwa [setWorker_self] at hsum

theorem executing_setWorker_of_eq (h : w.place.items = (c.workers i).place.items) :
    (c.setWorker i w).executing = c.executing :=
  add_right_cancel (executing_setWorker.trans (congrArg _ h))

theorem Accounted.setWorker (h : Accounted c)
    (hw : w.place.items = (c.workers i).place.items) : Accounted (c.setWorker i w) := by
  constructor
  · rw [executing_setWorker_of_eq hw]
    exact h.once
  · exact h.order

theorem Accounted.submitWork (h : Accounted c) : Accounted (c.submitWork p item) := by
  unfold WorkerPool.submitWork
  cases hq : c.queue.enqueueWork p item with
  | none => exact h
  | some q =>
    constructor
    · change ((c.accepted ++ [(p, item)]).map Prod.snd : Multiset α) =
        q.pending + c.executing + c.executed
      rw [WorkQueue.pending_enqueueWork hq, List.map_append, ← Multiset.coe_add, h.once,
        List.map_singleton, Multiset.coe_singleton]
      ac_rfl
    · intro p'
      unfold WorkQueue.enqueueWork at hq
      split at hq
      · cases hq
      · cases hq
        change (c.accepted ++ [(p, item)]).filter (·.1 = p') = c.dequeued.filter (·.1 = p') ++
          (Function.update c.queue.queue p (c.queue.queue p ++ [item]) p').map (p', ·)
        rw [List.filter_append, h.order]
        by_cases hp : p' = p
        · subst hp
          simp
        · simp [hp, Ne.symm hp]

theorem Accounted.dequeueWork (h : Accounted c) (place : (c.workers i).place = .dequeuing) :
    Accounted (c.dequeueWork i) := by
  have hdequeued := WorkQueue.dequeued_dequeueWork c.queue
  have hset := h.setWorker (i := i) (w := { c.workers i with place := .outer }) (by rw [place]; rfl)
  unfold WorkerPool.dequeueWork
  generalize c.queue.dequeueWork = r at hdequeued ⊢
  obtain ⟨taken, q⟩ := r
  cases hdequeued with
  | @item p item front highest =>
    have hexecuting := executing_setWorker (c := c) (i := i)
      (w := { c.workers i with place := .executing item })
    simp only [place, WorkerPlace.items, add_zero] at hexecuting
    constructor
    · refine h.once.trans ?_
      rw [WorkQueue.pending_pop front]
      change _ = (c.queue.pop p).pending +
        (c.setWorker i { c.workers i with place := .executing item }).executing + c.executed
      rw [hexecuting]
      ac_rfl
    · intro p'
      change c.accepted.filter (·.1 = p') = (c.dequeued ++ [(p, item)]).filter (·.1 = p') ++
        (Function.update c.queue.queue p (c.queue.queue p).tail p').map (p', ·)
      rw [h.order]
      by_cases hp : p' = p
      · subst hp
        rw [front]
        simp
      · simp [hp, Ne.symm hp]
  | signal empty blocked => exact ⟨hset.once, by simpa using h.order⟩
  | none empty unblocked => exact ⟨hset.once, by simpa using h.order⟩

theorem Accounted.execute (h : Accounted c) (place : (c.workers i).place = .executing item) :
    Accounted (c.execute i item) := by
  have hexecuting := executing_setWorker (c := c) (i := i)
    (w := { c.workers i with place := .inner })
  simp only [place, WorkerPlace.items, add_zero] at hexecuting
  constructor
  · refine h.once.trans ?_
    change _ = c.queue.pending +
      (c.setWorker i { c.workers i with place := .inner }).executing +
        ((c.executed ++ [item] : List α) : Multiset α)
    rw [← Multiset.coe_add, Multiset.coe_singleton, ← hexecuting]
    ac_rfl
  · exact h.order

theorem Accounted.step (h : Accounted c) (taken : Step c a c') : Accounted c' := by
  cases taken with
  | submitWork => exact h.submitWork
  | @worker i _ taken =>
    cases workerStep taken with
    | start place => exact h.setWorker (by rw [place]; rfl)
    | finish place stop => exact h.setWorker (by rw [place]; rfl)
    | park place stop => exact h.setWorker (by rw [place]; rfl)
    | wake place signal =>
      have hset := h.setWorker (w := { c.workers i with place := .dequeuing }) (by rw [place]; rfl)
      exact ⟨hset.once, hset.order⟩
    | dequeue place => exact h.dequeueWork place
    | execute place => exact h.execute place
    | leave place stop => exact h.setWorker (by rw [place]; rfl)
    | again place stop => exact h.setWorker (by rw [place]; rfl)
  | close taken =>
    cases closeStep taken with
    | block closing | lock closing =>
      constructor
      · refine h.once.trans ?_
        change _ = c.queue.block.pending + c.executing + c.executed
        rw [WorkQueue.pending_block]
      · simpa using h.order
    | waitEmpty closing signal => exact ⟨h.once, h.order⟩
    | stop i closing running =>
      have hset := h.setWorker (w := { c.workers i with state := .stopping }) rfl
      exact ⟨hset.once, hset.order⟩
    | wakeUp closing all => exact ⟨h.once, h.order⟩
    | join i closing ended => exact ⟨h.once, h.order⟩

theorem accounted : Invariant (· = (new platform : WorkerPool n α)) Step Accounted where
  start := by
    rintro _ rfl
    constructor
    · simp [new, WorkQueue.new, WorkQueue.pending, executing, Worker.new, WorkerPlace.items]
    · simp [new, WorkQueue.new]
  step _ _ _ := Accounted.step

theorem Accounted.takesOldest (h : Accounted c) (taken : Step c a c') :
    TakesOldest ⟨c, a, c'⟩ := by
  rintro i item rfl hbefore hafter
  change (c.workers i).place = .dequeuing at hbefore
  obtain rfl : c.dequeueWork i = c' := by
    cases taken with
    | worker taken =>
      simp only [stepWorker, hbefore, Option.ite_none_left_eq_some, Option.some.injEq] at taken
      exact taken.2
  have hdequeued := WorkQueue.dequeued_dequeueWork c.queue
  unfold WorkerPool.dequeueWork at hafter ⊢
  generalize c.queue.dequeueWork = r at hdequeued hafter ⊢
  obtain ⟨taken, q⟩ := r
  cases hdequeued with
  | @item p item' front highest =>
    obtain rfl : item' = item := by simpa using hafter
    refine ⟨p, (c.queue.queue p).tail.map (p, ·), rfl, ?_, fun p' hlt => ?_⟩
    · rw [h.order, front]
      rfl
    · rw [h.order, highest p' hlt]
      simp
  | signal empty blocked => simp at hafter
  | none empty unblocked => simp at hafter

end WorkerPool

end Simutrace
