import Simutrace.Threading.PoolSteps

/-! # Invariants of the worker pool

The thread that closes the pool only stops workers after the queue was blocked
and empty. Until then an item in the queue has a signal that was not waited for,
or a worker that looks for items.
-/

namespace Simutrace

open Transition

/-- A worker takes items until there is none. -/
inductive WorkerPlace.Draining {α : Type*} : WorkerPlace α → Prop
  | dequeuing : Draining .dequeuing
  | executing {item : α} : Draining (.executing item)
  | inner : Draining .inner

namespace Worker

variable {α : Type*}

/-- The states of a worker at each place, before and after it is requested to stop. -/
inductive Valid (requested : Prop) : Worker α → Prop
  | starting : Valid requested ⟨.starting, .created⟩
  | early (h : requested) : Valid requested ⟨.stopping, .created⟩
  | running {p : WorkerPlace α} (created : p ≠ .created) (exited : p ≠ .exited) :
      Valid requested ⟨.running, p⟩
  | stopping {p : WorkerPlace α} (h : requested) (created : p ≠ .created) (exited : p ≠ .exited) :
      Valid requested ⟨.stopping, p⟩
  | finished (h : requested) : Valid requested ⟨.finished, .exited⟩

variable {w : Worker α} {r r' : Prop} {p : WorkerPlace α}

theorem Valid.imp (h : w.Valid r) (hr : r → r') : w.Valid r' := by
  cases h with
  | starting => exact .starting
  | early h => exact .early (hr h)
  | running created exited => exact .running created exited
  | stopping h created exited => exact .stopping (hr h) created exited
  | finished h => exact .finished (hr h)

theorem Valid.requested (h : w.Valid r) (hs : w.state = .stopping) : r := by
  cases h <;> first | assumption | cases hs

theorem Valid.finished_iff (h : w.Valid r) : w.state = .finished ↔ w.place = .exited := by
  cases h <;> simp_all

theorem Valid.finished_of_not_isRunning (h : w.Valid r) (hw : ¬ w.IsRunning) :
    w.state = .finished := by
  cases h <;> simp [IsRunning] at hw ⊢

theorem Valid.isRunning (h : w.Valid r) (hr : ¬ r) : w.IsRunning := by
  cases h <;> first | contradiction | simp [IsRunning]

theorem Valid.move (h : w.Valid r) (hcreated : w.place ≠ .created) (hexited : w.place ≠ .exited)
    (hp : p ≠ .created) (hp' : p ≠ .exited) : Valid r { w with place := p } := by
  cases h with
  | starting | early => contradiction
  | running => exact .running hp hp'
  | stopping h => exact .stopping h hp hp'
  | finished => contradiction

theorem Valid.stop (h : w.Valid r) (hw : w.IsRunning) (hr : r') :
    Valid r' { w with state := .stopping } := by
  cases h with
  | starting | early => exact .early hr
  | running created exited | stopping _ created exited => exact .stopping hr created exited
  | finished => simp [IsRunning] at hw

end Worker

namespace WorkerPool

variable {n : ℕ} {α : Type*}

structure ThreadsValid (c : WorkerPool n α) : Prop where
  valid : ∀ i, (c.workers i).Valid (c.closing.Requested i)
  joined : ∀ k, c.closing = .joining k → k ≤ n ∧ ∀ i : Fin n, i.val < k →
    (c.workers i).state = .finished
  stopped : ∀ k, c.closing = .stopping k → k ≤ n

/-- The queue is blocked before its event is signalled, and it is empty then. -/
structure QueueValid (c : WorkerPool n α) : Prop where
  blocked : c.closing ≠ .notCalled → c.queue.blocked = true
  locked : c.queue.locked = true → c.closing = .blocking
  emptied : c.closing.Emptied → c.queue.IsEmpty
  event : 0 < c.queue.emptyEvent → c.queue.blocked = true ∧ c.queue.IsEmpty

def Draining (c : WorkerPool n α) : Prop := ∃ i, (c.workers i).place.Draining

/-- There is a signal or a worker for the items in the queue, and the thread that waits for the
empty queue will get a signal. -/
structure Attended (c : WorkerPool n α) : Prop where
  work : ¬ c.queue.IsEmpty → 0 < c.queue.workEvent ∨ c.Draining
  empty : c.closing = .waitingEmpty →
    0 < c.queue.emptyEvent ∨ ¬ c.queue.IsEmpty ∨ c.Draining

variable {c c' : WorkerPool n α} {i : Fin n} {w : Worker α} {a : PoolAction n α} {p : Priority}
  {item : α} {platform : Platform}

theorem ThreadsValid.setWorker (h : ThreadsValid c) (hw : w.Valid (c.closing.Requested i))
    (hexited : (c.workers i).place ≠ .exited) : ThreadsValid (c.setWorker i w) := by
  constructor
  · intro j
    by_cases hj : j = i
    · subst hj
      simpa using hw
    · simpa [hj] using h.valid j
  · intro k hk
    obtain ⟨hle, hjoined⟩ := h.joined k hk
    refine ⟨hle, fun j hj => ?_⟩
    have hne : j ≠ i := by
      rintro rfl
      exact hexited ((h.valid j).finished_iff.mp (hjoined j hj))
    simpa [hne] using hjoined j hj
  · exact h.stopped

theorem ThreadsValid.move (h : ThreadsValid c) {p : WorkerPlace α}
    (hcreated : (c.workers i).place ≠ .created) (hexited : (c.workers i).place ≠ .exited)
    (hp : p ≠ .created) (hp' : p ≠ .exited) :
    ThreadsValid (c.setWorker i { c.workers i with place := p }) :=
  h.setWorker ((h.valid i).move hcreated hexited hp hp') hexited

theorem ThreadsValid.workerStep (h : ThreadsValid c) (taken : WorkerStep c i c') :
    ThreadsValid c' := by
  cases taken with
  | start place => exact h.setWorker (.running (by simp) (by simp)) (by simp [place])
  | finish place stop =>
    exact h.setWorker (.finished ((h.valid i).requested stop)) (by simp [place])
  | park place stop | leave place stop | again place stop =>
    exact h.move (by simp [place]) (by simp [place]) (by simp) (by simp)
  | wake place signal =>
    have hset := h.move (i := i) (p := .dequeuing) (by simp [place]) (by simp [place]) (by simp)
      (by simp)
    exact ⟨hset.valid, hset.joined, hset.stopped⟩
  | dequeue place entered =>
    have hset := h.move (i := i) (p := c.queue.dequeueWork.1.elim .outer fun x => .executing x.2)
      (by simp [place]) (by simp [place]) (by cases c.queue.dequeueWork.1 <;> simp)
      (by cases c.queue.dequeueWork.1 <;> simp)
    exact ⟨hset.valid, hset.joined, hset.stopped⟩
  | execute place =>
    have hset := h.move (i := i) (p := .inner) (by simp [place]) (by simp [place]) (by simp)
      (by simp)
    exact ⟨hset.valid, hset.joined, hset.stopped⟩

theorem ThreadsValid.closeStep (h : ThreadsValid c) (taken : CloseStep c c') :
    ThreadsValid c' := by
  have hvalid (i : Fin n) : (c.workers i).Valid (c.closing.Requested i) := h.valid i
  cases taken with
  | block closing | lock closing =>
    rw [closing] at hvalid
    exact ⟨fun i => (hvalid i).imp (by rintro ⟨⟩), by simp, by simp⟩
  | waitEmpty closing signal =>
    rw [closing] at hvalid
    refine ⟨fun i => (hvalid i).imp (by rintro ⟨⟩), by simp, ?_⟩
    rintro k ⟨⟩
    exact Nat.zero_le n
  | stop i closing running =>
    rw [closing] at hvalid
    refine ⟨fun j => ?_, by simp, ?_⟩
    · by_cases hj : j = i
      · subst hj
        simpa using (hvalid j).stop running (.stopping (Nat.lt_succ_self _))
      · simpa [hj] using (hvalid j).imp fun hr =>
          .stopping (Nat.lt_succ_of_lt (Closing.requested_stopping_iff.mp hr))
    · rintro k ⟨⟩
      exact i.isLt
  | wakeUp closing all =>
    refine ⟨fun i => (hvalid i).imp fun _ => .joining, ?_, by simp⟩
    rintro k ⟨⟩
    exact ⟨Nat.zero_le n, by simp⟩
  | join i closing ended =>
    refine ⟨fun i => (hvalid i).imp fun _ => .joining, ?_, by simp⟩
    rintro k ⟨⟩
    refine ⟨i.isLt, fun j hj => ?_⟩
    rcases Nat.lt_succ_iff_lt_or_eq.mp hj with hlt | heq
    · exact (h.joined i closing).2 j hlt
    · obtain rfl := Fin.ext heq
      exact (hvalid j).finished_of_not_isRunning ended

theorem ThreadsValid.step (h : ThreadsValid c) (taken : Step c a c') : ThreadsValid c' := by
  cases taken with
  | submitWork =>
    constructor
    · simpa using h.valid
    · simpa using h.joined
    · simpa using h.stopped
  | worker taken => exact h.workerStep (WorkerPool.workerStep taken)
  | close taken => exact h.closeStep (WorkerPool.closeStep taken)

theorem QueueValid.submitWork (h : QueueValid c) : QueueValid (c.submitWork p item) := by
  rcases submitWork_queue (c := c) p item with ⟨-, heq⟩ | ⟨hold, hnew, -, hevent, hlocked⟩
  · rwa [heq]
  · have hclosing : c.closing = .notCalled := by
      by_contra hne
      rw [h.blocked hne] at hold
      cases hold
    constructor
    · simp [hclosing]
    · rw [hlocked, submitWork_closing]
      exact h.locked
    · rw [submitWork_closing, hclosing]
      exact fun he => absurd he Closing.not_emptied_notCalled
    · intro he
      rw [hevent] at he
      rw [(h.event he).1] at hold
      cases hold

theorem QueueValid.submitWork_eq (h : QueueValid c) (hc : c.closing ≠ .notCalled) :
    c.submitWork p item = c := by
  simp [WorkerPool.submitWork, WorkQueue.enqueueWork, h.blocked hc]

theorem QueueValid.dequeueWork (h : QueueValid c) : QueueValid (c.dequeueWork i) := by
  have hdequeued := WorkQueue.dequeued_dequeueWork c.queue
  unfold WorkerPool.dequeueWork
  generalize c.queue.dequeueWork = r at hdequeued ⊢
  obtain ⟨taken, q⟩ := r
  cases hdequeued with
  | @item p item front highest =>
    have hempty : ¬ c.queue.IsEmpty := by
      intro he
      rw [he p] at front
      cases front
    exact ⟨h.blocked, h.locked, fun he => absurd (h.emptied he) hempty,
      fun he => absurd (h.event he).2 hempty⟩
  | signal empty blocked => exact ⟨h.blocked, h.locked, h.emptied, fun _ => ⟨blocked, empty⟩⟩
  | none empty unblocked => exact ⟨h.blocked, h.locked, h.emptied, h.event⟩

theorem QueueValid.workerStep (h : QueueValid c) (taken : WorkerStep c i c') :
    QueueValid c' := by
  cases taken with
  | start | finish | park | wake | execute | leave | again =>
    exact ⟨h.blocked, h.locked, h.emptied, h.event⟩
  | dequeue place => exact h.dequeueWork

theorem QueueValid.closeStep (h : QueueValid c) (taken : CloseStep c c') : QueueValid c' := by
  cases taken with
  | block closing reenters =>
    refine ⟨fun _ => WorkQueue.blocked_block, fun hl => ?_,
      fun he => absurd he Closing.not_emptied_waitingEmpty, fun he => ⟨WorkQueue.blocked_block, ?_⟩⟩
    · rw [WorkQueue.locked_block, reenters, Bool.not_true, Bool.or_false] at hl
      rw [h.locked hl] at closing
      cases closing
    · rw [WorkQueue.isEmpty_block]
      by_cases hempty : c.queue.IsEmpty
      · exact hempty
      · rw [WorkQueue.block_of_reenters reenters, if_neg hempty] at he
        exact (h.event he).2
  | lock closing reenters =>
    rw [WorkQueue.block_of_not_reenters reenters]
    exact ⟨fun _ => rfl, fun _ => rfl, fun he => absurd he Closing.not_emptied_blocking,
      fun he => ⟨rfl, (h.event he).2⟩⟩
  | waitEmpty closing signal =>
    obtain ⟨hblocked, hempty⟩ := h.event signal
    exact ⟨fun _ => hblocked, fun hl => absurd (h.locked hl) (by simp [closing]), fun _ => hempty,
      fun _ => ⟨hblocked, hempty⟩⟩
  | stop i closing running | wakeUp closing all =>
    exact ⟨fun _ => h.blocked (by simp [closing]),
      fun hl => absurd (h.locked hl) (by simp [closing]), fun _ => h.emptied (closing ▸ .stopping),
      h.event⟩
  | join i closing ended =>
    exact ⟨fun _ => h.blocked (by simp [closing]),
      fun hl => absurd (h.locked hl) (by simp [closing]), fun _ => h.emptied (closing ▸ .joining),
      h.event⟩

theorem QueueValid.step (h : QueueValid c) (taken : Step c a c') : QueueValid c' := by
  cases taken with
  | submitWork => exact h.submitWork
  | worker taken => exact h.workerStep (WorkerPool.workerStep taken)
  | close taken => exact h.closeStep (WorkerPool.closeStep taken)

theorem Draining.setWorker (h : c.Draining)
    (hw : (c.workers i).place.Draining → w.place.Draining) : (c.setWorker i w).Draining := by
  obtain ⟨j, hj⟩ := h
  by_cases hji : j = i
  · subst hji
    exact ⟨j, by simpa using hw hj⟩
  · exact ⟨j, by simpa [hji] using hj⟩

theorem draining_setWorker (hw : w.place.Draining) : (c.setWorker i w).Draining :=
  ⟨i, by simpa using hw⟩

theorem Attended.setWorker (h : Attended c)
    (hw : (c.workers i).place.Draining → w.place.Draining) : Attended (c.setWorker i w) := by
  constructor
  · exact fun hq => (h.work hq).imp_right fun hd => hd.setWorker hw
  · exact fun hc => (h.empty hc).imp_right (Or.imp_right fun hd => hd.setWorker hw)

theorem Attended.submitWork (h : Attended c) (hq : QueueValid c) :
    Attended (c.submitWork p item) := by
  by_cases hc : c.closing = .notCalled
  · rcases submitWork_queue (c := c) p item with ⟨-, heq⟩ | ⟨-, -, hwork, -⟩
    · rwa [heq]
    · exact ⟨fun _ => Or.inl hwork, by simp [hc]⟩
  · rwa [hq.submitWork_eq hc]

theorem attended_dequeueWork (hq : QueueValid c) : Attended (c.dequeueWork i) := by
  have hdequeued := WorkQueue.dequeued_dequeueWork c.queue
  unfold WorkerPool.dequeueWork
  generalize c.queue.dequeueWork = r at hdequeued ⊢
  obtain ⟨taken, q⟩ := r
  cases hdequeued with
  | @item p item front highest =>
    have hdraining : (c.setWorker i { c.workers i with place := .executing item }).Draining :=
      draining_setWorker .executing
    exact ⟨fun _ => Or.inr hdraining, fun _ => Or.inr (Or.inr hdraining)⟩
  | signal empty blocked =>
    exact ⟨fun hne => absurd empty hne, fun _ => Or.inl Platform.signal_pos⟩
  | none empty unblocked =>
    refine ⟨fun hne => absurd empty hne, fun hc => ?_⟩
    have hclosing : c.closing = .waitingEmpty := hc
    have hblocked := hq.blocked (by simp [hclosing])
    rw [unblocked] at hblocked
    cases hblocked

theorem Attended.workerStep (h : Attended c) (ht : ThreadsValid c) (hq : QueueValid c)
    (taken : WorkerStep c i c') : Attended c' := by
  cases taken with
  | start place | finish place | park place =>
    apply h.setWorker
    rw [place]
    rintro ⟨⟩
  | wake place signal =>
    have hdraining : (c.setWorker i { c.workers i with place := .dequeuing }).Draining :=
      draining_setWorker .dequeuing
    exact ⟨fun _ => Or.inr hdraining, fun _ => Or.inr (Or.inr hdraining)⟩
  | dequeue place => exact attended_dequeueWork hq
  | execute place =>
    have hdraining : (c.setWorker i { c.workers i with place := .inner }).Draining :=
      draining_setWorker .inner
    exact ⟨fun _ => Or.inr hdraining, fun _ => Or.inr (Or.inr hdraining)⟩
  | leave place stop =>
    have hemptied := ((ht.valid i).requested stop).emptied
    constructor
    · exact fun hne => absurd (hq.emptied hemptied) hne
    · intro hc
      rw [show c.closing = .waitingEmpty from hc] at hemptied
      exact absurd hemptied Closing.not_emptied_waitingEmpty
  | again place stop => exact h.setWorker fun _ => .dequeuing

theorem Attended.closeStep (h : Attended c) (taken : CloseStep c c') : Attended c' := by
  have hwork (hne : ¬ c.queue.block.IsEmpty) : 0 < c.queue.block.workEvent ∨ c.Draining := by
    rw [WorkQueue.isEmpty_block] at hne
    rw [WorkQueue.workEvent_block]
    exact h.work hne
  cases taken with
  | block closing reenters =>
    refine ⟨hwork, fun _ => ?_⟩
    by_cases hempty : c.queue.IsEmpty
    · left
      rw [WorkQueue.block_of_reenters reenters, if_pos hempty]
      exact Platform.signal_pos
    · exact Or.inr (Or.inl (mt WorkQueue.isEmpty_block.mp hempty))
  | lock closing reenters => exact ⟨hwork, by simp⟩
  | waitEmpty closing signal => exact ⟨h.work, by simp⟩
  | stop i closing running =>
    have hset := h.setWorker (i := i) (w := { c.workers i with state := .stopping }) id
    exact ⟨hset.work, by simp⟩
  | wakeUp closing all => exact ⟨fun _ => Or.inl Platform.signal_pos, by simp⟩
  | join i closing ended => exact ⟨h.work, by simp⟩

theorem Attended.step (h : Attended c) (ht : ThreadsValid c) (hq : QueueValid c)
    (taken : Step c a c') : Attended c' := by
  cases taken with
  | submitWork => exact h.submitWork hq
  | worker taken => exact h.workerStep ht hq (WorkerPool.workerStep taken)
  | close taken => exact h.closeStep (WorkerPool.closeStep taken)

/-- What holds in any run, also if a worker will never finish. -/
structure PoolValid (c : WorkerPool n α) : Prop where
  threads : ThreadsValid c
  queue : QueueValid c
  attended : Attended c

theorem poolValid : Invariant (· = (new platform : WorkerPool n α)) Step PoolValid where
  start := by
    rintro _ rfl
    refine ⟨⟨fun _ => .starting, by simp [new], by simp [new]⟩,
      ⟨by simp [new], by simp [new, WorkQueue.new], ?_, ?_⟩, ?_, ?_⟩
    · exact fun he => absurd he Closing.not_emptied_notCalled
    · simp [new, WorkQueue.new]
    · exact fun hne => absurd (fun _ => rfl) hne
    · simp [new]
  step _ _ _ h taken :=
    ⟨h.threads.step taken, h.queue.step taken, h.attended.step h.threads h.queue taken⟩

end WorkerPool

end Simutrace
