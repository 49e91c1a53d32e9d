import Mathlib.Algebra.Order.BigOperators.Group.Finset
import Simutrace.Threading.PoolHistory
import Simutrace.Threading.PoolInvariants

/-! # Closing the worker pool

With a default mutex, the closing thread blocks itself. With a critical section
its single signal reaches one worker, and a worker that begins to run overwrites
its request to stop. The pool is closed exactly if there is no worker of the one
kind and a signal for each of the others.
-/

namespace Simutrace

open Transition

def WorkerPlace.waits {α : Type*} : WorkerPlace α → ℕ
  | .waiting => 1
  | _ => 0

namespace WorkerPool

variable {n : ℕ} {α : Type*}

def waiting (c : WorkerPool n α) : ℕ := ∑ i, (c.workers i).place.waits

/-- The closing thread waits for itself, for a worker that waits without a signal, or for one that
has lost its request to stop. -/
def Hangs (c : WorkerPool n α) : Prop :=
  c.closing = .blocking ∨ ∃ i : Fin n, c.closing = .joining i ∧
    ((c.workers i).place = .waiting ∧ c.queue.workEvent = 0 ∨ (c.workers i).state = .running)

/-- The queue is only blocked where its lock admits its owner again, a worker is requested to stop
after it has set its state, and when the closing thread signals, there is a signal for each worker
that waits. -/
def StopsInTime (x : Taken (WorkerPool n α) (PoolAction n α)) : Prop :=
  x.label = .close →
    (x.before.closing = .notCalled → x.before.queue.platform.reenters = true) ∧
    (∀ i : Fin n, x.before.closing = .stopping i → (x.before.workers i).place ≠ .created) ∧
    (x.before.closing = .stopping n →
      x.before.waiting ≤ x.before.queue.platform.signal x.before.queue.workEvent)

structure Closable (c : WorkerPool n α) : Prop where
  admitted : c.closing ≠ .blocking
  kept : ∀ i : Fin n, c.closing.Requested i →
    (c.workers i).place ≠ .created ∧ (c.workers i).state ≠ .running
  signals : ∀ k, c.closing = .joining k → c.waiting ≤ c.queue.workEvent

/-- The closing thread waits for itself, a request to stop is lost, or there are more workers than
signals. -/
def Unclosable (c : WorkerPool n α) : Prop :=
  c.closing = .blocking ∨
  (∃ i : Fin n, c.closing.Requested i ∧
    ((c.workers i).place = .created ∨ (c.workers i).state = .running)) ∨
  ∃ k, c.closing = .joining k ∧ c.queue.workEvent < c.waiting

variable {c c' : WorkerPool n α} {i : Fin n} {w : Worker α} {a : PoolAction n α} {p : Priority}
  {item : α} {l : List (Taken (WorkerPool n α) (PoolAction n α))} {platform : Platform}

theorem waits_le_waiting (c : WorkerPool n α) (i : Fin n) :
    (c.workers i).place.waits ≤ c.waiting :=
  Finset.single_le_sum (f := fun i => (c.workers i).place.waits) (fun _ _ => Nat.zero_le _)
    (Finset.mem_univ i)

theorem exists_waiting (h : 0 < c.waiting) : ∃ i, (c.workers i).place = .waiting := by
  by_contra hnone
  have hzero : c.waiting = 0 := by
    apply Finset.sum_eq_zero
    intro i _
    cases hp : (c.workers i).place with
    | waiting => exact absurd ⟨i, hp⟩ hnone
    | _ => rfl
  omega

theorem Closable.not_hangs (h : Closable c) : ¬ c.Hangs := by
  rintro (hc | ⟨i, hc, ⟨hplace, hsignals⟩ | hstate⟩)
  · exact h.admitted hc
  · have hle := waits_le_waiting c i
    have hwaiting := h.signals i hc
    rw [hplace] at hle
    simp only [WorkerPlace.waits] at hle
    omega
  · exact (h.kept i (hc ▸ .joining)).2 hstate

theorem workEvent_dequeueWork : (c.dequeueWork i).queue.workEvent = c.queue.workEvent := by
  have hdequeued := WorkQueue.dequeued_dequeueWork c.queue
  unfold WorkerPool.dequeueWork
  generalize c.queue.dequeueWork = r at hdequeued ⊢
  obtain ⟨taken, q⟩ := r
  cases hdequeued <;> rfl

/-- A worker begins to wait, it takes a signal, or it does neither. -/
theorem WorkerStep.waiting_cases (taken : WorkerStep c i c') :
    (c'.waiting = c.waiting ∧ c'.queue.workEvent = c.queue.workEvent) ∨
      ((c.workers i).place = .outer ∧ (c.workers i).state ≠ .stopping ∧
        c'.waiting = c.waiting + 1 ∧ c'.queue.workEvent = c.queue.workEvent) ∨
      (c'.waiting + 1 = c.waiting ∧ c'.queue.workEvent + 1 = c.queue.workEvent) := by
  have hsum : c'.waiting + (c.workers i).place.waits = c.waiting + (c'.workers i).place.waits :=
    sum_workers (fun w => w.place.waits) fun _ => taken.workers_of_ne
  cases taken with
  | start place | finish place | leave place | again place =>
    simp only [place, setWorker_self, WorkerPlace.waits, add_zero] at hsum
    exact Or.inl ⟨hsum, rfl⟩
  | park place stop =>
    simp only [place, setWorker_self, WorkerPlace.waits, add_zero] at hsum
    exact Or.inr (Or.inl ⟨place, stop, hsum, rfl⟩)
  | wake place signal =>
    simp only [place, setWorker_self, WorkerPlace.waits, add_zero] at hsum
    exact Or.inr (Or.inr ⟨hsum, Nat.sub_add_cancel signal⟩)
  | dequeue place =>
    have hplace : ((c.dequeueWork i).workers i).place.waits = 0 := by
      change ((c.setWorker i { c.workers i with
        place := c.queue.dequeueWork.1.elim .outer fun x => .executing x.2 }).workers i).place.waits
          = 0
      rw [setWorker_self]
      cases c.queue.dequeueWork.1 <;> rfl
    rw [place, hplace] at hsum
    exact Or.inl ⟨hsum, workEvent_dequeueWork⟩
  | @execute item place =>
    have hplace : ((c.execute i item).workers i).place = .inner := by
      change ((c.setWorker i { c.workers i with place := .inner }).workers i).place = .inner
      rw [setWorker_self]
    rw [place, hplace] at hsum
    exact Or.inl ⟨hsum, rfl⟩

theorem Closable.workerStep (h : Closable c) (hv : ThreadsValid c) (taken : WorkerStep c i c') :
    Closable c' := by
  constructor
  · rw [taken.closing_eq]
    exact h.admitted
  · rw [taken.closing_eq]
    intro j hj
    by_cases hji : j = i
    · subst hji
      obtain ⟨hcreated, hrunning⟩ := h.kept j hj
      have hmoved := taken.moved
      generalize c'.workers j = w at hmoved ⊢
      cases hmoved with
      | start place => contradiction
      | finish place stop => simp
      | move place created => exact ⟨created, hrunning⟩
    · rw [taken.workers_of_ne hji]
      exact h.kept j hj
  · rw [taken.closing_eq]
    intro k hk
    have hle := h.signals k hk
    rcases taken.waiting_cases with ⟨hw, he⟩ | ⟨hplace, hstate, -⟩ | ⟨hw, he⟩
    · omega
    · -- A worker that was requested to stop leaves its loop.
      obtain ⟨hcreated, hrunning⟩ := h.kept i (hk ▸ .joining)
      have hvalid := hv.valid i
      cases hworker : c.workers i
      rw [hworker] at hvalid hplace hstate hrunning
      cases hvalid <;> simp_all
    · omega

theorem Closable.closeStep (h : Closable c) (hv : ThreadsValid c) (taken : CloseStep c c')
    (hstop : StopsInTime ⟨c, .close, c'⟩) : Closable c' := by
  obtain ⟨hreenters, hstarted, hwaiting⟩ := hstop rfl
  cases taken with
  | block closing reenters => exact ⟨by simp, by rintro _ ⟨⟩, by simp⟩
  | lock closing reenters =>
    have hadmits : c.queue.platform.reenters = true := hreenters closing
    rw [reenters] at hadmits
    cases hadmits
  | waitEmpty closing signal =>
    refine ⟨by simp, fun i hi => ?_, by simp⟩
    exact absurd (Closing.requested_stopping_iff.mp hi) (Nat.not_lt_zero _)
  | stop i closing running =>
    refine ⟨by simp, fun j hj => ?_, by simp⟩
    by_cases hji : j = i
    · subst hji
      simpa using hstarted j closing
    · have hlt := Closing.requested_stopping_iff.mp hj
      have hne : j.val ≠ i.val := fun he => hji (Fin.ext he)
      have hkept := h.kept j (closing ▸ .stopping (by omega))
      simpa [hji] using hkept
  | @wakeUp k closing all =>
    obtain rfl := Nat.le_antisymm (hv.stopped k closing) all
    exact ⟨by simp, fun i _ => h.kept i (closing ▸ .stopping i.isLt), fun _ _ => hwaiting closing⟩
  | join i closing ended =>
    exact ⟨by simp, fun j _ => h.kept j (closing ▸ .joining), fun _ _ => h.signals i closing⟩

theorem Closable.step (h : Closable c) (hv : PoolValid c) (taken : Step c a c')
    (hstop : StopsInTime ⟨c, a, c'⟩) : Closable c' := by
  cases taken with
  | submitWork =>
    by_cases hc : c.closing = .notCalled
    · constructor
      · simp [hc]
      · rw [submitWork_closing, hc]
        rintro _ ⟨⟩
      · simp [hc]
    · rwa [hv.queue.submitWork_eq hc]
  | worker taken => exact h.workerStep hv.threads (WorkerPool.workerStep taken)
  | close taken => exact h.closeStep hv.threads (WorkerPool.closeStep taken) hstop

theorem closable_of_run (run : Run (· = (new platform : WorkerPool n α)) Step l c)
    (hstop : ∀ x ∈ l, StopsInTime x) : Closable c := by
  induction run with
  | start initial =>
    subst initial
    exact ⟨by simp [new], by rintro _ ⟨⟩, by simp [new]⟩
  | step run taken ih =>
    exact (ih fun x hx => hstop x (List.mem_cons_of_mem _ hx)).step (poolValid.run run) taken
      (hstop _ List.mem_cons_self)

theorem Unclosable.workerStep (h : Unclosable c) (taken : WorkerStep c i c') : Unclosable c' := by
  rcases h with hblocking | ⟨j, hr, hj⟩ | ⟨k, hk, hlt⟩
  · exact Or.inl (taken.closing_eq.trans hblocking)
  · refine Or.inr (Or.inl ⟨j, taken.closing_eq ▸ hr, ?_⟩)
    by_cases hji : j = i
    · subst hji
      have hmoved := taken.moved
      generalize c'.workers j = w at hmoved ⊢
      cases hmoved with
      | start place => exact Or.inr rfl
      | finish place stop => simp [place, stop] at hj
      | move place created => exact Or.inr (hj.resolve_left place)
    · rwa [taken.workers_of_ne hji]
  · refine Or.inr (Or.inr ⟨k, taken.closing_eq.trans hk, ?_⟩)
    rcases taken.waiting_cases with hw | hw | hw <;> omega

theorem Unclosable.closeStep (h : Unclosable c) (taken : CloseStep c c') : Unclosable c' := by
  rcases h with hblocking | ⟨j, hr, hj⟩ | ⟨k, hk, hlt⟩
  · cases taken <;> simp [hblocking] at *
  · cases taken with
    | block closing | lock closing | waitEmpty closing =>
      rw [closing] at hr
      cases hr
    | stop i closing running =>
      rw [closing, Closing.requested_stopping_iff] at hr
      have hji : j ≠ i := by
        rintro rfl
        exact Nat.lt_irrefl _ hr
      exact Or.inr (Or.inl ⟨j, .stopping (Nat.lt_succ_of_lt hr), by simpa [hji] using hj⟩)
    | wakeUp closing all | join i closing ended => exact Or.inr (Or.inl ⟨j, .joining, hj⟩)
  · cases taken with
    | join i closing ended => exact Or.inr (Or.inr ⟨_, rfl, hlt⟩)
    | block closing | lock closing | waitEmpty closing | stop i closing | wakeUp closing =>
      simp [closing] at hk

theorem Unclosable.called (h : Unclosable c) : c.closing ≠ .notCalled := by
  intro hc
  rw [Unclosable, hc] at h
  rcases h with hblocking | ⟨_, ⟨⟩, -⟩ | ⟨k, hk, -⟩
  · cases hblocking
  · cases hk

theorem Unclosable.step (h : Unclosable c) (hv : PoolValid c) (taken : Step c a c') :
    Unclosable c' := by
  cases taken with
  | submitWork => rwa [hv.queue.submitWork_eq h.called]
  | worker taken => exact h.workerStep (WorkerPool.workerStep taken)
  | close taken => exact h.closeStep (WorkerPool.closeStep taken)

theorem unclosable_of_not_stopsInTime (taken : Step c a c') (hstop : ¬ StopsInTime ⟨c, a, c'⟩) :
    Unclosable c' := by
  rw [StopsInTime, Classical.not_imp, Classical.not_and_iff_not_or_not,
    Classical.not_and_iff_not_or_not] at hstop
  obtain ⟨rfl, hstop⟩ := hstop
  have htaken : CloseStep c c' := by
    cases taken with
    | close taken => exact WorkerPool.closeStep taken
  rcases hstop with hlock | hearly | hsignals
  · push Not at hlock
    obtain ⟨hclosing, hreenters⟩ := hlock
    change c.closing = .notCalled at hclosing
    cases htaken with
    | lock closing reenters => exact Or.inl rfl
    | block closing reenters => exact absurd reenters hreenters
    | waitEmpty closing | stop _ closing | wakeUp closing | join _ closing =>
      simp [hclosing] at closing
  · push Not at hearly
    obtain ⟨i, hclosing, hplace⟩ := hearly
    change c.closing = .stopping i at hclosing
    cases htaken with
    | stop j closing running =>
      obtain rfl : i = j := Fin.ext (by simpa [hclosing] using closing)
      exact Or.inr (Or.inl ⟨i, .stopping (Nat.lt_succ_self _), Or.inl (by simpa using hplace)⟩)
    | @wakeUp k closing all =>
      obtain rfl : i.val = k := by simpa [hclosing] using closing
      exact absurd i.isLt (Nat.not_lt_of_le all)
    | block closing | lock closing | waitEmpty closing | join _ closing =>
      simp [hclosing] at closing
  · push Not at hsignals
    obtain ⟨hclosing, hlt⟩ := hsignals
    change c.closing = .stopping n at hclosing
    cases htaken with
    | stop j closing running =>
      have hn : n = j.val := by simpa [hclosing] using closing
      exact absurd j.isLt (by omega)
    | wakeUp closing all => exact Or.inr (Or.inr ⟨0, rfl, hlt⟩)
    | block closing | lock closing | waitEmpty closing | join _ closing =>
      simp [hclosing] at closing

theorem unclosable_of_run (run : Run (· = (new platform : WorkerPool n α)) Step l c) :
    ∀ x ∈ l, ¬ StopsInTime x → Unclosable c := by
  induction run with
  | start => simp
  | step run taken ih =>
    intro x hx hstop
    rcases List.mem_cons.mp hx with rfl | hx
    · exact unclosable_of_not_stopsInTime taken hstop
    · exact (ih x hx hstop).step (poolValid.run run) taken

theorem Unclosable.not_joined (h : Unclosable c) (hv : PoolValid c) : c.closing ≠ .joining n := by
  intro hclosing
  have hexited (i : Fin n) : (c.workers i).state = .finished ∧ (c.workers i).place = .exited := by
    have hstate := (hv.threads.joined n hclosing).2 i i.isLt
    exact ⟨hstate, (hv.threads.valid i).finished_iff.mp hstate⟩
  rcases h with hblocking | ⟨i, -, hplace | hstate⟩ | ⟨k, -, hlt⟩
  · simp [hclosing] at hblocking
  · simp [(hexited i).2] at hplace
  · simp [(hexited i).1] at hstate
  · obtain ⟨i, hplace⟩ := exists_waiting (Nat.zero_lt_of_lt hlt)
    simp [(hexited i).2] at hplace

theorem exists_stepWorker (hlocked : c.queue.locked = false)
    (hexited : (c.workers i).place ≠ .exited)
    (hwaiting : (c.workers i).place = .waiting → 0 < c.queue.workEvent) :
    ∃ c', c.stepWorker i = some c' := by
  unfold stepWorker
  cases hp : (c.workers i).place with
  | waiting => simp [waitForWork, hwaiting hp]
  | dequeuing => simp [hlocked]
  | exited => exact absurd hp hexited
  | _ => exact ⟨_, rfl⟩

theorem exists_stepWorker_of_draining (hlocked : c.queue.locked = false)
    (h : (c.workers i).place.Draining) : ∃ c', c.stepWorker i = some c' := by
  apply exists_stepWorker hlocked
  · intro hp
    rw [hp] at h
    cases h
  · intro hp
    rw [hp] at h
    cases h

/-- As long as there are items in the queue and its lock is free, a worker may go on. -/
theorem exists_stepWorker_of_not_isEmpty (hn : 0 < n) (hv : PoolValid c)
    (hlocked : c.queue.locked = false) (hempty : ¬ c.queue.IsEmpty) :
    ∃ i c', c.stepWorker i = some c' := by
  rcases hv.attended.work hempty with hsignal | ⟨i, hi⟩
  · have hexited : (c.workers ⟨0, hn⟩).place ≠ .exited := by
      intro hp
      have hvalid := hv.threads.valid ⟨0, hn⟩
      have hrequested : c.closing.Requested 0 := by
        generalize c.workers ⟨0, hn⟩ = w at hvalid hp
        cases hvalid <;> first | assumption | contradiction
      exact hempty (hv.queue.emptied hrequested.emptied)
    exact ⟨_, exists_stepWorker hlocked hexited fun _ => hsignal⟩
  · exact ⟨i, exists_stepWorker_of_draining hlocked hi⟩

theorem QueueValid.locked_eq_false (h : QueueValid c) (hc : c.closing ≠ .blocking) :
    c.queue.locked = false :=
  Bool.eq_false_iff.mpr (mt h.locked hc)

/-- Once the pool is called to close, a thread may go on until it is closed. -/
theorem Closable.exists_step (h : Closable c) (hn : 0 < n) (hv : PoolValid c)
    (hcalled : c.closing ≠ .notCalled) (hopen : c.closing ≠ .joining n) :
    ∃ c', c.stepClose = some c' ∨ ∃ i, c.stepWorker i = some c' := by
  have hlocked := hv.queue.locked_eq_false h.admitted
  unfold stepClose
  cases hclosing : c.closing with
  | notCalled => exact absurd hclosing hcalled
  | blocking => exact absurd hclosing h.admitted
  | waitingEmpty =>
    rcases hv.attended.empty hclosing with hsignal | hempty | ⟨i, hi⟩
    · exact ⟨_, Or.inl (if_pos hsignal)⟩
    · obtain ⟨i, c', hc'⟩ := exists_stepWorker_of_not_isEmpty hn hv hlocked hempty
      exact ⟨c', Or.inr ⟨i, hc'⟩⟩
    · obtain ⟨c', hc'⟩ := exists_stepWorker_of_draining hlocked hi
      exact ⟨c', Or.inr ⟨i, hc'⟩⟩
  | stopping k =>
    by_cases hk : k < n
    · have hrunning : (c.workers ⟨k, hk⟩).IsRunning := by
        apply (hv.threads.valid ⟨k, hk⟩).isRunning
        rw [hclosing, Closing.requested_stopping_iff]
        exact Nat.lt_irrefl k
      obtain ⟨c', hc'⟩ : ∃ c', c.stop k = some c' := by
        rw [stop, dif_pos hk, Worker.stop, if_pos hrunning]
        exact ⟨_, rfl⟩
      exact ⟨c', Or.inl hc'⟩
    · exact ⟨_, Or.inl (dif_neg hk)⟩
  | joining k =>
    have hk : k < n := by
      refine Nat.lt_of_le_of_ne (hv.threads.joined k hclosing).1 ?_
      rintro rfl
      exact hopen hclosing
    by_cases hrunning : (c.workers ⟨k, hk⟩).IsRunning
    · have hexited : (c.workers ⟨k, hk⟩).place ≠ .exited := by
        intro hp
        rw [← (hv.threads.valid _).finished_iff] at hp
        simp [Worker.IsRunning, hp] at hrunning
      obtain ⟨c', hc'⟩ := exists_stepWorker hlocked hexited fun hp => by
        have hle := waits_le_waiting c ⟨k, hk⟩
        have hwaiting := h.signals k hclosing
        rw [hp] at hle
        exact Nat.lt_of_lt_of_le hle hwaiting
      exact ⟨c', Or.inr ⟨_, hc'⟩⟩
    · obtain ⟨c', hc'⟩ : ∃ c', c.join k = some c' := by
        rw [join, dif_pos hk, if_neg hrunning]
        exact ⟨_, rfl⟩
      exact ⟨c', Or.inl hc'⟩

/-- When no worker may go on while the lock is free, all accepted items were executed. -/
theorem Accounted.executed_perm (h : Accounted c) (hn : 0 < n) (hv : PoolValid c)
    (hc : c.closing ≠ .blocking) (hidle : ∀ i, c.stepWorker i = none) :
    (c.accepted.map Prod.snd).Perm c.executed := by
  have hempty : c.queue.IsEmpty := by
    by_contra hempty
    obtain ⟨i, c', hc'⟩ :=
      exists_stepWorker_of_not_isEmpty hn hv (hv.queue.locked_eq_false hc) hempty
    simp [hidle i] at hc'
  have hexecuting : c.executing = 0 := by
    apply Finset.sum_eq_zero
    intro i _
    cases hp : (c.workers i).place with
    | executing item =>
      have hnone := hidle i
      simp [stepWorker, hp] at hnone
    | _ => rfl
  have honce := h.once
  rw [WorkQueue.pending_eq_zero_iff.mpr hempty, hexecuting, zero_add, zero_add] at honce
  exact Multiset.coe_eq_coe.mp honce

/-- Each accepted item is executed once and in the order of its priority, unless the closing thread
has the lock. The pool closes if each step is in time, and if one is not, it never does. -/
theorem executes_and_closes (hn : 0 < n)
    (run : Run (· = (new platform : WorkerPool n α)) Step l c) :
    Accounted c ∧ (∀ x ∈ l, TakesOldest x) ∧
      (c.closing ≠ .blocking → (∀ i, c.stepWorker i = none) →
        (c.accepted.map Prod.snd).Perm c.executed) ∧
      ((∀ x ∈ l, StopsInTime x) → ¬ c.Hangs ∧ (c.closing ≠ .notCalled → c.closing ≠ .joining n →
        ∃ c', c.stepClose = some c' ∨ ∃ i, c.stepWorker i = some c')) ∧
      ∀ x ∈ l, ¬ StopsInTime x → c.closing ≠ .joining n := by
  have hv := poolValid.run run
  have hc := accounted.run run
  refine ⟨hc, fun x hx => ?_, hc.executed_perm hn hv, fun hstop => ?_, fun x hx hstop => ?_⟩
  · obtain ⟨hbefore, htaken⟩ := accounted.taken run x hx
    exact hbefore.takesOldest htaken
  · have hclosable := closable_of_run run hstop
    exact ⟨hclosable.not_hangs, hclosable.exists_step hn hv⟩
  · exact (unclosable_of_run run x hx hstop).not_joined hv

/-- The first worker executes both items, and the second one takes the last signal. -/
theorem executes_and_closes_two : ∃ l, ∃ c : WorkerPool 2 ℕ, Run (· = new .windows) Step l c ∧
    c.closing = .joining 2 ∧ c.executed = [8, 7] ∧ Accounted c ∧ ¬ c.Hangs := by
  have start : Run (· = new .windows) Step [] (new .windows : WorkerPool 2 ℕ) := .start rfl
  have waiting := (((start.step (.worker (i := 0) rfl)).step (.worker (i := 0) rfl)).step
    (.worker (i := 1) rfl)).step (.worker (i := 1) rfl)
  have submitted := (waiting.step (a := .submitWork .normal 7) (.submitWork rfl)).step
    (a := .submitWork .high 8) (.submitWork rfl)
  have first := (((submitted.step (.worker (i := 0) rfl)).step (.worker (i := 0) rfl)).step
    (.worker (i := 0) rfl)).step (.worker (i := 0) rfl)
  have executed := (((first.step (.worker (i := 0) rfl)).step (.worker (i := 0) rfl)).step
    (.worker (i := 0) rfl)).step (.worker (i := 0) rfl)
  have stopped := (((executed.step (.close rfl)).step (.close rfl)).step (.close rfl)).step
    (.close rfl)
  have signalled := (stopped.step (.close rfl)).step (.worker (i := 0) rfl)
  have finished := ((signalled.step (.worker (i := 1) rfl)).step (.worker (i := 1) rfl)).step
    (.worker (i := 1) rfl)
  have closed := (finished.step (.close rfl)).step (.close rfl)
  have h := executes_and_closes Nat.zero_lt_two closed
  refine ⟨_, _, closed, rfl, rfl, h.1, (h.2.2.2.1 ?_).1⟩
  intro x hx hlabel
  simp only [List.mem_cons, List.not_mem_nil, or_false] at hx
  rcases hx with rfl | rfl | rfl | rfl | rfl | rfl | rfl | rfl | rfl | rfl | rfl | hx
  · exact ⟨nofun, fun _ => nofun, nofun⟩
  · exact ⟨nofun, fun _ => nofun, nofun⟩
  iterate 4 cases hlabel
  · refine ⟨nofun, fun i hi => ?_, fun _ => by decide⟩
    injection hi with hi
    omega
  · refine ⟨nofun, fun i _ => ?_, nofun⟩
    match i with
    | 0 => rintro ⟨⟩
    | 1 => rintro ⟨⟩
  · refine ⟨nofun, fun i _ => ?_, nofun⟩
    match i with
    | 0 => rintro ⟨⟩
    | 1 => rintro ⟨⟩
  · exact ⟨nofun, fun _ => nofun, nofun⟩
  · exact ⟨fun _ => rfl, fun _ => nofun, nofun⟩
  · rcases hx with rfl | rfl | rfl | rfl | rfl | rfl | rfl | rfl | rfl | rfl | rfl | rfl | rfl | rfl
    all_goals cases hlabel

/-- Both workers wait when the pool is closed. With a default mutex, the closing thread keeps the
lock and no item is executed. Otherwise it wakes up the first worker only. -/
theorem hangs_twoWaiting :
    (∃ l, ∃ c : WorkerPool 2 ℕ, Run (· = new .posix) Step l c ∧ c.Hangs ∧ c.stepClose = none ∧
      (∀ i, c.stepWorker i = none) ∧ c.accepted = [(.normal, 7)] ∧ c.executed = []) ∧
    ∃ l, ∃ c : WorkerPool 2 ℕ, Run (· = new .windows) Step l c ∧ c.Hangs := by
  constructor
  · have start : Run (· = new .posix) Step [] (new .posix : WorkerPool 2 ℕ) := .start rfl
    have waiting := (((start.step (.worker (i := 0) rfl)).step (.worker (i := 0) rfl)).step
      (.worker (i := 1) rfl)).step (.worker (i := 1) rfl)
    have locked := (waiting.step (a := .submitWork .normal 7) (.submitWork rfl)).step (.close rfl)
    refine ⟨_, _, locked.step (.worker (i := 0) rfl), Or.inl rfl, rfl, ?_, rfl, rfl⟩
    intro i
    match i with
    | 0 => rfl
    | 1 => rfl
  · have start : Run (· = new .windows) Step [] (new .windows : WorkerPool 2 ℕ) := .start rfl
    have waiting := (((start.step (.worker (i := 0) rfl)).step (.worker (i := 0) rfl)).step
      (.worker (i := 1) rfl)).step (.worker (i := 1) rfl)
    have signalled := ((((waiting.step (.close rfl)).step (.close rfl)).step (.close rfl)).step
      (.close rfl)).step (.close rfl)
    have finished := ((signalled.step (.worker (i := 0) rfl)).step (.worker (i := 0) rfl)).step
      (.worker (i := 0) rfl)
    exact ⟨_, _, finished.step (.close rfl), Or.inr ⟨1, rfl, Or.inl ⟨rfl, rfl⟩⟩⟩

end WorkerPool

end Simutrace
