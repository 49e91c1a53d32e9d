import Mathlib.Algebra.Group.Nat.Defs
import Mathlib.Logic.Function.Basic
import Simutrace.Library.Transition

/-! # Waiting for a counter

A wait context counts pending operations. A thread that waits tests the counter
under the lock of the condition variable and parks. The counter is changed
without the lock, and the last operation wakes all threads that are parked.
-/

namespace Simutrace

open Transition

inductive WaitPhase
  | outside
  | waking
  | locked
  | tested
  | parked
  | woken
  deriving DecidableEq, Repr

namespace WaitPhase

/-- A thread that is parked has to take the lock again. -/
def wake (p : WaitPhase) : WaitPhase := if p = .parked then .woken else p

@[simp] theorem wake_ne_parked {p : WaitPhase} : p.wake ≠ .parked := by
  cases p <;> decide

@[simp] theorem wake_eq_tested {p : WaitPhase} : p.wake = .tested ↔ p = .tested := by
  cases p <;> decide

@[simp] theorem wake_eq_waking {p : WaitPhase} : p.wake = .waking ↔ p = .waking := by
  cases p <;> decide

end WaitPhase

structure WaitContext (ι : Type*) where
  count : ℕ
  lock : Option ι
  threads : ι → WaitPhase

namespace WaitContext

variable {ι : Type*} [DecidableEq ι]

def new : WaitContext ι := ⟨0, none, fun _ => .outside⟩

variable (c : WaitContext ι) (t : ι)

def setThread (p : WaitPhase) : WaitContext ι := { c with threads := Function.update c.threads t p }

def increment : WaitContext ι := { c with count := c.count + 1 }

/-- The thread that reaches zero has to wake the others. -/
def decrement : WaitContext ι :=
  if c.count - 1 = 0 then { c with count := c.count - 1 }.setThread t .waking
  else { c with count := c.count - 1 }

def wakeAll : WaitContext ι :=
  { c with threads := fun u => (c.threads u).wake }.setThread t .outside

def acquire : WaitContext ι := { c with lock := some t }.setThread t .locked

/-- The test of the loop, after which the thread parks or releases the lock and returns. -/
def test : WaitContext ι :=
  if 0 < c.count then c.setThread t .tested else { c with lock := none }.setThread t .outside

def park : WaitContext ι := { c with lock := none }.setThread t .parked

inductive Action (ι : Type*)
  | increment (t : ι)
  | decrement (t : ι)
  | wakeAll (t : ι)
  | acquire (t : ι)
  | test (t : ι)
  | park (t : ι)
  | wakeUp (t : ι)

/-- The steps of the threads. A thread that is parked may also wake up by itself. -/
inductive Step (c : WaitContext ι) : Action ι → WaitContext ι → Prop
  | increment {t : ι} (phase : c.threads t = .outside) (bound : c.count < 2 ^ 32 - 1) :
      Step c (.increment t) c.increment
  | decrement {t : ι} (phase : c.threads t = .outside) (positive : 0 < c.count) :
      Step c (.decrement t) (c.decrement t)
  | wakeAll {t : ι} (phase : c.threads t = .waking) : Step c (.wakeAll t) (c.wakeAll t)
  | acquire {t : ι} (phase : c.threads t = .outside ∨ c.threads t = .woken)
      (unlocked : c.lock = none) : Step c (.acquire t) (c.acquire t)
  | test {t : ι} (phase : c.threads t = .locked) : Step c (.test t) (c.test t)
  | park {t : ι} (phase : c.threads t = .tested) : Step c (.park t) (c.park t)
  | wakeUp {t : ι} (phase : c.threads t = .parked) : Step c (.wakeUp t) (c.setThread t .woken)

def LostWakeUp : Prop :=
  c.count = 0 ∧ (∃ t, c.threads t = .parked) ∧ ∀ t, c.threads t ≠ .waking

/-- The last thread that wakes the others for a counter of zero does so while no thread is between
its test and its parking. -/
def WakesWaiting (x : Taken (WaitContext ι) (Action ι)) : Prop :=
  ∀ t, x.label = .wakeAll t → x.before.count = 0 →
    (∀ u, u ≠ t → x.before.threads u ≠ .waking) → ∀ u, x.before.threads u ≠ .tested

/-- While the counter is zero, a thread that is parked or about to park will be woken. -/
def Covered : Prop :=
  c.count = 0 → ∀ t, c.threads t = .tested ∨ c.threads t = .parked → ∃ u, c.threads u = .waking

variable {c t} {c' : WaitContext ι} {a : Action ι} {l : List (Taken (WaitContext ι) (Action ι))}

@[simp] theorem setThread_self {p : WaitPhase} : (c.setThread t p).threads t = p :=
  Function.update_self ..

@[simp] theorem setThread_of_ne {p : WaitPhase} {u : ι} (h : u ≠ t) :
    (c.setThread t p).threads u = c.threads u :=
  Function.update_of_ne h ..

@[simp] theorem wakeAll_self : (c.wakeAll t).threads t = .outside := setThread_self

@[simp] theorem wakeAll_of_ne {u : ι} (h : u ≠ t) :
    (c.wakeAll t).threads u = (c.threads u).wake := setThread_of_ne h

@[simp] theorem park_self : (c.park t).threads t = .parked := setThread_self

@[simp] theorem park_of_ne {u : ι} (h : u ≠ t) : (c.park t).threads u = c.threads u :=
  setThread_of_ne h

omit [DecidableEq ι] in
theorem Covered.not_lostWakeUp (h : Covered c) : ¬ LostWakeUp c := by
  rintro ⟨hc, ⟨t, ht⟩, hw⟩
  obtain ⟨u, hu⟩ := h hc t (Or.inr ht)
  exact hw u hu

/-- A thread that does not wake others moves on. It is covered if it was or does not wait. -/
theorem Covered.setThread (h : Covered c) {p : WaitPhase} (hw : c.threads t ≠ .waking)
    (hp : c.count = 0 → p = .tested ∨ p = .parked →
      c.threads t = .tested ∨ c.threads t = .parked) :
    Covered (c.setThread t p) := by
  intro hc u hu
  have hold : c.threads u = .tested ∨ c.threads u = .parked := by
    by_cases hut : u = t
    · subst hut
      exact hp hc (by simpa using hu)
    · simpa [hut] using hu
  obtain ⟨v, hv⟩ := h hc u hold
  have hvt : v ≠ t := by
    rintro rfl
    exact hw hv
  exact ⟨v, by simpa [hvt] using hv⟩

theorem covered_decrement : Covered (c.decrement t) := by
  unfold WaitContext.decrement
  split
  · intro _ u _
    exact ⟨t, setThread_self⟩
  · intro hc
    contradiction

theorem covered_wakeAll (hw : WakesWaiting ⟨c, .wakeAll t, c'⟩) : Covered (c.wakeAll t) := by
  intro hc u hu
  have hut : u ≠ t := by
    rintro rfl
    simp at hu
  have htested : c.threads u = .tested := by simpa [hut] using hu
  by_contra hnone
  refine hw t rfl hc (fun v hv hwaking => hnone ⟨v, ?_⟩) u htested
  simpa [hv] using hwaking

theorem Covered.step (h : Covered c) (taken : Step c a c') (hw : WakesWaiting ⟨c, a, c'⟩) :
    Covered c' := by
  cases taken with
  | increment phase bound => exact fun hc => absurd hc (Nat.succ_ne_zero _)
  | decrement phase positive => exact covered_decrement
  | wakeAll phase => exact covered_wakeAll hw
  | acquire phase unlocked =>
    apply Covered.setThread (c := { c with lock := some _ }) h
    · rcases phase with phase | phase <;> simp [phase]
    · simp
  | test phase =>
    unfold WaitContext.test
    split
    · exact h.setThread (by simp [phase]) (by omega)
    · exact Covered.setThread (c := { c with lock := none }) h (by simp [phase]) (by simp)
  | park phase =>
    exact Covered.setThread (c := { c with lock := none }) h (by simp [phase])
      (by simp [phase])
  | wakeUp phase => exact h.setThread (by simp [phase]) (by simp)

theorem covered_of_run (run : Run (· = new) Step l c) (hw : ∀ x ∈ l, WakesWaiting x) :
    Covered c := by
  induction run with
  | start initial =>
    subst initial
    intro _ t ht
    simp [new] at ht
  | step run taken ih =>
    exact (ih fun x hx => hw x (List.mem_cons_of_mem _ hx)).step taken (hw _ List.mem_cons_self)

/-- A thread that was about to park misses the call. -/
theorem exists_lostWakeUp (taken : Step c a c') (hw : ¬ WakesWaiting ⟨c, a, c'⟩) :
    ∃ t c'', Step c' (.park t) c'' ∧ LostWakeUp c'' := by
  unfold WakesWaiting at hw
  push Not at hw
  obtain ⟨t, rfl, hc, hlast, u, hu⟩ := hw
  cases taken with
  | wakeAll phase =>
    have hut : u ≠ t := by
      rintro rfl
      simp [phase] at hu
    refine ⟨u, _, .park ?_, hc, ⟨u, park_self⟩, ?_⟩
    · simpa [hut] using hu
    · intro v
      by_cases hvu : v = u
      · simp [hvu]
      · by_cases hvt : v = t
        · simp [hvt, hut.symm]
        · simpa [hvu, hvt] using hlast v hvt

/-- No wake-up is lost as long as none of the last calls meets a thread that is about to park.
After any other call one may be lost. -/
theorem no_lostWakeUp (run : Run (· = new) Step l c) :
    ((∀ x ∈ l, WakesWaiting x) → ¬ LostWakeUp c) ∧
      ∀ x ∈ l, ¬ WakesWaiting x → ∃ t c', Step x.after (.park t) c' ∧ LostWakeUp c' := by
  constructor
  · exact fun hw => (covered_of_run run hw).not_lostWakeUp
  · have hinv : Invariant (· = new) Step fun _ : WaitContext ι => True := ⟨by simp, by simp⟩
    exact fun x hx hw => exists_lostWakeUp (hinv.taken run x hx).2 hw

/-- One thread tests the counter and parks only after another one counted down to zero and woke
nobody. -/
theorem lostWakeUp_late : ∃ l, ∃ c : WaitContext Bool, Run (· = new) Step l c ∧ LostWakeUp c := by
  have start : Run (· = new) Step [] (new : WaitContext Bool) := .start rfl
  have tested := ((start.step (.increment (t := false) rfl (by decide))).step
    (.acquire (t := true) (.inl rfl) rfl)).step (.test (t := true) rfl)
  have woken := (tested.step (.decrement (t := false) rfl (by decide))).step
    (.wakeAll (t := false) rfl)
  refine ⟨_, _, woken.step (.park (t := true) rfl), rfl, ⟨true, rfl⟩, ?_⟩
  decide

theorem no_lostWakeUp_parked : ¬ LostWakeUp
    (((((new.increment.acquire true).test true).park true).decrement false).wakeAll false) := by
  have start : Run (· = new) Step [] (new : WaitContext Bool) := .start rfl
  have parked := (((start.step (.increment (t := false) rfl (by decide))).step
    (.acquire (t := true) (.inl rfl) rfl)).step (.test (t := true) rfl)).step
    (.park (t := true) rfl)
  have woken := (parked.step (.decrement (t := false) rfl (by decide))).step
    (.wakeAll (t := false) rfl)
  apply (no_lostWakeUp woken).1
  rintro x hx t ht - - u
  simp only [List.mem_cons, List.not_mem_nil, or_false] at hx
  rcases hx with rfl | rfl | rfl | rfl | rfl | rfl
  · cases u <;> decide
  all_goals cases ht

end WaitContext

end Simutrace
