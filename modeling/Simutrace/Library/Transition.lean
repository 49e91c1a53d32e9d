import Mathlib.Data.List.Basic

/-! # Runs of transition systems

A system takes labelled steps from its initial states. A run keeps all its
transitions, so that a property of whole runs can be stated of each of them.
-/

namespace Transition

variable {σ α : Type*}

structure Taken (σ α : Type*) where
  before : σ
  label : α
  after : σ

/-- The runs from an initial state, with the transitions from the last one back to the first. -/
inductive Run (init : σ → Prop) (step : σ → α → σ → Prop) : List (Taken σ α) → σ → Prop
  | start {s : σ} (initial : init s) : Run init step [] s
  | step {l : List (Taken σ α)} {s s' : σ} {a : α} (run : Run init step l s) (taken : step s a s') :
      Run init step (⟨s, a, s'⟩ :: l) s'

def Reachable (init : σ → Prop) (step : σ → α → σ → Prop) (s : σ) : Prop :=
  ∃ l, Run init step l s

structure Invariant (init : σ → Prop) (step : σ → α → σ → Prop) (I : σ → Prop) : Prop where
  start : ∀ s, init s → I s
  step : ∀ s a s', I s → step s a s' → I s'

def follow (perform : σ → α → Option σ) :
    List α → List (Taken σ α) × σ → Option (List (Taken σ α) × σ)
  | [], run => some run
  | a :: as, (l, s) => (perform s a).bind fun s' => follow perform as (⟨s, a, s'⟩ :: l, s')

/-- The run of actions that can all be performed. -/
def replay (perform : σ → α → Option σ) (s : σ) (as : List α) : List (Taken σ α) × σ :=
  (follow perform as ([], s)).getD ([], s)

variable {init : σ → Prop} {step : σ → α → σ → Prop} {I : σ → Prop} {l : List (Taken σ α)}
  {s : σ}

theorem Invariant.run (h : Invariant init step I) (run : Run init step l s) : I s := by
  induction run with
  | start initial => exact h.start _ initial
  | step _ taken ih => exact h.step _ _ _ ih taken

theorem Run.restrict {P : σ → α → Prop} (run : Run init step l s)
    (h : ∀ x ∈ l, P x.before x.label) : Run init (fun s a s' => step s a s' ∧ P s a) l s := by
  induction run with
  | start initial => exact .start initial
  | step _ taken ih =>
    exact .step (ih fun x hx => h x (List.mem_cons_of_mem _ hx)) ⟨taken, h _ List.mem_cons_self⟩

theorem Invariant.follow {perform : σ → α → Option σ} {as : List α} {l' : List (Taken σ α)}
    {s' : σ} (h : Invariant init step I)
    (sound : ∀ s a s', I s → perform s a = some s' → step s a s') (run : Run init step l s)
    (hfollow : follow perform as (l, s) = some (l', s')) : Run init step l' s' := by
  induction as generalizing l s with
  | nil =>
    obtain ⟨rfl, rfl⟩ := Prod.mk.inj (Option.some.inj hfollow)
    exact run
  | cons a as ih =>
    obtain ⟨s₁, hperform, hfollow⟩ := Option.bind_eq_some_iff.mp hfollow
    exact ih (run.step (sound _ _ _ (h.run run) hperform)) hfollow

theorem Invariant.replay {perform : σ → α → Option σ} {as : List α} (h : Invariant init step I)
    (sound : ∀ s a s', I s → perform s a = some s' → step s a s') (initial : init s)
    (hfollow : (Transition.follow perform as ([], s)).isSome = true) :
    Run init step (replay perform s as).1 (replay perform s as).2 :=
  h.follow sound (.start initial)
    (Option.getD_of_ne_none (Option.isSome_iff_ne_none.mp hfollow) _).symm

theorem Invariant.taken (h : Invariant init step I) (run : Run init step l s) :
    ∀ x ∈ l, I x.before ∧ step x.before x.label x.after := by
  induction run with
  | start => exact fun x hx => by cases hx
  | step run taken ih =>
    intro x hx
    rcases List.mem_cons.mp hx with rfl | hx
    · exact ⟨h.run run, taken⟩
    · exact ih x hx

/-- Properties that agree on each step from a state with the invariant agree on whole runs. -/
theorem Invariant.forall_iff {P Q : Taken σ α → Prop} (h : Invariant init step I)
    (hiff : ∀ s a s', I s → step s a s' → (P ⟨s, a, s'⟩ ↔ Q ⟨s, a, s'⟩))
    (run : Run init step l s) : (∀ x ∈ l, P x) ↔ ∀ x ∈ l, Q x := by
  have hx (x : Taken σ α) (hm : x ∈ l) : P x ↔ Q x :=
    hiff _ _ _ (h.taken run x hm).1 (h.taken run x hm).2
  exact ⟨fun hp x hm => (hx x hm).mp (hp x hm), fun hq x hm => (hx x hm).mpr (hq x hm)⟩

end Transition
