import Simutrace.Session.Lifetime

/-! # Access to destroyed sessions

A worker releases its session once, and no other thread has the session then unless
it has found it before. Such a thread is a connection that attaches to the session,
or the thread that closes all sessions although there are some.
-/

namespace Simutrace.Sessions

open Transition (Run Taken)

variable {W P : Type*} [DecidableEq W]

namespace System

variable {s s' : System W P} {id : SessionId} {w v : W} {place : Place}
  {a : Action W P × Option SessionId}

/-- The sessions are closed when there are none, and a session is not destroyed while a connection
is about to attach to it. -/
structure Undisturbed (t : Taken (System W P) (Action W P × Option SessionId)) : Prop where
  closing : t.label.1 = .close → ∀ id, t.before.sessions id = none
  attaching : ∀ id, t.label.2 = some id → ∀ p, t.before.found p ≠ some id

structure Safe (s : System W P) : Prop extends Inv s where
  closer : s.closer = .idle ∨ s.closer = .testing []
  found : ∀ p id, s.found p = some id → s.sessions id ≠ none
  releasing : ∀ w id, s.workers w = some ⟨id, .releasing⟩ → s.sessions id ≠ none
  single : ∀ w w' id, s.workers w = some ⟨id, .releasing⟩ → s.workers w' = some ⟨id, .releasing⟩ →
    w = w'
  defined : s.undefined = false

omit [DecidableEq W] in
theorem Safe.not_dangles (h : s.Safe) : ¬ s.Dangles := by
  rintro (⟨worker, attached | rfl, destroyed⟩ | ⟨found, destroyed⟩ | ⟨closer, -⟩ | ⟨closer, -⟩ |
    ⟨closer, -⟩ | ⟨closer, -⟩ | ⟨closer, -⟩)
  · exact h.present _ _ _ worker attached destroyed
  · exact h.releasing _ _ worker destroyed
  · exact h.found _ _ found destroyed
  all_goals rcases h.closer with hc | hc <;> cases closer.symm.trans hc

theorem releasing_setWorker {k : SessionId} (place : Place) (hplace : place ≠ .releasing)
    (h : Function.update s.workers w (some ⟨k, place⟩) v = some ⟨id, .releasing⟩) :
    v ≠ w ∧ s.workers v = some ⟨id, .releasing⟩ := by
  by_cases hv : v = w
  · subst hv
    rw [Function.update_self] at h
    exact (hplace (congrArg ServerSessionWorker.place (Option.some.inj h))).elim
  · exact ⟨hv, by rwa [Function.update_of_ne hv] at h⟩

omit [DecidableEq W] in
theorem Safe.keep (h : s.Safe) (hi : s'.Inv)
    (hkept : ∀ k, s.sessions k ≠ none → s'.sessions k ≠ none)
    (hreleasing : ∀ w id, s'.workers w = some ⟨id, .releasing⟩ →
      s.workers w = some ⟨id, .releasing⟩)
    (hfound : ∀ p id, s'.found p = some id → s.found p = some id ∨ s'.sessions id ≠ none)
    (hcloser : s'.closer = s.closer) (hdefined : s'.undefined = s.undefined) : s'.Safe where
  toInv := hi
  closer := hcloser ▸ h.closer
  found p id hp := (hfound p id hp).elim (fun hp => hkept id (h.found p id hp)) fun hk => hk
  releasing w id hw := hkept id (h.releasing w id (hreleasing w id hw))
  single w w' id hw hw' := h.single w w' id (hreleasing w id hw) (hreleasing w' id hw')
  defined := hdefined.trans h.defined

theorem Safe.detachLast {x y : Session W} (h : s.Safe) (hi : s'.Inv)
    (hx : s.sessions id = some x) (alive : x.isAlive = true)
    (hsessions : s'.sessions = Function.update s.sessions id (some y))
    (hworkers : s'.workers = Function.update s.workers w (some ⟨id, .releasing⟩))
    (hfound : s'.found = s.found) (hcloser : s'.closer = s.closer)
    (hdefined : s'.undefined = s.undefined) : s'.Safe := by
  have hkept (k : SessionId) (hk : s.sessions k ≠ none) : s'.sessions k ≠ none := by
    rw [hsessions]
    by_cases he : k = id
    · rw [he, Function.update_self]
      exact Option.some_ne_none _
    · rwa [Function.update_of_ne he]
  have hcases {v : W} {k : SessionId} (hv : s'.workers v = some ⟨k, .releasing⟩) :
      v = w ∧ k = id ∨ k ≠ id ∧ s.workers v = some ⟨k, .releasing⟩ := by
    rw [hworkers] at hv
    by_cases he : v = w
    · subst he
      rw [Function.update_self] at hv
      exact .inl ⟨rfl, (congrArg ServerSessionWorker.session (Option.some.inj hv)).symm⟩
    · rw [Function.update_of_ne he] at hv
      refine .inr ⟨fun hk => ?_, hv⟩
      exact Bool.noConfusion (alive.symm.trans (h.released v id x (hk ▸ hv) hx))
  refine ⟨hi, hcloser ▸ h.closer, fun p k hp => hkept k (h.found p k (hfound ▸ hp)),
    fun v k hv => ?_, fun v v' k hv hv' => ?_, hdefined.trans h.defined⟩
  · rcases hcases hv with ⟨rfl, rfl⟩ | ⟨-, hv⟩
    · exact hkept k (by rw [hx]; exact Option.some_ne_none _)
    · exact hkept k (h.releasing v k hv)
  · rcases hcases hv with ⟨hvw, hk⟩ | ⟨hk, hvk⟩ <;> rcases hcases hv' with ⟨hvw', hk'⟩ | ⟨hk', hvk'⟩
    · exact hvw.trans hvw'.symm
    · exact (hk' hk).elim
    · exact (hk hk').elim
    · exact h.single v v' k hvk hvk'

theorem Safe.releaseSession (h : s.Safe)
    (hi : ((s.setWorker w ⟨id, .detached⟩).setSession id none).Inv)
    (hw : s.workers w = some ⟨id, .releasing⟩) (hfree : ∀ p, s.found p ≠ some id) :
    ((s.setWorker w ⟨id, .detached⟩).setSession id none).Safe := by
  have hkept {k : SessionId} (hne : k ≠ id) (hk : s.sessions k ≠ none) :
      ((s.setWorker w ⟨id, .detached⟩).setSession id none).sessions k ≠ none := by
    rw [setSession_sessions, Function.update_of_ne hne]
    exact hk
  have hother {v : W} {k : SessionId} (hv : Function.update s.workers w (some ⟨id, .detached⟩) v =
      some ⟨k, .releasing⟩) : v ≠ w ∧ s.workers v = some ⟨k, .releasing⟩ :=
    releasing_setWorker .detached nofun hv
  refine ⟨hi, h.closer, fun p k hp => hkept (fun he => hfree p (he ▸ hp)) (h.found p k hp),
    fun v k hv => ?_, fun v v' k hv hv' => h.single v v' k (hother hv).2 (hother hv').2, h.defined⟩
  obtain ⟨hne, hv⟩ := hother hv
  exact hkept (fun he => hne (h.single v w id (he ▸ hv) hw)) (h.releasing v k hv)

variable [DecidableEq P]

theorem Safe.definedStep (h : s.Safe) (hs : DefinedStep s a s')
    (ht : Undisturbed ⟨s, a, s'⟩) : s'.Safe := by
  have hi := h.toInv.definedStep hs
  have hkept (hnone : a.2 = none) (k : SessionId) (hk : s.sessions k ≠ none) :
      s'.sessions k ≠ none :=
    (h.toInv.destroysUnreferenced (.defined h.defined hs)).kept k hk
      (by dsimp only; rw [hnone]; exact nofun)
  have hmove {v : W} {k : SessionId} {place : Place} (hplace : place ≠ .releasing) (u : W)
      (id : SessionId) (hu : Function.update s.workers v (some ⟨k, place⟩) u =
        some ⟨id, .releasing⟩) : s.workers u = some ⟨id, .releasing⟩ :=
    (releasing_setWorker place hplace hu).2
  have hdetached {p : P} (q : P) (k : SessionId)
      (hq : Function.update s.found p none q = some k) :
      s.found q = some k ∨ s'.sessions k ≠ none := by
    by_cases he : q = p
    · subst he
      rw [Function.update_self] at hq
      cases hq
    · exact .inl (by rwa [Function.update_of_ne he] at hq)
  cases hs with
  | createSession | run | openStore | returnStore | receiveSetting | applySetting | finish
  | detach => exact h.keep hi (hkept rfl) (hmove nofun) (fun _ _ hp => .inl hp) rfl rfl
  | createSessionThrew | openLocalSessionThrew | search | enter | closeStore =>
    exact h.keep hi (hkept rfl) (fun _ _ hw => hw) (fun _ _ hp => .inl hp) rfl rfl
  | @openLocalSession p id x idle live =>
    refine h.keep hi (hkept rfl) (fun _ _ hw => hw) (fun q k hq => ?_) rfl rfl
    dsimp only at hq
    by_cases he : q = p
    · subst he
      rw [Function.update_self] at hq
      obtain rfl := Option.some.inj hq
      exact .inr (by rw [live]; exact Option.some_ne_none _)
    · exact .inl (by rwa [Function.update_of_ne he] at hq)
  | @attach p w startup id x found live unlocked alive fresh =>
    cases startup with
    | started | notStarted => exact h.keep hi (hkept rfl) (hmove nofun) hdetached rfl rfl
    | notCreated => exact h.keep hi (hkept rfl) (fun _ _ hw => hw) hdetached rfl rfl
  | attachThrew => exact h.keep hi (hkept rfl) (fun _ _ hw => hw) hdetached rfl rfl
  | detachLast worker live unlocked storeUnlocked alive last closes =>
    exact h.detachLast hi live alive rfl rfl rfl rfl rfl
  | releaseSession worker live => exact h.releaseSession hi worker (ht.attaching _ rfl)
  | closeSessions idle =>
    have hempty : s.enumerateSessions = [] := by
      refine List.filter_eq_nil_iff.mpr fun k _ => ?_
      rw [ht.closing rfl k]
      exact Bool.false_ne_true
    refine ⟨hi, .inr ?_, h.found, h.releasing, h.single, h.defined⟩
    dsimp only
    rw [hempty]
  | closeDone closer => exact ⟨hi, .inl rfl, h.found, h.releasing, h.single, h.defined⟩
  | testAlive closer | lockSession closer | stopWorker closer | stopThrew closer
  | awaitWorker closer | timeout closer | keepSession closer | closeSession closer
  | releaseClosed closer => rcases h.closer with hc | hc <;> cases closer.symm.trans hc

theorem safe_invariant : Transition.Invariant (Initial (W := W) (P := P))
    (fun s a s' => Step s a s' ∧ Undisturbed ⟨s, a, s'⟩) Safe where
  start s h := by
    have hi := h.inv
    obtain ⟨stores, -, rfl⟩ := h
    exact ⟨hi, .inl rfl, nofun, nofun, nofun, rfl⟩
  step s a s' h hs := by
    obtain ⟨hs, ht⟩ := hs
    cases hs with
    | defined ok step => exact h.definedStep step ht
    | access ok dangles => exact (h.not_dangles dangles).elim

/-- No thread accesses a session that was destroyed, in every run in which the sessions are closed
when there are none, and no connection attaches to a session while it is destroyed. -/
theorem never_undefined {l : List (Taken (System W P) (Action W P × Option SessionId))}
    (run : Run Initial (fun s a s' => Step s a s' ∧ Undisturbed ⟨s, a, s'⟩) l s) :
    s.undefined = false ∧ ¬ s.Dangles :=
  ⟨(safe_invariant.run run).defined, (safe_invariant.run run).not_dangles⟩

/-- A client creates a session and closes it, and the server closes what is left. -/
theorem exists_run_closed :
    ∃ (l : List (Taken (System Unit Unit) (Action Unit Unit × Option SessionId)))
      (s : System Unit Unit), Run Initial (fun s a s' => Step s a s' ∧ Undisturbed ⟨s, a, s'⟩) l s ∧
        destroyed l = [0] ∧ s.canCreateSession = false := by
  have start : Run (Initial (W := Unit) (P := Unit))
      (fun s a s' => Step s a s' ∧ Undisturbed ⟨s, a, s'⟩) []
      (new ⟨.new 1, fun _ => .idle, fun _ => []⟩) := .start ⟨_, ⟨1, rfl⟩, rfl⟩
  have created := start.step ⟨.defined rfl (@DefinedStep.createSession _ _ _ _ _ () 0x0302 rfl
    (by decide) rfl), nofun, nofun⟩
  have run := created.step ⟨.defined rfl (@DefinedStep.run _ _ _ _ _ () 0 rfl), nofun, nofun⟩
  have finished := run.step ⟨.defined rfl (@DefinedStep.finish _ _ _ _ _ () 0 rfl), nofun, nofun⟩
  have last := finished.step ⟨.defined rfl (@DefinedStep.detachLast _ _ _ _ _ () 0 _ _ rfl rfl rfl
    (fun w => by cases w; decide) rfl rfl .none), nofun, nofun⟩
  have released := last.step ⟨.defined rfl (@DefinedStep.releaseSession _ _ _ _ _ () 0 _ rfl rfl),
    nofun, fun id _ p => nofun⟩
  have closed := released.step ⟨.defined rfl (.closeSessions rfl), fun _ id => by
    cases id <;> rfl, nofun⟩
  exact ⟨_, _, closed, rfl, rfl⟩

theorem never_undefined_closed :
    ∃ (l : List (Taken (System Unit Unit) (Action Unit Unit × Option SessionId)))
      (s : System Unit Unit), destroyed l = [0] ∧ s.canCreateSession = false ∧
        s.undefined = false ∧ ¬ s.Dangles :=
  let ⟨l, s, run, hdestroyed, hclosed⟩ := exists_run_closed
  ⟨l, s, hdestroyed, hclosed, never_undefined run⟩

end System

end Simutrace.Sessions
