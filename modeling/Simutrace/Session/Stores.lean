import Simutrace.Session.Attachment

/-! # The stores of the sessions

The server attaches sessions to stores as the manager relies on: a session only
closes the store that it has open. The references of a store are those of the
sessions that refer to it, so that none is left when all sessions are gone.
-/

namespace Simutrace.Sessions

open Manager (StoreId ManagerState)
open Transition (Run Taken)

namespace System

variable {W P : Type*} {s s' : System W P} {session : Option (Session W)} {x : Session W}
  {place : Place} {w : W} {id : SessionId} {a : Action W P × Option SessionId}

def callOf (s : System W P) (w : W) : Option SessionId :=
  match s.workers w with
  | some ⟨id, .opening⟩ => some id
  | _ => none

def storeOf (s : System W P) (id : SessionId) : Option StoreId := (s.sessions id).bind (·.store)

theorem callOf_eq_some : s.callOf w = some id ↔ s.workers w = some ⟨id, .opening⟩ := by
  unfold callOf
  split
  · rename_i hw
    rw [hw]
    simp
  · rename_i hw
    exact iff_of_false nofun fun h => hw id h

theorem callOf_of_place (hw : s.workers w = some ⟨id, place⟩) (hplace : place ≠ .opening) :
    s.callOf w = none := by
  rw [Option.eq_none_iff_forall_ne_some]
  intro k hk
  cases hw.symm.trans (callOf_eq_some.mp hk)
  exact hplace rfl

theorem forall_callOf_ne (h : s.StoreUnlocked id) (w : W) : s.callOf w ≠ some id :=
  fun hw => h w (callOf_eq_some.mp hw)

theorem storeOf_setSession : (s.setSession id session).storeOf =
    Function.update s.storeOf id (session.bind (·.store)) := by
  funext k
  by_cases hk : k = id
  · subst hk
    rw [Function.update_self, storeOf, setSession_sessions, Function.update_self]
  · rw [Function.update_of_ne hk, storeOf, storeOf, setSession_sessions, Function.update_of_ne hk]

theorem storeOf_eq (hx : s.sessions id = some x) : s.storeOf id = x.store := by
  rw [storeOf, hx]
  rfl

theorem storeOf_keep (h : session.bind (·.store) = s.storeOf id) :
    (s.setSession id session).storeOf = s.storeOf := by
  rw [storeOf_setSession, h, Function.update_eq_self]

theorem callOf_of_none (hw : s.workers w = none) : s.callOf w = none := by
  rw [Option.eq_none_iff_forall_ne_some]
  intro k hk
  cases hw.symm.trans (callOf_eq_some.mp hk)

variable [DecidableEq W]

theorem callOf_setWorker : (s.setWorker w ⟨id, place⟩).callOf =
    Function.update s.callOf w (if place = .opening then some id else none) := by
  funext v
  by_cases hv : v = w
  · subst hv
    rw [Function.update_self, callOf, setWorker_workers, Function.update_self]
    cases place <;> rfl
  · rw [Function.update_of_ne hv, callOf, callOf, setWorker_workers, Function.update_of_ne hv]

theorem callOf_move (hw : s.callOf w = none) (hplace : place ≠ .opening) :
    (s.setWorker w ⟨id, place⟩).callOf = s.callOf := by
  rw [callOf_setWorker, if_neg hplace, ← hw, Function.update_eq_self]

/-- The stores of the sessions are those that the manager has. -/
def Attached (s : System W P) : Prop := Attachment s.stores s.callOf s.storeOf

theorem Attached.of_eq {stores : ManagerState W} {opening : W → Option SessionId}
    {store : SessionId → Option StoreId} (h : Attachment stores opening store)
    (hstores : s'.stores = stores) (hcall : s'.callOf = opening) (hstore : s'.storeOf = store) :
    s'.Attached := by
  unfold Attached
  rw [hstores, hcall, hstore]
  exact h

theorem Attached.addWorker (h : s.Attached) (fresh : s.workers w = none) (place : Place)
    (hplace : place ≠ .opening) (hkeep : session.bind (·.store) = s.storeOf id) :
    ((s.setWorker w ⟨id, place⟩).setSession id session).Attached :=
  of_eq h rfl (callOf_move (callOf_of_none fresh) hplace) (storeOf_keep hkeep)

theorem Attached.move (h : s.Attached) (hw : s.workers w = some ⟨id, place⟩) (place' : Place)
    (hplace : place ≠ .opening) (hplace' : place' ≠ .opening) :
    (s.setWorker w ⟨id, place'⟩).Attached :=
  of_eq h rfl (callOf_move (callOf_of_place hw hplace) hplace') rfl

theorem Attached.setSession (h : s.Attached) (hkeep : session.bind (·.store) = s.storeOf id) :
    (s.setSession id session).Attached :=
  of_eq h rfl rfl (storeOf_keep hkeep)

theorem Attached.setLocked (h : s.Attached) (hx : s.sessions id = some x) (locked : Bool) :
    (s.setSession id (some { x with locked := locked })).Attached :=
  h.setSession (storeOf_eq hx).symm

theorem Attached.destroy (h : s.Attached) (hx : s.sessions id = some x) (hstore : x.store = none) :
    (s.setSession id none).Attached :=
  h.setSession (((storeOf_eq hx).trans hstore).symm)

theorem Attached.openStore {name : String} {isOpen : Bool} (h : s.Attached)
    (hw : s.workers w = some ⟨id, .processing⟩) (hx : s.sessions id = some x)
    (unlocked : s.StoreUnlocked id) (closed : x.store = none) :
    Attached { s.setWorker w ⟨id, .opening⟩ with
      stores := s.stores.setStage w (.searching ⟨id, name, isOpen⟩) } :=
  of_eq (Attachment.beginCall name isOpen h (callOf_of_place hw nofun) (forall_callOf_ne unlocked)
    ((storeOf_eq hx).trans closed)) rfl (callOf_setWorker.trans (by rw [if_pos rfl])) rfl

theorem Attached.returnStore {call : Manager.StoreCall} {reference : Option StoreId}
    {result : Except Manager.StoreError Unit} (h : s.Attached)
    (hw : s.workers w = some ⟨id, .opening⟩)
    (stage : s.stores.stage w = .leaving call reference result) :
    Attached { (s.setWorker w ⟨id, .processing⟩).setSession id
        (some { x with store := storeAfter reference result }) with
      stores := s.stores.setStage w .idle } :=
  of_eq (h.returnCall (callOf_eq_some.mpr hw) stage) rfl
    (callOf_setWorker.trans (by rw [if_neg nofun])) storeOf_setSession

theorem Attached.closeStore {stores : ManagerState W} {x' : Session W} (h : s.Attached)
    (hx : s.sessions id = some x) (unlocked : s.StoreUnlocked id)
    (closes : ClosesStore id s.stores x.store stores) (hstores : s'.stores = stores)
    (hcall : s'.callOf = s.callOf)
    (hsessions : s'.sessions = Function.update s.sessions id (some x')) (hx' : x'.store = none) :
    s'.Attached := by
  refine of_eq (Attachment.closeStore h (forall_callOf_ne unlocked) ?_) hstores hcall ?_
  · rw [storeOf_eq hx]
    exact closes
  · have hsame : s'.storeOf = (s.setSession id (some x')).storeOf := by
      unfold storeOf
      rw [hsessions, setSession_sessions]
    rw [hsame, storeOf_setSession, Option.bind_some, hx']

variable [DecidableEq P]

theorem Attached.definedStep (h : s.Attached) (hi : s.Inv) (hs : DefinedStep s a s') :
    s'.Attached := by
  cases hs with
  | createSession canCreate available fresh =>
    have hnone : s.sessions s.nextId = none := by
      rw [Option.eq_none_iff_forall_ne_some]
      exact fun x hx => lt_irrefl _ (hi.below _ x hx)
    refine of_eq (h.addWorker fresh .starting nofun ?_) rfl rfl rfl
    rw [storeOf, hnone]
    rfl
  | createSessionThrew | openLocalSession | openLocalSessionThrew | attachThrew | closeSessions
  | closeDone | testAlive | stopWorker | awaitWorker => exact of_eq h rfl rfl rfl
  | @attach p w startup id x found live unlocked alive fresh =>
    have hkeep : (some (x.attach w startup)).bind (·.store) = s.storeOf id := by
      rw [storeOf_eq live]
      cases startup <;> rfl
    cases startup with
    | started => exact of_eq (h.addWorker fresh .starting nofun hkeep) rfl rfl rfl
    | notStarted => exact of_eq (h.addWorker fresh .unstarted nofun hkeep) rfl rfl rfl
    | notCreated => exact of_eq (h.setSession hkeep) rfl rfl rfl
  | run worker => exact h.move worker _ nofun nofun
  | openStore worker live unlocked closed alive => exact h.openStore worker live unlocked closed
  | search worker searched => exact Attachment.search h (callOf_eq_some.mpr worker) searched
  | enter worker entered => exact Attachment.enter h (callOf_eq_some.mpr worker) entered
  | returnStore worker live stage => exact h.returnStore worker stage
  | closeStore worker live unlocked alive closes =>
    exact h.closeStore live unlocked closes rfl rfl rfl rfl
  | receiveSetting worker => exact h.move worker _ nofun nofun
  | applySetting worker live unlocked => exact h.move worker _ nofun nofun
  | finish worker => exact h.move worker _ nofun nofun
  | detach worker live unlocked alive several =>
    refine (h.move worker .detached nofun nofun).setSession ?_
    exact (Session.store_of_several several).trans (storeOf_eq live).symm
  | detachLast worker live unlocked storeUnlocked alive last closes =>
    exact h.closeStore live storeUnlocked closes rfl
      (callOf_move (callOf_of_place worker nofun) nofun) rfl (Session.store_of_last last)
  | releaseSession worker live =>
    exact (h.move worker .detached nofun nofun).destroy live
      (hi.unreferenced live (hi.released _ _ _ worker live)).2.2.1
  | lockSession closer live unlocked | stopThrew closer live next worker running
  | timeout closer live | keepSession closer live stopped referenced =>
    exact of_eq (h.setLocked live _) rfl rfl rfl
  | closeSession closer live stopped unreferenced storeUnlocked closes =>
    exact h.closeStore live storeUnlocked closes rfl rfl rfl rfl
  | releaseClosed closer live =>
    have hc := (hi.closing _ (by rw [closer]; rfl)).2 _ live
    exact of_eq (h.destroy live (hi.unreferenced live hc).2.2.1) rfl rfl rfl

omit [DecidableEq P] in
theorem Initial.attached (h : s.Initial) : s.Attached := by
  obtain ⟨stores, hinitial, rfl⟩ := h
  refine ⟨⟨_, .start hinitial⟩, fun w _ => ?_, nofun, nofun, nofun, fun w call hs => ?_,
    fun id k => ?_⟩
  all_goals obtain ⟨persistentCache, rfl⟩ := hinitial
  · rfl
  · cases hs
  · refine iff_of_false nofun ?_
    rintro (hstore | ⟨w, call, hcall, -⟩)
    · cases hstore
    · cases hcall

theorem attached_invariant :
    Transition.Invariant (Initial (W := W) (P := P)) Step fun s => s.Inv ∧ s.Attached where
  start s h := ⟨h.inv, h.attached⟩
  step s a s' h hs := by
    refine ⟨h.1.step hs, ?_⟩
    cases hs with
    | defined ok step => exact h.2.definedStep h.1 step
    | access ok dangles => exact Attached.of_eq h.2 rfl rfl rfl

/-- The manager is used as it requires, and each of its stores has the references of the sessions
that refer to it, besides its own one. -/
structure StoresCounted (s : System W P) : Prop where
  managed : Transition.Reachable ManagerState.Initial ManagerState.Step s.stores
  opened : ∀ id k, id ∈ s.stores.opened k ↔
    s.storeOf id = some k ∨ Answered s.stores s.callOf id k
  count : ∀ k st, s.stores.manager.store k = some st →
    st.referenceCount = 1 + st.references.length ∧ st.references.Nodup ∧
      ∀ id, id ∈ st.references ↔ s.storeOf id = some k ∨ Answered s.stores s.callOf id k
  gone : (∀ id, s.sessions id = none) → ∀ k st, s.stores.manager.store k = some st →
    st.referenceCount = 1 ∧ s.stores.manager.Dormant k

/-- In every run the sessions of the server and the manager agree on the stores that are open. When
all sessions are gone, the manager alone has its stores. -/
theorem stores_counted {l : List (Taken (System W P) (Action W P × Option SessionId))}
    (run : Run Initial Step l s) : s.StoresCounted := by
  obtain ⟨hi, ha⟩ := attached_invariant.run run
  have hm := ha.inv
  refine ⟨ha.reachable, ha.opened, fun k st live => ?_, fun hnone k st live => ?_⟩
  · have hc := hm.manager.counted k st live
    refine ⟨hm.referencesCounted.count k st live, hc.references ▸ hc.nodup, fun id => ?_⟩
    rw [hc.references]
    exact ha.opened id k
  · have hempty : s.stores.opened k = [] := by
      rw [List.eq_nil_iff_forall_not_mem]
      intro id hid
      rcases (ha.opened id k).mp hid with hstore | ⟨w, call, hcall, -⟩
      · rw [storeOf, hnone] at hstore
        cases hstore
      · exact hi.present w id .opening (callOf_eq_some.mp hcall) rfl (hnone id)
    have hc := hm.manager.counted k st live
    refine ⟨?_, (hm.manager.dormant k st live).mpr hempty⟩
    rw [hm.referencesCounted.count k st live, hc.references, hempty]
    rfl

/-- A client creates a store and loses its connection while the store is open. -/
theorem exists_run_lost :
    ∃ (l : List (Taken (System Unit Unit) (Action Unit Unit × Option SessionId)))
      (s : System Unit Unit), Run Initial Step l s ∧ destroyed l = [0] ∧
        (s.stores.manager.store 0).isSome = true := by
  have start : Run (Initial (W := Unit) (P := Unit)) Step []
      (new ⟨.new 1, fun _ => .idle, fun _ => []⟩) := .start ⟨_, ⟨1, rfl⟩, rfl⟩
  have created := start.step (.defined rfl (@DefinedStep.createSession _ _ _ _ _ () 0x0302 rfl
    (by decide) rfl))
  have run := created.step (.defined rfl (@DefinedStep.run _ _ _ _ _ () 0 rfl))
  have opening := run.step (.defined rfl (@DefinedStep.openStore _ _ _ _ _ () 0 _ "store" false rfl
    rfl (fun w => by cases w; decide) rfl rfl))
  have searched := opening.step (.defined rfl (.search rfl (@ManagerState.Step.search Unit _ _ () _
    (fun _ => false) _ _ _ rfl (fun k => iff_of_false Bool.false_ne_true fun ⟨_, h⟩ => h) rfl)))
  have entered := searched.step (.defined rfl (.enter rfl (@ManagerState.Step.enter Unit _ _ () _ _
    _ true _ _ _ rfl rfl)))
  have returned := entered.step (.defined rfl (@DefinedStep.returnStore _ _ _ _ _ () 0 _ _ _ _ rfl
    rfl rfl))
  have finished := returned.step (.defined rfl (@DefinedStep.finish _ _ _ _ _ () 0 rfl))
  have last := finished.step (.defined rfl (@DefinedStep.detachLast _ _ _ _ _ () 0 _ _ rfl rfl rfl
    (fun w => by cases w; decide) rfl rfl (@ClosesStore.some _ _ _ _ false 5 _ _ rfl)))
  have released := last.step (.defined rfl (@DefinedStep.releaseSession _ _ _ _ _ () 0 _ rfl rfl))
  exact ⟨_, _, released, rfl, rfl⟩

theorem stores_counted_lost :
    ∃ (l : List (Taken (System Unit Unit) (Action Unit Unit × Option SessionId)))
      (s : System Unit Unit), destroyed l = [0] ∧ (s.stores.manager.store 0).isSome = true ∧
        s.StoresCounted :=
  let ⟨l, s, run, hdestroyed, hstore⟩ := exists_run_lost
  ⟨l, s, hdestroyed, hstore, stores_counted run⟩

end System

end Simutrace.Sessions
