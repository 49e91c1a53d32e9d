import Simutrace.Session.Counting

/-! # The lifetime of sessions

The references of each session are counted in every reachable state. A session is
destroyed after its last worker has detached, and its id is never used again.
-/

namespace Simutrace.Sessions

open Transition (Run Taken)

variable {W P : Type*}

namespace System

variable {s s' : System W P} {id k : SessionId} {session : Option (Session W)} {x : Session W}
  {w : W} {place place' : Place} {a : Action W P × Option SessionId}

/-- The sessions in the map are valid, those of attached workers are among them, and those that are
about to be released are dead. -/
structure Inv (s : System W P) : Prop where
  valid : ∀ id x, s.sessions id = some x → x.Valid s.workers id
  below : ∀ id x, s.sessions id = some x → id < s.nextId
  known : ∀ w id place, s.workers w = some ⟨id, place⟩ → id < s.nextId
  present : ∀ w id place, s.workers w = some ⟨id, place⟩ → place.isAttached = true →
    s.sessions id ≠ none
  released : ∀ w id x, s.workers w = some ⟨id, .releasing⟩ → s.sessions id = some x →
    x.isAlive = false
  closing : ∀ id, s.closer.Releases id → id < s.nextId ∧ ∀ x, s.sessions id = some x →
    x.isAlive = false

theorem Initial.inv (h : Initial s) : s.Inv := by
  obtain ⟨stores, -, rfl⟩ := h
  exact ⟨nofun, nofun, nofun, nofun, nofun, fun _ h => h.elim⟩

structure Changes (s : System W P) (id : SessionId) (session : Option (Session W))
    (s' : System W P) : Prop where
  sessions : s'.sessions = Function.update s.sessions id session
  workers : ∀ w k place, k ≠ id →
    (s'.workers w = some ⟨k, place⟩ ↔ s.workers w = some ⟨k, place⟩)
  nextId : s.nextId ≤ s'.nextId
  closer : ∀ k, k ≠ id → s'.closer.Releases k → s.closer.Releases k

theorem Inv.changes (h : s.Inv) (id : SessionId) (session : Option (Session W))
    (hc : s.Changes id session s') (hid : id < s'.nextId)
    (hvalid : ∀ x, session = some x → x.Valid s'.workers id)
    (hpresent : ∀ w place, s'.workers w = some ⟨id, place⟩ → place.isAttached = true →
      session ≠ none)
    (hreleased : ∀ w x, s'.workers w = some ⟨id, .releasing⟩ → session = some x →
      x.isAlive = false)
    (hclosing : s'.closer.Releases id → ∀ x, session = some x → x.isAlive = false) : s'.Inv := by
  have hself : s'.sessions id = session := by rw [hc.sessions, Function.update_self]
  have hother {k : SessionId} (hk : k ≠ id) : s'.sessions k = s.sessions k := by
    rw [hc.sessions, Function.update_of_ne hk]
  refine ⟨fun k x hx => ?_, fun k x hx => ?_, fun w k place hw => ?_, fun w k place hw ha => ?_,
    fun w k x hw hx => ?_, fun k hk => ?_⟩
  all_goals by_cases hne : k = id
  · subst hne
    exact hvalid x (hself.symm.trans hx)
  · exact (h.valid k x ((hother hne).symm.trans hx)).congr fun w place => hc.workers w k place hne
  · exact hne ▸ hid
  · exact (h.below k x ((hother hne).symm.trans hx)).trans_le hc.nextId
  · exact hne ▸ hid
  · exact (h.known w k place ((hc.workers w k place hne).mp hw)).trans_le hc.nextId
  · subst hne
    rw [hself]
    exact hpresent w place hw ha
  · rw [hother hne]
    exact h.present w k place ((hc.workers w k place hne).mp hw) ha
  · subst hne
    exact hreleased w x hw (hself.symm.trans hx)
  · exact h.released w k x ((hc.workers w k _ hne).mp hw) ((hother hne).symm.trans hx)
  · subst hne
    exact ⟨hid, fun x hx => hclosing hk x (hself.symm.trans hx)⟩
  · obtain ⟨hlt, hdead⟩ := h.closing k (hc.closer k hne hk)
    exact ⟨hlt.trans_le hc.nextId, fun x hx => hdead x ((hother hne).symm.trans hx)⟩

theorem Inv.congr (h : s.Inv) (hsessions : s'.sessions = s.sessions)
    (hworkers : s'.workers = s.workers) (hnext : s.nextId ≤ s'.nextId)
    (hcloser : ∀ k, s'.closer.Releases k → s.closer.Releases k) : s'.Inv where
  valid := by
    rw [hsessions, hworkers]
    exact h.valid
  below id x hx := (h.below id x (hsessions ▸ hx)).trans_le hnext
  known w id place hw := (h.known w id place (hworkers ▸ hw)).trans_le hnext
  present := by
    rw [hsessions, hworkers]
    exact h.present
  released := by
    rw [hsessions, hworkers]
    exact h.released
  closing id hid := by
    rw [hsessions]
    exact ⟨(h.closing id (hcloser id hid)).1.trans_le hnext, (h.closing id (hcloser id hid)).2⟩

theorem Inv.setSession (h : s.Inv) (hx : s.sessions id = some x) {x' : Session W}
    (hvalid : x'.Valid s.workers id) (halive : x.isAlive = false → x'.isAlive = false) :
    (s.setSession id (some x')).Inv := by
  refine h.changes id (some x') ⟨rfl, fun _ _ _ _ => Iff.rfl, le_rfl,
    fun _ _ hk => hk⟩ (h.below id x hx) (fun y hy => ?_) (fun _ _ _ _ => Option.some_ne_none _)
    (fun v y hv hy => ?_) fun hc y hy => ?_
  · exact Option.some.inj hy ▸ hvalid
  · exact Option.some.inj hy ▸ halive (h.released v id x hv hx)
  · exact Option.some.inj hy ▸ halive ((h.closing id hc).2 x hx)

theorem Inv.destroy (h : s.Inv) (hx : s.sessions id = some x) (hdead : x.isAlive = false)
    (hworkers : ∀ w k place, k ≠ id →
      (s'.workers w = some ⟨k, place⟩ ↔ s.workers w = some ⟨k, place⟩))
    (hsame : ∀ w place, s'.workers w = some ⟨id, place⟩ → place.isAttached = true →
      s.workers w = some ⟨id, place⟩)
    (hsessions : s'.sessions = Function.update s.sessions id none)
    (hnext : s'.nextId = s.nextId) (hcloser : ∀ k, s'.closer.Releases k → s.closer.Releases k) :
    s'.Inv := by
  refine h.changes id none ⟨hsessions, hworkers, hnext.ge, fun k _ => hcloser k⟩
    (hnext ▸ h.below id x hx) nofun (fun w place hw ha => ?_) nofun fun _ => nofun
  have hvalid := h.valid id x hx
  have halive := hvalid.alive.mpr (hvalid.referenceCount_pos (hsame w place hw ha) ha)
  exact Bool.noConfusion (halive.symm.trans hdead)

theorem Inv.setLocked (h : s.Inv) (hx : s.sessions id = some x) (locked : Bool) :
    (s.setSession id (some { x with locked := locked })).Inv :=
  h.setSession hx ((h.valid id x hx).setLocked locked) fun hd => hd

theorem Inv.setStore {store : Option Manager.StoreId} (h : s.Inv) (hx : s.sessions id = some x)
    (alive : x.isAlive = false → store = none) :
    (s.setSession id (some { x with store := store })).Inv :=
  h.setSession hx ((h.valid id x hx).setStore alive) fun hd => hd

/-- A session without references is dead already when it is closed. -/
theorem Inv.closeSession (h : s.Inv) (hx : s.sessions id = some x)
    (unreferenced : ¬ x.referenceCount > 0)
    (hsessions : s'.sessions = Function.update s.sessions id
      (some { x with store := none, isAlive := false, locked := false }))
    (hworkers : s'.workers = s.workers) (hnext : s'.nextId = s.nextId)
    (hcloser : ∀ k, k ≠ id → ¬ s'.closer.Releases k) : s'.Inv := by
  have hvalid := h.valid id x hx
  refine h.changes id _ ⟨hsessions, fun _ _ _ _ => by rw [hworkers], hnext.ge,
    fun k hk hc => (hcloser k hk hc).elim⟩ (hnext ▸ h.below id x hx) (fun y hy => ?_)
    (fun _ _ _ _ => Option.some_ne_none _) (fun _ y _ hy => ?_) fun _ y hy => ?_
  · rw [hworkers, ← Option.some.inj hy]
    exact ⟨hvalid.nodup, hvalid.mem, hvalid.count, iff_of_false Bool.false_ne_true unreferenced,
      fun _ => rfl⟩
  · rw [← Option.some.inj hy]
  · rw [← Option.some.inj hy]

variable [DecidableEq W]

theorem update_worker_iff (hw : s.workers w = none ∨ ∃ place, s.workers w = some ⟨id, place⟩)
    (hk : k ≠ id) (v : W) :
    Function.update s.workers w (some ⟨id, place'⟩) v = some ⟨k, place⟩ ↔
      s.workers v = some ⟨k, place⟩ := by
  by_cases hv : v = w
  · subst hv
    rw [Function.update_self]
    refine iff_of_false (fun h => hk ?_) fun h => ?_
    · exact (congrArg ServerSessionWorker.session (Option.some.inj h)).symm
    · rcases hw with hw | ⟨p, hw⟩
      · cases hw.symm.trans h
      · exact hk (congrArg ServerSessionWorker.session (Option.some.inj (h.symm.trans hw)))
  · rw [Function.update_of_ne hv]

theorem Inv.move (h : s.Inv) (hw : s.workers w = some ⟨id, place⟩) (place' : Place)
    (howned : place'.isOwned = true) (hattached : place'.isAttached = true)
    (hplace : place.isAttached = true) : (s.setWorker w ⟨id, place'⟩).Inv := by
  have hmove (v : W) (p : Place)
      (hv : (s.setWorker w ⟨id, place'⟩).workers v = some ⟨id, p⟩) :
      v = w ∧ p = place' ∨ s.workers v = some ⟨id, p⟩ := by
    by_cases hne : v = w
    · subst hne
      rw [setWorker_workers, Function.update_self] at hv
      exact .inl ⟨rfl, (congrArg ServerSessionWorker.place (Option.some.inj hv)).symm⟩
    · rw [setWorker_workers, Function.update_of_ne hne] at hv
      exact .inr hv
  refine h.changes id (s.sessions id)
    ⟨(Function.update_eq_self _ _).symm, fun v k p hk => update_worker_iff (.inr ⟨_, hw⟩) hk v,
      le_rfl, fun k _ hk => hk⟩ (h.known w id place hw) (fun x hx => ?_) (fun v p _ _ => ?_)
    (fun v x hv hx => ?_) fun hc x hx => (h.closing id hc).2 x hx
  · refine (h.valid id x hx).move hw ?_ ?_
    · rw [howned, Session.isOwned_of_isAttached hplace]
    · rw [hattached, hplace]
  · exact h.present w id place hw hplace
  · rcases hmove v _ hv with ⟨-, rfl⟩ | hv
    · cases hattached
    · exact h.released v id x hv hx

theorem Inv.leave (h : s.Inv) (hw : s.workers w = some ⟨id, place⟩) (hx : s.sessions id = some x)
    (place' : Place) (hattached : place.isAttached = true) (howned : place'.isOwned = false)
    (hreleasing : place' = .releasing → (x.detach w).2 = true) :
    ((s.setWorker w ⟨id, place'⟩).setSession id (some (x.detach w).1)).Inv := by
  have hvalid := h.valid id x hx
  have halive : x.isAlive = true := hvalid.alive.mpr (hvalid.referenceCount_pos hw hattached)
  refine h.changes id (some (x.detach w).1)
    ⟨rfl, fun v k p hk => update_worker_iff (.inr ⟨_, hw⟩) hk v, le_rfl, fun _ _ hk => hk⟩
    (h.below id x hx) (fun y hy => ?_) (fun _ _ _ _ => Option.some_ne_none _)
    (fun v y hv hy => ?_) fun hc y _ => ?_
  · exact Option.some.inj hy ▸ hvalid.detach hw hattached howned
  · obtain rfl := Option.some.inj hy
    by_cases hne : v = w
    · subst hne
      rw [setSession_workers, setWorker_workers, Function.update_self] at hv
      have hlast := hreleasing (congrArg ServerSessionWorker.place (Option.some.inj hv))
      rw [Session.detach_of_last ((hvalid.detach_snd hw hattached).mp hlast)]
    · rw [setSession_workers, setWorker_workers, Function.update_of_ne hne] at hv
      exact Bool.noConfusion (halive.symm.trans (h.released v id x hv hx))
  · exact Bool.noConfusion (halive.symm.trans ((h.closing id hc).2 x hx))

theorem Inv.createSession (h : s.Inv) (fresh : s.workers w = none) (peerApiVersion : ApiVersion) :
    Inv { (s.setWorker w ⟨s.nextId, .starting⟩).setSession s.nextId
        (some (.new w peerApiVersion)) with
      nextId := s.nextId + 1 } := by
  have hnone (v : W) (p : Place) : s.workers v ≠ some ⟨s.nextId, p⟩ := fun hv =>
    lt_irrefl _ (h.known v _ p hv)
  refine h.changes s.nextId (some (.new w peerApiVersion))
    ⟨rfl, fun v k p hk => update_worker_iff (.inl fresh) hk v, Nat.le_succ _, fun _ _ hk => hk⟩
    (Nat.lt_succ_self _) (fun y hy => ?_) (fun _ _ _ _ => Option.some_ne_none _)
    (fun v y hv hy => ?_) fun hc => (lt_irrefl _ (h.closing _ hc).1).elim
  · exact Option.some.inj hy ▸ Session.valid_new hnone w _
  · by_cases hne : v = w
    · subst hne
      rw [setSession_workers, setWorker_workers, Function.update_self] at hv
      cases hv
    · rw [setSession_workers, setWorker_workers, Function.update_of_ne hne] at hv
      exact (hnone v _ hv).elim

theorem Inv.addWorker (h : s.Inv) (hx : s.sessions id = some x) (alive : x.isAlive = true)
    (fresh : s.workers w = none) {x' : Session W} (hplace : place ≠ .releasing)
    (hvalid : x'.Valid (Function.update s.workers w (some ⟨id, place⟩)) id) :
    ((s.setWorker w ⟨id, place⟩).setSession id (some x')).Inv := by
  refine h.changes id (some x')
    ⟨rfl, fun v k p hk => update_worker_iff (.inl fresh) hk v, le_rfl, fun _ _ hk => hk⟩
    (h.below id x hx) (fun y hy => Option.some.inj hy ▸ hvalid)
    (fun _ _ _ _ => Option.some_ne_none _) (fun v y hv hy => ?_) fun hc y hy => ?_
  · by_cases hne : v = w
    · subst hne
      rw [setSession_workers, setWorker_workers, Function.update_self] at hv
      exact (hplace (congrArg ServerSessionWorker.place (Option.some.inj hv))).elim
    · rw [setSession_workers, setWorker_workers, Function.update_of_ne hne] at hv
      exact Bool.noConfusion (alive.symm.trans (h.released v id x hv hx))
  · exact Bool.noConfusion (alive.symm.trans ((h.closing id hc).2 x hx))

theorem Inv.releaseSession (h : s.Inv) (hw : s.workers w = some ⟨id, .releasing⟩)
    (hx : s.sessions id = some x) :
    ((s.setWorker w ⟨id, .detached⟩).setSession id none).Inv := by
  refine h.destroy hx (h.released w id x hw hx)
    (fun v k p hk => update_worker_iff (.inr ⟨_, hw⟩) hk v) (fun v p hv ha => ?_) rfl rfl
    fun _ hk => hk
  by_cases hne : v = w
  · subst hne
    rw [setSession_workers, setWorker_workers, Function.update_self] at hv
    cases hv
    cases ha
  · rwa [setSession_workers, setWorker_workers, Function.update_of_ne hne] at hv

theorem Inv.attach (h : s.Inv) (hx : s.sessions id = some x) (alive : x.isAlive = true)
    (fresh : s.workers w = none) (startup : Startup) :
    ((s.startWorker id w startup).setSession id (some (x.attach w startup))).Inv := by
  have hvalid := (h.valid id x hx).attach alive fresh startup
  cases startup with
  | started => exact h.addWorker hx alive fresh nofun hvalid
  | notStarted => exact h.addWorker hx alive fresh nofun hvalid
  | notCreated => exact h.setSession hx hvalid fun hd => hd

variable [DecidableEq P]

theorem Inv.definedStep (h : s.Inv) (hs : DefinedStep s a s') : s'.Inv := by
  cases hs with
  | createSession canCreate available fresh => exact h.createSession fresh _
  | createSessionThrew canCreate available failed =>
    exact h.congr rfl rfl (Nat.le_succ _) fun _ hk => hk
  | openLocalSession idle live => exact h.congr rfl rfl le_rfl fun _ hk => hk
  | openLocalSessionThrew => exact h
  | attach found live unlocked alive fresh =>
    exact (h.attach live alive fresh _).congr rfl rfl le_rfl fun _ hk => hk
  | attachThrew found live unlocked dead => exact h.congr rfl rfl le_rfl fun _ hk => hk
  | run worker => exact h.move worker _ rfl rfl rfl
  | openStore worker live unlocked closed alive =>
    exact (h.move worker .opening rfl rfl rfl).congr rfl rfl le_rfl fun _ hk => hk
  | search worker searched => exact h.congr rfl rfl le_rfl fun _ hk => hk
  | enter worker entered => exact h.congr rfl rfl le_rfl fun _ hk => hk
  | returnStore worker live stage =>
    have hmove := h.move worker .processing rfl rfl rfl
    have hvalid := hmove.valid _ _ live
    have halive := hvalid.alive.mpr (hvalid.referenceCount_pos
      (Function.update_self ..) rfl)
    refine (hmove.setStore live fun hdead => ?_).congr rfl rfl le_rfl
      fun _ hk => hk
    exact Bool.noConfusion (halive.symm.trans hdead)
  | closeStore worker live unlocked alive closes =>
    exact (h.setStore live fun _ => rfl).congr rfl rfl le_rfl
      fun _ hk => hk
  | receiveSetting worker => exact h.move worker _ rfl rfl rfl
  | applySetting worker live unlocked => exact h.move worker _ rfl rfl rfl
  | finish worker => exact h.move worker _ rfl rfl rfl
  | detach worker live unlocked alive several => exact h.leave worker live _ rfl rfl nofun
  | detachLast worker live unlocked storeUnlocked alive last closes =>
    exact (h.leave worker live .releasing rfl rfl fun _ => last).congr rfl rfl le_rfl
      fun _ hk => hk
  | releaseSession worker live => exact h.releaseSession worker live
  | closeSessions idle => exact h.congr rfl rfl le_rfl fun _ hk => hk.elim
  | closeDone closer => exact h.congr rfl rfl le_rfl fun _ hk => hk.elim
  | testAlive closer live =>
    refine h.congr rfl rfl le_rfl fun k hk => ?_
    dsimp only at hk
    split at hk <;> exact hk.elim
  | lockSession closer live unlocked =>
    exact (h.setLocked live _).congr rfl rfl le_rfl
      fun _ hk => hk.elim
  | stopWorker closer live next worker running => exact h.congr rfl rfl le_rfl fun _ hk => hk.elim
  | stopThrew closer live next worker running =>
    exact (h.setLocked live _).congr rfl rfl le_rfl
      fun _ hk => hk.elim
  | awaitWorker closer live next finished =>
    exact h.congr rfl rfl le_rfl fun _ hk => hk.elim
  | timeout closer live =>
    exact (h.setLocked live _).congr rfl rfl le_rfl
      fun _ hk => hk.elim
  | keepSession closer live stopped referenced =>
    exact (h.setLocked live _).congr rfl rfl le_rfl
      fun _ hk => hk.elim
  | closeSession closer live stopped unreferenced storeUnlocked closes =>
    exact h.closeSession live unreferenced rfl rfl rfl fun k hk hc => hk hc.symm
  | releaseClosed closer live =>
    refine h.destroy live ((h.closing _ ?_).2 _ live) (fun _ _ _ _ => Iff.rfl)
      (fun _ _ hv _ => hv) rfl rfl fun _ hk => hk.elim
    rw [closer]
    rfl

theorem Inv.step (h : s.Inv) (hs : Step s a s') : s'.Inv := by
  cases hs with
  | defined ok step => exact h.definedStep step
  | access ok dangles => exact h.congr rfl rfl le_rfl fun _ hk => hk

theorem invariant : Transition.Invariant (Initial (W := W) (P := P)) Step Inv :=
  ⟨fun _ h => h.inv, fun _ _ _ h hs => h.step hs⟩

/-- The references of the sessions are counted, and no worker is attached to a session that is not
there or dead. -/
structure Counted (s : System W P) : Prop where
  valid : ∀ id x, s.sessions id = some x → x.Valid s.workers id
  attached : ∀ w id place, s.workers w = some ⟨id, place⟩ → place.isAttached = true →
    ∃ x, s.sessions id = some x ∧ x.isAlive = true ∧ w ∈ x.workers

omit [DecidableEq W] [DecidableEq P] in
theorem Inv.counted (h : s.Inv) : s.Counted where
  valid := h.valid
  attached w id place hw ha := by
    obtain ⟨x, hx⟩ := Option.ne_none_iff_exists'.mp (h.present w id place hw ha)
    have hvalid := h.valid id x hx
    exact ⟨x, hx, hvalid.alive.mpr (hvalid.referenceCount_pos hw ha),
      (hvalid.mem w).mpr ⟨place, hw, Session.isOwned_of_isAttached ha⟩⟩

/-- In every run the reference count of each session is the number of workers attached to it. -/
theorem sessions_counted {l : List (Taken (System W P) (Action W P × Option SessionId))}
    (run : Run Initial Step l s) : s.Counted :=
  (invariant.run run).counted

/-- A session that is destroyed has no references and no store, and the only workers that it still
owns are those without thread. The others are kept. -/
structure DestroysUnreferenced (t : Taken (System W P) (Action W P × Option SessionId)) : Prop where
  destroyed : ∀ id, t.label.2 = some id → (∃ x, t.before.sessions id = some x ∧
      x.referenceCount = 0 ∧ x.isAlive = false ∧ x.store = none ∧
      ∀ w ∈ x.workers, t.before.workers w = some ⟨id, .unstarted⟩) ∧
    t.after.sessions id = none
  kept : ∀ id, t.before.sessions id ≠ none → t.label.2 ≠ some id → t.after.sessions id ≠ none

omit [DecidableEq W] [DecidableEq P] in
theorem Inv.unreferenced (h : s.Inv) (hx : s.sessions id = some x) (hdead : x.isAlive = false) :
    x.referenceCount = 0 ∧ x.isAlive = false ∧ x.store = none ∧
      ∀ w ∈ x.workers, s.workers w = some ⟨id, .unstarted⟩ := by
  have hvalid := h.valid id x hx
  have hzero : x.referenceCount = 0 := by
    by_contra hne
    exact Bool.noConfusion (hdead.symm.trans (hvalid.alive.mpr (Nat.pos_of_ne_zero hne)))
  refine ⟨hzero, hdead, hvalid.closed hdead, fun w hw => ?_⟩
  obtain ⟨place, hplace, howned⟩ := (hvalid.mem w).mp hw
  have hnot : place.isAttached ≠ true := fun ha =>
    (hvalid.referenceCount_pos hplace ha).ne' hzero
  cases place <;> first | exact hplace | exact (hnot rfl).elim | cases howned

omit [DecidableEq P] in
theorem startWorker_sessions {startup : Startup} :
    (s.startWorker id w startup).sessions = s.sessions := by
  cases startup <;> rfl

omit [DecidableEq W] [DecidableEq P] in
theorem setSession_eq_none_iff (hx : s.sessions id = some x) {y : Session W} :
    (s.setSession id (some y)).sessions k = none ↔ s.sessions k = none := by
  rw [setSession_sessions]
  by_cases hk : k = id
  · subst hk
    rw [Function.update_self, hx]
    exact iff_of_false nofun nofun
  · rw [Function.update_of_ne hk]

/-- Sessions only leave the map when they are released, and none comes back with an id that was
given before. -/
theorem DefinedStep.sessions_cases (hs : DefinedStep s a s') :
    (a.2 = none ∧ ∀ k < s.nextId, s'.sessions k = none ↔ s.sessions k = none) ∨
      ∃ id x, a.2 = some id ∧ s.sessions id = some x ∧
        s'.sessions = Function.update s.sessions id none ∧
        ((∃ w, s.workers w = some ⟨id, .releasing⟩) ∨ s.closer.Releases id) := by
  cases hs with
  | createSession canCreate available fresh =>
    refine .inl ⟨rfl, fun k hk => ?_⟩
    rw [setSession_sessions, Function.update_of_ne hk.ne]
    rfl
  | createSessionThrew | openLocalSession | openLocalSessionThrew | attachThrew | run | openStore
  | search | enter | receiveSetting | applySetting | finish | closeSessions | closeDone | testAlive
  | stopWorker | awaitWorker => exact .inl ⟨rfl, fun _ _ => Iff.rfl⟩
  | @attach p w startup id x found live =>
    refine .inl ⟨rfl, fun k _ => ?_⟩
    have hsame : (s.startWorker id w startup).sessions = s.sessions := startWorker_sessions
    rw [← hsame]
    exact setSession_eq_none_iff ((congrFun hsame id).trans live)
  | returnStore worker live stage => exact .inl ⟨rfl, fun _ _ => setSession_eq_none_iff live⟩
  | closeStore worker live unlocked alive closes =>
    exact .inl ⟨rfl, fun _ _ => setSession_eq_none_iff live⟩
  | detach worker live unlocked alive several =>
    exact .inl ⟨rfl, fun _ _ => setSession_eq_none_iff live⟩
  | detachLast worker live unlocked storeUnlocked alive last closes =>
    exact .inl ⟨rfl, fun _ _ => setSession_eq_none_iff live⟩
  | releaseSession worker live => exact .inr ⟨_, _, rfl, live, rfl, .inl ⟨_, worker⟩⟩
  | lockSession closer live unlocked => exact .inl ⟨rfl, fun _ _ => setSession_eq_none_iff live⟩
  | stopThrew closer live next worker running =>
    exact .inl ⟨rfl, fun _ _ => setSession_eq_none_iff live⟩
  | timeout closer live => exact .inl ⟨rfl, fun _ _ => setSession_eq_none_iff live⟩
  | keepSession closer live stopped referenced =>
    exact .inl ⟨rfl, fun _ _ => setSession_eq_none_iff live⟩
  | closeSession closer live stopped unreferenced storeUnlocked closes =>
    exact .inl ⟨rfl, fun _ _ => setSession_eq_none_iff live⟩
  | releaseClosed closer live => exact .inr ⟨_, _, rfl, live, rfl, .inr (by rw [closer]; rfl)⟩

theorem Step.sessions_eq_none (hs : Step s a s') (hk : k < s.nextId)
    (hnone : s.sessions k = none) : s'.sessions k = none := by
  cases hs with
  | access ok dangles => exact hnone
  | defined ok step =>
    rcases step.sessions_cases with ⟨-, hiff⟩ | ⟨id, x, -, hx, hsessions, -⟩
    · exact (hiff k hk).mpr hnone
    · have hne : k ≠ id := by
        rintro rfl
        cases hx.symm.trans hnone
      rwa [hsessions, Function.update_of_ne hne]

theorem nextId_le (hs : Step s a s') : s.nextId ≤ s'.nextId := by
  cases hs with
  | access ok dangles => exact le_rfl
  | defined ok step =>
    cases step with
    | createSession | createSessionThrew => exact Nat.le_succ _
    | @attach _ _ startup => cases startup <;> exact Nat.le_refl _
    | _ => exact le_rfl

theorem Inv.destroysUnreferenced (h : s.Inv) (hs : Step s a s') :
    DestroysUnreferenced ⟨s, a, s'⟩ := by
  have hkept (hnone : a.2 = none)
      (hiff : ∀ k < s.nextId, s'.sessions k = none ↔ s.sessions k = none) :
      DestroysUnreferenced ⟨s, a, s'⟩ := by
    refine ⟨fun id hid => (by cases hnone.symm.trans hid), fun k hk _ hnew => ?_⟩
    obtain ⟨x, hx⟩ := Option.ne_none_iff_exists'.mp hk
    exact hk ((hiff k (h.below k x hx)).mp hnew)
  cases hs with
  | access ok dangles => exact hkept rfl fun _ _ => Iff.rfl
  | defined ok step =>
    rcases step.sessions_cases with ⟨hnone, hiff⟩ | ⟨id, x, hid, hx, hsessions, hreleases⟩
    · exact hkept hnone hiff
    · have hdead : x.isAlive = false := by
        rcases hreleases with ⟨w, hw⟩ | hc
        · exact h.released w id x hw hx
        · exact (h.closing id hc).2 x hx
      refine ⟨fun k hk => ?_, fun k hk hne => ?_⟩
      · obtain rfl := Option.some.inj (hid.symm.trans hk)
        refine ⟨⟨x, hx, h.unreferenced hx hdead⟩, ?_⟩
        dsimp only
        rw [hsessions, Function.update_self]
      · dsimp only at hk hne ⊢
        rwa [hsessions, Function.update_of_ne fun he => hne (by rw [hid, he])]

def destroyed (l : List (Taken (System W P) (Action W P × Option SessionId))) : List SessionId :=
  l.filterMap (·.label.2)

/-- What was destroyed does not come back. -/
theorem destroyed_run {l : List (Taken (System W P) (Action W P × Option SessionId))}
    (run : Run Initial Step l s) : (destroyed l).Nodup ∧
      ∀ id ∈ destroyed l, id < s.nextId ∧ s.sessions id = none := by
  induction run with
  | start initial => exact ⟨List.nodup_nil, fun id hid => (by cases hid)⟩
  | @step l s s' a run taken ih =>
    obtain ⟨hnodup, hgone⟩ := ih
    have hinv := invariant.run run
    have hdestroys := hinv.destroysUnreferenced taken
    have hstays (id : SessionId) (hid : id < s.nextId ∧ s.sessions id = none) :
        id < s'.nextId ∧ s'.sessions id = none :=
      ⟨hid.1.trans_le (nextId_le taken), (taken.sessions_eq_none hid.1 hid.2)⟩
    cases hlabel : a.2 with
    | none =>
      have heq : destroyed (⟨s, a, s'⟩ :: l) = destroyed l := List.filterMap_cons_none hlabel
      rw [heq]
      exact ⟨hnodup, fun id hid => hstays id (hgone id hid)⟩
    | some id =>
      have heq : destroyed (⟨s, a, s'⟩ :: l) = id :: destroyed l :=
        List.filterMap_cons_some hlabel
      obtain ⟨⟨x, hx, -⟩, hnone⟩ := hdestroys.destroyed id hlabel
      have hnew : id ∉ destroyed l := fun hid => by cases hx.symm.trans (hgone id hid).2
      rw [heq]
      refine ⟨List.nodup_cons.mpr ⟨hnew, hnodup⟩, fun k hk => ?_⟩
      rcases List.mem_cons.mp hk with rfl | hk
      · exact ⟨(hinv.below k x hx).trans_le (nextId_le taken), hnone⟩
      · exact hstays k (hgone k hk)

/-- In every run each session is destroyed at most once, after all that referred to it has gone,
and its id is not used for another one. -/
theorem sessions_destroyed {l : List (Taken (System W P) (Action W P × Option SessionId))}
    (run : Run Initial Step l s) : (∀ t ∈ l, DestroysUnreferenced t) ∧ (destroyed l).Nodup ∧
      ∀ id ∈ destroyed l, s.sessions id = none :=
  ⟨fun t ht => (invariant.taken run t ht).1.destroysUnreferenced (invariant.taken run t ht).2,
    (destroyed_run run).1, fun id hid => ((destroyed_run run).2 id hid).2⟩

/-- A second connection attaches to a session before both of its workers leave. -/
theorem exists_run_destroyed :
    ∃ (l : List (Taken (System Bool Unit) (Action Bool Unit × Option SessionId)))
      (s : System Bool Unit), Run Initial Step l s ∧ destroyed l = [0] := by
  have start : Run (Initial (W := Bool) (P := Unit)) Step []
      (new ⟨.new 1, fun _ => .idle, fun _ => []⟩) := .start ⟨_, ⟨1, rfl⟩, rfl⟩
  have created := start.step (.defined rfl (@DefinedStep.createSession _ _ _ _ _ true 0x0302 rfl
    (by decide) rfl))
  have found := created.step (.defined rfl (@DefinedStep.openLocalSession _ _ _ _ _ () 0 _ rfl rfl))
  have attached := found.step (.defined rfl (@DefinedStep.attach _ _ _ _ _ () false .started 0 _ rfl
    rfl rfl rfl rfl))
  have run := attached.step (.defined rfl (@DefinedStep.run _ _ _ _ _ true 0 rfl))
  have run' := run.step (.defined rfl (@DefinedStep.run _ _ _ _ _ false 0 rfl))
  have finished := run'.step (.defined rfl (@DefinedStep.finish _ _ _ _ _ true 0 rfl))
  have finished' := finished.step (.defined rfl (@DefinedStep.finish _ _ _ _ _ false 0 rfl))
  have detached := finished'.step (.defined rfl (@DefinedStep.detach _ _ _ _ _ true 0 _ rfl rfl rfl
    rfl rfl))
  have last := detached.step (.defined rfl (@DefinedStep.detachLast _ _ _ _ _ false 0 _ _ rfl rfl
    rfl (fun w => by cases w <;> decide) rfl rfl .none))
  have released := last.step (.defined rfl (@DefinedStep.releaseSession _ _ _ _ _ false 0 _ rfl
    rfl))
  exact ⟨_, _, released, rfl⟩

theorem sessions_counted_destroyed :
    ∃ (l : List (Taken (System Bool Unit) (Action Bool Unit × Option SessionId)))
      (s : System Bool Unit), destroyed l = [0] ∧ s.Counted :=
  let ⟨l, s, run, hdestroyed⟩ := exists_run_destroyed
  ⟨l, s, hdestroyed, sessions_counted run⟩

theorem sessions_destroyed_once :
    ∃ (l : List (Taken (System Bool Unit) (Action Bool Unit × Option SessionId)))
      (s : System Bool Unit), destroyed l = [0] ∧ (∀ t ∈ l, DestroysUnreferenced t) ∧
      (destroyed l).Nodup ∧ ∀ id ∈ destroyed l, s.sessions id = none :=
  let ⟨l, s, run, hdestroyed⟩ := exists_run_destroyed
  ⟨l, s, hdestroyed, sessions_destroyed run⟩

end System

end Simutrace.Sessions
