import Simutrace.Manager.Invariant

/-! # Counting the references to stores

A live store is referenced once by the manager and once by each session that has
it open. It is given up only without sessions, and its encoders are closed when
the last session leaves.
-/

namespace Simutrace.Manager

open Transition
open ServerStore (others)

def closedEncoders (events : List StoreEvent) : List StoreId :=
  events.filterMap fun
    | .encodersClosed st => some st.id
    | _ => none

namespace ManagerState

variable {T : Type*}

/-- Each live store has one reference of the manager and those of the sessions attached to it. -/
structure ReferencesCounted (s : ManagerState T) : Prop where
  count : ∀ k st, s.manager.store k = some st → st.referenceCount = 1 + st.references.length
  attached : ∀ k st, s.manager.store k = some st → st.references = s.opened k
  nodup : ∀ k, (s.opened k).Nodup

/-- A step only destroys stores and marks stores dormant that no session is attached to, and it
closes the encoders of a store if and only if the last session leaves. -/
structure ReleasesCounted (x : Taken (ManagerState T) (Action T × List StoreEvent)) : Prop where
  destroyed : ∀ st, .destroyed st ∈ x.label.2 → st.references = [] ∧ x.after.opened st.id = []
  gone : ∀ k st, x.before.manager.store k = some st → x.after.manager.store k = none →
    ∃ st', .destroyed st' ∈ x.label.2 ∧ st'.id = k
  dormant : ∀ st, .dormant st ∈ x.label.2 → st.references = [] ∧ x.after.opened st.id = []
  slept : ∀ k st, x.after.manager.store k = some st → x.after.manager.Dormant k →
    .dormant st ∈ x.label.2 ∨ x.before.manager.store k ≠ none ∧ x.before.manager.Dormant k
  encodersClosed : ∀ k, (closedEncoders x.label.2).count k =
    if x.before.opened k ≠ [] ∧ x.after.opened k = [] then 1 else 0

variable {s s' : ManagerState T} {a : Action T} {events : List StoreEvent}

theorem Inv.referencesCounted (h : Inv s) : ReferencesCounted s where
  count k st live := by
    have hc := h.manager.counted k st live
    rw [hc.count, hc.references]
  attached k st live := (h.manager.counted k st live).references
  nodup k := by
    cases live : s.manager.store k with
    | none =>
      rw [h.manager.unopened k live]
      exact List.nodup_nil
    | some st => exact (h.manager.counted k st live).nodup

theorem releasesCounted_of_no_release (hd : ∀ st, .destroyed st ∉ events)
    (hs : ∀ st, .dormant st ∉ events) (he : closedEncoders events = [])
    (hstore : ∀ k st, s.manager.store k = some st → s'.manager.store k ≠ none)
    (hslept : ∀ k st, s'.manager.store k = some st → s'.manager.Dormant k →
      s.manager.store k ≠ none ∧ s.manager.Dormant k)
    (hopened : ∀ k, s'.opened k = [] → s.opened k = []) :
    ReleasesCounted ⟨s, (a, events), s'⟩ where
  destroyed st hm := (hd st hm).elim
  gone k st live hnone := (hstore k st live hnone).elim
  dormant st hm := (hs st hm).elim
  slept k st live hd := .inr (hslept k st live hd)
  encodersClosed k := by
    rw [he, List.count_nil, if_neg]
    rintro ⟨hne, hnil⟩
    exact hne (hopened k hnil)

theorem releasesCounted_search (h : Inv s)
    (hc : ServerStoreManager.Change s.opened s.manager events s'.manager)
    (hopened : s'.opened = s.opened) : ReleasesCounted ⟨s, (a, events), s'⟩ where
  destroyed st hm := by
    obtain ⟨k, st', heq, live, hd⟩ := hc.events _ hm
    obtain rfl := StoreEvent.destroyed.inj heq
    have hnil := (h.manager.dormant k st live).mp hd
    rw [hopened, (h.manager.key k st live).1, hnil]
    exact ⟨(h.manager.counted k st live).references.trans hnil, rfl⟩
  gone k st live hnone := by
    rcases hc.store k with hsame | ⟨-, st', live', hm⟩
    · cases (hsame.symm.trans hnone).symm.trans live
    · exact ⟨st', hm, (h.manager.key k st' live').1⟩
  dormant st hm := by
    obtain ⟨k, st', heq, -⟩ := hc.events _ hm
    cases heq
  slept k st live hd := by
    refine .inr ⟨?_, hc.dormant k st live hd⟩
    rcases hc.store k with hsame | ⟨hnone, -⟩
    · rw [← hsame, live]
      exact Option.some_ne_none st
    · cases hnone.symm.trans live
  encodersClosed k := by
    have hnil : closedEncoders events = [] := by
      rw [closedEncoders, List.filterMap_eq_nil_iff]
      intro e hm
      obtain ⟨k, st', rfl, -⟩ := hc.events _ hm
      rfl
    rw [hnil, List.count_nil, hopened, if_neg]
    exact fun hk => hk.1 hk.2

theorem releasesCounted_of_eq (hm : s'.manager = s.manager) (hopened : s'.opened = s.opened) :
    ReleasesCounted ⟨s, (a, []), s'⟩ := by
  refine releasesCounted_of_no_release (fun st => List.not_mem_nil) (fun st => List.not_mem_nil) rfl
    ?_ ?_ fun k hk => hopened ▸ hk
  · intro k st live
    rw [hm, live]
    exact Option.some_ne_none st
  · intro k st live hd
    rw [hm] at live hd
    exact ⟨by rw [live]; exact Option.some_ne_none st, hd⟩

theorem slept_setReference {m : ServerStoreManager} {r k : StoreId} {ref : ServerStoreReference}
    {st : ServerStore} (hawake : ref.store ≠ none → ref.dormant = false)
    (live : (m.setReference r ref).store k = some st) (hd : (m.setReference r ref).Dormant k) :
    m.store k ≠ none ∧ m.Dormant k := by
  rcases ServerStoreManager.store_setReference_eq_some.mp live with ⟨rfl, hst⟩ | ⟨hne, hst⟩
  · have hfalse := hawake (by rw [hst]; exact Option.some_ne_none st)
    rw [ServerStoreManager.dormant_setReference_self, hfalse] at hd
    cases hd
  · rw [hst]
    exact ⟨Option.some_ne_none st, (ServerStoreManager.dormant_setReference_of_ne hne).mp hd⟩

theorem releasesCounted_setReference {r : StoreId} {ref : ServerStoreReference}
    (hm : s'.manager = s.manager.setReference r ref) (hd : ∀ st, .destroyed st ∉ events)
    (hs : ∀ st, .dormant st ∉ events) (he : closedEncoders events = [])
    (hlive : s.manager.store r ≠ none → ref.store ≠ none)
    (hawake : ref.store ≠ none → ref.dormant = false)
    (hopened : ∀ k, s'.opened k = [] → s.opened k = []) :
    ReleasesCounted ⟨s, (a, events), s'⟩ := by
  refine releasesCounted_of_no_release hd hs he (fun k st live => ?_) (fun k st live hd' => ?_)
    hopened
  · rw [hm, ServerStoreManager.store_setReference]
    by_cases hk : k = r
    · subst hk
      rw [Function.update_self]
      exact hlive (by rw [live]; exact Option.some_ne_none st)
    · rw [Function.update_of_ne hk, live]
      exact Option.some_ne_none st
  · rw [hm] at live hd'
    exact slept_setReference hawake live hd'

theorem opened_of_update {session : SessionId} {reference k : StoreId}
    {opened : StoreId → List SessionId}
    (h : Function.update opened reference (opened reference ++ [session]) k = []) :
    opened k = [] := by
  by_cases hk : k = reference
  · subst hk
    rw [Function.update_self] at h
    exact (List.append_eq_nil_iff.mp h).1
  · rwa [Function.update_of_ne hk] at h

theorem releasesCounted_enter {session : SessionId} {name : String} {isOpen provided : Bool}
    {reference id : StoreId} {result : Option (Except StoreError Unit)}
    (he : ServerStoreManager.Entered s.manager s.opened session name isOpen reference id provided
      s'.manager events result)
    (hopened : s'.opened = openedAfter s.opened session reference result) :
    ReleasesCounted ⟨s, (a, events), s'⟩ := by
  rcases s' with ⟨m', stage', opened'⟩
  obtain rfl : opened' = _ := hopened
  dsimp only at he
  cases he with
  | retry | refused | attachedTwice => exact releasesCounted_of_eq rfl rfl
  | failed e empty awake reason =>
    refine releasesCounted_setReference rfl (by simp) (by simp) rfl (fun h => ?_) (fun h => ?_)
      fun k hk => hk
    · exact (h empty).elim
    · exact (h empty).elim
  | created empty awake success valid =>
    refine releasesCounted_setReference rfl (by simp) (by simp) rfl
      (fun _ => Option.some_ne_none _) (fun _ => ?_) fun k => opened_of_update
    simpa [ServerStoreManager.Dormant] using awake
  | attached st live new =>
    exact releasesCounted_setReference rfl (by simp) (by simp) rfl
      (fun _ => Option.some_ne_none _) (fun _ => rfl) fun k => opened_of_update

/-- The encoders are closed when the last session leaves, whatever happens to the store then. -/
theorem count_closedEncoders {session : SessionId} {id : StoreId} {st : ServerStore}
    (hid : st.id = id) (holds : session ∈ s.opened id)
    (last : others session (s.opened id) = [])
    (hopened : s'.opened = Function.update s.opened id (others session (s.opened id)))
    (k : StoreId) :
    [st.id].count k = if s.opened k ≠ [] ∧ s'.opened k = [] then 1 else 0 := by
  rw [hopened, hid]
  by_cases hk : k = id
  · subst hk
    rw [Function.update_self, List.count_singleton_self,
      if_pos ⟨List.ne_nil_of_mem holds, last⟩]
  · rw [Function.update_of_ne hk, if_neg fun h => h.1 h.2, List.count_eq_zero]
    exact fun hm => hk (List.mem_singleton.mp hm)

theorem releasesCounted_close {session : SessionId} {id : StoreId} {time : ℕ} {st : ServerStore}
    (h : Inv s) (live : s.manager.store id = some st) (holds : session ∈ s.opened id)
    (hc : ServerStoreManager.Closed s.manager (s.opened id) session id st time s'.manager events)
    (hopened : s'.opened = Function.update s.opened id (others session (s.opened id))) :
    ReleasesCounted ⟨s, (a, events), s'⟩ := by
  have hid : (st.detached session (s.opened id)).id = id := (h.manager.key id st live).1
  have hawake : (s.manager.references id).dormant = false := by
    have hne := mt (h.manager.dormant id st live).mp (List.ne_nil_of_mem holds)
    simpa [ServerStoreManager.Dormant] using hne
  have hafter (last : others session (s.opened id) = []) :
      s'.opened (st.detached session (s.opened id)).id = [] := by
    rw [hopened, hid, Function.update_self, last]
  rcases s' with ⟨m', stage', opened'⟩
  obtain rfl : opened' = _ := hopened
  dsimp only at hc hafter
  cases hc with
  | left several =>
    refine releasesCounted_setReference rfl (by simp) (by simp) rfl
      (fun _ => Option.some_ne_none _) (fun _ => hawake) fun k hk => ?_
    dsimp only at hk
    by_cases hne : k = id
    · subst hne
      rw [Function.update_self] at hk
      exact (several hk).elim
    · rwa [Function.update_of_ne hne] at hk
  | slept last =>
    refine ⟨fun st' hm => by simp at hm, fun k st' live' hnone => ?_, fun st' hm => ?_,
      fun k st' live' hd => ?_, count_closedEncoders hid holds last rfl⟩
    · dsimp only at hnone
      rw [ServerStoreManager.store_setReference] at hnone
      by_cases hk : k = id
      · subst hk
        rw [Function.update_self] at hnone
        cases hnone
      · rw [Function.update_of_ne hk, live'] at hnone
        cases hnone
    · obtain rfl : st' = _ := by simpa using hm
      exact ⟨last, hafter last⟩
    · rcases ServerStoreManager.store_setReference_eq_some.mp live' with ⟨rfl, hst⟩ | ⟨hk, hst⟩
      · obtain rfl := Option.some.inj hst
        exact .inl (by simp)
      · refine .inr ⟨?_, (ServerStoreManager.dormant_setReference_of_ne hk).mp hd⟩
        dsimp only
        rw [hst]
        exact Option.some_ne_none st'
  | released last =>
    refine ⟨fun st' hm => ?_, fun k st' live' hnone => ?_, fun st' hm => by simp at hm,
      fun k st' live' hd => ?_, count_closedEncoders hid holds last rfl⟩
    · obtain rfl : st' = _ := by simpa using hm
      exact ⟨last, hafter last⟩
    · refine ⟨_, by simp, hid.trans ?_⟩
      by_contra hk
      dsimp only at hnone
      rw [ServerStoreManager.store_dropStore, Function.update_of_ne (Ne.symm hk),
        ServerStoreManager.store_setReference, Function.update_of_ne (Ne.symm hk), live'] at hnone
      cases hnone
    · obtain ⟨hk, hst⟩ := ServerStoreManager.store_dropStore_eq_some.mp live'
      have hst' := (ServerStoreManager.store_setReference_eq_some.mp hst).resolve_left
        fun h => hk h.1
      have hd' := ServerStoreManager.dormant_dropStore.mp hd
      refine .inr ⟨?_, (ServerStoreManager.dormant_setReference_of_ne hk).mp hd'⟩
      dsimp only
      rw [hst'.2]
      exact Option.some_ne_none st'

variable [DecidableEq T]

theorem Inv.releasesCounted (h : Inv s) {a : Action T × List StoreEvent} (hs : Step s a s') :
    ReleasesCounted ⟨s, a, s'⟩ := by
  cases hs with
  | call idle => exact releasesCounted_of_eq rfl rfl
  | search stage owned searched =>
    exact releasesCounted_search h (ServerStoreManager.change_search h.manager searched).1 rfl
  | enter stage entered =>
    exact releasesCounted_enter (ServerStoreManager.entered_of_eq h.manager entered) rfl
  | ret stage => exact releasesCounted_of_eq rfl rfl
  | close holds closed =>
    rcases ServerStoreManager.closeStore_spec h.manager holds _ _ with
      ⟨e, he⟩ | ⟨st, m', events', live, hok, hc⟩
    · cases closed.symm.trans he
    · obtain ⟨rfl, rfl⟩ := Prod.mk.inj (Except.ok.inj (closed.symm.trans hok))
      exact releasesCounted_close h live holds hc rfl
  | closeThrew holds closed => exact releasesCounted_of_eq rfl rfl

/-- In every run, the references to the stores are counted, and stores are released only without
sessions. -/
theorem references_counted {l : List (Taken (ManagerState T) (Action T × List StoreEvent))}
    (run : Run Initial Step l s) : ReferencesCounted s ∧ ∀ x ∈ l, ReleasesCounted x :=
  ⟨(invariant.run run).referencesCounted, fun x hx =>
    (invariant.taken run x hx).1.releasesCounted (invariant.taken run x hx).2⟩

/-- A session creates a store and closes it again. -/
theorem exists_run_closed : ∃ (l : List (Taken (ManagerState Unit) (Action Unit × List StoreEvent)))
    (s : ManagerState Unit), Run Initial Step l s ∧ ∃ x ∈ l, closedEncoders x.label.2 = [0] := by
  have start : Run (Initial (T := Unit)) Step [] ⟨.new 1, fun _ => .idle, fun _ => []⟩ :=
    .start ⟨1, rfl⟩
  have call := start.step (@Step.call Unit _ _ () ⟨1, "store", false⟩ rfl)
  have search := call.step (@Step.search Unit _ _ () _ (fun _ => false) _ _ _ rfl
    (fun k => iff_of_false Bool.false_ne_true (fun ⟨_, h⟩ => h)) rfl)
  have enter := search.step (@Step.enter Unit _ _ () _ _ _ true _ _ _ rfl rfl)
  have close := enter.step (@Step.close Unit _ _ 1 0 false 5 _ _ (by decide) rfl)
  exact ⟨_, _, close, _, List.mem_cons_self, rfl⟩

theorem references_counted_closed : ∃ (l : List (Taken (ManagerState Unit)
    (Action Unit × List StoreEvent))) (s : ManagerState Unit),
    (∃ x ∈ l, closedEncoders x.label.2 = [0]) ∧ ReferencesCounted s ∧ ∀ x ∈ l, ReleasesCounted x :=
  let ⟨l, s, run, closed⟩ := exists_run_closed
  ⟨l, s, closed, references_counted run⟩

end ManagerState

end Simutrace.Manager
