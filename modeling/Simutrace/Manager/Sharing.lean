import Simutrace.Manager.Invariant

/-! # Sharing the store of a path

Sessions create and open the store of one path at the same time. A call that
finds the empty reference of another call must not overtake that call, since it
has no id to create the store with.
-/

namespace Simutrace.Manager

open Transition

/-- The call of a thread that has not succeeded or failed yet. -/
def CallStage.pending? : CallStage → Option StoreCall
  | .searching call | .entering call _ _ => some call
  | .idle | .leaving _ _ _ => none

theorem CallStage.call?_of_pending? {stage : CallStage} {call : StoreCall}
    (h : call ∈ stage.pending?) : call ∈ stage.call? := by
  cases stage with
  | searching call | entering call _ _ => exact h
  | idle | leaving _ _ _ => cases h

namespace ManagerState

variable {T : Type*}

/-- A session calls only while it has no store open and no other call in progress. -/
def Guarded (s : ManagerState T) : Action T → Prop
  | .call _ call => (∀ k, call.session ∉ s.opened k) ∧
      ∀ t, ∀ other ∈ (s.stage t).call?, other.session ≠ call.session
  | _ => True

/-- A call takes the lock of an empty reference only if it has inserted the reference itself. -/
def InOrder (s : ManagerState T) (t : T) : Prop :=
  ∀ call reference id, s.stage t = .entering call reference id →
    s.manager.store reference = none → ¬ s.manager.Dormant reference → id = reference

def IdsLeft (s : ManagerState T) (t : T) : Prop :=
  ∀ call, s.stage t = .searching call →
    (∃ k, (ServerStoreManager.findReference call.name call.isOpen s.manager s.manager.stores).2 =
      .found k) ∨ s.manager.nextId ≠ invalidStoreId

/-- Calls do not overtake the call that inserted their reference, and do not run out of ids. -/
def Ordered (s : ManagerState T) : Action T → Prop
  | .search t => s.IdsLeft t
  | .enter t _ => s.InOrder t
  | _ => True

def Attached (s : ManagerState T) (call : StoreCall) (reference : StoreId) : Prop :=
  ∃ st, s.manager.store reference = some st ∧ st.name = call.name ∧ call.session ∈ st.references

/-- A call fails since its provider failed, or since it creates a store that is already open. -/
def FailsRightly (s : ManagerState T) (events : List StoreEvent) (call : StoreCall)
    (provided : Bool) : Prop :=
  (provided = false ∧ ∃ id, .invoked id ∈ events) ∨
    (call.isOpen = false ∧ ∃ k st, s.manager.store k = some st ∧ st.name = call.name ∧
      st.references ≠ [])

/-- Calls attach to the only store of their path or fail rightly, and no provider is invoked with
the invalid id. -/
structure Shared (x : Taken (ManagerState T) (Action T × List StoreEvent)) : Prop where
  valid : ∀ id, .invoked id ∈ x.label.2 → id ≠ invalidStoreId
  single : ∀ k k' st st', x.after.manager.store k = some st → x.after.manager.store k' = some st' →
    st.name = st'.name → k = k'
  attached : ∀ t provided call reference, x.label.1 = .enter t provided →
    x.after.stage t = .leaving call (some reference) (.ok ()) → x.after.Attached call reference
  failed : ∀ t provided call reference e, x.label.1 = .enter t provided →
    x.after.stage t = .leaving call reference (.error e) →
    x.before.FailsRightly x.label.2 call provided
  searched : ∀ t call reference result, x.label.1 = .search t →
    x.after.stage t ≠ .leaving call reference result

variable [DecidableEq T] {s s' : ManagerState T} {t : T} {call : StoreCall}

def GuardedStep (s : ManagerState T) (a : Action T × List StoreEvent) (s' : ManagerState T) :
    Prop :=
  s.Guarded a.1 ∧ Step s a s'

/-- Sessions with a pending call have no store open, and no session has two calls in progress. -/
structure GuardedInv (s : ManagerState T) : Prop extends Inv s where
  closed : ∀ t, ∀ call ∈ (s.stage t).pending?, ∀ k, call.session ∉ s.opened k
  unique : ∀ t t' call call', call ∈ (s.stage t).call? → call' ∈ (s.stage t').call? →
    call.session = call'.session → t = t'

omit [DecidableEq T] in
theorem Initial.guardedInv (h : Initial s) : GuardedInv s := by
  refine ⟨h.inv, ?_, ?_⟩
  · obtain ⟨persistentCache, rfl⟩ := h
    exact fun t call hc => (by cases hc)
  · obtain ⟨persistentCache, rfl⟩ := h
    exact fun t t' call call' hc => (by cases hc)

theorem GuardedInv.move {stage : CallStage} (h : GuardedInv s) (hi : Inv s')
    (hstage : s'.stage = Function.update s.stage t stage)
    (hcall : ∀ call ∈ stage.call?, call ∈ (s.stage t).call? ∨
      ∀ t', ∀ other ∈ (s.stage t').call?, other.session ≠ call.session)
    (hnew : ∀ call ∈ stage.pending?, ∀ k, call.session ∉ s'.opened k)
    (hopened : ∀ t' ≠ t, ∀ call ∈ (s.stage t').pending?, ∀ k, call.session ∉ s'.opened k) :
    GuardedInv s' where
  toInv := hi
  closed t' call hc := by
    rw [hstage] at hc
    by_cases ht : t' = t
    · subst ht
      rw [Function.update_self] at hc
      exact hnew call hc
    · rw [Function.update_of_ne ht] at hc
      exact hopened t' ht call hc
  unique t₁ t₂ call₁ call₂ h₁ h₂ heq := by
    rw [hstage] at h₁ h₂
    by_cases ht₁ : t₁ = t <;> by_cases ht₂ : t₂ = t
    · exact ht₁.trans ht₂.symm
    · subst ht₁
      rw [Function.update_self] at h₁
      rw [Function.update_of_ne ht₂] at h₂
      rcases hcall call₁ h₁ with hold | hnew
      · exact h.unique t₁ t₂ call₁ call₂ hold h₂ heq
      · exact (hnew t₂ call₂ h₂ heq.symm).elim
    · subst ht₂
      rw [Function.update_self] at h₂
      rw [Function.update_of_ne ht₁] at h₁
      rcases hcall call₂ h₂ with hold | hnew
      · exact h.unique t₁ t₂ call₁ call₂ h₁ hold heq
      · exact (hnew t₁ call₁ h₁ heq).elim
    · rw [Function.update_of_ne ht₁] at h₁
      rw [Function.update_of_ne ht₂] at h₂
      exact h.unique t₁ t₂ call₁ call₂ h₁ h₂ heq

theorem GuardedInv.enter {reference id : StoreId} {m : ServerStoreManager}
    {result : Option (Except StoreError Unit)} (h : GuardedInv s)
    (stage : s.stage t = .entering call reference id)
    (hi : Inv { s.setStage t (afterEnter call reference result) with
      manager := m, opened := openedAfter s.opened call.session reference result }) :
    GuardedInv { s.setStage t (afterEnter call reference result) with
      manager := m, opened := openedAfter s.opened call.session reference result } := by
  have hmine : call ∈ (s.stage t).pending? := by
    rw [stage]
    rfl
  refine h.move hi rfl (fun call' hc => .inl ?_) (fun call' hc k => ?_) fun t' ht call' hc k => ?_
  · rcases result with - | result <;> obtain rfl := Option.some.inj hc <;>
      exact CallStage.call?_of_pending? hmine
  · rcases result with - | result
    · obtain rfl := Option.some.inj hc
      exact h.closed t call hmine k
    · cases hc
  · have hclosed := h.closed t' call' hc
    rcases result with - | e | u
    · exact hclosed k
    · exact hclosed k
    · dsimp only [openedAfter]
      by_cases hk : k = reference
      · subst hk
        rw [Function.update_self, List.mem_append, List.mem_singleton, not_or]
        refine ⟨hclosed k, fun heq => ht ?_⟩
        exact h.unique t' t call' call (CallStage.call?_of_pending? hc)
          (CallStage.call?_of_pending? hmine) heq
      · rw [Function.update_of_ne hk]
        exact hclosed k

theorem GuardedInv.step {a : Action T × List StoreEvent} (h : GuardedInv s)
    (hs : GuardedStep s a s') : GuardedInv s' := by
  obtain ⟨hguard, hs⟩ := hs
  have hi := h.toInv.step hs
  cases hs with
  | call idle =>
    refine h.move hi rfl (fun call hc => .inr ?_) (fun call hc => ?_) fun t' _ => h.closed t'
    · obtain rfl := Option.some.inj hc
      exact hguard.2
    · obtain rfl := Option.some.inj hc
      exact hguard.1
  | @search t call _ _ _ result stage owned searched =>
    have hmine : call ∈ (s.stage t).pending? := by
      rw [stage]
      rfl
    refine h.move hi rfl (fun call' hc => .inl ?_) (fun call' hc => ?_) fun t' _ => h.closed t'
    · rcases result with e | ⟨reference, id⟩ <;> obtain rfl := Option.some.inj hc <;>
        exact CallStage.call?_of_pending? hmine
    · rcases result with e | ⟨reference, id⟩
      · cases hc
      · obtain rfl := Option.some.inj hc
        exact h.closed t call hmine
  | enter stage entered => exact h.enter stage hi
  | ret stage =>
    exact h.move hi rfl (fun call' hc => by cases hc) (fun call' hc => by cases hc)
      fun t' _ => h.closed t'
  | @close _ id _ _ _ _ holds closed =>
    refine ⟨hi, fun t call hc k hm => h.closed t call hc k ?_, h.unique⟩
    dsimp only at hm
    by_cases hk : k = id
    · subst hk
      rw [Function.update_self] at hm
      exact (List.mem_filter.mp hm).1
    · rwa [Function.update_of_ne hk] at hm
  | closeThrew holds closed => exact h

theorem guarded_invariant :
    Transition.Invariant (Initial (T := T)) GuardedStep GuardedInv :=
  ⟨fun _ h => h.guardedInv, fun _ _ _ h hs => h.step hs⟩

omit [DecidableEq T] in
theorem Inv.single_store (h : Inv s) {k k' : StoreId} {st st' : ServerStore}
    (live : s.manager.store k = some st) (live' : s.manager.store k' = some st')
    (hname : st.name = st'.name) : k = k' := by
  rw [(h.manager.key k st live).2, (h.manager.key k' st' live').2] at hname
  exact h.manager.distinct k (h.manager.listed k st live) k' (h.manager.listed k' st' live') hname

omit [DecidableEq T] in
theorem shared_of_other {a : Action T} {events : List StoreEvent} (hi : Inv s')
    (hevents : ∀ id, .invoked id ∉ events) (hsearch : ∀ t, a ≠ .search t)
    (henter : ∀ t provided, a ≠ .enter t provided) : Shared ⟨s, (a, events), s'⟩ where
  valid id hm := (hevents id hm).elim
  single _ _ _ _ live live' := hi.single_store live live'
  attached t provided _ _ ha := (henter t provided ha).elim
  failed t provided _ _ _ ha := (henter t provided ha).elim
  searched t _ _ _ ha := (hsearch t ha).elim

theorem shared_search_iff {shared : StoreId → Bool} {m : ServerStoreManager}
    {events : List StoreEvent} {result : Except StoreError (StoreId × StoreId)} (h : Inv s)
    (stage : s.stage t = .searching call)
    (searched : s.manager.search call.name call.isOpen shared = (m, events, result))
    (hi : Inv { s.setStage t (afterSearch call result) with manager := m }) :
    Shared ⟨s, (.search t, events), { s.setStage t (afterSearch call result) with manager := m }⟩ ↔
      s.IdsLeft t := by
  have hevents (id : StoreId) : .invoked id ∉ events := by
    intro hm
    obtain ⟨k, st, heq, -⟩ := (ServerStoreManager.change_search h.manager searched).1.events _ hm
    cases heq
  constructor
  · intro hshared call' hstage
    obtain rfl := CallStage.searching.inj (stage.symm.trans hstage)
    by_contra hnot
    obtain ⟨hfound, hnext⟩ := not_or.mp hnot
    have herror := ServerStoreManager.search_of_exhausted h.manager (not_exists.mp hfound)
      (not_not.mp hnext) shared
    rw [searched] at herror
    obtain rfl : result = _ := herror
    exact hshared.searched t call none _ rfl (Function.update_self _ _ _)
  · intro hids
    refine ⟨fun id hm => (hevents id hm).elim, fun _ _ _ _ => hi.single_store,
      fun _ _ _ _ ha => (by cases ha), fun _ _ _ _ _ ha => (by cases ha), ?_⟩
    rintro t' call' reference result' ha hstage
    obtain rfl := Action.search.inj ha
    replace hstage : afterSearch call result = .leaving call' reference result' :=
      (Function.update_self _ _ _).symm.trans hstage
    rcases result with e | found
    · obtain ⟨hfound, hnext⟩ := ServerStoreManager.search_eq_error h.manager searched
      rcases hids call stage with ⟨k, hk⟩ | hk
      · exact hfound k hk
      · exact hk hnext
    · cases hstage

omit [DecidableEq T] in
theorem GuardedInv.inOrder_iff {reference id : StoreId} (h : GuardedInv s)
    (stage : s.stage t = .entering call reference id) : s.InOrder t ↔
      (s.manager.store reference = none → ¬ s.manager.Dormant reference →
        id ≠ invalidStoreId) := by
  have hknown := h.known t call reference id stage
  have hid : id = reference ↔ id ≠ invalidStoreId := by
    refine ⟨?_, fun hne => (hknown.id.resolve_left hne).1⟩
    rintro rfl
    exact (hknown.below.trans_le h.manager.bound).ne
  rw [← hid]
  refine ⟨fun ho => ho call reference id stage, fun ho call' reference' id' hs => ?_⟩
  obtain ⟨rfl, rfl, rfl⟩ := CallStage.entering.inj (stage.symm.trans hs)
  exact ho

theorem shared_enter_iff {reference id : StoreId} {provided : Bool} {m : ServerStoreManager}
    {events : List StoreEvent} {result : Option (Except StoreError Unit)} (h : GuardedInv s)
    (stage : s.stage t = .entering call reference id)
    (he : ServerStoreManager.Entered s.manager s.opened call.session call.name call.isOpen
      reference id provided m events result)
    (hi : Inv { s.setStage t (afterEnter call reference result) with
      manager := m, opened := openedAfter s.opened call.session reference result }) :
    Shared ⟨s, (.enter t provided, events), { s.setStage t (afterEnter call reference result) with
      manager := m, opened := openedAfter s.opened call.session reference result }⟩ ↔
      s.InOrder t := by
  have hknown := h.known t call reference id stage
  have hstage : (s.setStage t (afterEnter call reference result)).stage t =
      afterEnter call reference result := Function.update_self _ _ _
  rw [h.inOrder_iff stage]
  constructor
  · intro hshared empty awake
    apply hshared.valid
    cases he with
    | failed | created => exact List.mem_singleton.mpr rfl
    | retry _ dormant => exact (awake dormant).elim
    | refused st live | attachedTwice st live | attached st live => cases empty.symm.trans live
  · intro hid
    refine ⟨fun id' hm => ?_, fun _ _ _ _ => hi.single_store, ?_, ?_,
      fun _ _ _ _ ha => (by cases ha)⟩
    · cases he with
      | failed e empty awake | created empty awake =>
        obtain rfl := StoreEvent.invoked.inj (List.mem_singleton.mp hm)
        exact hid empty awake
      | retry | refused | attachedTwice | attached => cases hm
    · rintro t' provided' call' reference' ha hs
      obtain ⟨rfl, rfl⟩ := Action.enter.inj ha
      replace hs := hstage.symm.trans hs
      cases he with
      | retry | failed | refused | attachedTwice => cases hs
      | created empty awake success valid =>
        obtain ⟨rfl, href, -⟩ := CallStage.leaving.inj hs
        obtain rfl := Option.some.inj href
        refine ⟨_, ServerStoreManager.store_setReference_eq_some.mpr (.inl ⟨rfl, rfl⟩), rfl, ?_⟩
        exact List.mem_singleton.mpr rfl
      | attached st live new =>
        obtain ⟨rfl, href, -⟩ := CallStage.leaving.inj hs
        obtain rfl := Option.some.inj href
        refine ⟨_, ServerStoreManager.store_setReference_eq_some.mpr (.inl ⟨rfl, rfl⟩), ?_, ?_⟩
        · exact (h.manager.key reference st live).2.trans hknown.name
        · exact List.mem_append_right _ (List.mem_singleton.mpr rfl)
    · rintro t' provided' call' reference' e ha hs
      obtain ⟨rfl, rfl⟩ := Action.enter.inj ha
      replace hs := hstage.symm.trans hs
      cases he with
      | retry | created | attached => cases hs
      | failed e' empty awake reason =>
        obtain ⟨rfl, -⟩ := CallStage.leaving.inj hs
        exact .inl ⟨reason.resolve_right (hid empty awake), id, List.mem_singleton.mpr rfl⟩
      | refused st live awake create =>
        obtain ⟨rfl, -⟩ := CallStage.leaving.inj hs
        refine .inr ⟨create, reference, st, live, ?_, ?_⟩
        · exact (h.manager.key reference st live).2.trans hknown.name
        · rw [(h.manager.counted reference st live).references]
          exact mt (h.manager.dormant reference st live).mpr awake
      | attachedTwice st live held =>
        refine (h.closed t call ?_ reference held).elim
        rw [stage]
        rfl

theorem shared_iff_ordered_step {a : Action T × List StoreEvent} (h : GuardedInv s)
    (hs : GuardedStep s a s') : Shared ⟨s, a, s'⟩ ↔ s.Ordered a.1 := by
  have hi := (h.step hs).toInv
  cases hs.2 with
  | call idle =>
    exact iff_of_true (shared_of_other hi (by simp) (by simp) (by simp)) trivial
  | search stage owned searched => exact shared_search_iff h.toInv stage searched hi
  | enter stage entered =>
    exact shared_enter_iff h stage (ServerStoreManager.entered_of_eq h.manager entered) hi
  | ret stage => exact iff_of_true (shared_of_other hi (by simp) (by simp) (by simp)) trivial
  | close holds closed =>
    refine iff_of_true (shared_of_other hi (fun id hm => ?_) (by simp) (by simp)) trivial
    rcases ServerStoreManager.closeStore_spec h.manager holds _ _ with
      ⟨e, he⟩ | ⟨st, m', events', live, hok, hc⟩
    · cases closed.symm.trans he
    · obtain ⟨rfl, rfl⟩ := Prod.mk.inj (Except.ok.inj (closed.symm.trans hok))
      cases hc <;> simp at hm
  | closeThrew holds closed =>
    exact iff_of_true (shared_of_other hi (by simp) (by simp) (by simp)) trivial

/-- In a run, calls share the store of their path as long as none of them overtakes the call that
inserted its reference, and as long as there are ids. -/
theorem shared_iff_ordered {l : List (Taken (ManagerState T) (Action T × List StoreEvent))}
    (run : Run Initial GuardedStep l s) :
    (∀ x ∈ l, Shared x) ↔ ∀ x ∈ l, x.before.Ordered x.label.1 :=
  guarded_invariant.forall_iff (fun _ _ _ h hs => shared_iff_ordered_step h hs) run

theorem Step.guarded {a : Action T} {events : List StoreEvent} (step : Step s (a, events) s')
    (guard : s.Guarded a) : GuardedStep s (a, events) s' :=
  ⟨guard, step⟩

/-- Two sessions create the store of a path, and the second one overtakes the first one. -/
theorem exists_run_overtaken :
    ∃ (l : List (Taken (ManagerState Bool) (Action Bool × List StoreEvent)))
      (s : ManagerState Bool), Run Initial GuardedStep l s ∧
      ∃ x ∈ l, .invoked invalidStoreId ∈ x.label.2 := by
  have start : Run (Initial (T := Bool)) GuardedStep [] ⟨.new 1, fun _ => .idle, fun _ => []⟩ :=
    .start ⟨1, rfl⟩
  have call₁ := start.step ((@Step.call Bool _ _ true ⟨1, "store", false⟩ rfl).guarded
    ⟨by simp, by simp [CallStage.call?]⟩)
  have call₂ := call₁.step ((@Step.call Bool _ _ false ⟨2, "store", false⟩ rfl).guarded
    ⟨by simp [setStage], by simp [setStage, CallStage.call?]⟩)
  have search₁ := call₂.step ((@Step.search Bool _ _ true _ (fun _ => false) _ _ _ rfl
    (fun k => by simp [setStage, CallStage.Holds]) rfl).guarded trivial)
  have search₂ := search₁.step (Step.guarded (@Step.search Bool _ _ false _ (fun k => 0 = k) _ _ _
    rfl (fun k => ⟨fun h => ⟨true, show 0 = k from of_decide_eq_true h⟩, fun ⟨t, h⟩ => by
      cases t
      · exact h.elim
      · exact decide_eq_true (show 0 = k from h)⟩) rfl) trivial)
  have enter₂ := search₂.step
    ((@Step.enter Bool _ _ false _ _ _ true _ _ _ rfl rfl).guarded trivial)
  exact ⟨_, _, enter₂, _, List.mem_cons_self, List.mem_cons_self⟩

theorem not_shared_of_overtaken :
    ¬ ∀ (l : List (Taken (ManagerState Bool) (Action Bool × List StoreEvent)))
      (s : ManagerState Bool), Run Initial GuardedStep l s → ∀ x ∈ l, Shared x := by
  intro hall
  obtain ⟨l, s, run, x, hx, hm⟩ := exists_run_overtaken
  exact (hall l s run x hx).valid _ hm rfl

/-- A session opens the store of a path while another one creates it. Its call finds the empty
reference, and enters it after the store is there. -/
theorem exists_run_overlapping :
    ∃ (l : List (Taken (ManagerState Bool) (Action Bool × List StoreEvent)))
      (s : ManagerState Bool), Run Initial GuardedStep l s ∧
      (∀ x ∈ l, x.before.Ordered x.label.1) ∧ s.Attached ⟨1, "store", false⟩ 0 ∧
      s.Attached ⟨2, "store", true⟩ 0 := by
  have start : Run (Initial (T := Bool)) GuardedStep [] ⟨.new 1, fun _ => .idle, fun _ => []⟩ :=
    .start ⟨1, rfl⟩
  have call₁ := start.step ((@Step.call Bool _ _ true ⟨1, "store", false⟩ rfl).guarded
    ⟨by simp, by simp [CallStage.call?]⟩)
  have call₂ := call₁.step ((@Step.call Bool _ _ false ⟨2, "store", true⟩ rfl).guarded
    ⟨by simp [setStage], by simp [setStage, CallStage.call?]⟩)
  have search₁ := call₂.step ((@Step.search Bool _ _ true _ (fun _ => false) _ _ _ rfl
    (fun k => by simp [setStage, CallStage.Holds]) rfl).guarded trivial)
  have search₂ := search₁.step (Step.guarded (@Step.search Bool _ _ false _ (fun k => 0 = k) _ _ _
    rfl (fun k => ⟨fun h => ⟨true, show 0 = k from of_decide_eq_true h⟩, fun ⟨t, h⟩ => by
      cases t
      · exact h.elim
      · exact decide_eq_true (show 0 = k from h)⟩) rfl) trivial)
  have enter₁ := search₂.step
    ((@Step.enter Bool _ _ true _ _ _ true _ _ _ rfl rfl).guarded trivial)
  have enter₂ := enter₁.step
    ((@Step.enter Bool _ _ false _ _ _ true _ _ _ rfl rfl).guarded trivial)
  refine ⟨_, _, enter₂, ?_, ⟨⟨0, "store", 3, [1, 2]⟩, rfl, rfl, by decide⟩,
    ⟨0, "store", 3, [1, 2]⟩, rfl, rfl, by decide⟩
  simp only [List.forall_mem_cons]
  refine ⟨?_, ?_, ?_, ?_, trivial, trivial, fun x hx => by cases hx⟩
  · intro call' reference id hs empty
    obtain ⟨-, rfl, -⟩ := CallStage.entering.inj hs
    cases empty
  · intro call' reference id hs _ _
    exact (CallStage.entering.inj hs).2.2.symm.trans (CallStage.entering.inj hs).2.1
  · exact fun call' hs => .inr (by decide)
  · exact fun call' hs => .inr (by decide)

theorem shared_iff_ordered_overlapping :
    ∃ (l : List (Taken (ManagerState Bool) (Action Bool × List StoreEvent)))
      (s : ManagerState Bool), s.Attached ⟨1, "store", false⟩ 0 ∧
      s.Attached ⟨2, "store", true⟩ 0 ∧ ∀ x ∈ l, Shared x :=
  let ⟨l, s, run, ordered, creates, opens⟩ := exists_run_overlapping
  ⟨l, s, creates, opens, (shared_iff_ordered run).mpr ordered⟩

end ManagerState

end Simutrace.Manager
