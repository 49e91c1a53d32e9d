import Simutrace.Manager.Sections

/-! # The invariant of the calls

Each store has one reference for each session that has it open. A call that is
about to create a store is the only one with the id of the store, and the
reference of the store has been empty since it was inserted.
-/

namespace Simutrace.Manager

open ServerStore (others)
open ManagerState (openedAfter)

namespace ServerStoreManager

variable {m m' : ServerStoreManager} {opened : StoreId → List SessionId} {k id : StoreId}
  {reference : StoreId} {st : ServerStore} {session : SessionId} {name : String}
  {isOpen provided : Bool} {events : List StoreEvent} {result : Option (Except StoreError Unit)}
  {ref : ServerStoreReference} {time : ℕ}

structure Known (m : ServerStoreManager) (name : String) (reference id : StoreId) : Prop where
  below : reference < m.nextId
  name : (m.references reference).name = name
  id : id = invalidStoreId ∨ id = reference ∧ m.Pending reference

/-- The references keep their names, and those of other calls stay empty. -/
structure Frame (m : ServerStoreManager) (changed : StoreId → Prop) (m' : ServerStoreManager) :
    Prop where
  nextId : m.nextId ≤ m'.nextId
  name : ∀ k < m.nextId, (m'.references k).name = (m.references k).name
  pending : ∀ k, ¬ changed k → m.Pending k → m'.Pending k

theorem Frame.refl (changed : StoreId → Prop) : Frame m changed m :=
  ⟨le_rfl, fun _ _ => rfl, fun _ _ hp => hp⟩

theorem Change.frame (h : Change opened m events m') : Frame m (fun _ => False) m' :=
  ⟨h.nextId, h.name, fun k _ hp => h.pending k hp⟩

theorem frame_setReference (hname : ref.name = (m.references id).name) :
    Frame m (· = id) (m.setReference id ref) := by
  refine ⟨le_rfl, fun k _ => name_setReference hname k, fun k hk hp => ⟨hp.1, ?_, fun hd => ?_⟩⟩
  · rw [store_setReference, Function.update_of_ne hk]
    exact hp.2.1
  · exact hp.2.2 (mt (dormant_setReference_of_ne hk).mpr hd)

theorem Known.of_frame {changed : StoreId → Prop} (h : m.Known name reference id)
    (hf : Frame m changed m') (hid : id = reference → ¬ changed reference) :
    m'.Known name reference id where
  below := h.below.trans_le hf.nextId
  name := (hf.name _ h.below).trans h.name
  id := h.id.imp_right fun ⟨heq, hp⟩ => ⟨heq, hf.pending _ (hid heq) hp⟩

/-- Only a call with the id of an empty reference, and a session that attaches, change more than
marking a reference invalid. -/
theorem Entered.frame (h : Entered m opened session name isOpen reference id provided m' events
    result) : Frame m (fun k => k = reference ∧ id ≠ invalidStoreId) m' := by
  cases h with
  | retry | refused | attachedTwice => exact .refl _
  | failed e empty awake reason =>
    have hf : Frame m (· = reference) (m.setReference reference
        { m.references reference with dormant := true }) := frame_setReference rfl
    refine ⟨hf.nextId, hf.name, fun k _ hp => ?_⟩
    by_cases hne : k = reference
    · subst hne
      refine ⟨hp.1, ?_, fun hd => (hd (dormant_setReference_self.mpr rfl)).elim⟩
      rw [store_setReference, Function.update_self]
      exact empty
    · exact hf.pending k hne hp
  | created empty awake success valid =>
    have hf : Frame m (· = reference) (m.setReference reference
        { m.references reference with store := some ⟨id, name, 2, [session]⟩ }) :=
      frame_setReference rfl
    exact ⟨hf.nextId, hf.name, fun k hk hp => hf.pending k (fun hne => hk ⟨hne, valid⟩) hp⟩
  | attached st live new =>
    have hf : Frame m (· = reference) (m.setReference reference { m.references reference with
        store := some { st with
          referenceCount := st.referenceCount + 1
          references := opened reference ++ [session] }
        dormant := false }) := frame_setReference rfl
    refine ⟨hf.nextId, hf.name, fun k _ hp => hf.pending k ?_ hp⟩
    rintro rfl
    cases hp.2.1.symm.trans live

theorem Entered.inv (h : m.Inv opened) (known : m.Known name reference id)
    (he : Entered m opened session name isOpen reference id provided m' events result) :
    m'.Inv (openedAfter opened session reference result) := by
  cases he with
  | retry | refused | attachedTwice => exact h
  | failed e empty awake reason =>
    refine h.setReference rfl (fun _ _ => rfl) (fun _ => h.unopened _ empty) fun st hst => ?_
    cases empty.symm.trans hst
  | created empty awake success valid =>
    obtain ⟨rfl, hp⟩ := known.id.resolve_left valid
    have hnone := h.unopened _ empty
    refine h.setReference rfl (fun k hk => Function.update_of_ne hk _ _) (fun hst => by cases hst)
      fun st hst => ?_
    obtain rfl := Option.some.inj hst
    rw [openedAfter, Function.update_self, hnone]
    refine ⟨hp.2.2 awake, rfl, known.name.symm, ⟨rfl, rfl, List.pairwise_singleton _ _⟩, ?_⟩
    exact iff_of_false awake (List.cons_ne_nil _ _)
  | attached st live new =>
    refine h.setReference rfl (fun k hk => Function.update_of_ne hk _ _) (fun hst => by cases hst)
      fun st' hst => ?_
    obtain rfl := Option.some.inj hst
    rw [openedAfter, Function.update_self]
    obtain ⟨hid, hname⟩ := h.key _ st live
    refine ⟨h.listed _ st live, hid, hname, (h.counted _ st live).append new, ?_⟩
    exact iff_of_false Bool.false_ne_true (List.append_ne_nil_of_right_ne_nil _ (by simp))

theorem dropStore_setReference : (m.setReference id ref).dropStore id =
    (m.setReference id { ref with store := none }).eraseReference id := by
  simp [dropStore, setReference]

theorem Closed.frame (live : m.store id = some st)
    (hc : Closed m (opened id) session id st time m' events) : Frame m (fun _ => False) m' := by
  have hne {k : StoreId} (hp : m.Pending k) : k ≠ id := by
    rintro rfl
    cases hp.2.1.symm.trans live
  have hframe {ref : ServerStoreReference} (hname : ref.name = (m.references id).name) :
      Frame m (fun _ => False) (m.setReference id ref) :=
    ⟨le_rfl, (frame_setReference hname).name, fun k _ hp =>
      (frame_setReference hname).pending k (hne hp) hp⟩
  cases hc with
  | left | slept => exact hframe rfl
  | released last =>
    rw [dropStore_setReference]
    have hf : Frame m (fun _ => False) (m.setReference id
        { m.references id with store := none }) := hframe rfl
    refine ⟨le_rfl, hf.name, fun k hk hp => ?_⟩
    have hp' := hf.pending k hk hp
    exact ⟨hp'.1, hp'.2.1, fun hd => mem_stores_eraseReference.mpr ⟨hp'.2.2 hd, hne hp⟩⟩

theorem Closed.inv (h : m.Inv opened) (live : m.store id = some st) (holds : session ∈ opened id)
    (hc : Closed m (opened id) session id st time m' events) :
    m'.Inv (Function.update opened id (others session (opened id))) := by
  obtain ⟨hid, hname⟩ := h.key _ st live
  have hcounted := (h.counted _ st live).detached holds
  have hsome {dormant : Bool} {dormantTime : ℕ}
      (hd : dormant = true ↔ others session (opened id) = []) :
      (m.setReference id { m.references id with
        store := some (st.detached session (opened id))
        dormant := dormant
        dormantTime := dormantTime }).Inv
          (Function.update opened id (others session (opened id))) := by
    refine h.setReference rfl (fun k hk => Function.update_of_ne hk _ _) (fun hst => by cases hst)
      fun st' hst => ?_
    obtain rfl := Option.some.inj hst
    rw [Function.update_self]
    exact ⟨h.listed _ st live, hid, hname, hcounted, hd⟩
  cases hc with
  | left several =>
    refine hsome (iff_of_false (fun hd => ?_) several)
    rw [(h.dormant id st live).mp hd] at holds
    cases holds
  | slept last => exact hsome (iff_of_true rfl last)
  | released last =>
    rw [dropStore_setReference]
    refine Inv.eraseReference (h.setReference rfl (fun k hk => Function.update_of_ne hk _ _)
      (fun _ => ?_) fun st' hst => by cases hst) ?_
    · rw [Function.update_self]
      exact last
    · rw [store_setReference, Function.update_self]

end ServerStoreManager

namespace ManagerState

variable {T : Type*} [DecidableEq T] {s s' : ManagerState T} {t t' : T} {call : StoreCall}
  {stage : CallStage}

/-- Calls know their references, and only one of them may create the store of a reference. -/
structure Inv (s : ManagerState T) : Prop where
  manager : s.manager.Inv s.opened
  known : ∀ t call reference id, s.stage t = .entering call reference id →
    s.manager.Known call.name reference id
  single : ∀ t t' call call' k, s.stage t = .entering call k k → s.stage t' = .entering call' k k →
    t = t'

theorem stage_setStage : (s.setStage t stage).stage = Function.update s.stage t stage := rfl

omit [DecidableEq T] in
theorem Initial.inv (h : Initial s) : Inv s := by
  obtain ⟨persistentCache, rfl⟩ := h
  exact ⟨.new persistentCache, fun t call reference id hs => (by cases hs),
    fun t t' call call' k hs => (by cases hs)⟩

/-- A thread moves on, to a reference that it may be the only one to know with its id. -/
theorem Inv.move {m : ServerStoreManager} {opened : StoreId → List SessionId}
    {changed : StoreId → Prop} (h : Inv s) (hm : m.Inv opened)
    (hf : ServerStoreManager.Frame s.manager changed m)
    (hchanged : ∀ t' call, t' ≠ t → ∀ k, s.stage t' = .entering call k k → ¬ changed k)
    (hstage : ∀ call k id, stage = .entering call k id → m.Known call.name k id ∧
      ∀ t' call', t' ≠ t → s.stage t' = .entering call' k k → k ≠ id) :
    Inv { s.setStage t stage with manager := m, opened := opened } where
  manager := hm
  known t' call reference id hs := by
    dsimp only [stage_setStage] at hs
    by_cases ht : t' = t
    · subst ht
      rw [Function.update_self] at hs
      exact (hstage call reference id hs).1
    · rw [Function.update_of_ne ht] at hs
      refine (h.known t' call reference id hs).of_frame hf fun hid => ?_
      exact hchanged t' call ht reference (hid ▸ hs)
  single t₁ t₂ call₁ call₂ k hs₁ hs₂ := by
    dsimp only [stage_setStage] at hs₁ hs₂
    by_cases h₁ : t₁ = t <;> by_cases h₂ : t₂ = t
    · exact h₁.trans h₂.symm
    · subst h₁
      rw [Function.update_self] at hs₁
      rw [Function.update_of_ne h₂] at hs₂
      exact ((hstage call₁ k k hs₁).2 t₂ call₂ h₂ hs₂ rfl).elim
    · subst h₂
      rw [Function.update_self] at hs₂
      rw [Function.update_of_ne h₁] at hs₁
      exact ((hstage call₂ k k hs₂).2 t₁ call₁ h₁ hs₁ rfl).elim
    · rw [Function.update_of_ne h₁] at hs₁
      rw [Function.update_of_ne h₂] at hs₂
      exact h.single t₁ t₂ call₁ call₂ k hs₁ hs₂

theorem Inv.begin (h : Inv s) (t : T) (call : StoreCall) :
    Inv (s.setStage t (.searching call)) :=
  h.move h.manager (.refl fun _ => False) (fun _ _ _ _ _ => id) fun call k id hs => by cases hs

theorem Inv.search {shared : StoreId → Bool} {m : ServerStoreManager} {events : List StoreEvent}
    {result : Except StoreError (StoreId × StoreId)} (h : Inv s)
    (searched : s.manager.search call.name call.isOpen shared = (m, events, result)) (t : T) :
    Inv { s.setStage t (afterSearch call result) with manager := m } := by
  obtain ⟨hc, ho⟩ := ServerStoreManager.change_search h.manager searched
  refine h.move hc.inv hc.frame (fun _ _ _ _ _ => id) fun call' k id hs => ?_
  cases result with
  | error e => cases hs
  | ok found =>
    obtain ⟨reference, id'⟩ := found
    obtain ⟨rfl, rfl, rfl⟩ := CallStage.entering.inj hs
    obtain ⟨hbelow, hname, hid⟩ := ho
    refine ⟨⟨hbelow, hname, hid.imp_right fun h => ⟨h.1, h.2.2⟩⟩, fun t' call' ht hs' => ?_⟩
    have hknown := (h.known t' call' reference reference hs').below
    rcases hid with rfl | ⟨rfl, hnew, -⟩
    · exact (hknown.trans_le h.manager.bound).ne
    · exact (hknown.ne hnew).elim

theorem Inv.enter {reference id : StoreId} {provided : Bool} {m : ServerStoreManager}
    {events : List StoreEvent} {result : Option (Except StoreError Unit)} (h : Inv s)
    (stage : s.stage t = .entering call reference id)
    (entered : s.manager.enterReference call.session call.name call.isOpen reference id provided =
      (m, events, result)) :
    Inv { s.setStage t (afterEnter call reference result) with
      manager := m, opened := openedAfter s.opened call.session reference result } := by
  have he := ServerStoreManager.entered_of_eq h.manager entered
  have hknown := h.known t call reference id stage
  refine h.move (he.inv h.manager hknown) he.frame ?_ ?_
  · rintro t' call' ht k hs ⟨rfl, hid⟩
    obtain ⟨rfl, -⟩ := hknown.id.resolve_left hid
    exact ht (h.single t' t call' call _ hs stage)
  · intro call' k id' hs
    rcases result with - | result <;> cases hs

omit [DecidableEq T] in
theorem Inv.close {session : SessionId} {id : StoreId} {throws : Bool} {time : ℕ}
    {m : ServerStoreManager} {events : List StoreEvent} (h : Inv s)
    (holds : session ∈ s.opened id)
    (closed : s.manager.closeStore session id throws time = .ok (m, events)) :
    Inv { s with
      manager := m
      opened := Function.update s.opened id (others session (s.opened id)) } := by
  rcases ServerStoreManager.closeStore_spec h.manager holds throws time with
    ⟨e, he⟩ | ⟨st, m', events', live, hok, hc⟩
  · cases closed.symm.trans he
  · obtain ⟨rfl, rfl⟩ := Prod.mk.inj (Except.ok.inj (closed.symm.trans hok))
    exact ⟨hc.inv h.manager live holds,
      fun t call reference id hs => (h.known t call reference id hs).of_frame (hc.frame live)
        fun _ => not_false, h.single⟩

theorem Inv.step {a : Action T × List StoreEvent} (h : Inv s) (hs : Step s a s') : Inv s' := by
  cases hs with
  | call idle => exact h.begin _ _
  | search stage owned searched => exact h.search searched _
  | enter stage entered => exact h.enter stage entered
  | ret stage =>
    exact h.move h.manager (.refl fun _ => False) (fun _ _ _ _ _ => id)
      fun call k id hs => by cases hs
  | close holds closed => exact h.close holds closed
  | closeThrew holds closed => exact h

theorem invariant : Transition.Invariant (Initial (T := T)) Step Inv :=
  ⟨fun _ h => h.inv, fun _ _ _ h hs => h.step hs⟩

end ManagerState

end Simutrace.Manager
