import Simutrace.Manager.Counting
import Simutrace.Session.Lifetime

/-! # Sessions at the store manager

The manager has a session on the list of a store as long as the session refers to
the store, or its call has been answered and not returned yet. Each operation of a
session keeps this, as long as no other worker of the session calls the manager.
-/

namespace Simutrace.Sessions

open Manager (StoreId StoreCall StoreError CallStage ManagerState)
open Manager.ManagerState (openedAfter afterSearch afterEnter)
open Transition (Run Taken Reachable)

variable {W : Type*} {stores stores' : ManagerState W} {opening : W → Option SessionId}
  {store : SessionId → Option StoreId} {w : W} {id : SessionId} {k : StoreId}

/-- A call has opened a store for a session that does not know it yet. -/
def Answered (stores : ManagerState W) (opening : W → Option SessionId) (id : SessionId)
    (k : StoreId) : Prop :=
  ∃ w call, opening w = some id ∧ stores.stage w = .leaving call (some k) (.ok ())

/-- The sessions, with the one that each worker opens a store for and the store of each, agree with
the manager. -/
structure Attachment (stores : ManagerState W) (opening : W → Option SessionId)
    (store : SessionId → Option StoreId) [DecidableEq W] : Prop where
  reachable : Reachable ManagerState.Initial ManagerState.Step stores
  idle : ∀ w, opening w = none → stores.stage w = .idle
  call : ∀ w id, opening w = some id →
    ∃ call, (stores.stage w).call? = some call ∧ call.session = id
  exclusive : ∀ w w' id, opening w = some id → opening w' = some id → w = w'
  free : ∀ w id, opening w = some id → store id = none
  referred : ∀ w call, stores.stage w ≠ .leaving call none (.ok ())
  opened : ∀ id k, id ∈ stores.opened k ↔ store id = some k ∨ Answered stores opening id k

variable [DecidableEq W]

theorem Reachable.step {stores stores' : ManagerState W}
    {a : Manager.Action W × List Manager.StoreEvent}
    (h : Reachable ManagerState.Initial ManagerState.Step stores)
    (step : ManagerState.Step stores a stores') :
    Reachable ManagerState.Initial ManagerState.Step stores' :=
  let ⟨_, run⟩ := h
  ⟨_, run.step step⟩

theorem Attachment.inv (h : Attachment stores opening store) : stores.Inv :=
  let ⟨_, run⟩ := h.reachable
  ManagerState.invariant.run run

theorem call?_setStage {stage : CallStage} {call : StoreCall} {w' : W}
    (hstage : stage.call? = some call) (hsession : opening w = some call.session)
    (hopening : opening w' = some id)
    (h : w' ≠ w → ∃ call, (stores.stage w').call? = some call ∧ call.session = id) :
    ∃ call, (Function.update stores.stage w stage w').call? = some call ∧ call.session = id := by
  by_cases hw : w' = w
  · subst hw
    rw [Function.update_self]
    exact ⟨call, hstage, Option.some.inj (hsession.symm.trans hopening)⟩
  · rw [Function.update_of_ne hw]
    exact h hw

theorem answered_setStage_iff {stage : CallStage} (hstores : stores'.stage =
      Function.update stores.stage w stage)
    (hbefore : ∀ call k, stores.stage w ≠ .leaving call (some k) (.ok ()))
    (hafter : ∀ call k, stage ≠ .leaving call (some k) (.ok ())) :
    Answered stores' opening id k ↔ Answered stores opening id k := by
  refine exists_congr fun v => exists_congr fun call => and_congr_right fun _ => ?_
  rw [hstores]
  by_cases hv : v = w
  · subst hv
    rw [Function.update_self]
    exact iff_of_false (hafter call k) (hbefore call k)
  · rw [Function.update_of_ne hv]

theorem Attachment.goOn {stage : CallStage} {call : StoreCall}
    {a : Manager.Action W × List Manager.StoreEvent} (h : Attachment stores opening store)
    (step : ManagerState.Step stores a stores') (hopening : opening w = some call.session)
    (hstores : stores'.stage = Function.update stores.stage w stage)
    (hopened : stores'.opened = stores.opened) (hstage : stage.call? = some call)
    (hbefore : ∀ call k, stores.stage w ≠ .leaving call (some k) (.ok ()))
    (hafter : ∀ call reference, stage ≠ .leaving call reference (.ok ())) :
    Attachment stores' opening store where
  reachable := Reachable.step h.reachable step
  idle v hv := by
    rw [hstores, Function.update_of_ne (fun he => by cases (he ▸ hv).symm.trans hopening)]
    exact h.idle v hv
  call v id hv := by
    rw [hstores]
    exact call?_setStage hstage hopening hv fun _ => h.call v id hv
  exclusive := h.exclusive
  free := h.free
  referred v call := by
    rw [hstores]
    by_cases hv : v = w
    · subst hv
      rw [Function.update_self]
      exact hafter call none
    · rw [Function.update_of_ne hv]
      exact h.referred v call
  opened id k := by
    rw [hopened, h.opened, answered_setStage_iff hstores hbefore fun call k => hafter call (some k)]

theorem Attachment.beginCall (name : String) (isOpen : Bool) (h : Attachment stores opening store)
    (hopening : opening w = none) (hfree : ∀ w, opening w ≠ some id) (hstore : store id = none) :
    Attachment (stores.setStage w (.searching ⟨id, name, isOpen⟩))
      (Function.update opening w (some id)) store := by
  have hidle := h.idle w hopening
  have hcases {v : W} {k : SessionId} (hv : Function.update opening w (some id) v = some k) :
      v = w ∧ k = id ∨ v ≠ w ∧ opening v = some k := by
    by_cases hne : v = w
    · subst hne
      rw [Function.update_self] at hv
      exact .inl ⟨rfl, (Option.some.inj hv).symm⟩
    · exact .inr ⟨hne, by rwa [Function.update_of_ne hne] at hv⟩
  refine ⟨Reachable.step h.reachable (.call hidle), fun v hv => ?_, fun v k hv => ?_,
    fun v v' k hv hv' => ?_, fun v k hv => ?_, fun v call => ?_, fun k k' => ?_⟩
  · have hne : v ≠ w := fun he => by
      subst he
      rw [Function.update_self] at hv
      cases hv
    rw [ManagerState.stage_setStage, Function.update_of_ne hne]
    exact h.idle v (by rwa [Function.update_of_ne hne] at hv)
  · rw [ManagerState.stage_setStage]
    rcases hcases hv with ⟨rfl, rfl⟩ | ⟨hne, hv⟩
    · rw [Function.update_self]
      exact ⟨_, rfl, rfl⟩
    · rw [Function.update_of_ne hne]
      exact h.call v k hv
  · rcases hcases hv with ⟨rfl, rfl⟩ | ⟨-, hk⟩ <;> rcases hcases hv' with ⟨rfl, hid⟩ | ⟨-, hk'⟩
    · rfl
    · exact (hfree v' hk').elim
    · exact (hfree v (hid ▸ hk)).elim
    · exact h.exclusive v v' k hk hk'
  · rcases hcases hv with ⟨-, rfl⟩ | ⟨-, hv⟩
    · exact hstore
    · exact h.free v k hv
  · rw [ManagerState.stage_setStage]
    by_cases hne : v = w
    · subst hne
      rw [Function.update_self]
      exact nofun
    · rw [Function.update_of_ne hne]
      exact h.referred v call
  · refine (h.opened k k').trans (or_congr_right ?_)
    refine exists_congr fun v => exists_congr fun call => ?_
    rw [ManagerState.stage_setStage]
    by_cases hne : v = w
    · subst hne
      rw [Function.update_self, Function.update_self, hidle]
      exact iff_of_false (fun hv => nomatch hv.2) fun hv => nomatch hv.2
    · rw [Function.update_of_ne hne, Function.update_of_ne hne]

theorem Attachment.search {events : List Manager.StoreEvent} (h : Attachment stores opening store)
    (hopening : opening w = some id)
    (searched : ManagerState.Step stores (.search w, events) stores') :
    Attachment stores' opening store := by
  have step := searched
  obtain ⟨call, hcall, rfl⟩ := h.call w id hopening
  cases searched with
  | @search _ _ _ _ _ result stage owned searched =>
    obtain rfl := Option.some.inj ((congrArg CallStage.call? stage).symm.trans hcall)
    refine h.goOn step hopening rfl rfl ?_ (fun _ _ hs => by cases stage.symm.trans hs)
      fun _ _ hs => ?_
    · cases result <;> rfl
    · cases result <;> cases hs

theorem Attachment.answer {call : StoreCall} {a : Manager.Action W × List Manager.StoreEvent}
    (h : Attachment stores opening store) (step : ManagerState.Step stores a stores')
    (hopening : opening w = some call.session)
    (hstores : stores'.stage = Function.update stores.stage w (.leaving call (some k) (.ok ())))
    (hbefore : ∀ call k, stores.stage w ≠ .leaving call (some k) (.ok ()))
    (hopened : stores'.opened =
      Function.update stores.opened k (stores.opened k ++ [call.session])) :
    Attachment stores' opening store where
  reachable := Reachable.step h.reachable step
  idle v hv := by
    rw [hstores, Function.update_of_ne (fun he => by cases (he ▸ hv).symm.trans hopening)]
    exact h.idle v hv
  call v id hv := by
    rw [hstores]
    exact call?_setStage rfl hopening hv fun _ => h.call v id hv
  exclusive := h.exclusive
  free := h.free
  referred v call := by
    rw [hstores]
    by_cases hv : v = w
    · subst hv
      rw [Function.update_self]
      exact nofun
    · rw [Function.update_of_ne hv]
      exact h.referred v call
  opened id k' := by
    have hanswered : Answered stores' opening id k' ↔
        Answered stores opening id k' ∨ id = call.session ∧ k' = k := by
      constructor
      · rintro ⟨v, call', hv, hstage⟩
        rw [hstores] at hstage
        by_cases hne : v = w
        · subst hne
          rw [Function.update_self] at hstage
          cases hstage
          exact .inr ⟨Option.some.inj (hv.symm.trans hopening), rfl⟩
        · rw [Function.update_of_ne hne] at hstage
          exact .inl ⟨v, call', hv, hstage⟩
      · rintro (⟨v, call', hv, hstage⟩ | ⟨rfl, rfl⟩)
        · refine ⟨v, call', hv, ?_⟩
          have hne : v ≠ w := fun he => hbefore call' k' (he ▸ hstage)
          rwa [hstores, Function.update_of_ne hne]
        · exact ⟨w, call, hopening, by rw [hstores, Function.update_self]⟩
    rw [hanswered, ← or_assoc, ← h.opened, hopened]
    by_cases hk : k' = k
    · subst hk
      rw [Function.update_self, List.mem_append, List.mem_singleton]
      exact or_congr_right (and_iff_left rfl).symm
    · rw [Function.update_of_ne hk]
      exact (or_iff_left fun he => hk he.2).symm

theorem Attachment.enter {provided : Bool} {events : List Manager.StoreEvent}
    (h : Attachment stores opening store) (hopening : opening w = some id)
    (entered : ManagerState.Step stores (.enter w provided, events) stores') :
    Attachment stores' opening store := by
  have step := entered
  obtain ⟨call, hcall, rfl⟩ := h.call w id hopening
  cases entered with
  | @enter _ call' reference _ _ m _ result stage =>
    obtain rfl := Option.some.inj ((congrArg CallStage.call? stage).symm.trans hcall)
    have hbefore (call : StoreCall) (k : StoreId) :
        stores.stage w ≠ .leaving call (some k) (.ok ()) := fun hs => by cases stage.symm.trans hs
    cases result with
    | none => exact h.goOn step hopening rfl rfl rfl hbefore nofun
    | some result =>
      cases result with
      | error e => exact h.goOn step hopening rfl rfl rfl hbefore nofun
      | ok opened => exact h.answer step hopening rfl hbefore rfl

theorem Attachment.returnCall {call : StoreCall} {reference : Option StoreId}
    {result : Except StoreError Unit} (h : Attachment stores opening store)
    (hopening : opening w = some id) (stage : stores.stage w = .leaving call reference result) :
    Attachment (stores.setStage w .idle) (Function.update opening w none)
      (Function.update store id (System.storeAfter reference result)) := by
  have hone {v : W} {k : SessionId} (hv : Function.update opening w none v = some k) :
      v ≠ w ∧ opening v = some k := by
    have hne : v ≠ w := fun he => by
      subst he
      rw [Function.update_self] at hv
      cases hv
    exact ⟨hne, by rwa [Function.update_of_ne hne] at hv⟩
  have hne_id {v : W} {k : SessionId} (hv : Function.update opening w none v = some k) :
      k ≠ id := fun he => (hone hv).1 (h.exclusive v w id (he ▸ (hone hv).2) hopening)
  refine ⟨Reachable.step h.reachable (.ret stage), fun v hv => ?_, fun v k hv => ?_,
    fun v v' k hv hv' => h.exclusive v v' k (hone hv).2 (hone hv').2, fun v k hv => ?_,
    fun v call => ?_, fun k k' => ?_⟩
  · rw [ManagerState.stage_setStage]
    by_cases hne : v = w
    · rw [hne, Function.update_self]
    · rw [Function.update_of_ne hne]
      exact h.idle v (by rwa [Function.update_of_ne hne] at hv)
  · rw [ManagerState.stage_setStage, Function.update_of_ne (hone hv).1]
    exact h.call v k (hone hv).2
  · rw [Function.update_of_ne (hne_id hv)]
    exact h.free v k (hone hv).2
  · rw [ManagerState.stage_setStage]
    by_cases hne : v = w
    · rw [hne, Function.update_self]
      exact nofun
    · rw [Function.update_of_ne hne]
      exact h.referred v call
  · have hanswered : Answered (stores.setStage w .idle) (Function.update opening w none) k k' ↔
        k ≠ id ∧ Answered stores opening k k' := by
      constructor
      · rintro ⟨v, call', hv, hstage⟩
        rw [ManagerState.stage_setStage, Function.update_of_ne (hone hv).1] at hstage
        exact ⟨hne_id hv, v, call', (hone hv).2, hstage⟩
      · rintro ⟨hk, v, call', hv, hstage⟩
        have hne : v ≠ w := fun he => hk (Option.some.inj (hv.symm.trans (he ▸ hopening)))
        refine ⟨v, call', by rwa [Function.update_of_ne hne], ?_⟩
        rwa [ManagerState.stage_setStage, Function.update_of_ne hne]
    refine (h.opened k k').trans ?_
    rw [hanswered]
    by_cases hk : k = id
    · subst hk
      rw [Function.update_self, h.free w k hopening]
      constructor
      · rintro (hnone | ⟨v, call', hv, hstage⟩)
        · cases hnone
        · rw [h.exclusive v w k hv hopening, stage] at hstage
          cases hstage
          exact .inl rfl
      · rintro (hstore | ⟨hne, -⟩)
        · cases result with
          | error e => cases hstore
          | ok opened =>
            refine .inr ⟨w, call, hopening, ?_⟩
            rw [stage]
            exact congrArg (CallStage.leaving call · (.ok ())) hstore
        · exact (hne rfl).elim
    · rw [Function.update_of_ne hk, and_iff_right hk]

theorem Attachment.closeStore (h : Attachment stores opening store)
    (hfree : ∀ w, opening w ≠ some id)
    (closes : System.ClosesStore id stores (store id) stores') :
    Attachment stores' opening (Function.update store id none) := by
  generalize hstore : store id = before at closes
  cases closes with
  | none =>
    rw [← hstore, Function.update_eq_self]
    exact h
  | @some k throws time m events closed =>
    have hholds : id ∈ stores.opened k := (h.opened id k).mpr (.inl hstore)
    refine ⟨Reachable.step h.reachable (.close hholds closed), h.idle, h.call, h.exclusive,
      fun v id' hv => ?_, h.referred, fun id' k' => ?_⟩
    · have hne : id' ≠ id := fun he => hfree v (he ▸ hv)
      rw [Function.update_of_ne hne]
      exact h.free v id' hv
    · have hopened := h.opened id' k'
      have hanswered : Answered { stores with
          manager := m
          opened := Function.update stores.opened k ((stores.opened k).filter (· ≠ id)) }
          opening id' k' ↔ Answered stores opening id' k' := Iff.rfl
      rw [hanswered]
      dsimp only
      by_cases hid : id' = id
      · subst hid
        have hnone : ¬ Answered stores opening id' k' := fun ⟨v, _, hv, _⟩ => hfree v hv
        rw [or_iff_left hnone] at hopened ⊢
        rw [Function.update_self]
        refine iff_of_false (fun hmem => ?_) nofun
        by_cases hk : k' = k
        · subst hk
          rw [Function.update_self] at hmem
          simp at hmem
        · rw [Function.update_of_ne hk, hopened, hstore] at hmem
          exact hk (Option.some.inj hmem).symm
      · rw [Function.update_of_ne hid, ← hopened]
        by_cases hk : k' = k
        · subst hk
          rw [Function.update_self]
          simp [hid]
        · rw [Function.update_of_ne hk]

end Simutrace.Sessions
