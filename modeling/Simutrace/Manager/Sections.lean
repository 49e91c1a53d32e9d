import Simutrace.Manager.Changes

/-! # What the sections with one reference change

With the lock of a reference, a call creates its store, attaches a session to it
or detaches one. Nothing else changes.
-/

namespace Simutrace.Manager.ServerStoreManager

open ServerStore (others)

variable {m m' : ServerStoreManager} {opened opened' : StoreId → List SessionId} {k id : StoreId}
  {reference : StoreId} {st : ServerStore} {session : SessionId} {name : String}
  {isOpen provided : Bool} {events : List StoreEvent} {result : Option (Except StoreError Unit)}
  {ref : ServerStoreReference}

theorem setReference_self : m.setReference id (m.references id) = m := by
  simp [setReference]

theorem store_setReference_eq_some :
    (m.setReference id ref).store k = some st ↔
      k = id ∧ ref.store = some st ∨ k ≠ id ∧ m.store k = some st := by
  rw [store_setReference]
  by_cases hk : k = id
  · subst hk
    simp
  · simp [hk]

theorem dormant_setReference_self : (m.setReference id ref).Dormant id ↔ ref.dormant = true := by
  simp [Dormant, setReference]

theorem dormant_setReference_of_ne (hk : k ≠ id) :
    (m.setReference id ref).Dormant k ↔ m.Dormant k := by
  rw [Dormant, references_setReference_of_ne hk, Dormant]

theorem Inv.setReference (h : m.Inv opened) (hname : ref.name = (m.references id).name)
    (hopened : ∀ k ≠ id, opened' k = opened k) (hnone : ref.store = none → opened' id = [])
    (hsome : ∀ st, ref.store = some st → id ∈ m.stores ∧ st.id = id ∧ st.name = ref.name ∧
      st.Counted (opened' id) ∧ (ref.dormant = true ↔ opened' id = [])) :
    (m.setReference id ref).Inv opened' where
  bound := h.bound
  below := h.below
  distinct := by
    intro k hk k' hk' heq
    rw [name_setReference hname, name_setReference hname] at heq
    exact h.distinct k hk k' hk' heq
  listed := by
    intro k st hst
    rcases store_setReference_eq_some.mp hst with ⟨rfl, hst'⟩ | ⟨-, hst⟩
    · exact (hsome st hst').1
    · exact h.listed k st hst
  key := by
    intro k st hst
    rw [name_setReference hname]
    rcases store_setReference_eq_some.mp hst with ⟨rfl, hst'⟩ | ⟨-, hst⟩
    · obtain ⟨-, hid, hn, -⟩ := hsome st hst'
      exact ⟨hid, hn.trans hname⟩
    · exact h.key k st hst
  counted := by
    intro k st hst
    rcases store_setReference_eq_some.mp hst with ⟨rfl, hst'⟩ | ⟨hne, hst⟩
    · exact (hsome st hst').2.2.2.1
    · rw [hopened k hne]
      exact h.counted k st hst
  unopened := by
    intro k hk
    rw [store_setReference] at hk
    by_cases hne : k = id
    · subst hne
      rw [Function.update_self] at hk
      exact hnone hk
    · rw [Function.update_of_ne hne] at hk
      rw [hopened k hne]
      exact h.unopened k hk
  dormant := by
    intro k st hst
    rcases store_setReference_eq_some.mp hst with ⟨rfl, hst'⟩ | ⟨hne, hst⟩
    · rw [dormant_setReference_self]
      exact (hsome st hst').2.2.2.2
    · rw [dormant_setReference_of_ne hne, hopened k hne]
      exact h.dormant k st hst

/-- All that `enterReference` can do. -/
inductive Entered (m : ServerStoreManager) (opened : StoreId → List SessionId)
    (session : SessionId) (name : String) (isOpen : Bool) (reference id : StoreId)
    (provided : Bool) :
    ServerStoreManager → List StoreEvent → Option (Except StoreError Unit) → Prop
  | retry (empty : m.store reference = none) (dormant : m.Dormant reference) :
      Entered m opened session name isOpen reference id provided m [] none
  | failed (e : StoreError) (empty : m.store reference = none) (awake : ¬ m.Dormant reference)
      (reason : provided = false ∨ id = invalidStoreId) :
      Entered m opened session name isOpen reference id provided
        (m.setReference reference { m.references reference with dormant := true }) [.invoked id]
        (some (.error e))
  | created (empty : m.store reference = none) (awake : ¬ m.Dormant reference)
      (success : provided = true) (valid : id ≠ invalidStoreId) :
      Entered m opened session name isOpen reference id provided
        (m.setReference reference
          { m.references reference with store := some ⟨id, name, 2, [session]⟩ }) [.invoked id]
        (some (.ok ()))
  | refused (st : ServerStore) (live : m.store reference = some st)
      (awake : ¬ m.Dormant reference) (create : isOpen = false) :
      Entered m opened session name isOpen reference id provided m []
        (some (.error .alreadyOpen))
  | attachedTwice (st : ServerStore) (live : m.store reference = some st)
      (held : session ∈ opened reference) :
      Entered m opened session name isOpen reference id provided m []
        (some (.error .invalidOperation))
  | attached (st : ServerStore) (live : m.store reference = some st)
      (new : session ∉ opened reference) :
      Entered m opened session name isOpen reference id provided
        (m.setReference reference { m.references reference with
          store := some { st with
            referenceCount := st.referenceCount + 1
            references := opened reference ++ [session] }
          dormant := false }) []
        (some (.ok ()))

theorem attachSession_of_notMem {sessions : List SessionId} (h : st.Counted sessions)
    (hs : session ∉ sessions) (m : ServerStoreManager) (reference : StoreId)
    (ref : ServerStoreReference) :
    m.attachSession session reference ref st = (m.setReference reference { ref with
      store := some { st with
        referenceCount := st.referenceCount + 1, references := sessions ++ [session] } },
      .ok ()) := by
  rw [attachSession, h.attach hs]

theorem attachSession_of_mem {sessions : List SessionId} (h : st.Counted sessions)
    (hs : session ∈ sessions) (m : ServerStoreManager) (reference : StoreId)
    (ref : ServerStoreReference) :
    m.attachSession session reference ref st =
      (m.setReference reference { ref with store := some st }, .error .invalidOperation) := by
  rw [attachSession, h.attach_of_mem hs]

theorem eq_of_awake (h : ref.dormant = false) : ref = { ref with dormant := false } := by
  cases ref
  cases h
  rfl

theorem entered_attachSession (h : m.Inv opened) (live : m.store reference = some st)
    (hstore : ref = { m.references reference with dormant := false })
    (hawake : session ∈ opened reference → ¬ m.Dormant reference) :
    Entered m opened session name isOpen reference id provided
      (m.attachSession session reference ref st).1 []
      (some (m.attachSession session reference ref st).2) := by
  subst hstore
  have hc := h.counted reference st live
  by_cases hs : session ∈ opened reference
  · rw [attachSession_of_mem hc hs]
    have hd : (m.references reference).dormant = false := by simpa [Dormant] using hawake hs
    have hself : { m.references reference with store := some st, dormant := false } =
        m.references reference := by
      rw [← hd, ← show m.store reference = some st from live]
      rfl
    dsimp only
    rw [hself, setReference_self]
    exact .attachedTwice st live hs
  · rw [attachSession_of_notMem hc hs]
    exact .attached st live hs

theorem enterReference_spec (h : m.Inv opened) (session : SessionId) (name : String)
    (isOpen : Bool) (reference id : StoreId) (provided : Bool) :
    Entered m opened session name isOpen reference id provided
      (m.enterReference session name isOpen reference id provided).1
      (m.enterReference session name isOpen reference id provided).2.1
      (m.enterReference session name isOpen reference id provided).2.2 := by
  unfold enterReference
  dsimp only
  split
  · rename_i empty
    split_ifs with hd hprovided
    · exact .retry empty hd
    · by_cases hid : id = invalidStoreId
      · rw [ServerStore.construct, if_pos hid]
        exact .failed _ empty hd (.inr hid)
      · rw [ServerStore.construct_of_ne hid]
        dsimp only
        rw [attachSession_of_notMem (ServerStore.counted_construct id name) List.not_mem_nil]
        exact .created empty hd hprovided hid
    · exact .failed _ empty hd (.inl (by simpa using hprovided))
  · rename_i st live
    split_ifs with hd hopen
    · refine entered_attachSession h live rfl fun hs => ?_
      rw [(h.dormant reference st live).mp hd] at hs
      cases hs
    · exact .refused st live hd (by simpa using hopen)
    · exact entered_attachSession h live (eq_of_awake (by simpa using hd)) fun _ => hd

theorem entered_of_eq (h : m.Inv opened)
    (entered : m.enterReference session name isOpen reference id provided = (m', events, result)) :
    Entered m opened session name isOpen reference id provided m' events result := by
  have he := enterReference_spec h session name isOpen reference id provided
  rwa [entered] at he

/-- All that `closeStore` can do for a session that has the store open. -/
inductive Closed (m : ServerStoreManager) (sessions : List SessionId) (session : SessionId)
    (id : StoreId) (st : ServerStore) (time : ℕ) : ServerStoreManager → List StoreEvent → Prop
  | left (several : others session sessions ≠ []) :
      Closed m sessions session id st time
        (m.setReference id { m.references id with store := some (st.detached session sessions) }) []
  | slept (last : others session sessions = []) :
      Closed m sessions session id st time
        (m.setReference id { m.references id with
          store := some (st.detached session sessions), dormant := true, dormantTime := time })
        [.encodersClosed (st.detached session sessions), .dormant (st.detached session sessions)]
  | released (last : others session sessions = []) :
      Closed m sessions session id st time
        ((m.setReference id
          { m.references id with store := some (st.detached session sessions) }).dropStore id)
        [.encodersClosed (st.detached session sessions), .destroyed (st.detached session sessions)]

theorem Inv.exists_store (h : m.Inv opened) (holds : session ∈ opened id) :
    ∃ st, m.store id = some st := by
  rw [← Option.isSome_iff_exists, Option.isSome_iff_ne_none]
  intro hnone
  rw [h.unopened id hnone] at holds
  cases holds

theorem afterDetach_of_ne {time : ℕ} (several : st.referenceCount ≠ 1) :
    m.afterDetach id st time =
      .ok (m.setReference id { m.references id with store := some st }, []) := by
  rw [afterDetach]
  simp only [if_neg several]

theorem closed_afterDetach {sessions : List SessionId} (hc : st.Counted sessions)
    (holds : session ∈ sessions) (m : ServerStoreManager) (id : StoreId) (time : ℕ) :
    ∃ m' events, m.afterDetach id (st.detached session sessions) time = .ok (m', events) ∧
      Closed m sessions session id st time m'
        ((if decide (others session sessions = []) then
          [.encodersClosed (st.detached session sessions)] else []) ++ events) := by
  have hcounted : (st.detached session sessions).Counted (others session sessions) :=
    hc.detached holds
  by_cases hlast : others session sessions = []
  · rw [decide_eq_true hlast, if_pos rfl]
    have hone : (st.detached session sessions).referenceCount = 1 := by
      rw [hcounted.count, hlast]
      rfl
    rw [hlast] at hcounted
    rw [afterDetach]
    simp only [if_pos hone]
    split_ifs
    · refine ⟨_, _, ?_, .released hlast⟩
      rw [releaseStore, store_setReference, Function.update_self]
      simp [hcounted.detach_server, Except.map]
    · exact ⟨_, _, rfl, .slept hlast⟩
  · rw [decide_eq_false hlast, if_neg Bool.false_ne_true]
    have hseveral : (st.detached session sessions).referenceCount ≠ 1 := by
      rw [hcounted.count, ← List.length_eq_zero_iff] at *
      omega
    exact ⟨_, _, afterDetach_of_ne hseveral, .left hlast⟩

theorem closeStore_spec (h : m.Inv opened) (holds : session ∈ opened id) (throws : Bool)
    (time : ℕ) :
    (∃ e, m.closeStore session id throws time = .error e) ∨
      ∃ st m' events, m.store id = some st ∧
        m.closeStore session id throws time = .ok (m', events) ∧
        Closed m (opened id) session id st time m' events := by
  obtain ⟨st, live⟩ := h.exists_store holds
  have hc := h.counted id st live
  unfold closeStore
  split_ifs with hguard
  · exact .inl ⟨_, rfl⟩
  · obtain ⟨hserver, hlisted⟩ := not_or.mp hguard
    rw [live]
    dsimp only
    rw [hc.detach holds hserver]
    cases throws with
    | true => exact .inl ⟨_, rfl⟩
    | false =>
      obtain ⟨m', events, hafter, hclosed⟩ := closed_afterDetach hc holds m id time
      refine .inr ⟨st, m', _, rfl, ?_, hclosed⟩
      rw [if_neg Bool.false_ne_true]
      dsimp only
      rw [hafter]
      rfl

end Simutrace.Manager.ServerStoreManager
