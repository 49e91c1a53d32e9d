import Simutrace.Manager.Calls
import Mathlib.Tactic.SplitIfs

/-! # What the sections of a call change

With the lock of the manager, a call erases references, destroys stores without
sessions and inserts a reference. With the lock of a reference, it changes that
reference only.
-/

namespace Simutrace.Manager

namespace ServerStore

variable {store store' : ServerStore} {sessions : List SessionId} {session : SessionId}

structure Counted (store : ServerStore) (sessions : List SessionId) : Prop where
  count : store.referenceCount = 1 + sessions.length
  references : store.references = sessions
  nodup : sessions.Nodup

theorem construct_of_ne {id : StoreId} (h : id ≠ invalidStoreId) (name : String) :
    construct id name = .ok ⟨id, name, 1, []⟩ :=
  if_neg h

theorem counted_construct (id : StoreId) (name : String) : Counted ⟨id, name, 1, []⟩ [] :=
  ⟨rfl, rfl, List.nodup_nil⟩

theorem Counted.attach (h : store.Counted sessions) (hs : session ∉ sessions) :
    store.attach session = .ok { store with
      referenceCount := store.referenceCount + 1, references := sessions ++ [session] } := by
  have hcount : store.referenceCount ≠ 0 := by
    rw [h.count]
    omega
  rw [ServerStore.attach, h.references, if_neg hs, if_neg hcount]

theorem Counted.attach_of_mem (h : store.Counted sessions) (hs : session ∈ sessions) :
    store.attach session = .error .invalidOperation := by
  rw [ServerStore.attach, h.references, if_pos hs]

theorem Counted.append (h : store.Counted sessions) (hs : session ∉ sessions) :
    Counted { store with
      referenceCount := store.referenceCount + 1, references := sessions ++ [session] }
      (sessions ++ [session]) := by
  refine ⟨?_, rfl, List.nodup_append.mpr ⟨h.nodup, List.pairwise_singleton _ _, ?_⟩⟩
  · rw [List.length_append, List.length_singleton, h.count, Nat.add_assoc]
  · rintro a ha b hb rfl
    exact hs (List.mem_singleton.mp hb ▸ ha)

/-- The sessions that are left after one has detached. -/
def others (session : SessionId) (sessions : List SessionId) : List SessionId :=
  sessions.filter (· ≠ session)

def detached (store : ServerStore) (session : SessionId) (sessions : List SessionId) :
    ServerStore :=
  { store with
    referenceCount := store.referenceCount - 1
    references := others session sessions }

theorem length_others (h : sessions.Nodup) (hs : session ∈ sessions) :
    (others session sessions).length + 1 = sessions.length := by
  have heq : others session sessions = sessions.erase session := by
    rw [List.Nodup.erase_eq_filter h]
    exact List.filter_congr fun t _ => by simp [bne, BEq.beq]
  rw [heq, List.length_erase_of_mem hs]
  exact Nat.sub_add_cancel (List.length_pos_of_mem hs)

theorem Counted.detach (h : store.Counted sessions) (hs : session ∈ sessions)
    (hserver : session ≠ serverSessionId) (throws : Bool) :
    store.detach session throws = if throws then .error .stream else
      .ok (store.detached session sessions, decide (others session sessions = [])) := by
  have hlen := length_others h.nodup hs
  have hcount : store.referenceCount - 1 = 1 ↔ others session sessions = [] := by
    rw [h.count, ← hlen, ← List.length_eq_zero_iff]
    omega
  have hmany : store.referenceCount > 1 := by
    rw [h.count, ← hlen]
    omega
  rw [ServerStore.detach, dropReference, h.references, if_neg (by omega), if_pos hmany,
    if_neg (not_not_intro hs)]
  cases throws with
  | true => rfl
  | false =>
    simp only [Bool.false_eq_true, if_false, Except.map, rundown, hcount, if_neg hserver]
    split_ifs with hlast
    · rw [decide_eq_true hlast]
      rfl
    · rw [decide_eq_false hlast]
      rfl

theorem Counted.detached (h : store.Counted sessions) (hs : session ∈ sessions) :
    (store.detached session sessions).Counted (others session sessions) := by
  refine ⟨?_, rfl, h.nodup.filter _⟩
  have hlen := length_others h.nodup hs
  change store.referenceCount - 1 = _
  rw [h.count, ← hlen]
  omega

theorem Counted.detach_server (h : store.Counted []) :
    store.detach serverSessionId false = .ok ({ store with referenceCount := 0 }, false) := by
  have hcount : store.referenceCount = 1 := h.count
  simp [ServerStore.detach, dropReference, rundown, hcount, Except.map]

end ServerStore

namespace ServerStoreManager

variable {m m' m'' : ServerStoreManager} {opened : StoreId → List SessionId} {k id : StoreId}
  {st : ServerStore} {name : String} {isOpen : Bool} {shared : StoreId → Bool}
  {events events' : List StoreEvent}

def Dormant (m : ServerStoreManager) (k : StoreId) : Prop := (m.references k).dormant = true

/-- A reference that has been inserted and has never had a store. -/
def Pending (m : ServerStoreManager) (k : StoreId) : Prop :=
  k < m.nextId ∧ m.store k = none ∧ (¬ m.Dormant k → k ∈ m.stores)

structure Inv (m : ServerStoreManager) (opened : StoreId → List SessionId) : Prop where
  bound : m.nextId ≤ invalidStoreId
  below : ∀ k ∈ m.stores, k < m.nextId
  distinct : ∀ k ∈ m.stores, ∀ k' ∈ m.stores,
    (m.references k).name = (m.references k').name → k = k'
  listed : ∀ k st, m.store k = some st → k ∈ m.stores
  key : ∀ k st, m.store k = some st → st.id = k ∧ st.name = (m.references k).name
  counted : ∀ k st, m.store k = some st → st.Counted (opened k)
  unopened : ∀ k, m.store k = none → opened k = []
  dormant : ∀ k st, m.store k = some st → (m.Dormant k ↔ opened k = [])

theorem Inv.new (persistentCache : ℕ) : (new persistentCache).Inv fun _ => [] where
  bound := Nat.zero_le _
  below _ h := by cases h
  distinct _ h := by cases h
  listed _ _ h := by cases h
  key _ _ h := by cases h
  counted _ _ h := by cases h
  unopened _ _ := rfl
  dormant _ _ h := by cases h

@[simp] theorem store_setReference {ref : ServerStoreReference} :
    (m.setReference id ref).store = Function.update m.store id ref.store := by
  ext1 k
  by_cases hk : k = id
  · subst hk
    simp [store, setReference]
  · simp [store, setReference, Function.update_of_ne hk]

@[simp] theorem store_eraseReference : (m.eraseReference id).store = m.store := rfl

@[simp] theorem store_dropStore : (m.dropStore id).store = Function.update m.store id none :=
  store_setReference

theorem mem_stores_eraseReference :
    k ∈ (m.eraseReference id).stores ↔ k ∈ m.stores ∧ k ≠ id := by
  simp [eraseReference]

theorem mem_stores_dropStore : k ∈ (m.dropStore id).stores ↔ k ∈ m.stores ∧ k ≠ id :=
  mem_stores_eraseReference

theorem name_setReference {ref : ServerStoreReference} (h : ref.name = (m.references id).name)
    (k : StoreId) : ((m.setReference id ref).references k).name = (m.references k).name := by
  by_cases hk : k = id
  · subst hk
    simp [setReference, h]
  · simp [setReference, Function.update_of_ne hk]

theorem dormant_setReference {ref : ServerStoreReference}
    (h : ref.dormant = (m.references id).dormant) (k : StoreId) :
    (m.setReference id ref).Dormant k ↔ m.Dormant k := by
  by_cases hk : k = id
  · subst hk
    simp [setReference, Dormant, h]
  · simp [setReference, Dormant, Function.update_of_ne hk]

theorem references_setReference_of_ne {ref : ServerStoreReference} (h : k ≠ id) :
    (m.setReference id ref).references k = m.references k :=
  Function.update_of_ne h _ _

/-- What the search for a reference changes. Stores without sessions may be destroyed. -/
structure Change (opened : StoreId → List SessionId) (m : ServerStoreManager)
    (events : List StoreEvent) (m' : ServerStoreManager) : Prop where
  inv : m'.Inv opened
  nextId : m.nextId ≤ m'.nextId
  name : ∀ k < m.nextId, (m'.references k).name = (m.references k).name
  pending : ∀ k, m.Pending k → m'.Pending k
  store : ∀ k, m'.store k = m.store k ∨
    m'.store k = none ∧ ∃ st, m.store k = some st ∧ .destroyed st ∈ events
  dormant : ∀ k st, m'.store k = some st → m'.Dormant k → m.Dormant k
  events : ∀ e ∈ events, ∃ k st, e = .destroyed st ∧ m.store k = some st ∧ m.Dormant k

theorem Change.refl (h : m.Inv opened) : Change opened m [] m where
  inv := h
  nextId := le_rfl
  name _ _ := rfl
  pending _ hp := hp
  store _ := .inl rfl
  dormant _ _ _ hd := hd
  events _ he := by cases he

theorem Change.trans (h : Change opened m events m') (h' : Change opened m' events' m'') :
    Change opened m (events ++ events') m'' where
  inv := h'.inv
  nextId := h.nextId.trans h'.nextId
  name k hk := (h'.name k (hk.trans_le h.nextId)).trans (h.name k hk)
  pending k hp := h'.pending k (h.pending k hp)
  store k := by
    rcases h'.store k with hs' | ⟨hs', st, hst, he⟩
    · rcases h.store k with hs | ⟨hs, st, hst, he⟩
      · exact .inl (hs'.trans hs)
      · exact .inr ⟨hs'.trans hs, st, hst, List.mem_append_left _ he⟩
    · rcases h.store k with hs | ⟨hs, -⟩
      · exact .inr ⟨hs', st, hs.symm.trans hst, List.mem_append_right _ he⟩
      · cases hs.symm.trans hst
  dormant k st hst hd := by
    have hst' : m'.store k = some st := by
      rcases h'.store k with hs' | ⟨hs', -⟩
      · exact hs'.symm.trans hst
      · cases hs'.symm.trans hst
    exact h.dormant k st hst' (h'.dormant k st hst hd)
  events e he := by
    rcases List.mem_append.mp he with he | he
    · exact h.events e he
    · obtain ⟨k, st, rfl, hst, hd⟩ := h'.events e he
      have hst' : m.store k = some st := by
        rcases h.store k with hs | ⟨hs, -⟩
        · exact hs.symm.trans hst
        · cases hs.symm.trans hst
      exact ⟨k, st, rfl, hst', h.dormant k st hst hd⟩

theorem Inv.eraseReference (h : m.Inv opened) (hid : m.store id = none) :
    (m.eraseReference id).Inv opened :=
  { h with
    below := fun k hk => h.below k (mem_stores_eraseReference.mp hk).1
    distinct := fun k hk k' hk' => h.distinct k (mem_stores_eraseReference.mp hk).1 k'
      (mem_stores_eraseReference.mp hk').1
    listed := fun k st hst => mem_stores_eraseReference.mpr ⟨h.listed k st hst, by
      rintro rfl
      cases hid.symm.trans hst⟩ }

theorem change_eraseReference (h : m.Inv opened) (hid : (m.references id).Invalid) :
    Change opened m [] (m.eraseReference id) where
  inv := h.eraseReference hid.1
  nextId := le_rfl
  name _ _ := rfl
  pending k hp := ⟨hp.1, hp.2.1, fun hd => mem_stores_eraseReference.mpr ⟨hp.2.2 hd, by
    rintro rfl
    exact hd hid.2⟩⟩
  store _ := .inl rfl
  dormant _ _ _ hd := hd
  events _ he := by cases he

theorem store_dropStore_eq_some :
    (m.dropStore id).store k = some st ↔ k ≠ id ∧ m.store k = some st := by
  by_cases hk : k = id
  · subst hk
    simp
  · simp [hk]

theorem name_dropStore (k : StoreId) :
    ((m.dropStore id).references k).name = (m.references k).name := by
  have h : { m.references id with store := none }.name = (m.references id).name := rfl
  exact name_setReference h k

theorem dormant_dropStore : (m.dropStore id).Dormant k ↔ m.Dormant k := by
  have h : { m.references id with store := none }.dormant = (m.references id).dormant := rfl
  exact dormant_setReference h k

theorem change_dropStore (h : m.Inv opened) (hst : m.store id = some st) (hd : m.Dormant id) :
    Change opened m [.destroyed st] (m.dropStore id) where
  inv :=
    { bound := h.bound
      below := fun k hk => h.below k (mem_stores_dropStore.mp hk).1
      distinct := by
        intro k hk k' hk' hname
        rw [name_dropStore, name_dropStore] at hname
        exact h.distinct k (mem_stores_dropStore.mp hk).1 k' (mem_stores_dropStore.mp hk').1 hname
      listed := by
        intro k st' hk
        obtain ⟨hne, hk⟩ := store_dropStore_eq_some.mp hk
        exact mem_stores_dropStore.mpr ⟨h.listed k st' hk, hne⟩
      key := by
        intro k st' hk
        rw [name_dropStore]
        exact h.key k st' (store_dropStore_eq_some.mp hk).2
      counted := fun k st' hk => h.counted k st' (store_dropStore_eq_some.mp hk).2
      unopened := by
        intro k hk
        by_cases hne : k = id
        · subst hne
          exact (h.dormant k st hst).mp hd
        · rw [store_dropStore, Function.update_of_ne hne] at hk
          exact h.unopened k hk
      dormant := fun k st' hk =>
        dormant_dropStore.trans (h.dormant k st' (store_dropStore_eq_some.mp hk).2) }
  nextId := le_rfl
  name k _ := name_dropStore k
  pending k hp := by
    have hne : k ≠ id := by
      rintro rfl
      cases hp.2.1.symm.trans hst
    refine ⟨hp.1, ?_, fun hnd => ?_⟩
    · rw [store_dropStore, Function.update_of_ne hne]
      exact hp.2.1
    · exact mem_stores_dropStore.mpr ⟨hp.2.2 (mt dormant_dropStore.mpr hnd), hne⟩
  store k := by
    by_cases hne : k = id
    · subst hne
      exact .inr ⟨by simp, st, hst, List.mem_singleton.mpr rfl⟩
    · rw [store_dropStore, Function.update_of_ne hne]
      exact .inl rfl
  dormant _ _ _ hd' := dormant_dropStore.mp hd'
  events e he := ⟨id, st, List.mem_singleton.mp he, hst, hd⟩

theorem releaseStore_of_dormant (h : m.Inv opened) (hst : m.store id = some st)
    (hd : m.Dormant id) : m.releaseStore id = .ok (m.dropStore id, [.destroyed st]) := by
  have hcounted := h.counted id st hst
  rw [(h.dormant id st hst).mp hd] at hcounted
  simp [releaseStore, hst, hcounted.detach_server, Except.map]

theorem store_insertReference :
    (m.insertReference name).store = Function.update m.store m.nextId none := by
  ext1 k
  by_cases hk : k = m.nextId
  · subst hk
    simp [store, insertReference, ServerStoreReference.empty]
  · simp [store, insertReference, Function.update_of_ne hk]

theorem references_insertReference_of_ne (hk : k ≠ m.nextId) :
    (m.insertReference name).references k = m.references k :=
  Function.update_of_ne hk _ _

theorem mem_stores_insertReference :
    k ∈ (m.insertReference name).stores ↔ k ∈ m.stores ∨ k = m.nextId := by
  simp [insertReference]

theorem store_insertReference_eq_some {st : ServerStore} :
    (m.insertReference name).store k = some st ↔ k ≠ m.nextId ∧ m.store k = some st := by
  rw [store_insertReference]
  by_cases hk : k = m.nextId
  · subst hk
    simp
  · simp [hk]

theorem Inv.store_nextId (h : m.Inv opened) : m.store m.nextId = none := by
  rw [← Option.not_isSome_iff_eq_none, Option.isSome_iff_exists]
  rintro ⟨st, hst⟩
  exact (h.below _ (h.listed _ st hst)).false

theorem dormant_insertReference (hk : k ≠ m.nextId) :
    (m.insertReference name).Dormant k ↔ m.Dormant k := by
  rw [Dormant, references_insertReference_of_ne hk, Dormant]

theorem name_insertReference (hk : k ≠ m.nextId) :
    ((m.insertReference name).references k).name = (m.references k).name := by
  rw [references_insertReference_of_ne hk]

theorem Inv.insertReference (h : m.Inv opened) (hid : m.nextId ≠ invalidStoreId)
    (hname : ∀ k ∈ m.stores, (m.references k).name ≠ name) :
    (m.insertReference name).Inv opened := by
  have hnew : ((m.insertReference name).references m.nextId).name = name := by
    simp [ServerStoreManager.insertReference, ServerStoreReference.empty]
  refine ⟨Nat.lt_of_le_of_ne h.bound hid, ?_, ?_, ?_, ?_, ?_, ?_, ?_⟩
  · intro k hk
    rcases mem_stores_insertReference.mp hk with hk | rfl
    · exact (h.below k hk).trans (Nat.lt_succ_self _)
    · exact Nat.lt_succ_self _
  · intro k hk k' hk' heq
    rcases mem_stores_insertReference.mp hk with hk | rfl <;>
      rcases mem_stores_insertReference.mp hk' with hk' | rfl
    · rw [name_insertReference (h.below k hk).ne, name_insertReference (h.below k' hk').ne] at heq
      exact h.distinct k hk k' hk' heq
    · rw [name_insertReference (h.below k hk).ne, hnew] at heq
      exact (hname k hk heq).elim
    · rw [name_insertReference (h.below k' hk').ne, hnew] at heq
      exact (hname k' hk' heq.symm).elim
    · rfl
  · intro k st hst
    obtain ⟨-, hst⟩ := store_insertReference_eq_some.mp hst
    exact mem_stores_insertReference.mpr (.inl (h.listed k st hst))
  · intro k st hst
    obtain ⟨hne, hst⟩ := store_insertReference_eq_some.mp hst
    rw [name_insertReference hne]
    exact h.key k st hst
  · intro k st hst
    exact h.counted k st (store_insertReference_eq_some.mp hst).2
  · intro k hk
    rw [store_insertReference] at hk
    by_cases hne : k = m.nextId
    · subst hne
      exact h.unopened _ h.store_nextId
    · rw [Function.update_of_ne hne] at hk
      exact h.unopened k hk
  · intro k st hst
    obtain ⟨hne, hst⟩ := store_insertReference_eq_some.mp hst
    rw [dormant_insertReference hne]
    exact h.dormant k st hst

theorem change_insertReference (h : m.Inv opened) (hid : m.nextId ≠ invalidStoreId)
    (hname : ∀ k ∈ m.stores, (m.references k).name ≠ name) :
    Change opened m [] (m.insertReference name) where
  inv := h.insertReference hid hname
  nextId := Nat.le_succ _
  name k hk := name_insertReference hk.ne
  pending k hp := by
    have hne := hp.1.ne
    refine ⟨Nat.lt_succ_of_lt hp.1, ?_, fun hd => ?_⟩
    · rw [store_insertReference, Function.update_of_ne hne]
      exact hp.2.1
    · exact mem_stores_insertReference.mpr (.inl (hp.2.2 (mt (dormant_insertReference hne).mpr hd)))
  store k := by
    rw [store_insertReference]
    by_cases hne : k = m.nextId
    · subst hne
      simp [h.store_nextId]
    · exact .inl (Function.update_of_ne hne _ _)
  dormant k st hst hd := (dormant_insertReference (store_insertReference_eq_some.mp hst).1).mp hd
  events e he := by cases he

theorem findVictim_spec (m : ServerStoreManager) (shared : StoreId → Bool) (ids : List StoreId) :
    (m.findVictim shared ids).1 = 0 ∨
      ∃ st, m.store (m.findVictim shared ids).2.2 = some st ∧
        m.Dormant (m.findVictim shared ids).2.2 := by
  unfold findVictim
  suffices h : ∀ acc : ℕ × ℕ × StoreId,
      (acc.1 = 0 ∨ ∃ st, m.store acc.2.2 = some st ∧ m.Dormant acc.2.2) →
      (ids.foldl _ acc).1 = 0 ∨ ∃ st, m.store (ids.foldl _ acc).2.2 = some st ∧
        m.Dormant (ids.foldl _ acc).2.2 from h _ (.inl rfl)
  induction ids with
  | nil => exact fun acc h => h
  | cons id ids ih =>
    intro acc h
    rw [List.foldl_cons]
    apply ih
    dsimp only
    split_ifs with hid
    · rw [Bool.and_eq_true, Bool.and_eq_true, Bool.and_eq_true] at hid
      exact .inr ((Option.isSome_iff_exists.mp hid.2).imp fun st hst => ⟨hst, hid.1.1.1⟩)
    · exact h

theorem evictStore_spec (h : m.Inv opened) (shared : StoreId → Bool) :
    ∃ m' events, m.evictStore shared = .ok (m', events) ∧ Change opened m events m' ∧
      ∀ k, m.store k = none → (k ∈ m.stores ↔ k ∈ m'.stores) ∧
        m'.references k = m.references k := by
  unfold evictStore
  dsimp only
  split_ifs with hnum
  · rcases m.findVictim_spec shared m.stores with hzero | ⟨st, hst, hd⟩
    · rw [hzero] at hnum
      cases hnum
    · refine ⟨_, _, releaseStore_of_dormant h hst hd, change_dropStore h hst hd, fun k hk => ?_⟩
      have hne : k ≠ (m.findVictim shared m.stores).2.2 := by
        rintro rfl
        cases hk.symm.trans hst
      exact ⟨(mem_stores_dropStore.trans (and_iff_left hne)).symm,
        references_setReference_of_ne hne⟩
  · exact ⟨m, [], rfl, .refl h, fun k _ => ⟨Iff.rfl, rfl⟩⟩

/-- A search erases invalid references and stops at the first other one of the path. -/
structure Searched (m : ServerStoreManager) (name : String) (isOpen : Bool) (ids : List StoreId)
    (m' : ServerStoreManager) (result : SearchResult) : Prop where
  references : m'.references = m.references
  nextId : m'.nextId = m.nextId
  stores : ∀ k ∈ m'.stores, k ∈ m.stores
  kept : ∀ k ∈ m.stores, ¬ (m.references k).Invalid → k ∈ m'.stores
  missing : result = .missing → ∀ k ∈ ids, k ∈ m'.stores → (m.references k).name ≠ name
  found : ∀ k, result = .found k → k ∈ ids ∧ (m.references k).name = name ∧
    ¬ (m.references k).Invalid
  outdated : ∀ k, result = .outdated k → k ∈ ids ∧ (m.references k).name = name ∧
    ¬ (m.references k).Invalid ∧ m.Dormant k

theorem findReference_spec (h : m.Inv opened) (name : String) (isOpen : Bool)
    (ids : List StoreId) :
    Change opened m [] (findReference name isOpen m ids).1 ∧
      Searched m name isOpen ids (findReference name isOpen m ids).1
        (findReference name isOpen m ids).2 := by
  induction ids generalizing m with
  | nil =>
    refine ⟨.refl h, rfl, rfl, fun k hk => hk, fun k hk _ => hk, fun _ k hk => ?_, fun k hk => ?_,
      fun k hk => ?_⟩ <;> cases hk
  | cons id ids ih =>
    rw [findReference]
    split_ifs with hinvalid hname hd
    · have hc := change_eraseReference h hinvalid
      obtain ⟨hch, hs⟩ := ih hc.inv
      refine ⟨hc.trans hch, hs.references, hs.nextId,
        fun k hk => (mem_stores_eraseReference.mp (hs.stores k hk)).1, fun k hk hk' => ?_,
        fun hr k hk hk' => ?_, fun k hr => ?_, fun k hr => ?_⟩
      · refine hs.kept k (mem_stores_eraseReference.mpr ⟨hk, ?_⟩) hk'
        rintro rfl
        exact hk' hinvalid
      · have hne := (mem_stores_eraseReference.mp (hs.stores k hk')).2
        exact hs.missing hr k ((List.mem_cons.mp hk).resolve_left hne) hk'
      · exact (hs.found k hr).imp_left (List.mem_cons_of_mem _)
      · exact (hs.outdated k hr).imp_left (List.mem_cons_of_mem _)
    · rw [Bool.and_eq_true] at hd
      refine ⟨.refl h, rfl, rfl, fun k hk => hk, fun k hk _ => hk, fun hr => (by cases hr),
        fun k hr => (by cases hr), fun k hr => ?_⟩
      obtain rfl := SearchResult.outdated.inj hr
      exact ⟨List.mem_cons_self, hname, hinvalid, hd.1⟩
    · refine ⟨.refl h, rfl, rfl, fun k hk => hk, fun k hk _ => hk, fun hr => (by cases hr),
        fun k hr => ?_, fun k hr => (by cases hr)⟩
      obtain rfl := SearchResult.found.inj hr
      exact ⟨List.mem_cons_self, hname, hinvalid⟩
    · obtain ⟨hch, hs⟩ := ih h
      refine ⟨hch, hs.references, hs.nextId, hs.stores, hs.kept, fun hr k hk hk' => ?_,
        fun k hr => (hs.found k hr).imp_left (List.mem_cons_of_mem _),
        fun k hr => (hs.outdated k hr).imp_left (List.mem_cons_of_mem _)⟩
      rcases List.mem_cons.mp hk with rfl | hk
      · exact hname
      · exact hs.missing hr k hk hk'

/-- A call that searched has a reference of its path. It was found in the map, or it is new and the
call has its id. -/
def Obtained (nextId : StoreId) (name : String) (m : ServerStoreManager) :
    Except StoreError (StoreId × StoreId) → Prop
  | .error _ => nextId = invalidStoreId
  | .ok (reference, id) => reference < m.nextId ∧ (m.references reference).name = name ∧
      (id = invalidStoreId ∨ id = reference ∧ reference = nextId ∧ m.Pending reference)

theorem addReference_spec (h : m.Inv opened) (shared : StoreId → Bool)
    (hname : ∀ k ∈ m.stores, (m.references k).name ≠ name) :
    Change opened m (m.addReference name shared).2.1 (m.addReference name shared).1 ∧
      Obtained m.nextId name (m.addReference name shared).1 (m.addReference name shared).2.2 := by
  unfold addReference
  split_ifs with hid
  · exact ⟨.refl h, hid⟩
  · have hc := change_insertReference h hid hname
    obtain ⟨m', events, hevict, hch, hkept⟩ := evictStore_spec hc.inv shared
    rw [hevict]
    have hnew : (m.insertReference name).store m.nextId = none := by
      rw [store_insertReference, Function.update_self]
    obtain ⟨hlisted, href⟩ := hkept m.nextId hnew
    refine ⟨hc.trans hch, (Nat.lt_succ_self m.nextId).trans_le hch.nextId, ?_, .inr ⟨rfl, rfl, ?_⟩⟩
    · simp [href, insertReference, ServerStoreReference.empty]
    · exact hch.pending _ ⟨Nat.lt_succ_self _, hnew, fun _ =>
        mem_stores_insertReference.mpr (.inr rfl)⟩

theorem releaseStore_of_outdated (h : m.Inv opened)
    (hs : findReference name isOpen m m.stores = (m', .outdated id)) :
    ∃ events, m'.releaseStore id = .ok (m'.dropStore id, events) ∧
      Change opened m events (m'.dropStore id) ∧ (m'.dropStore id).nextId = m.nextId ∧
      ∀ k ∈ (m'.dropStore id).stores, ((m'.dropStore id).references k).name ≠ name := by
  obtain ⟨hc, hfound⟩ := findReference_spec h name isOpen m.stores
  rw [hs] at hc hfound
  have href : m'.references = m.references := hfound.references
  obtain ⟨hid, hname, hvalid, hd⟩ := hfound.outdated id rfl
  have hkept := hfound.kept id hid hvalid
  rw [← href] at hname
  have hd' : m'.Dormant id := by rwa [Dormant, href]
  obtain ⟨st, hst⟩ : ∃ st, m'.store id = some st := by
    rw [store, href, ← Option.isSome_iff_exists, Option.isSome_iff_ne_none]
    exact fun hnone => hvalid ⟨hnone, hd⟩
  refine ⟨_, releaseStore_of_dormant hc.inv hst hd', hc.trans (change_dropStore hc.inv hst hd'),
    hfound.nextId, fun k hk => ?_⟩
  obtain ⟨hk, hne⟩ := mem_stores_dropStore.mp hk
  rw [name_dropStore]
  exact fun heq => hne (hc.inv.distinct k hk id hkept (heq.trans hname.symm))

theorem search_spec (h : m.Inv opened) (name : String) (isOpen : Bool)
    (shared : StoreId → Bool) :
    Change opened m (m.search name isOpen shared).2.1 (m.search name isOpen shared).1 ∧
      Obtained m.nextId name (m.search name isOpen shared).1 (m.search name isOpen shared).2.2 := by
  obtain ⟨hc, hs⟩ := findReference_spec h name isOpen m.stores
  unfold search
  rcases hfound : findReference name isOpen m m.stores with ⟨m', result⟩
  rw [hfound] at hc hs
  have hnext : m'.nextId = m.nextId := hs.nextId
  cases result with
  | found id =>
    obtain ⟨hid, hname, -⟩ := hs.found id rfl
    refine ⟨hc, hnext ▸ h.below id hid, ?_, .inl rfl⟩
    rw [hs.references, hname]
  | missing =>
    have hnone (k : StoreId) (hk : k ∈ m'.stores) : (m'.references k).name ≠ name := by
      rw [hs.references]
      exact hs.missing rfl k (hs.stores k hk) hk
    obtain ⟨hch, ho⟩ := addReference_spec hc.inv shared hnone
    exact ⟨hc.trans hch, hnext ▸ ho⟩
  | outdated id =>
    obtain ⟨events, hrelease, hdrop, hnext', hnone⟩ := releaseStore_of_outdated h hfound
    obtain ⟨hch, ho⟩ := addReference_spec hdrop.inv shared hnone
    dsimp only
    rw [hrelease]
    exact ⟨hdrop.trans hch, hnext' ▸ ho⟩

theorem change_search {result : Except StoreError (StoreId × StoreId)} (h : m.Inv opened)
    (searched : m.search name isOpen shared = (m', events, result)) :
    Change opened m events m' ∧ Obtained m.nextId name m' result := by
  have hs := search_spec h name isOpen shared
  rwa [searched] at hs

/-- A search only fails if there is no id for the reference that it has to insert. -/
theorem search_eq_error {e : StoreError} (h : m.Inv opened)
    (searched : m.search name isOpen shared = (m', events, .error e)) :
    (∀ k, (findReference name isOpen m m.stores).2 ≠ .found k) ∧ m.nextId = invalidStoreId := by
  refine ⟨fun k hk => ?_, (change_search h searched).2⟩
  rw [search] at searched
  rcases hfound : findReference name isOpen m m.stores with ⟨m₁, result⟩
  rw [hfound] at searched hk
  obtain rfl : result = .found k := hk
  cases searched

theorem search_of_exhausted (h : m.Inv opened)
    (hfound : ∀ k, (findReference name isOpen m m.stores).2 ≠ .found k)
    (hnext : m.nextId = invalidStoreId) (shared : StoreId → Bool) :
    (m.search name isOpen shared).2.2 = .error .invalidOperation := by
  have hadd {m : ServerStoreManager} (hm : m.nextId = invalidStoreId) :
      (m.addReference name shared).2.2 = .error .invalidOperation := by
    rw [addReference, if_pos hm]
  rw [search]
  have hs := (findReference_spec h name isOpen m.stores).2
  rcases hresult : findReference name isOpen m m.stores with ⟨m₁, result⟩
  rw [hresult] at hs hfound
  cases result with
  | found id => exact (hfound id rfl).elim
  | missing => exact hadd (hs.nextId.trans hnext)
  | outdated id =>
    obtain ⟨events, hrelease, -, hnext', -⟩ := releaseStore_of_outdated h hresult
    dsimp only
    rw [hrelease]
    exact hadd (hnext'.trans hnext)

end ServerStoreManager

end Simutrace.Manager
