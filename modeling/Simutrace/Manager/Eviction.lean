import Simutrace.Manager.Types
import Simutrace.Library.RunningMinimum

/-! # Eviction of dormant stores

When a store is opened, the dormant store that has not been used for the longest
time is closed if there are too many of them. One pass over the map counts them
and finds it.
-/

namespace Simutrace.Manager.ServerStoreManager

open RunningMinimum

variable (m : ServerStoreManager) (shared : StoreId → Bool)

def Evictable (id : StoreId) : Prop :=
  (m.references id).dormant = true ∧ shared id = false ∧ (m.store id).isSome

instance (id : StoreId) : Decidable (m.Evictable shared id) := inferInstanceAs (Decidable (_ ∧ _))

def dormantTime (id : StoreId) : ℕ := (m.references id).dormantTime

def evictables : List StoreId := m.stores.filter fun id => m.Evictable shared id

/-- If there are more evictable stores than the limit, one with the smallest dormant time is
released, and otherwise none is. -/
def Evicts : Prop :=
  if m.persistentCache < (m.evictables shared).length then
    ∃ id ∈ m.evictables shared, (∀ k ∈ m.evictables shared, m.dormantTime id ≤ m.dormantTime k) ∧
      m.evictStore shared = m.releaseStore id
  else m.evictStore shared = .ok (m, [])

def counted : List StoreId := minima m.dormantTime invalidTimeStamp (m.evictables shared)

variable {m shared}

theorem findVictim_eq : m.findVictim shared m.stores =
    (m.evictables shared).foldl (keep m.dormantTime) (0, invalidTimeStamp, invalidStoreId) := by
  unfold findVictim evictables
  rw [List.foldl_filter]
  refine congrArg (m.stores.foldl · _) (funext fun best => funext fun id => ?_)
  obtain ⟨num, evictTime, evictId⟩ := best
  have hcond : ((m.references id).dormant && decide ((m.references id).dormantTime < evictTime) &&
      !shared id && (m.references id).store.isSome) = true ↔
        m.Evictable shared id ∧ m.dormantTime id < evictTime := by
    simp only [Evictable, dormantTime, store, Bool.and_eq_true, decide_eq_true_eq,
      Bool.not_eq_true']
    tauto
  dsimp only [keep]
  by_cases hid : m.Evictable shared id
  · rw [decide_eq_true hid, if_pos rfl]
    exact if_congr (hcond.trans (and_iff_right hid)) rfl rfl
  · rw [decide_eq_false hid, if_neg (fun h => hid (hcond.mp h).1), if_neg Bool.false_ne_true]

theorem evictStore_eq : m.evictStore shared =
    if m.persistentCache < (m.counted shared).length then
      m.releaseStore (((m.counted shared).getLast?).getD invalidStoreId)
    else .ok (m, []) := by
  unfold evictStore
  rw [findVictim_eq, foldl_keep, Nat.zero_add]
  rfl

theorem releaseStore_ne (id : StoreId) (h : (m.store id).isSome) :
    m.releaseStore id ≠ .ok (m, []) := by
  obtain ⟨st, hst⟩ := Option.isSome_iff_exists.mp h
  unfold releaseStore
  rw [hst]
  dsimp only
  intro heq
  rcases hdetach : st.detach serverSessionId false with e | st' <;> rw [hdetach] at heq
  · cases heq
  · exact List.cons_ne_nil _ _ (Prod.mk.inj (Except.ok.inj heq)).2

theorem length_counted_le : (m.counted shared).length ≤ (m.evictables shared).length :=
  length_minima_le

theorem smallest_of_counted {id : StoreId} (h : (m.counted shared).getLast? = some id) :
    id ∈ m.evictables shared ∧ ∀ k ∈ m.evictables shared, m.dormantTime id ≤ m.dormantTime k :=
  ⟨(getLast_minima_le h).1, (getLast_minima_le h).2.2⟩

/-- Evictable stores are counted only if they have a smaller dormant time than all before them. -/
theorem evicts_iff : m.Evicts shared ↔
    (m.evictables shared).length ≤ m.persistentCache ∨
      m.persistentCache < (m.counted shared).length := by
  have hle : (m.counted shared).length ≤ (m.evictables shared).length := length_counted_le
  unfold Evicts
  rw [evictStore_eq]
  split_ifs with hmany hcounted hcounted
  · refine iff_of_true ?_ (.inr hcounted)
    have hne : m.counted shared ≠ [] := List.ne_nil_of_length_pos (by omega)
    obtain ⟨id, hid⟩ := Option.isSome_iff_exists.mp (List.getLast?_isSome.mpr hne)
    rw [hid]
    exact ⟨id, (smallest_of_counted hid).1, (smallest_of_counted hid).2, rfl⟩
  · refine iff_of_false ?_ (by omega)
    rintro ⟨id, hid, -, heq⟩
    have hevictable : m.Evictable shared id := of_decide_eq_true (List.mem_filter.mp hid).2
    exact releaseStore_ne id hevictable.2.2 heq.symm
  · omega
  · exact iff_of_true rfl (.inl (by omega))

def twoDormant : ServerStoreManager where
  persistentCache := 1
  nextId := 2
  stores := [0, 1]
  references id :=
    let name := if id = 0 then "first" else "second"
    ⟨name, some ⟨id, name, 1, []⟩, true, 5 + id⟩

theorem not_evicts_twoDormant : ¬ twoDormant.Evicts fun _ => false := by
  intro h
  unfold Evicts at h
  rw [if_pos (by decide +kernel), evictStore_eq, if_neg (by decide +kernel)] at h
  obtain ⟨id, hid, -, heq⟩ := h
  have hevictable : twoDormant.Evictable (fun _ => false) id :=
    of_decide_eq_true (List.mem_filter.mp hid).2
  exact releaseStore_ne id hevictable.2.2 heq.symm

end Simutrace.Manager.ServerStoreManager
