import Simutrace.Library.Transition
import Simutrace.Session.System

/-! # The references of a session

The reference count of a session is the number of the workers that are attached
to it. A session without references is dead and has no store.
-/

namespace Simutrace.Sessions

variable {W P : Type*} [DecidableEq W] [DecidableEq P]

def isAttached (workers : W → Option ServerSessionWorker) (w : W) : Bool :=
  (workers w).any (·.place.isAttached)

namespace Session

structure Valid (workers : W → Option ServerSessionWorker) (id : SessionId)
    (session : Session W) : Prop where
  nodup : session.workers.Nodup
  mem : ∀ w, w ∈ session.workers ↔ ∃ place, workers w = some ⟨id, place⟩ ∧ place.isOwned = true
  count : session.referenceCount = session.workers.countP (isAttached workers)
  alive : session.isAlive = true ↔ 0 < session.referenceCount
  closed : session.isAlive = false → session.store = none

variable {workers workers' : W → Option ServerSessionWorker} {id : SessionId}
  {session session' : Session W} {w : W} {place place' : Place} {startup : Startup}

omit [DecidableEq W] in
theorem isAttached_of_worker (h : workers w = some ⟨id, place⟩) :
    isAttached workers w = place.isAttached := by
  rw [isAttached, h]
  rfl

theorem isOwned_of_isAttached (h : place.isAttached = true) : place.isOwned = true := by
  cases place <;> first | rfl | exact h

omit [DecidableEq W] in
theorem Valid.congr (h : session.Valid workers id)
    (hworkers : ∀ w place, workers' w = some ⟨id, place⟩ ↔ workers w = some ⟨id, place⟩) :
    session.Valid workers' id where
  nodup := h.nodup
  mem w := by
    rw [h.mem]
    exact exists_congr fun place => and_congr_left' (hworkers w place).symm
  count := by
    rw [h.count]
    refine List.countP_congr fun w hw => ?_
    obtain ⟨place, hplace, -⟩ := (h.mem w).mp hw
    rw [isAttached_of_worker hplace, isAttached_of_worker ((hworkers w place).mpr hplace)]
  alive := h.alive
  closed := h.closed

theorem Valid.move (h : session.Valid workers id) (hw : workers w = some ⟨id, place⟩)
    (howned : place'.isOwned = place.isOwned) (hattached : place'.isAttached = place.isAttached) :
    session.Valid (Function.update workers w (some ⟨id, place'⟩)) id where
  nodup := h.nodup
  mem v := by
    rw [h.mem]
    by_cases hv : v = w
    · subst hv
      rw [Function.update_self, hw]
      simp [howned]
    · rw [Function.update_of_ne hv]
  count := by
    rw [h.count]
    refine List.countP_congr fun v _ => ?_
    by_cases hv : v = w
    · subst hv
      rw [isAttached_of_worker hw, isAttached, Function.update_self]
      simp [hattached]
    · rw [isAttached, isAttached, Function.update_of_ne hv]
  alive := h.alive
  closed := h.closed

omit [DecidableEq W] in
theorem Valid.setLocked (h : session.Valid workers id) (locked : Bool) :
    Valid workers id { session with locked := locked } :=
  ⟨h.nodup, h.mem, h.count, h.alive, h.closed⟩

omit [DecidableEq W] in
theorem Valid.setStore {store : Option Manager.StoreId} (h : session.Valid workers id)
    (alive : session.isAlive = false → store = none) :
    Valid workers id { session with store := store } :=
  ⟨h.nodup, h.mem, h.count, h.alive, alive⟩

theorem valid_new (fresh : ∀ w place, workers w ≠ some ⟨id, place⟩) (w : W)
    (peerApiVersion : ApiVersion) :
    Valid (Function.update workers w (some ⟨id, .starting⟩)) id (.new w peerApiVersion) where
  nodup := List.pairwise_singleton _ _
  mem v := by
    rw [Session.new, List.mem_singleton]
    by_cases hv : v = w
    · subst hv
      simp [Place.isOwned, Place.isAttached]
    · rw [Function.update_of_ne hv]
      exact iff_of_false hv fun ⟨place, hplace, _⟩ => fresh v place hplace
  count := by simp [Session.new, isAttached, Place.isAttached]
  alive := by simp [Session.new]
  closed := by simp [Session.new]

theorem Valid.attach_of_owned (h : session.Valid workers id) (fresh : workers w = none)
    (place : Place) (howned : place.isOwned = true) :
    (session.workers ++ [w]).Nodup ∧
      (∀ v, v ∈ session.workers ++ [w] ↔
        ∃ p, Function.update workers w (some ⟨id, place⟩) v = some ⟨id, p⟩ ∧ p.isOwned = true) ∧
      (session.workers ++ [w]).countP (isAttached (Function.update workers w (some ⟨id, place⟩))) =
        session.referenceCount + if place.isAttached then 1 else 0 := by
  have hnotMem : w ∉ session.workers := fun hmem => by
    obtain ⟨p, hp, -⟩ := (h.mem w).mp hmem
    cases fresh.symm.trans hp
  have hnodup : (session.workers ++ [w]).Nodup :=
    List.nodup_append.mpr ⟨h.nodup, List.pairwise_singleton _ _, fun v hv v' hv' => by
      rw [List.mem_singleton.mp hv']
      exact ne_of_mem_of_not_mem hv hnotMem⟩
  refine ⟨hnodup, fun v => ?_, ?_⟩
  · rw [List.mem_append, List.mem_singleton, h.mem]
    by_cases hv : v = w
    · subst hv
      simp [howned]
    · rw [Function.update_of_ne hv, or_iff_left hv]
  · rw [List.countP_append, h.count]
    congr 1
    · refine List.countP_congr fun v hv => ?_
      rw [isAttached, isAttached, Function.update_of_ne (ne_of_mem_of_not_mem hv hnotMem)]
    · rw [List.countP_singleton, isAttached, Function.update_self]
      rfl

theorem Valid.attach (h : session.Valid workers id) (alive : session.isAlive = true)
    (fresh : workers w = none) (startup : Startup) :
    (session.attach w startup).Valid
      (match startup with
        | .started => Function.update workers w (some ⟨id, .starting⟩)
        | .notStarted => Function.update workers w (some ⟨id, .unstarted⟩)
        | .notCreated => workers) id := by
  have hclosed (store : Option Manager.StoreId) (hdead : session.isAlive = false) : store = none :=
    Bool.noConfusion (alive.symm.trans hdead)
  cases startup with
  | started =>
    obtain ⟨hnodup, hmem, hcount⟩ := h.attach_of_owned fresh .starting rfl
    refine ⟨hnodup, hmem, ?_, ?_, hclosed _⟩
    · exact hcount.symm
    · exact iff_of_true alive (Nat.succ_pos _)
  | notStarted =>
    obtain ⟨hnodup, hmem, hcount⟩ := h.attach_of_owned fresh .unstarted rfl
    exact ⟨hnodup, hmem, hcount.symm, h.alive, hclosed _⟩
  | notCreated => exact h

theorem Valid.erase (h : session.Valid workers id) (hw : workers w = some ⟨id, place⟩)
    (hattached : place.isAttached = true) (howned : place'.isOwned = false) :
    (session.workers.erase w).Nodup ∧
      (∀ v, v ∈ session.workers.erase w ↔
        ∃ p, Function.update workers w (some ⟨id, place'⟩) v = some ⟨id, p⟩ ∧ p.isOwned = true) ∧
      (session.workers.erase w).countP (isAttached (Function.update workers w (some ⟨id, place'⟩)))
        + 1 = session.referenceCount := by
  have hmem : w ∈ session.workers := (h.mem w).mpr ⟨place, hw, isOwned_of_isAttached hattached⟩
  refine ⟨h.nodup.erase w, fun v => ?_, ?_⟩
  · rw [h.nodup.mem_erase_iff, h.mem]
    by_cases hv : v = w
    · subst hv
      simp [howned]
    · rw [Function.update_of_ne hv, and_iff_right hv]
  · have hperm := (List.perm_cons_erase hmem).countP_eq (isAttached workers)
    rw [List.countP_cons_of_pos ((isAttached_of_worker hw).trans hattached)] at hperm
    rw [h.count, hperm]
    congr 1
    refine List.countP_congr fun v hv => ?_
    rw [isAttached, isAttached, Function.update_of_ne (h.nodup.mem_erase_iff.mp hv).1]

omit [DecidableEq W] in
theorem Valid.referenceCount_pos (h : session.Valid workers id) (hw : workers w = some ⟨id, place⟩)
    (hattached : place.isAttached = true) : 0 < session.referenceCount := by
  rw [h.count, List.countP_pos_iff]
  exact ⟨w, (h.mem w).mpr ⟨place, hw, isOwned_of_isAttached hattached⟩,
    (isAttached_of_worker hw).trans hattached⟩

theorem detach_of_several (several : 1 < session.referenceCount) : session.detach w =
    ({ session with
      workers := session.workers.erase w
      referenceCount := session.referenceCount - 1 }, false) := by
  unfold Session.detach dodetach
  rw [if_neg several.ne', if_pos several]
  rfl

theorem detach_of_last (last : session.referenceCount = 1) : session.detach w =
    ({ session with
      workers := session.workers.erase w
      store := none
      isAlive := false
      referenceCount := 0 }, true) := by
  unfold Session.detach dodetach
  rw [if_pos last, if_neg (by rw [last]; exact lt_irrefl 1)]
  rfl

theorem store_of_several (several : (session.detach w).2 = false) :
    (session.detach w).1.store = session.store := by
  unfold Session.detach dodetach at *
  dsimp only at *
  split_ifs at *
  all_goals rfl

theorem store_of_last (last : (session.detach w).2 = true) : (session.detach w).1.store = none := by
  unfold Session.detach at *
  dsimp only at *
  split_ifs at *
  rfl

theorem Valid.detach_snd (h : session.Valid workers id) (hw : workers w = some ⟨id, place⟩)
    (hattached : place.isAttached = true) :
    (session.detach w).2 = true ↔ session.referenceCount = 1 := by
  have hpos := h.referenceCount_pos hw hattached
  rcases (Nat.succ_le_of_lt hpos).eq_or_lt with hone | hseveral
  · rw [detach_of_last hone.symm]
    exact iff_of_true rfl hone.symm
  · rw [detach_of_several hseveral]
    exact iff_of_false Bool.false_ne_true hseveral.ne'

theorem Valid.detach (h : session.Valid workers id) (hw : workers w = some ⟨id, place⟩)
    (hattached : place.isAttached = true) (howned : place'.isOwned = false) :
    (session.detach w).1.Valid (Function.update workers w (some ⟨id, place'⟩)) id := by
  obtain ⟨hnodup, hmem, hcount⟩ := h.erase hw hattached howned
  have hpos := h.referenceCount_pos hw hattached
  rcases (Nat.succ_le_of_lt hpos).eq_or_lt with hone | hseveral
  · rw [detach_of_last hone.symm]
    refine ⟨hnodup, hmem, ?_, iff_of_false Bool.false_ne_true (lt_irrefl 0), fun _ => rfl⟩
    dsimp only
    omega
  · rw [detach_of_several hseveral]
    refine ⟨hnodup, hmem, ?_, ?_, h.closed⟩
    · dsimp only
      omega
    · exact iff_of_true (h.alive.mpr hpos) (Nat.sub_pos_of_lt hseveral)

end Session

end Simutrace.Sessions
