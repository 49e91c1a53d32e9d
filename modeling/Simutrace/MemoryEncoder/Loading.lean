import Simutrace.MemoryEncoder.SegmentLine
import Mathlib.Algebra.BigOperators.Group.Finset.Piecewise
import Mathlib.Algebra.Group.Nat.Defs

/-! # Loads of a context

The open wait of a context counts the loads that the context waits for. When it
counts none, the segments of an initialized context are loaded, until the
context is closed.
-/

namespace Simutrace

namespace HiddenSegment

/-- A load of the segment has not ended. -/
def Pending : HiddenSegment → Prop
  | loading _ _ | canceled _ => True
  | absent | new _ | encoding _ | stored | loaded _ _ => False

def ReadFrom (id : SegmentId) : HiddenSegment → Prop
  | loading id' _ | loaded id' _ => id' = id
  | absent | new _ | encoding _ | stored | canceled _ => False

instance (h : HiddenSegment) : Decidable h.Pending := by
  cases h <;> first | exact isTrue trivial | exact isFalse id

variable {h : HiddenSegment} {outcome : OpenOutcome} {id : SegmentId}

theorem not_pending_finishLoad : ¬ h.finishLoad.Pending := by
  cases h <;> exact not_false

theorem Pending.of_close {submit : SubmitOutcome} (pending : (h.close submit).1.Pending) :
    h.Pending := by
  cases h with
  | absent | encoding id | stored => exact pending
  | new id => cases submit <;> exact pending
  | loading id n | canceled id => trivial
  | loaded id n => cases n <;> exact pending

theorem registersWait_of_pending (pending : (h.openSegment outcome).1.Pending) :
    h.registersWait outcome = true := by
  cases h <;> cases outcome <;> first | rfl | exact pending.elim

theorem readFrom_openSegment (opened : (h.openSegment outcome).2 = some (some id)) :
    (h.openSegment outcome).1.ReadFrom id := by
  cases h <;> cases outcome <;>
    simp only [openSegment, Option.some.injEq, reduceCtorEq] at opened <;> exact opened

theorem ReadFrom.finishLoad (read : h.ReadFrom id) : h.finishLoad.ReadFrom id := by
  cases h <;> exact read

theorem ReadFrom.close (read : h.ReadFrom id) (submit : SubmitOutcome) :
    (h.close submit).2 = false := by
  cases h with
  | loading id n | loaded id n => cases n <;> rfl
  | absent | new id | encoding id | stored | canceled id => exact read.elim

theorem ReadFrom.loaded (read : h.ReadFrom id) (ended : ¬ h.Pending) : ∃ n, h = loaded id n := by
  cases h with
  | loaded id' n =>
    obtain rfl : id' = id := read
    exact ⟨n, rfl⟩
  | loading id' n => exact absurd trivial ended
  | absent | new id | encoding id | stored | canceled id => exact read.elim

end HiddenSegment

/-- How often the open wait has been registered for loads that have not ended. -/
def BufferContext.registeredWaits (streamCount : ℕ) (context : BufferContext) : ℕ :=
  ∑ i ∈ Finset.range streamCount, context.registered i

theorem sum_registered_update {i n : ℕ} (h : i < n) (f : ℕ → ℕ) (b : ℕ) :
    ∑ j ∈ Finset.range n, Function.update f i b j + f i = b + ∑ j ∈ Finset.range n, f j := by
  have hi : i ∈ Finset.range n := Finset.mem_range.mpr h
  rw [Finset.sum_update_of_mem hi, Finset.sum_eq_add_sum_sdiff_singleton_of_mem hi f]
  omega

namespace ContextState

/-- The open wait counts the loads that have not ended. -/
structure Counts (streamCount : ℕ) (c : ContextState) : Prop where
  pending : ∀ i < streamCount, (c.segments i).Pending → 0 < c.context.registered i
  count : c.context.openWait.count = c.context.registeredWaits streamCount % 2 ^ 32
  outside : ∀ i, streamCount ≤ i → c.context.registered i = 0

def Holds (streamCount : ℕ) (c : ContextState) : Prop :=
  ∀ i < streamCount, ∃ id, c.context.buffers i = some id ∧ (c.segments i).ReadFrom id

variable {c : ContextState} {number : StreamSegmentId} {outcome : ℕ → OpenOutcome}
  {streamCount k i : ℕ}

section SetUp

theorem segments_setUp : (setUp number true outcome i c).1.segments =
    Function.update c.segments i ((c.segments i).openSegment (outcome i)).1 := by
  unfold setUp
  dsimp only
  split <;> rfl

theorem openWait_setUp : (setUp number true outcome i c).1.context.openWait =
    (c.segments i).notifyWait number c.context.openWait (outcome i) := by
  unfold setUp
  dsimp only
  split <;> rfl

theorem registered_setUp : (setUp number true outcome i c).1.context.registered =
    if (c.segments i).registersWait (outcome i) then
      Function.update c.context.registered i (c.context.registered i + 1)
    else c.context.registered := by
  unfold setUp
  dsimp only
  split <;> rfl

theorem Counts.setUp (counts : c.Counts streamCount) (hi : i < streamCount) :
    (setUp number true outcome i c).1.Counts streamCount := by
  have hsum := sum_registered_update hi c.context.registered (c.context.registered i + 1)
  have hcount := counts.count
  refine ⟨fun j hj pending => ?_, ?_, fun j hj => ?_⟩
  · rw [segments_setUp] at pending
    rw [registered_setUp]
    by_cases hji : j = i
    · subst hji
      rw [Function.update_self] at pending
      rw [if_pos (HiddenSegment.registersWait_of_pending pending), Function.update_self]
      exact Nat.succ_pos _
    · rw [Function.update_of_ne hji] at pending
      split
      · rw [Function.update_of_ne hji]
        exact counts.pending j hj pending
      · exact counts.pending j hj pending
  · unfold BufferContext.registeredWaits at hcount ⊢
    rw [openWait_setUp, registered_setUp]
    unfold HiddenSegment.notifyWait
    split
    · rw [show ∑ j ∈ Finset.range streamCount, Function.update c.context.registered i
          (c.context.registered i + 1) j =
            ∑ j ∈ Finset.range streamCount, c.context.registered j + 1 by omega]
      simp only [StreamWait.increment]
      omega
    · split <;> exact hcount
  · rw [registered_setUp]
    split
    · rw [Function.update_of_ne (by omega)]
      exact counts.outside j hj
    · exact counts.outside j hj

theorem Counts.setUpFirst (counts : c.Counts streamCount) (hk : k ≤ streamCount) :
    (c.setUpFirst number true outcome k).1.Counts streamCount := by
  induction k with
  | zero => exact counts
  | succ k ih =>
    rw [ContextState.setUpFirst]
    have hfirst := ih (by omega)
    split
    · rename_i hres
      rwa [hres] at hfirst
    · rename_i hres
      rw [hres] at hfirst
      exact hfirst.setUp (by omega)

theorem holds_setUpFirst (h : (c.setUpFirst number true outcome k).2 = true) :
    (c.setUpFirst number true outcome k).1.Holds k := by
  induction k with
  | zero => exact fun i hi => absurd hi (Nat.not_lt_zero i)
  | succ k ih =>
    rw [setUpFirst] at h ⊢
    rcases hres : c.setUpFirst number true outcome k with ⟨c', _ | _⟩ <;> rw [hres] at h ih
    · exact absurd h Bool.false_ne_true
    · change (ContextState.setUp number true outcome k c').2 = true at h
      change (ContextState.setUp number true outcome k c').1.Holds (k + 1)
      unfold ContextState.setUp at h ⊢
      dsimp only at h ⊢
      rcases hopened : ((c'.segments k).acquire true (outcome k)).2 with _ | _ | id <;>
        rw [hopened] at h <;> dsimp only at h ⊢
      · exact absurd h Bool.false_ne_true
      · exact absurd h Bool.false_ne_true
      · intro i hi
        dsimp only
        rcases Nat.lt_succ_iff_lt_or_eq.mp hi with hlt | rfl
        · rw [Function.update_of_ne (by omega), Function.update_of_ne (by omega)]
          exact ih rfl i hlt
        · rw [Function.update_self, Function.update_self]
          exact ⟨id, rfl, HiddenSegment.readFrom_openSegment hopened⟩

end SetUp

/-- The open wait is exact, and a context that has not been closed reads its segments. -/
structure Reads (subSegmentCount streamCount : ℕ) (c : ContextState) : Prop where
  counts : c.Counts streamCount
  isLoad : c.context.initialized = true → c.context.isLoad = true
  holds : c.context.initialized = true → c.context.usedBuffers < subSegmentCount →
    c.Holds streamCount

variable {subSegmentCount : ℕ}

theorem reads_new {segments : ℕ → HiddenSegment} (ended : ∀ i, ¬ (segments i).Pending) :
    Reads subSegmentCount streamCount ⟨segments, .new⟩ where
  counts :=
    { pending := fun i _ pending => absurd pending (ended i)
      count := by simp [BufferContext.registeredWaits, BufferContext.new]
      outside := fun _ _ => rfl }
  isLoad h := absurd h Bool.false_ne_true
  holds h := absurd h Bool.false_ne_true

theorem Reads.enter (reads : c.Reads subSegmentCount streamCount) :
    (c.enter streamCount number true outcome).1.Reads subSegmentCount streamCount := by
  by_cases hinit : c.context.initialized = true
  · rw [ContextState.enter, if_pos hinit]
    exact reads
  · rw [enter_of_uninitialized (Bool.eq_false_iff.mpr hinit)]
    have hcounts : (c.setUpFirst number true outcome streamCount).1.Counts streamCount :=
      reads.counts.setUpFirst le_rfl
    obtain ⟨hset, -⟩ | ⟨hset, j, -, -, set⟩ :=
      setUpFirst_cases c number true outcome streamCount
    · rw [initializeContext_of_set_up hset]
      exact ⟨⟨hcounts.pending, hcounts.count, hcounts.outside⟩, fun _ => rfl,
        fun _ _ => holds_setUpFirst hset⟩
    · rw [initializeContext_of_failed hset]
      have hkept := set.initialized
      exact ⟨hcounts, fun h => absurd (hkept.symm.trans h) hinit,
        fun h => absurd (hkept.symm.trans h) hinit⟩

theorem Reads.fails_of_enter (reads : c.Reads subSegmentCount streamCount)
    (fails : (c.enter streamCount number true outcome).2 = false) :
    ∃ i < streamCount, ¬ (c.segments i).Acquires true (outcome i) := by
  by_cases hinit : c.context.initialized = true
  · rw [ContextState.enter, if_pos hinit, reads.isLoad hinit] at fails
    exact absurd fails (by simp)
  · rw [enter_of_uninitialized (Bool.eq_false_iff.mpr hinit)] at fails
    obtain ⟨hset, -⟩ | ⟨-, j, hj, hfails, -⟩ :=
      setUpFirst_cases c number true outcome streamCount
    · rw [initializeContext_of_set_up hset] at fails
      exact absurd fails (by simp)
    · exact ⟨j, hj, hfails⟩

section Complete

variable {submit : ℕ → SubmitOutcome}

/-- Closing segments changes neither the waits nor the mode, and no load begins. -/
structure Released (c c' : ContextState) : Prop where
  pending : ∀ i, (c'.segments i).Pending → (c.segments i).Pending
  openWait : c'.context.openWait = c.context.openWait
  registered : c'.context.registered = c.context.registered
  isLoad : c'.context.isLoad = c.context.isLoad
  initialized : c'.context.initialized = c.context.initialized

theorem released_closeStream (i : ℕ) : c.Released (closeStream submit i c) := by
  have hpending (j : ℕ) (h : (Function.update c.segments i
      ((c.segments i).close (submitOutcome c.context (submit i))).1 j).Pending) :
      (c.segments j).Pending := by
    by_cases hj : j = i
    · subst hj
      rw [Function.update_self] at h
      exact h.of_close
    · rwa [Function.update_of_ne hj] at h
  unfold closeStream
  rcases hclose : (c.segments i).close (submitOutcome c.context (submit i)) with ⟨h', _ | _⟩ <;>
    rw [hclose] at hpending
  · exact ⟨hpending, rfl, rfl, rfl, rfl⟩
  · exact ⟨hpending, rfl, rfl, rfl, rfl⟩

theorem released_closeFirst : c.Released (c.closeFirst submit k).1 := by
  induction k with
  | zero => exact ⟨fun _ => id, rfl, rfl, rfl, rfl⟩
  | succ k ih =>
    rw [closeFirst]
    rcases hfirst : c.closeFirst submit k with ⟨c', _ | _⟩ <;> rw [hfirst] at ih
    · exact ih
    · dsimp only
      split
      · exact ih
      · have hclose := @released_closeStream c' submit k
        exact ⟨fun i h => ih.pending i (hclose.pending i h), hclose.openWait.trans ih.openWait,
          hclose.registered.trans ih.registered, hclose.isLoad.trans ih.isLoad,
          hclose.initialized.trans ih.initialized⟩

theorem Released.counts {c' : ContextState} (released : c.Released c')
    (counts : c.Counts streamCount) : c'.Counts streamCount where
  pending i hi h := released.registered ▸ counts.pending i hi (released.pending i h)
  count := by
    unfold BufferContext.registeredWaits
    rw [released.openWait, released.registered]
    exact counts.count
  outside := released.registered ▸ counts.outside

theorem Reads.completeSubSegment (reads : c.Reads subSegmentCount streamCount) (j : ℕ)
    (empty : Bool) : (c.completeSubSegment subSegmentCount streamCount j empty submit).1.Reads
      subSegmentCount streamCount := by
  unfold ContextState.completeSubSegment
  split
  · rename_i hlast
    have released := @released_closeFirst (c.mark j empty) streamCount submit
    obtain ⟨pending, count, outside⟩ := reads.counts
    refine ⟨released.counts ⟨pending, count, outside⟩, fun h => ?_, fun h hlt => ?_⟩
    · exact released.isLoad.trans (reads.isLoad (released.initialized.symm.trans h))
    · rw [usedBuffers_close, usedBuffers_mark] at hlt
      omega
  · obtain ⟨pending, count, outside⟩ := reads.counts
    exact ⟨⟨pending, count, outside⟩, reads.isLoad,
      fun h hlt => reads.holds h ((Nat.lt_succ_self _).trans hlt)⟩

end Complete

section Finish

theorem count_decrement {n k : ℕ} {wait : StreamWait} (h : wait.count = n % 2 ^ 32) (le : k ≤ n) :
    (StreamWait.decrement^[k] wait).count = (n - k) % 2 ^ 32 := by
  induction k with
  | zero => exact h
  | succ k ih =>
    have hk := ih (by omega)
    rw [Function.iterate_succ_apply']
    dsimp only [StreamWait.decrement]
    rw [hk]
    omega

theorem Counts.finish (counts : c.Counts streamCount) (i : ℕ) :
    Counts streamCount ⟨Function.update c.segments i (c.segments i).finishLoad,
      SegmentLine.finishWait i c.context⟩ := by
  refine ⟨fun j hj pending => ?_, ?_, fun j hj => ?_⟩
  · dsimp only [SegmentLine.finishWait] at pending ⊢
    by_cases hji : j = i
    · subst hji
      rw [Function.update_self] at pending
      exact absurd pending HiddenSegment.not_pending_finishLoad
    · rw [Function.update_of_ne hji] at pending ⊢
      exact counts.pending j hj pending
  · dsimp only [SegmentLine.finishWait, BufferContext.registeredWaits]
    by_cases hi : i < streamCount
    · have hsum := sum_registered_update hi c.context.registered 0
      rw [count_decrement counts.count (by unfold BufferContext.registeredWaits; omega)]
      unfold BufferContext.registeredWaits
      congr 1
      omega
    · have hnone := counts.outside i (not_lt.mp hi)
      rw [hnone, Function.update_eq_self_iff.mpr hnone.symm]
      exact counts.count
  · dsimp only [SegmentLine.finishWait]
    by_cases hji : j = i
    · rw [hji, Function.update_self]
    · rw [Function.update_of_ne hji]
      exact counts.outside j hj

theorem Reads.finish (reads : c.Reads subSegmentCount streamCount) (i : ℕ) :
    Reads subSegmentCount streamCount ⟨Function.update c.segments i (c.segments i).finishLoad,
      SegmentLine.finishWait i c.context⟩ := by
  refine ⟨reads.counts.finish i, reads.isLoad, fun h hlt j hj => ?_⟩
  obtain ⟨id, hbuffer, hread⟩ := reads.holds h hlt j hj
  refine ⟨id, hbuffer, ?_⟩
  dsimp only
  by_cases hji : j = i
  · subst hji
    rw [Function.update_self]
    exact hread.finishLoad
  · rwa [Function.update_of_ne hji]

theorem Reads.loaded (reads : c.Reads subSegmentCount streamCount)
    (initialized : c.context.initialized = true) (used : c.context.usedBuffers < subSegmentCount)
    (room : c.context.registeredWaits streamCount < 2 ^ 32) (ended : c.context.openWait.count = 0)
    {i : ℕ} (hi : i < streamCount) :
    ∃ id n, c.context.buffers i = some id ∧ c.segments i = .loaded id n := by
  obtain ⟨id, hbuffer, hread⟩ := reads.holds initialized used i hi
  have hnone : c.context.registeredWaits streamCount = 0 := by
    rw [← Nat.mod_eq_of_lt room, ← reads.counts.count, ended]
  have hidle : c.context.registered i = 0 :=
    Finset.sum_eq_zero_iff.mp hnone i (Finset.mem_range.mpr hi)
  have hended : ¬ (c.segments i).Pending := fun pending =>
    absurd (reads.counts.pending i hi pending) (by omega)
  obtain ⟨n, hloaded⟩ := hread.loaded hended
  exact ⟨id, n, hbuffer, hloaded⟩

end Finish

end ContextState

end Simutrace
