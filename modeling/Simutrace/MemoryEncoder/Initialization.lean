import Simutrace.MemoryEncoder.SegmentLine

/-! # Contexts that cannot be initialized

The initialization of a buffer context stops at the first hidden stream without
memory. It does not give back what it took from the hidden streams before, and
the sub segment is counted as completed, also if it is tried again.
-/

namespace Simutrace

namespace HiddenSegment

/-- The segment is not read by anyone. -/
def Unread : HiddenSegment → Prop
  | absent | new _ | encoding _ | stored => True
  | loading _ _ | canceled _ | loaded _ _ => False

def ReadOnce : HiddenSegment → Prop
  | absent | new _ | encoding _ | stored => True
  | loading _ n | loaded _ n => n = 0
  | canceled _ => False

/-- There is neither a segment that is filled, nor an access or a reference. -/
def Released (h : HiddenSegment) : Prop := h = absent ∨ h = stored

/-- The segment that a hidden stream must have before the operation. -/
def required (isLoad : Bool) : HiddenSegment := if isLoad then stored else absent

variable {h : HiddenSegment} {isLoad : Bool} {outcome : OpenOutcome}

theorem finishLoad_of_unread (unread : h.Unread) : h.finishLoad = h := by
  cases h <;> first | rfl | exact unread.elim

theorem unread_finishLoad (unread : h.Unread) : h.finishLoad.Unread :=
  (finishLoad_of_unread unread).symm ▸ unread

theorem readOnce_finishLoad (once : h.ReadOnce) : h.finishLoad.ReadOnce := by
  cases h <;> first | exact once | exact once.elim

theorem unread_finishEncoding {located : Bool} (unread : h.Unread) :
    (h.finishEncoding located).Unread := by
  cases h <;> cases located <;> exact unread

theorem readOnce_finishEncoding {located : Bool} (once : h.ReadOnce) :
    (h.finishEncoding located).ReadOnce := by
  cases h <;> cases located <;> exact once

theorem unread_finishLoad_close {submit : SubmitOutcome} (once : h.ReadOnce) :
    (h.close submit).1.finishLoad.Unread := by
  cases h with
  | absent | encoding id | stored => trivial
  | new id => cases submit <;> trivial
  | loading id n | loaded id n =>
    obtain rfl : n = 0 := once
    trivial
  | canceled id => exact once.elim

theorem acquires_iff (unread : h.Unread) :
    h.Acquires isLoad outcome ↔ h = required isLoad ∧ outcome.id ≠ none := by
  cases isLoad <;> cases h <;> cases outcome <;> first
    | exact unread.elim
    | simp [Acquires, acquire, openSegment, add, required, OpenOutcome.id]

theorem readOnce_acquire (unread : h.Unread) (acquires : h.Acquires isLoad outcome) :
    (h.acquire isLoad outcome).1.ReadOnce := by
  obtain ⟨rfl, hid⟩ := (acquires_iff unread).mp acquires
  cases isLoad <;> cases outcome <;> trivial

theorem not_released_acquire (unread : h.Unread) (acquires : h.Acquires isLoad outcome) :
    ¬ (h.acquire isLoad outcome).1.Released := by
  obtain ⟨rfl, hid⟩ := (acquires_iff unread).mp acquires
  cases isLoad <;> cases outcome <;> first
    | exact absurd rfl hid
    | simp [acquire, required, openSegment, add, Released]

theorem finishLoad_close_acquire (unread : h.Unread) (acquires : h.Acquires isLoad outcome) :
    ((h.acquire isLoad outcome).1.close (.complete none)).1.finishLoad = h := by
  obtain ⟨rfl, hid⟩ := (acquires_iff unread).mp acquires
  cases isLoad <;> cases outcome <;> first
    | exact absurd rfl hid
    | rfl

end HiddenSegment

namespace ContextState

open HiddenSegment

variable {c c' : ContextState} {streamCount : ℕ} {isLoad : Bool} {outcome : ℕ → OpenOutcome}

/-- No earlier attempt has left anything behind: a context that is not initialized has not set up
any hidden stream, and one that is initialized holds each of them once. -/
def Clean (streamCount : ℕ) (c : ContextState) : Prop :=
  if c.context.initialized then
    ∀ i < streamCount, c.context.buffers i ≠ none ∧ (c.segments i).ReadOnce
  else
    (∀ i, c.context.buffers i = none) ∧ (∀ j, c.context.bufferEmpty j ≠ .valid) ∧
      ∀ i < streamCount, (c.segments i).Unread

theorem Clean.initialized (clean : c.Clean streamCount) (h : c.context.initialized = true) :
    ∀ i < streamCount, c.context.buffers i ≠ none ∧ (c.segments i).ReadOnce := by
  simpa [Clean, h] using clean

theorem Clean.uninitialized (clean : c.Clean streamCount) (h : c.context.initialized = false) :
    (∀ i, c.context.buffers i = none) ∧ (∀ j, c.context.bufferEmpty j ≠ .valid) ∧
      ∀ i < streamCount, (c.segments i).Unread := by
  simpa [Clean, h] using clean

theorem clean_new {segments : ℕ → HiddenSegment} (h : ∀ i < streamCount, (segments i).Unread) :
    Clean streamCount ⟨segments, .new⟩ := by
  simpa [Clean, BufferContext.new] using h

theorem SetUp.clean {c₀ : ContextState} (set : SetUp isLoad outcome streamCount c c')
    (clean : c.Clean streamCount) (h : c.context.initialized = false)
    (hc : c₀.segments = c'.segments) (hb : c₀.context.buffers = c'.context.buffers)
    (hi : c₀.context.initialized = true) : c₀.Clean streamCount := by
  obtain ⟨-, -, hunread⟩ := clean.uninitialized h
  rw [Clean, if_pos hi]
  intro i hlt
  rw [hb, hc, set.segments i, if_pos hlt]
  exact ⟨set.buffers_of_lt i hlt, readOnce_acquire (hunread i hlt) (set.acquires i hlt)⟩

theorem SetUp.zero_segments (set : SetUp isLoad outcome 0 c c') : c'.segments = c.segments :=
  funext fun i => set.segments i

theorem SetUp.zero_clean (set : SetUp isLoad outcome 0 c c') (clean : c.Clean streamCount)
    (h : c.context.initialized = false) : c'.Clean streamCount := by
  obtain ⟨hbuffers, hvalid, hunread⟩ := clean.uninitialized h
  rw [Clean, if_neg (by simp [set.initialized, h]), set.bufferEmpty, set.zero_segments]
  exact ⟨fun i => (set.buffers_of_le i (Nat.zero_le i)).trans (hbuffers i), hvalid, hunread⟩

theorem clean_mark {j : ℕ} {empty : Bool} (clean : c.Clean streamCount)
    (h : empty = true ∨ c.context.initialized = true) : (c.mark j empty).Clean streamCount := by
  by_cases hinit : c.context.initialized = true
  · rw [Clean, initialized_mark, if_pos hinit]
    exact clean.initialized hinit
  · rw [Bool.not_eq_true] at hinit
    obtain ⟨hbuffers, hvalid, hunread⟩ := clean.uninitialized hinit
    obtain rfl : empty = true := h.resolve_right (by simp [hinit])
    rw [Clean, initialized_mark, if_neg (by simp [hinit])]
    refine ⟨hbuffers, fun k => ?_, hunread⟩
    by_cases hk : k = j
    · subst hk
      simp [mark]
    · simpa [mark, hk] using hvalid k

theorem validSubSegmentCount_of_not_valid {context : BufferContext}
    (h : ∀ j, context.bufferEmpty j ≠ .valid) : context.validSubSegmentCount = 0 := by
  have hfind : (List.range context.usedBuffers).reverse.find?
      (fun j => context.bufferEmpty j = .valid) = none := by
    simp [List.find?_eq_none, h]
  rw [BufferContext.validSubSegmentCount, hfind]
  rfl

/-- Closing a context that is not initialized gives back what it has set up. -/
theorem SetUp.finishLoad_close {k j : ℕ} {submit : ℕ → SubmitOutcome}
    (set : SetUp isLoad outcome k c c') (lt : k < streamCount) (clean : c.Clean streamCount)
    (h : c.context.initialized = false) :
    ∀ i < streamCount,
      (((c'.mark j true).close streamCount submit).segments i).finishLoad = c.segments i := by
  obtain ⟨hbuffers, hvalid, hunread⟩ := clean.uninitialized h
  have hclosed := closed_close_of_none (c := c'.mark j true) submit set.buffers_of_lt
    ((set.buffers_of_le k le_rfl).trans (hbuffers k)) lt
  have hmarked : ∀ i, (c'.mark j true).context.bufferEmpty i ≠ .valid := by
    intro i
    by_cases hi : i = j
    · subst hi
      simp [mark]
    · simpa [mark, hi, set.bufferEmpty] using hvalid i
  have houtcome (o : SubmitOutcome) :
      submitOutcome (c'.mark j true).context o = .complete none := by
    simp [submitOutcome, validSubSegmentCount_of_not_valid hmarked]
  intro i hi
  rw [hclosed.segments i, houtcome]
  split
  · rename_i hik
    have hseg : (c'.mark j true).segments i = ((c.segments i).acquire isLoad (outcome i)).1 :=
      (set.segments i).trans (if_pos hik)
    rw [hseg]
    exact finishLoad_close_acquire (hunread i hi) (set.acquires i hik)
  · rename_i hik
    have hseg : (c'.mark j true).segments i = c.segments i :=
      (set.segments i).trans (if_neg hik)
    rw [hseg]
    exact finishLoad_of_unread (hunread i hi)

theorem clean_initializeContext {number : StreamSegmentId} (clean : c.Clean streamCount)
    (h : c.context.initialized = false)
    (succeeds : (c.initializeContext streamCount number isLoad outcome).2 = true) :
    (c.initializeContext streamCount number isLoad outcome).1.Clean streamCount := by
  obtain ⟨htrue, set⟩ | ⟨hfalse, -⟩ := setUpFirst_cases c number isLoad outcome streamCount
  · rw [initializeContext_of_set_up htrue]
    exact set.clean clean h rfl rfl rfl
  · rw [initializeContext_of_failed hfalse] at succeeds
    exact absurd succeeds Bool.false_ne_true

theorem Clean.finish {i : ℕ} {h : HiddenSegment} (clean : c.Clean streamCount)
    (segments : c'.segments = Function.update c.segments i h)
    (buffers : c'.context.buffers = c.context.buffers)
    (bufferEmpty : c'.context.bufferEmpty = c.context.bufferEmpty)
    (initialized : c'.context.initialized = c.context.initialized)
    (unread : (c.segments i).Unread → h.Unread) (once : (c.segments i).ReadOnce → h.ReadOnce) :
    c'.Clean streamCount := by
  have hkeep {p : HiddenSegment → Prop} (hp : p (c.segments i) → p h) (j : ℕ)
      (hj : p (c.segments j)) : p (c'.segments j) := by
    rw [segments]
    by_cases hji : j = i
    · subst hji
      rw [Function.update_self]
      exact hp hj
    · rwa [Function.update_of_ne hji]
  by_cases hinit : c.context.initialized = true
  · rw [Clean, if_pos (initialized.trans hinit), buffers]
    intro j hj
    obtain ⟨hbuffer, honce⟩ := clean.initialized hinit j hj
    exact ⟨hbuffer, hkeep once j honce⟩
  · rw [Bool.not_eq_true] at hinit
    obtain ⟨hbuffers, hvalid, hunread⟩ := clean.uninitialized hinit
    rw [Clean, if_neg (by simp [initialized, hinit]), buffers, bufferEmpty]
    exact ⟨hbuffers, hvalid, fun j hj => hkeep unread j (hunread j hj)⟩

theorem Clean.unread_close_of_uninitialized {submit : ℕ → SubmitOutcome}
    (clean : c.Clean streamCount) (pos : 0 < streamCount) (h : c.context.initialized = false) :
    ∀ i < streamCount, ((c.close streamCount submit).segments i).finishLoad.Unread := by
  obtain ⟨hbuffers, -, hunread⟩ := clean.uninitialized h
  have hclosed := closed_close_of_none (c := c) submit
    (fun i hi => absurd hi (Nat.not_lt_zero i)) (hbuffers 0) pos
  intro i hi
  rw [hclosed.segments i, if_neg (Nat.not_lt_zero i), finishLoad_of_unread (hunread i hi)]
  exact hunread i hi

theorem Clean.unread_close {submit : ℕ → SubmitOutcome} (clean : c.Clean streamCount)
    (h : c.context.initialized = true) :
    ∀ i < streamCount, ((c.close streamCount submit).segments i).finishLoad.Unread := by
  intro i hi
  have hclosed := closed_close (c := c) submit fun i hi => (clean.initialized h i hi).1
  rw [hclosed.segments i, if_pos hi]
  exact unread_finishLoad_close (clean.initialized h i hi).2

end ContextState

namespace SegmentLine

variable (line : SegmentLine)

/-- No context has been created, and the hidden streams are as they are in the store. -/
def Fresh : Prop :=
  (∀ number, line.contexts number = none) ∧ ∀ number i, (line.segments number i).Released

/-- `_initialize` throws an exception. -/
def InitializationFails (a : Attempt) : Prop :=
  let number := line.hiddenNumber a.sequenceNumber
  (line.state number).context.initialized = false ∧
    ((line.state number).initializeContext line.streamCount number a.isLoad a.outcome).2 = false

def FailsFor (sequenceNumber : StreamSegmentId) : Event → Prop
  | .setup a => line.hiddenNumber a.sequenceNumber = line.hiddenNumber sequenceNumber ∧
      line.InitializationFails a
  | _ => False

/-- The lines that are reached, with the failed initializations of one context so far. -/
inductive Run (sequenceNumber : StreamSegmentId) : SegmentLine → List (SegmentLine × Attempt) → Prop
  | start {line : SegmentLine} (fresh : line.Fresh) : Run sequenceNumber line []
  | next {line : SegmentLine} {failures : List (SegmentLine × Attempt)}
      (run : Run sequenceNumber line failures) (event : Event) (enabled : line.Enabled event)
      (succeeds : ¬ line.FailsFor sequenceNumber event) :
      Run sequenceNumber (line.next event) failures
  | failed {line : SegmentLine} {failures : List (SegmentLine × Attempt)}
      (run : Run sequenceNumber line failures) (a : Attempt)
      (fails : line.FailsFor sequenceNumber (.setup a)) :
      Run sequenceNumber (line.setup a).1 ((line, a) :: failures)

/-- A failed initialization and what it leaves for a later sub segment of the context: the hidden
streams keep nothing, an attempt with enough memory succeeds, and neither of the two sub segments is
counted a second time. -/
structure Undone (line : SegmentLine) (a : Attempt) (later : StreamSegmentId) : Prop where
  released : ∀ i < line.streamCount,
    ((line.setup a).1.segments (line.hiddenNumber a.sequenceNumber) i).Released
  once : (line.state (line.hiddenNumber a.sequenceNumber)).context.bufferEmpty
    (a.sequenceNumber % line.subSegmentCount) = .neverUsed
  retried : ∀ outcome submit, (∀ i < line.streamCount, OpenOutcome.id (outcome i) ≠ none) →
    ((line.setup a).1.setup ⟨later, a.isLoad, outcome, submit⟩).2 = true
  onceLater : ((line.setup a).1.state (line.hiddenNumber a.sequenceNumber)).context.bufferEmpty
    (later % line.subSegmentCount) = .neverUsed

/-- The sub segment has not been used, all hidden streams permit the operation, and either it is the
last one that the context waits for, or there is no memory for the first hidden stream and it is not
used again. -/
structure Undoable (line : SegmentLine) (a : Attempt) (later : StreamSegmentId) : Prop where
  unused : (line.state (line.hiddenNumber a.sequenceNumber)).context.bufferEmpty
    (a.sequenceNumber % line.subSegmentCount) = .neverUsed
  permitted : ∀ i < line.streamCount,
    line.segments (line.hiddenNumber a.sequenceNumber) i = HiddenSegment.required a.isLoad
  last_or_first :
    (line.state (line.hiddenNumber a.sequenceNumber)).context.usedBuffers + 1 =
        line.subSegmentCount ∨
      (a.outcome 0).id = none ∧ later ≠ a.sequenceNumber ∧
        (line.state (line.hiddenNumber a.sequenceNumber)).context.bufferEmpty
          (later % line.subSegmentCount) = .neverUsed

variable {line} {n n' : StreamSegmentId} {c c' : ContextState} {submit : ℕ → SubmitOutcome}

/-! ## Clean contexts stay clean -/

theorem clean_closeBufferContext {isEmpty : Bool}
    (clean : (line.state (line.hiddenNumber n)).Clean line.streamCount)
    (h : isEmpty = true ∨ (line.state (line.hiddenNumber n)).context.initialized = true) :
    ((line.closeBufferContext n isEmpty false submit).state (line.hiddenNumber n)).Clean
      line.streamCount := by
  by_cases hfull : (line.state (line.hiddenNumber n)).context.usedBuffers + 1 = line.subSegmentCount
  · rw [state_closeBufferContext_of_full _ _ hfull]
    refine ContextState.clean_new fun i hi => ?_
    by_cases hinit : (line.state (line.hiddenNumber n)).context.initialized = true
    · exact (ContextState.clean_mark clean h).unread_close hinit i hi
    · rw [Bool.not_eq_true] at hinit
      obtain rfl : isEmpty = true := h.resolve_right (by simp [hinit])
      have hnone := @ContextState.SetUp.refl true (fun _ => .failed)
        (line.state (line.hiddenNumber n))
      rw [hnone.finishLoad_close line.streamCount_pos clean hinit i hi]
      exact (clean.uninitialized hinit).2.2 i hi
  · rw [state_closeBufferContext_of_ne_full _ _ hfull]
    exact ContextState.clean_mark clean h

theorem clean_closeBufferContext_setState (clean : c.Clean line.streamCount) :
    (((line.setState (line.hiddenNumber n) c).closeBufferContext n true false submit).state
      (line.hiddenNumber n)).Clean line.streamCount := by
  have hclean : ((line.setState (line.hiddenNumber n) c).state
      ((line.setState (line.hiddenNumber n) c).hiddenNumber n)).Clean
      (line.setState (line.hiddenNumber n) c).streamCount := by simpa using clean
  exact clean_closeBufferContext hclean (.inl rfl)

theorem clean_setup {a : Attempt} {number : StreamSegmentId}
    (clean : (line.state number).Clean line.streamCount)
    (succeeds : ¬ (line.hiddenNumber a.sequenceNumber = number ∧ line.InitializationFails a)) :
    ((line.setup a).1.state number).Clean line.streamCount := by
  by_cases hn : line.hiddenNumber a.sequenceNumber = number
  · subst hn
    have hclean : ((line.state (line.hiddenNumber a.sequenceNumber)).enter line.streamCount
        (line.hiddenNumber a.sequenceNumber) a.isLoad a.outcome).1.Clean line.streamCount := by
      unfold ContextState.enter
      split
      · exact clean
      · rename_i hinit
        rw [Bool.not_eq_true] at hinit
        refine ContextState.clean_initializeContext clean hinit ?_
        exact Bool.eq_true_of_not_eq_false fun h => succeeds ⟨rfl, hinit, h⟩
    unfold setup
    rw [enter_getBufferContext]
    dsimp only
    split
    · rename_i hres
      obtain ⟨rfl, -⟩ := Prod.mk.inj hres
      rwa [state_setState]
    · rename_i hres
      obtain ⟨rfl, -⟩ := Prod.mk.inj hres
      exact clean_closeBufferContext_setState hclean
  · rw [state_setup_of_ne (Ne.symm hn)]
    exact clean

/-- Only failed initializations leave something behind. -/
theorem clean_loaded (clean : (line.state (line.hiddenNumber n)).Clean line.streamCount)
    (number : StreamSegmentId) (i : ℕ) :
    ((line.next (.loaded number i)).state (line.hiddenNumber n)).Clean line.streamCount := by
  by_cases hn : number = line.hiddenNumber n
  · subst hn
    have hcontext : ((line.next (.loaded (line.hiddenNumber n) i)).state
        (line.hiddenNumber n)).context =
          ((line.contexts (line.hiddenNumber n)).map (finishWait i)).getD .new := by
      simp [state, next, setSegment]
    refine clean.finish (i := i) (h := (line.segments (line.hiddenNumber n) i).finishLoad)
      ?_ ?_ ?_ ?_ HiddenSegment.unread_finishLoad HiddenSegment.readOnce_finishLoad
    · simp [state, next, setSegment]
    · rw [hcontext]
      unfold state
      cases line.contexts (line.hiddenNumber n) <;> rfl
    · rw [hcontext]
      unfold state
      cases line.contexts (line.hiddenNumber n) <;> rfl
    · rw [hcontext]
      unfold state
      cases line.contexts (line.hiddenNumber n) <;> rfl
  · have hkept : (line.next (.loaded number i)).state (line.hiddenNumber n) =
        line.state (line.hiddenNumber n) := by
      simp [state, next, setSegment, Ne.symm hn]
    exact hkept ▸ clean

theorem clean_encoded (clean : (line.state (line.hiddenNumber n)).Clean line.streamCount)
    (number : StreamSegmentId) (i : ℕ) (located : Bool) :
    ((line.next (.encoded number i located)).state (line.hiddenNumber n)).Clean
      line.streamCount := by
  by_cases hn : number = line.hiddenNumber n
  · subst hn
    refine clean.finish (i := i)
      (h := (line.segments (line.hiddenNumber n) i).finishEncoding located) ?_ rfl rfl rfl
      HiddenSegment.unread_finishEncoding HiddenSegment.readOnce_finishEncoding
    simp [state, next, setSegment]
  · have hkept : (line.next (.encoded number i located)).state (line.hiddenNumber n) =
        line.state (line.hiddenNumber n) := by
      simp [state, next, setSegment, Ne.symm hn]
    exact hkept ▸ clean

theorem clean_close (clean : (line.state (line.hiddenNumber n)).Clean line.streamCount)
    (submit : StreamSegmentId → ℕ → SubmitOutcome) :
    ((line.next (.close submit)).state (line.hiddenNumber n)).Clean line.streamCount := by
  have hstate : (line.next (.close submit)).state (line.hiddenNumber n) =
      ⟨(line.next (.close submit)).segments (line.hiddenNumber n), .new⟩ := rfl
  rw [hstate]
  refine ContextState.clean_new fun i hi => ?_
  simp only [next]
  cases hcontext : line.contexts (line.hiddenNumber n) with
  | none =>
    have huninit : (line.state (line.hiddenNumber n)).context.initialized = false := by
      simp [state, hcontext, BufferContext.new]
    exact (clean.uninitialized huninit).2.2 i hi
  | some context =>
    cases hinit : (line.state (line.hiddenNumber n)).context.initialized with
    | true => exact clean.unread_close hinit i hi
    | false => exact clean.unread_close_of_uninitialized line.streamCount_pos hinit i hi

/-! ## Failed initializations -/

theorem clean_next {event : Event}
    (clean : (line.state (line.hiddenNumber n)).Clean line.streamCount)
    (enabled : line.Enabled event) (succeeds : ¬ line.FailsFor n event) :
    ((line.next event).state (line.hiddenNumber n)).Clean line.streamCount := by
  cases event with
  | setup a => exact clean_setup clean succeeds
  | abandon sequenceNumber submit =>
    by_cases hn : line.hiddenNumber sequenceNumber = line.hiddenNumber n
    · rw [← hn] at clean ⊢
      exact clean_closeBufferContext_setState clean
    · have hkept : ((line.getBufferContext sequenceNumber).1.closeBufferContext sequenceNumber true
          false submit).state (line.hiddenNumber n) = line.state (line.hiddenNumber n) := by
        rw [state_closeBufferContext_of_ne (by exact Ne.symm hn)]
        exact state_setState_of_ne (Ne.symm hn)
      exact hkept ▸ clean
  | complete sequenceNumber isEmpty submit =>
    by_cases hn : line.hiddenNumber sequenceNumber = line.hiddenNumber n
    · rw [← hn] at clean ⊢
      exact clean_closeBufferContext clean (.inr enabled)
    · exact (state_closeBufferContext_of_ne (Ne.symm hn)).symm ▸ clean
  | loaded number i => exact clean_loaded clean number i
  | encoded number i located => exact clean_encoded clean number i located
  | close submit => exact clean_close clean submit

variable {a : Attempt} {later : StreamSegmentId}

theorem setup_snd : (line.setup a).2 =
    ((line.state (line.hiddenNumber a.sequenceNumber)).enter line.streamCount
      (line.hiddenNumber a.sequenceNumber) a.isLoad a.outcome).2 := by
  have henter := enter_getBufferContext line a.sequenceNumber a.isLoad a.outcome
  cases h : ((line.getBufferContext a.sequenceNumber).1.enter a.sequenceNumber a.isLoad
      a.outcome).2 with
  | true =>
    rw [setup_of_enter h, ← h, henter]
  | false =>
    rw [setup_of_enter_failed h, ← h, henter]

theorem setup_succeeds_iff
    (h : (line.state (line.hiddenNumber a.sequenceNumber)).context.initialized = false) :
    (line.setup a).2 = true ↔ ∀ i < line.streamCount,
      (line.segments (line.hiddenNumber a.sequenceNumber) i).Acquires a.isLoad (a.outcome i) := by
  rw [setup_snd, ContextState.enter_of_uninitialized h]
  obtain ⟨htrue, set⟩ | ⟨hfalse, j, hj, hfails, -⟩ := ContextState.setUpFirst_cases
    (line.state (line.hiddenNumber a.sequenceNumber)) (line.hiddenNumber a.sequenceNumber)
    a.isLoad a.outcome line.streamCount
  · rw [ContextState.initializeContext_of_set_up htrue]
    exact iff_of_true rfl set.acquires
  · rw [ContextState.initializeContext_of_failed hfalse]
    exact iff_of_false Bool.false_ne_true fun hall => hfails (hall j hj)

theorem setup_of_fails (fails : line.InitializationFails a) :
    ∃ j < line.streamCount,
      ¬ (line.segments (line.hiddenNumber a.sequenceNumber) j).Acquires a.isLoad (a.outcome j) ∧
      ∃ c, ContextState.SetUp a.isLoad a.outcome j
          (line.state (line.hiddenNumber a.sequenceNumber)) c ∧
        (line.setup a).1 = (line.setState (line.hiddenNumber a.sequenceNumber) c).closeBufferContext
          a.sequenceNumber true false a.submit := by
  obtain ⟨hinit, hfails⟩ := fails
  obtain ⟨htrue, -⟩ | ⟨hfalse, j, hj, hacquires, set⟩ := ContextState.setUpFirst_cases
    (line.state (line.hiddenNumber a.sequenceNumber)) (line.hiddenNumber a.sequenceNumber)
    a.isLoad a.outcome line.streamCount
  · rw [ContextState.initializeContext_of_set_up htrue] at hfails
    exact absurd hfails (by simp)
  · refine ⟨j, hj, hacquires, _, set, ?_⟩
    have henter := enter_getBufferContext line a.sequenceNumber a.isLoad a.outcome
    simp only [ContextState.enter_of_uninitialized hinit,
      ContextState.initializeContext_of_failed hfalse] at henter
    rw [setup_of_enter_failed (by rw [henter]), henter]

theorem retried_iff (isLoad : Bool) {number : StreamSegmentId} (hn : line.hiddenNumber n = number)
    (h : (line.state number).context.initialized = false)
    (unread : ∀ i < line.streamCount, (line.segments number i).Unread) :
    (∀ outcome submit, (∀ i < line.streamCount, OpenOutcome.id (outcome i) ≠ none) →
        (line.setup ⟨n, isLoad, outcome, submit⟩).2 = true) ↔
      ∀ i < line.streamCount, line.segments number i = HiddenSegment.required isLoad := by
  subst hn
  constructor
  · intro hall i hi
    have hsucceeds := hall (fun _ => .complete 0) (fun _ => .failed) (by simp [OpenOutcome.id])
    exact ((HiddenSegment.acquires_iff (unread i hi)).mp
      ((setup_succeeds_iff (a := ⟨n, isLoad, _, _⟩) h).mp hsucceeds i hi)).1
  · intro hall outcome submit hmemory
    refine (setup_succeeds_iff (a := ⟨n, isLoad, _, _⟩) h).mpr fun i hi => ?_
    exact (HiddenSegment.acquires_iff (unread i hi)).mpr ⟨hall i hi, hmemory i hi⟩

theorem setup_of_fails_last (clean : (line.state (line.hiddenNumber a.sequenceNumber)).Clean
      line.streamCount) (fails : line.InitializationFails a)
    (last : (line.state (line.hiddenNumber a.sequenceNumber)).context.usedBuffers + 1 =
      line.subSegmentCount) :
    ((line.setup a).1.state (line.hiddenNumber a.sequenceNumber)).context = .new ∧
      ∀ i < line.streamCount, (line.setup a).1.segments (line.hiddenNumber a.sequenceNumber) i =
        line.segments (line.hiddenNumber a.sequenceNumber) i := by
  obtain ⟨j, hj, -, c, set, hsetup⟩ := setup_of_fails fails
  have hstate := @state_closeBufferContext_of_full
    (line.setState (line.hiddenNumber a.sequenceNumber) c) a.sequenceNumber true a.submit
    (by simpa [set.usedBuffers] using last)
  simp only [hiddenNumber_setState, state_setState, streamCount_setState,
    subSegmentCount_setState] at hstate
  rw [hsetup]
  refine ⟨by rw [hstate], fun i hi => ?_⟩
  exact (congrFun (congrArg ContextState.segments hstate) i).trans
    (set.finishLoad_close hj clean fails.1 i hi)

theorem setup_of_fails_ne_last (fails : line.InitializationFails a)
    (rest : (line.state (line.hiddenNumber a.sequenceNumber)).context.usedBuffers + 1 ≠
      line.subSegmentCount) :
    ∃ j < line.streamCount,
      ¬ (line.segments (line.hiddenNumber a.sequenceNumber) j).Acquires a.isLoad (a.outcome j) ∧
      ∃ c, ContextState.SetUp a.isLoad a.outcome j
          (line.state (line.hiddenNumber a.sequenceNumber)) c ∧
        (line.setup a).1.state (line.hiddenNumber a.sequenceNumber) =
          c.mark (a.sequenceNumber % line.subSegmentCount) true := by
  obtain ⟨j, hj, hacquires, c, set, hsetup⟩ := setup_of_fails fails
  refine ⟨j, hj, hacquires, c, set, ?_⟩
  have hstate := @state_closeBufferContext_of_ne_full
    (line.setState (line.hiddenNumber a.sequenceNumber) c) a.sequenceNumber true a.submit
    (by simpa [set.usedBuffers] using rest)
  simp only [hiddenNumber_setState, state_setState, subSegmentCount_setState] at hstate
  rw [hsetup, hstate]

theorem mod_ne_mod {m k d : ℕ} (hdiv : m / d = k / d) (h : m ≠ k) : m % d ≠ k % d := fun hmod =>
  h (by rw [← Nat.div_add_mod m d, ← Nat.div_add_mod k d, hdiv, hmod])

theorem setup_of_fails_first (fails : line.InitializationFails a)
    (rest : (line.state (line.hiddenNumber a.sequenceNumber)).context.usedBuffers + 1 ≠
      line.subSegmentCount)
    (first : ¬ (line.segments (line.hiddenNumber a.sequenceNumber) 0).Acquires a.isLoad
      (a.outcome 0)) :
    ∃ c, ContextState.SetUp a.isLoad a.outcome 0
        (line.state (line.hiddenNumber a.sequenceNumber)) c ∧
      (line.setup a).1.state (line.hiddenNumber a.sequenceNumber) =
        c.mark (a.sequenceNumber % line.subSegmentCount) true := by
  obtain ⟨j, -, -, c, set, hstate⟩ := setup_of_fails_ne_last fails rest
  rcases Nat.eq_zero_or_pos j with rfl | hj
  · exact ⟨c, set, hstate⟩
  · exact absurd (set.acquires 0 hj) first

/-- If a failed attempt leaves the hidden streams as they were, it can be repeated if and only if
they permit it. -/
theorem retried_setup_iff (same : line.hiddenNumber a.sequenceNumber = line.hiddenNumber later)
    (kept : ∀ i < line.streamCount,
      (line.setup a).1.segments (line.hiddenNumber a.sequenceNumber) i =
        line.segments (line.hiddenNumber a.sequenceNumber) i)
    (uninitialized : ((line.setup a).1.state
      (line.hiddenNumber a.sequenceNumber)).context.initialized = false)
    (unread : ∀ i < line.streamCount,
      (line.segments (line.hiddenNumber a.sequenceNumber) i).Unread) :
    (∀ outcome submit, (∀ i < line.streamCount, OpenOutcome.id (outcome i) ≠ none) →
        ((line.setup a).1.setup ⟨later, a.isLoad, outcome, submit⟩).2 = true) ↔
      ∀ i < line.streamCount,
        line.segments (line.hiddenNumber a.sequenceNumber) i = HiddenSegment.required a.isLoad := by
  have hlater : (line.setup a).1.hiddenNumber later = line.hiddenNumber a.sequenceNumber := by
    rw [hiddenNumber_setup, same]
  have hcount := (counts_setup line a).2
  have hiff := retried_iff a.isLoad hlater uninitialized
    (by rw [hcount]; exact fun i hi => (kept i hi).symm ▸ unread i hi)
  rw [hcount] at hiff
  rw [hiff]
  exact forall₂_congr fun i hi => by rw [kept i hi]

theorem released_required (isLoad : Bool) : (HiddenSegment.required isLoad).Released := by
  cases isLoad
  · exact .inl rfl
  · exact .inr rfl

theorem undone_of_undoable (clean : (line.state (line.hiddenNumber a.sequenceNumber)).Clean
      line.streamCount) (fails : line.InitializationFails a)
    (same : line.hiddenNumber a.sequenceNumber = line.hiddenNumber later)
    (h : line.Undoable a later) : line.Undone a later := by
  obtain ⟨-, hvalid, hunread⟩ := clean.uninitialized fails.1
  by_cases hlast : (line.state (line.hiddenNumber a.sequenceNumber)).context.usedBuffers + 1 =
      line.subSegmentCount
  · obtain ⟨hnew, hkept⟩ := setup_of_fails_last clean fails hlast
    refine ⟨fun i hi => ?_, h.unused, ?_, by rw [hnew]; rfl⟩
    · rw [hkept i hi, h.permitted i hi]
      exact released_required _
    · exact (retried_setup_iff same hkept (by rw [hnew]; rfl) hunread).mpr h.permitted
  · obtain ⟨hmemory, hne, hunused⟩ := h.last_or_first.resolve_left hlast
    have hfirst : ¬ (line.segments (line.hiddenNumber a.sequenceNumber) 0).Acquires a.isLoad
        (a.outcome 0) := fun hacquires =>
      ((HiddenSegment.acquires_iff (hunread 0 line.streamCount_pos)).mp hacquires).2 hmemory
    obtain ⟨c, set, hstate⟩ := setup_of_fails_first fails hlast hfirst
    have hkept : ∀ i < line.streamCount,
        (line.setup a).1.segments (line.hiddenNumber a.sequenceNumber) i =
          line.segments (line.hiddenNumber a.sequenceNumber) i := fun i _ =>
      (congrFun (congrArg ContextState.segments hstate) i).trans (congrFun set.zero_segments i)
    refine ⟨fun i hi => ?_, h.unused, ?_, ?_⟩
    · rw [hkept i hi, h.permitted i hi]
      exact released_required _
    · refine (retried_setup_iff same hkept ?_ hunread).mpr h.permitted
      rw [hstate, ContextState.initialized_mark, set.initialized, fails.1]
    · rw [hstate, ContextState.bufferEmpty_mark, Function.update_of_ne (mod_ne_mod same.symm hne),
        set.bufferEmpty]
      exact hunused

theorem undoable_of_undone (clean : (line.state (line.hiddenNumber a.sequenceNumber)).Clean
      line.streamCount) (fails : line.InitializationFails a)
    (same : line.hiddenNumber a.sequenceNumber = line.hiddenNumber later)
    (h : line.Undone a later) : line.Undoable a later := by
  obtain ⟨-, hvalid, hunread⟩ := clean.uninitialized fails.1
  by_cases hlast : (line.state (line.hiddenNumber a.sequenceNumber)).context.usedBuffers + 1 =
      line.subSegmentCount
  · obtain ⟨hnew, hkept⟩ := setup_of_fails_last clean fails hlast
    exact ⟨h.once, (retried_setup_iff same hkept (by rw [hnew]; rfl) hunread).mp h.retried,
      .inl hlast⟩
  · have hfirst : ¬ (line.segments (line.hiddenNumber a.sequenceNumber) 0).Acquires a.isLoad
        (a.outcome 0) := by
      intro hacquires
      obtain ⟨j, -, hj, c, set, hstate⟩ := setup_of_fails_ne_last fails hlast
      have hpos : 0 < j := Nat.pos_of_ne_zero fun h0 => hj (h0 ▸ hacquires)
      have htaken : (line.setup a).1.segments (line.hiddenNumber a.sequenceNumber) 0 =
          ((line.segments (line.hiddenNumber a.sequenceNumber) 0).acquire a.isLoad
            (a.outcome 0)).1 :=
        (congrFun (congrArg ContextState.segments hstate) 0).trans
          ((set.segments 0).trans (if_pos hpos))
      have hreleased := h.released 0 line.streamCount_pos
      rw [htaken] at hreleased
      exact HiddenSegment.not_released_acquire (hunread 0 line.streamCount_pos) hacquires hreleased
    obtain ⟨c, set, hstate⟩ := setup_of_fails_first fails hlast hfirst
    have hkept : ∀ i < line.streamCount,
        (line.setup a).1.segments (line.hiddenNumber a.sequenceNumber) i =
          line.segments (line.hiddenNumber a.sequenceNumber) i := fun i _ =>
      (congrFun (congrArg ContextState.segments hstate) i).trans (congrFun set.zero_segments i)
    have hpermitted := (retried_setup_iff same hkept (by
      rw [hstate, ContextState.initialized_mark, set.initialized, fails.1]) hunread).mp h.retried
    have hlater := h.onceLater
    rw [hstate, ContextState.bufferEmpty_mark] at hlater
    have hne : later % line.subSegmentCount ≠ a.sequenceNumber % line.subSegmentCount := by
      intro heq
      rw [heq, Function.update_self] at hlater
      cases hlater
    refine ⟨h.once, hpermitted, .inr ⟨?_, fun heq => hne (by rw [heq]), ?_⟩⟩
    · by_contra hmemory
      exact hfirst ((HiddenSegment.acquires_iff (hunread 0 line.streamCount_pos)).mpr
        ⟨hpermitted 0 line.streamCount_pos, hmemory⟩)
    · rwa [Function.update_of_ne hne, set.bufferEmpty] at hlater

theorem clean_of_undoable (clean : (line.state (line.hiddenNumber a.sequenceNumber)).Clean
      line.streamCount) (fails : line.InitializationFails a) (h : line.Undoable a later) :
    ((line.setup a).1.state (line.hiddenNumber a.sequenceNumber)).Clean line.streamCount := by
  obtain ⟨-, -, hunread⟩ := clean.uninitialized fails.1
  by_cases hlast : (line.state (line.hiddenNumber a.sequenceNumber)).context.usedBuffers + 1 =
      line.subSegmentCount
  · obtain ⟨hnew, hkept⟩ := setup_of_fails_last clean fails hlast
    have hstate : (line.setup a).1.state (line.hiddenNumber a.sequenceNumber) =
        ⟨(line.setup a).1.segments (line.hiddenNumber a.sequenceNumber), .new⟩ := by
      rw [← hnew]
      rfl
    rw [hstate]
    exact ContextState.clean_new fun i hi => (hkept i hi).symm ▸ hunread i hi
  · have hmemory := (h.last_or_first.resolve_left hlast).1
    have hfirst : ¬ (line.segments (line.hiddenNumber a.sequenceNumber) 0).Acquires a.isLoad
        (a.outcome 0) := fun hacquires =>
      ((HiddenSegment.acquires_iff (hunread 0 line.streamCount_pos)).mp hacquires).2 hmemory
    obtain ⟨c, set, hstate⟩ := setup_of_fails_first fails hlast hfirst
    rw [hstate]
    exact ContextState.clean_mark (set.zero_clean clean fails.1) (.inl rfl)

theorem clean_of_fresh {number : StreamSegmentId} (fresh : line.Fresh) :
    (line.state number).Clean line.streamCount := by
  have hstate : line.state number = ⟨line.segments number, .new⟩ := by
    unfold state
    rw [fresh.1 number]
    rfl
  rw [hstate]
  refine ContextState.clean_new fun i _ => ?_
  rcases fresh.2 number i with h | h <;> rw [h] <;> trivial

theorem Run.clean {failures : List (SegmentLine × Attempt)} (run : Run later line failures)
    (h : ∀ f ∈ failures, f.1.Undoable f.2 later) :
    (line.state (line.hiddenNumber later)).Clean line.streamCount := by
  induction run with
  | start fresh => exact clean_of_fresh fresh
  | @next line failures run event enabled succeeds ih =>
    have hclean := clean_next (ih h) enabled succeeds
    obtain ⟨hsub, hstreams⟩ := counts_next line event
    rwa [hstreams, hiddenNumber, hsub]
  | @failed line failures run a fails ih =>
    obtain ⟨hsame, hfails⟩ := fails
    have hclean := ih fun f hf => h f (List.mem_cons_of_mem _ hf)
    rw [← hsame] at hclean
    rw [hiddenNumber_setup, (counts_setup line a).2, ← hsame]
    exact clean_of_undoable hclean hfails (h (line, a) List.mem_cons_self)

/-- All failed initializations of a context are undone if and only if each of them finds a sub
segment that is not used again and no memory for the first hidden stream, or completes the last sub
segment of the context. -/
theorem undone_iff_undoable {failures : List (SegmentLine × Attempt)}
    (run : Run later line failures) :
    (∀ f ∈ failures, f.1.Undone f.2 later) ↔ ∀ f ∈ failures, f.1.Undoable f.2 later := by
  induction run with
  | start fresh => simp
  | next run event enabled succeeds ih => exact ih
  | @failed line failures run a fails ih =>
    obtain ⟨hsame, hfails⟩ := fails
    rw [List.forall_mem_cons, List.forall_mem_cons, ih]
    refine and_congr_left fun hall => ?_
    have hclean := run.clean hall
    rw [← hsame] at hclean
    exact ⟨undoable_of_undone hclean hfails hsame, undone_of_undoable hclean hfails hsame⟩

/-- Two hidden streams with two sub segments in each of their segments. -/
def pairLine : SegmentLine := ⟨2, 2, fun _ _ => .absent, fun _ => none, by decide, by decide⟩

theorem undone_iff_undoable_pairLine :
    (∀ f ∈ [(pairLine, (⟨0, false, fun _ => .noMemory, fun _ => .failed⟩ : Attempt))],
        f.1.Undone f.2 1) ↔
      ∀ f ∈ [(pairLine, (⟨0, false, fun _ => .noMemory, fun _ => .failed⟩ : Attempt))],
        f.1.Undoable f.2 1 :=
  undone_iff_undoable (.failed (.start ⟨fun _ => rfl, fun _ _ => .inl rfl⟩) _ ⟨rfl, rfl, rfl⟩)

/-- Without memory for the second hidden stream, the first one keeps its segment. -/
theorem not_undone_of_second : ¬ ∀ (line : SegmentLine) (failures : List (SegmentLine × Attempt))
    (later : StreamSegmentId), Run later line failures → ∀ f ∈ failures, f.1.Undone f.2 later := by
  intro hall
  have hundone := hall _ _ 1 (.failed (@Run.start 1 pairLine ⟨fun _ => rfl, fun _ _ => .inl rfl⟩)
    ⟨0, false, fun i => if i = 0 then .complete 7 else .noMemory, fun _ => .failed⟩
    ⟨rfl, rfl, rfl⟩) _ List.mem_cons_self
  rcases hundone.released 0 (by decide) with h | h <;> cases h

end SegmentLine

end Simutrace
