import Simutrace.MemoryEncoder.HiddenSegment

/-! # Buffer contexts

A segment of a hidden stream has room for several segments of the memory stream,
its sub segments. The segments with one number in all hidden streams of a line
form a buffer context, which counts the sub segments that are completed and is
closed with the last one.
-/

namespace Simutrace

inductive SubSegmentUse
  | neverUsed
  | empty
  | valid
  deriving DecidableEq

/-- `registered` counts how often the segment of a hidden stream has the open wait in its wait
list. -/
structure BufferContext where
  initialized : Bool
  isLoad : Bool
  openWait : StreamWait
  registered : ℕ → ℕ
  segmentIds : ℕ → Option SegmentId
  buffers : ℕ → Option SegmentId
  usedBuffers : ℕ
  bufferEmpty : ℕ → SubSegmentUse

namespace BufferContext

def new : BufferContext where
  initialized := false
  isLoad := false
  openWait := ⟨0, []⟩
  registered _ := 0
  segmentIds _ := none
  buffers _ := none
  usedBuffers := 0
  bufferEmpty _ := .neverUsed

def validSubSegmentCount (context : BufferContext) : ℕ :=
  ((List.range context.usedBuffers).reverse.find? fun j => context.bufferEmpty j = .valid).elim 0
    (· + 1)

end BufferContext

def HiddenSegment.acquire (isLoad : Bool) (h : HiddenSegment) (outcome : OpenOutcome) :
    HiddenSegment × Option (Option SegmentId) :=
  if isLoad then h.openSegment outcome else h.add outcome

namespace HiddenSegment

/-- A buffer segment is available and the hidden stream permits the operation. -/
def Acquires (isLoad : Bool) (h : HiddenSegment) (outcome : OpenOutcome) : Prop :=
  ∃ id, (h.acquire isLoad outcome).2 = some (some id)

theorem acquire_of_not {isLoad : Bool} {h : HiddenSegment} {outcome : OpenOutcome}
    (fails : ¬ h.Acquires isLoad outcome) : (h.acquire isLoad outcome).1 = h := by
  unfold Acquires acquire at *
  cases isLoad <;> cases h <;> cases outcome <;> first
    | rfl
    | exact absurd ⟨_, rfl⟩ fails

end HiddenSegment

structure ContextState where
  segments : ℕ → HiddenSegment
  context : BufferContext

namespace ContextState

variable (c : ContextState)

def passWait (sequenceNumber : StreamSegmentId) (isLoad : Bool) (i : ℕ) (h : HiddenSegment)
    (outcome : OpenOutcome) (context : BufferContext) : BufferContext :=
  { context with
    openWait :=
      if isLoad then h.notifyWait sequenceNumber context.openWait outcome else context.openWait
    registered :=
      if isLoad && h.registersWait outcome then
        Function.update context.registered i (context.registered i + 1)
      else context.registered }

/-- One hidden stream in `_initialize`; the flag is false if it throws an exception. -/
def setUp (sequenceNumber : StreamSegmentId) (isLoad : Bool) (outcome : ℕ → OpenOutcome) (i : ℕ)
    (c : ContextState) : ContextState × Bool :=
  let acquired := (c.segments i).acquire isLoad (outcome i)
  let segments := Function.update c.segments i acquired.1
  let context := passWait sequenceNumber isLoad i (c.segments i) (outcome i) c.context
  match acquired.2 with
  | none => (⟨segments, context⟩, false)
  | some none =>
    (⟨segments, { context with segmentIds := Function.update context.segmentIds i none }⟩, false)
  | some (some id) =>
    (⟨segments, { context with
      segmentIds := Function.update context.segmentIds i (some id)
      buffers := Function.update context.buffers i (some id) }⟩, true)

/-- The loop of `_initialize` over the first hidden streams. -/
def setUpFirst (sequenceNumber : StreamSegmentId) (isLoad : Bool) (outcome : ℕ → OpenOutcome) :
    ℕ → ContextState × Bool
  | 0 => (c, true)
  | k + 1 =>
    match setUpFirst sequenceNumber isLoad outcome k with
    | (c, false) => (c, false)
    | (c, true) => setUp sequenceNumber isLoad outcome k c

/-- `_initialize`, in the mode of a load or of an append. -/
def initializeContext (streamCount : ℕ) (sequenceNumber : StreamSegmentId) (isLoad : Bool)
    (outcome : ℕ → OpenOutcome) : ContextState × Bool :=
  match c.setUpFirst sequenceNumber isLoad outcome streamCount with
  | (c, false) => (c, false)
  | (c, true) =>
    ({ c with context := { c.context with isLoad := isLoad, initialized := true } }, true)

/-- `open` and `append` initialize the context, and throw an exception if it has the other mode. -/
def enter (streamCount : ℕ) (sequenceNumber : StreamSegmentId) (isLoad : Bool)
    (outcome : ℕ → OpenOutcome) : ContextState × Bool :=
  if c.context.initialized then (c, c.context.isLoad == isLoad)
  else c.initializeContext streamCount sequenceNumber isLoad outcome

def openContext (streamCount : ℕ) (sequenceNumber : StreamSegmentId) (outcome : ℕ → OpenOutcome) :
    ContextState × Bool :=
  c.enter streamCount sequenceNumber true outcome

def append (streamCount : ℕ) (sequenceNumber : StreamSegmentId) (outcome : ℕ → OpenOutcome) :
    ContextState × Bool :=
  c.enter streamCount sequenceNumber false outcome

/-- What happens to the segment of a hidden stream in `_close`: one without valid data is dropped,
and one that was read is given back. -/
def submitOutcome (context : BufferContext) (submit : SubmitOutcome) : SubmitOutcome :=
  if context.isLoad = false ∧ 0 < context.validSubSegmentCount then submit else .complete none

/-- One hidden stream in `_close`. An exception is only logged. -/
def closeStream (submit : ℕ → SubmitOutcome) (i : ℕ) (c : ContextState) : ContextState :=
  match (c.segments i).close (submitOutcome c.context (submit i)) with
  | (h, true) => { c with segments := Function.update c.segments i h }
  | (h, false) =>
    ⟨Function.update c.segments i h, { c.context with
      segmentIds := Function.update c.context.segmentIds i none
      buffers := Function.update c.context.buffers i none }⟩

/-- The loop of `_close` over the first hidden streams, until one that has not been set up. -/
def closeFirst (submit : ℕ → SubmitOutcome) : ℕ → ContextState × Bool
  | 0 => (c, true)
  | k + 1 =>
    match closeFirst submit k with
    | (c, false) => (c, false)
    | (c, true) => if c.context.buffers k = none then (c, false) else (closeStream submit k c, true)

def close (streamCount : ℕ) (submit : ℕ → SubmitOutcome) : ContextState :=
  (c.closeFirst submit streamCount).1

def mark (subSegmentIndex : ℕ) (empty : Bool) : ContextState :=
  { c with context := { c.context with
      bufferEmpty := Function.update c.context.bufferEmpty subSegmentIndex
        (if empty then .empty else .valid)
      usedBuffers := c.context.usedBuffers + 1 } }

/-- `completeSubSegment`, which also says if this was the last one and the context is closed. -/
def completeSubSegment (subSegmentCount streamCount subSegmentIndex : ℕ) (empty : Bool)
    (submit : ℕ → SubmitOutcome) : ContextState × Bool :=
  if c.context.usedBuffers = subSegmentCount - 1 then
    ((c.mark subSegmentIndex empty).close streamCount submit, true)
  else (c.mark subSegmentIndex empty, false)

variable {c}
variable {c' : ContextState} {isLoad : Bool} {outcome : ℕ → OpenOutcome} {k : ℕ}
  {number : StreamSegmentId}

@[simp] theorem initialized_mark (j : ℕ) (empty : Bool) :
    (c.mark j empty).context.initialized = c.context.initialized := rfl

@[simp] theorem usedBuffers_mark (j : ℕ) (empty : Bool) :
    (c.mark j empty).context.usedBuffers = c.context.usedBuffers + 1 := rfl

@[simp] theorem bufferEmpty_mark (j : ℕ) (empty : Bool) :
    (c.mark j empty).context.bufferEmpty =
      Function.update c.context.bufferEmpty j (if empty then .empty else .valid) := rfl

/-- The first hidden streams are set up and the other ones are as before. -/
structure SetUp (isLoad : Bool) (outcome : ℕ → OpenOutcome) (k : ℕ) (c c' : ContextState) :
    Prop where
  acquires : ∀ i < k, (c.segments i).Acquires isLoad (outcome i)
  segments : ∀ i, c'.segments i =
    if i < k then ((c.segments i).acquire isLoad (outcome i)).1 else c.segments i
  buffers_of_lt : ∀ i < k, c'.context.buffers i ≠ none
  buffers_of_le : ∀ i, k ≤ i → c'.context.buffers i = c.context.buffers i
  initialized : c'.context.initialized = c.context.initialized
  isLoad_eq : c'.context.isLoad = c.context.isLoad
  usedBuffers : c'.context.usedBuffers = c.context.usedBuffers
  bufferEmpty : c'.context.bufferEmpty = c.context.bufferEmpty

theorem SetUp.refl (c : ContextState) : SetUp isLoad outcome 0 c c where
  acquires _ h := absurd h (Nat.not_lt_zero _)
  segments _ := rfl
  buffers_of_lt _ h := absurd h (Nat.not_lt_zero _)
  buffers_of_le _ _ := rfl
  initialized := rfl
  isLoad_eq := rfl
  usedBuffers := rfl
  bufferEmpty := rfl

theorem SetUp.succ (h : SetUp isLoad outcome k c c')
    (acquires : (c.segments k).Acquires isLoad (outcome k)) :
    (setUp number isLoad outcome k c').2 = true ∧
      SetUp isLoad outcome (k + 1) c (setUp number isLoad outcome k c').1 := by
  obtain ⟨id, hid⟩ := acquires
  have hk : c'.segments k = c.segments k := by rw [h.segments, if_neg (lt_irrefl k)]
  unfold setUp
  simp only [hk, hid, true_and]
  refine ⟨?_, ?_, ?_, ?_, h.initialized, h.isLoad_eq, h.usedBuffers, h.bufferEmpty⟩
  · intro i hi
    rcases Nat.lt_succ_iff_lt_or_eq.mp hi with hlt | rfl
    · exact h.acquires i hlt
    · exact ⟨id, hid⟩
  · intro i
    dsimp only
    by_cases hi : i = k
    · subst hi
      simp
    · rw [Function.update_of_ne hi, h.segments]
      exact if_congr (by omega) rfl rfl
  · intro i hi
    dsimp only
    by_cases hik : i = k
    · subst hik
      simp
    · rw [Function.update_of_ne hik]
      exact h.buffers_of_lt i (by omega)
  · intro i hi
    dsimp only
    rw [Function.update_of_ne (by omega)]
    exact h.buffers_of_le i (by omega)

theorem SetUp.failed (number : StreamSegmentId) (h : SetUp isLoad outcome k c c')
    (fails : ¬ (c.segments k).Acquires isLoad (outcome k)) :
    (setUp number isLoad outcome k c').2 = false ∧
      SetUp isLoad outcome k c (setUp number isLoad outcome k c').1 := by
  have hk : c'.segments k = c.segments k := by rw [h.segments, if_neg (lt_irrefl k)]
  have hkeep := HiddenSegment.acquire_of_not fails
  have hsegments : Function.update c'.segments k ((c.segments k).acquire isLoad (outcome k)).1 =
      c'.segments := by rw [hkeep, ← hk, Function.update_eq_self]
  unfold setUp
  simp only [hk, hsegments]
  rcases hres : ((c.segments k).acquire isLoad (outcome k)).2 with _ | _ | id
  · exact ⟨rfl, { h with }⟩
  · exact ⟨rfl, { h with }⟩
  · exact absurd ⟨id, hres⟩ fails

/-- The loop of `_initialize` sets up all hidden streams or stops at one that fails. -/
theorem setUpFirst_cases (c : ContextState) (number : StreamSegmentId) (isLoad : Bool)
    (outcome : ℕ → OpenOutcome) (k : ℕ) :
    ((c.setUpFirst number isLoad outcome k).2 = true ∧
        SetUp isLoad outcome k c (c.setUpFirst number isLoad outcome k).1) ∨
      (c.setUpFirst number isLoad outcome k).2 = false ∧
        ∃ j < k, ¬ (c.segments j).Acquires isLoad (outcome j) ∧
          SetUp isLoad outcome j c (c.setUpFirst number isLoad outcome k).1 := by
  induction k with
  | zero => exact .inl ⟨rfl, .refl c⟩
  | succ k ih =>
    unfold setUpFirst
    rcases hfirst : c.setUpFirst number isLoad outcome k with ⟨c', _ | _⟩
    · rw [hfirst] at ih
      obtain ⟨h, -⟩ | ⟨-, j, hj, hfails, hset⟩ := ih
      · exact absurd h Bool.false_ne_true
      · exact .inr ⟨rfl, j, hj.trans (Nat.lt_succ_self k), hfails, hset⟩
    · rw [hfirst] at ih
      obtain ⟨-, hset⟩ | ⟨h, -⟩ := ih
      · by_cases hk : (c.segments k).Acquires isLoad (outcome k)
        · exact .inl (hset.succ hk)
        · obtain ⟨hfalse, hset'⟩ := hset.failed number hk
          exact .inr ⟨hfalse, k, Nat.lt_succ_self k, hk, hset'⟩
      · exact absurd h (by simp)

theorem enter_of_uninitialized {streamCount : ℕ} (h : c.context.initialized = false) :
    c.enter streamCount number isLoad outcome =
      c.initializeContext streamCount number isLoad outcome :=
  if_neg (by simp [h])

theorem initializeContext_of_set_up {streamCount : ℕ}
    (h : (c.setUpFirst number isLoad outcome streamCount).2 = true) :
    c.initializeContext streamCount number isLoad outcome =
      ({ (c.setUpFirst number isLoad outcome streamCount).1 with
        context := { (c.setUpFirst number isLoad outcome streamCount).1.context with
          isLoad := isLoad
          initialized := true } }, true) := by
  unfold initializeContext
  rcases hres : c.setUpFirst number isLoad outcome streamCount with ⟨c', _ | _⟩
  · rw [hres] at h
    exact absurd h Bool.false_ne_true
  · rfl

theorem initializeContext_of_failed {streamCount : ℕ}
    (h : (c.setUpFirst number isLoad outcome streamCount).2 = false) :
    c.initializeContext streamCount number isLoad outcome =
      ((c.setUpFirst number isLoad outcome streamCount).1, false) := by
  unfold initializeContext
  rcases hres : c.setUpFirst number isLoad outcome streamCount with ⟨c', _ | _⟩
  · rfl
  · rw [hres] at h
    exact absurd h (by simp)

/-- The first hidden streams have been closed and the other ones are as before. -/
structure Closed (submit : ℕ → SubmitOutcome) (k : ℕ) (c c' : ContextState) : Prop where
  segments : ∀ i, c'.segments i =
    if i < k then ((c.segments i).close (submitOutcome c.context (submit i))).1 else c.segments i
  buffers_of_le : ∀ i, k ≤ i → c'.context.buffers i = c.context.buffers i
  submitOutcome : ∀ o, submitOutcome c'.context o = submitOutcome c.context o

theorem Closed.succ {submit : ℕ → SubmitOutcome} (h : Closed submit k c c') :
    Closed submit (k + 1) c (closeStream submit k c') := by
  have hk : c'.segments k = c.segments k := by rw [h.segments, if_neg (lt_irrefl k)]
  have hsegments (i : ℕ) : Function.update c'.segments k
      ((c.segments k).close (ContextState.submitOutcome c.context (submit k))).1 i =
        if i < k + 1 then
          ((c.segments i).close (ContextState.submitOutcome c.context (submit i))).1
        else c.segments i := by
    by_cases hi : i = k
    · subst hi
      simp
    · rw [Function.update_of_ne hi, h.segments]
      exact if_congr (by omega) rfl rfl
  have hle (i : ℕ) (hi : k + 1 ≤ i) : c'.context.buffers i = c.context.buffers i :=
    h.buffers_of_le i (by omega)
  unfold closeStream
  rw [hk, h.submitOutcome]
  rcases hclose : (c.segments k).close (ContextState.submitOutcome c.context (submit k)) with
    ⟨h', _ | _⟩ <;> rw [hclose] at hsegments
  · refine ⟨hsegments, fun i hi => ?_, h.submitOutcome⟩
    exact (Function.update_of_ne (by omega) ..).trans (hle i hi)
  · exact ⟨hsegments, hle, h.submitOutcome⟩

theorem closeFirst_of_buffers (submit : ℕ → SubmitOutcome)
    (h : ∀ i < k, c.context.buffers i ≠ none) :
    (c.closeFirst submit k).2 = true ∧ Closed submit k c (c.closeFirst submit k).1 := by
  induction k with
  | zero => exact ⟨rfl, fun _ => rfl, fun _ _ => rfl, fun _ => rfl⟩
  | succ k ih =>
    obtain ⟨htrue, hclosed⟩ := ih fun i hi => h i (by omega)
    have hk : (c.closeFirst submit k).1.context.buffers k ≠ none := by
      rw [hclosed.buffers_of_le k le_rfl]
      exact h k (Nat.lt_succ_self k)
    have hstep : c.closeFirst submit (k + 1) =
        (closeStream submit k (c.closeFirst submit k).1, true) := by
      rw [closeFirst]
      rcases hfirst : c.closeFirst submit k with ⟨c', _ | _⟩
      · rw [hfirst] at htrue
        exact absurd htrue Bool.false_ne_true
      · rw [hfirst] at hk
        exact if_neg hk
    rw [hstep]
    exact ⟨rfl, hclosed.succ⟩

/-- `_close` stops at the first hidden stream without a buffer. -/
theorem closed_close_of_none {streamCount : ℕ} (submit : ℕ → SubmitOutcome)
    (h : ∀ i < k, c.context.buffers i ≠ none) (none : c.context.buffers k = none)
    (le : k < streamCount) : Closed submit k c (c.close streamCount submit) := by
  obtain ⟨htrue, hclosed⟩ := closeFirst_of_buffers submit h
  have hk : (c.closeFirst submit k).1.context.buffers k = .none := by
    rw [hclosed.buffers_of_le k le_rfl, none]
  have hstop : ∀ m, k < m → c.closeFirst submit m = ((c.closeFirst submit k).1, false) := by
    intro m hm
    induction m with
    | zero => omega
    | succ m ih =>
      rw [closeFirst]
      rcases Nat.lt_succ_iff_lt_or_eq.mp hm with hlt | rfl
      · rw [ih hlt]
      · rcases hfirst : c.closeFirst submit k with ⟨c', _ | _⟩
        · rfl
        · rw [hfirst] at hk
          exact if_pos hk
  rw [close, hstop streamCount le]
  exact hclosed

theorem closed_close {streamCount : ℕ} (submit : ℕ → SubmitOutcome)
    (h : ∀ i < streamCount, c.context.buffers i ≠ none) :
    Closed submit streamCount c (c.close streamCount submit) :=
  (closeFirst_of_buffers submit h).2

@[simp] theorem usedBuffers_close (streamCount : ℕ) (submit : ℕ → SubmitOutcome) :
    (c.close streamCount submit).context.usedBuffers = c.context.usedBuffers := by
  unfold close
  induction streamCount with
  | zero => rfl
  | succ k ih =>
    rw [closeFirst]
    rcases hfirst : c.closeFirst submit k with ⟨c', _ | _⟩ <;> rw [hfirst] at ih
    · exact ih
    · dsimp only
      split
      · exact ih
      · unfold closeStream
        split <;> exact ih

theorem completeSubSegment_fst_usedBuffers (subSegmentCount streamCount j : ℕ) (empty : Bool)
    (submit : ℕ → SubmitOutcome) :
    (c.completeSubSegment subSegmentCount streamCount j empty submit).1.context.usedBuffers =
      c.context.usedBuffers + 1 := by
  unfold completeSubSegment
  split <;> simp

theorem completeSubSegment_snd {subSegmentCount : ℕ} (pos : 0 < subSegmentCount)
    (streamCount j : ℕ) (empty : Bool) (submit : ℕ → SubmitOutcome) :
    (c.completeSubSegment subSegmentCount streamCount j empty submit).2 = true ↔
      c.context.usedBuffers + 1 = subSegmentCount := by
  unfold completeSubSegment
  split
  · exact iff_of_true rfl (by omega)
  · exact iff_of_false Bool.false_ne_true (by omega)

theorem usedBuffers_enter (streamCount : ℕ) :
    (c.enter streamCount number isLoad outcome).1.context.usedBuffers = c.context.usedBuffers := by
  unfold enter
  split
  · rfl
  · obtain ⟨htrue, set⟩ | ⟨hfalse, j, -, -, set⟩ :=
      setUpFirst_cases c number isLoad outcome streamCount
    · rw [initializeContext_of_set_up htrue]
      exact set.usedBuffers
    · rw [initializeContext_of_failed hfalse]
      exact set.usedBuffers

end ContextState

structure SegmentLine where
  subSegmentCount : ℕ
  streamCount : ℕ
  segments : StreamSegmentId → ℕ → HiddenSegment
  contexts : StreamSegmentId → Option BufferContext
  subSegmentCount_pos : 0 < subSegmentCount
  streamCount_pos : 0 < streamCount

namespace SegmentLine

variable (line : SegmentLine)

def hiddenNumber (sequenceNumber : StreamSegmentId) : StreamSegmentId :=
  sequenceNumber / line.subSegmentCount

def state (number : StreamSegmentId) : ContextState :=
  ⟨line.segments number, (line.contexts number).getD .new⟩

def setState (number : StreamSegmentId) (c : ContextState) : SegmentLine :=
  { line with
    segments := Function.update line.segments number c.segments
    contexts := Function.update line.contexts number (some c.context) }

/-- Remove a context. Its destructor waits for the loads that it has started. -/
def erase (number : StreamSegmentId) (c : ContextState) : SegmentLine :=
  { line with
    segments := Function.update line.segments number fun i => (c.segments i).finishLoad
    contexts := Function.update line.contexts number none }

/-- `_getBufferContext`, which also says if the context was created. -/
def getBufferContext (sequenceNumber : StreamSegmentId) : SegmentLine × Bool :=
  let number := line.hiddenNumber sequenceNumber
  (line.setState number (line.state number), (line.contexts number).isNone)

/-- `open` or `append` on the context of a segment of the memory stream. -/
def enter (sequenceNumber : StreamSegmentId) (isLoad : Bool) (outcome : ℕ → OpenOutcome) :
    SegmentLine × Bool :=
  let number := line.hiddenNumber sequenceNumber
  let entered := if isLoad then (line.state number).openContext line.streamCount number outcome
    else (line.state number).append line.streamCount number outcome
  (line.setState number entered.1, entered.2)

/-- `_closeBufferContext`. -/
def closeBufferContext (sequenceNumber : StreamSegmentId) (isEmpty force : Bool)
    (submit : ℕ → SubmitOutcome) : SegmentLine :=
  let number := line.hiddenNumber sequenceNumber
  let completed := (line.state number).completeSubSegment line.subSegmentCount line.streamCount
    (sequenceNumber % line.subSegmentCount) isEmpty submit
  if force || completed.2 then line.erase number completed.1
  else line.setState number completed.1

end SegmentLine

structure MemoryEncoder where
  lineCount : ℕ
  lines : ℕ → SegmentLine

namespace MemoryEncoder

/-- The loop of `_setupBufferContexts` that opens or appends the contexts of the first lines. -/
def enterFirst (sequenceNumber : StreamSegmentId) (isLoad : Bool) (outcome : ℕ → ℕ → OpenOutcome)
    (lines : ℕ → SegmentLine) : ℕ → (ℕ → SegmentLine) × Bool
  | 0 => (lines, true)
  | k + 1 =>
    match enterFirst sequenceNumber isLoad outcome lines k with
    | (lines, false) => (lines, false)
    | (lines, true) =>
      let entered := (lines k).enter sequenceNumber isLoad (outcome k)
      (Function.update lines k entered.1, entered.2)

/-- `_setupBufferContexts` up to the wait for loads. If an exception is thrown, the sub segment is
completed on all lines; by then `allCreated` is set. -/
def setupBufferContexts (encoder : MemoryEncoder) (sequenceNumber : StreamSegmentId) (isLoad : Bool)
    (outcome : ℕ → ℕ → OpenOutcome) (submit : ℕ → ℕ → SubmitOutcome) : MemoryEncoder × Bool :=
  let created := fun i => ((encoder.lines i).getBufferContext sequenceNumber).2
  let lines := fun i => ((encoder.lines i).getBufferContext sequenceNumber).1
  let allCreated := true
  match enterFirst sequenceNumber isLoad outcome lines encoder.lineCount with
  | (lines, true) => ({ encoder with lines := lines }, true)
  | (lines, false) =>
    ({ encoder with lines := fun i =>
        (lines i).closeBufferContext sequenceNumber true (!allCreated && created i) (submit i) },
      false)

end MemoryEncoder

end Simutrace
