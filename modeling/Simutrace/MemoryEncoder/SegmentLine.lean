import Simutrace.MemoryEncoder.BufferContext
import Mathlib.Logic.Relation

/-! # The steps of a line

Workers use the sub segments of a line while its hidden streams finish loads and
encodings. What the memory encoder does to its lines are steps of each of them.
-/

namespace Simutrace

namespace SegmentLine

variable (line : SegmentLine)

/-- The use of a sub segment: the segment of the memory stream, the mode, and what the hidden
streams answer. -/
structure Attempt where
  sequenceNumber : StreamSegmentId
  isLoad : Bool
  outcome : ℕ → OpenOutcome
  submit : ℕ → SubmitOutcome

/-- The context of a sub segment is opened or appended, and if this throws an exception the sub
segment is completed. -/
def setup (a : Attempt) : SegmentLine × Bool :=
  match (line.getBufferContext a.sequenceNumber).1.enter a.sequenceNumber a.isLoad a.outcome with
  | (line, true) => (line, true)
  | (line, false) => (line.closeBufferContext a.sequenceNumber true false a.submit, false)

/-- The steps of a line. A sub segment is abandoned if an earlier line throws an exception. -/
inductive Event
  | setup (a : Attempt)
  | abandon (sequenceNumber : StreamSegmentId) (submit : ℕ → SubmitOutcome)
  | complete (sequenceNumber : StreamSegmentId) (isEmpty : Bool) (submit : ℕ → SubmitOutcome)
  | loaded (number : StreamSegmentId) (i : ℕ)
  | encoded (number : StreamSegmentId) (i : ℕ) (located : Bool)
  | close (submit : StreamSegmentId → ℕ → SubmitOutcome)

/-- Only sub segments of initialized contexts are completed. -/
def Enabled : Event → Prop
  | .complete sequenceNumber _ _ =>
    (line.state (line.hiddenNumber sequenceNumber)).context.initialized = true
  | _ => True

/-- The open wait is told of the end of a load as often as it has been registered. -/
def finishWait (i : ℕ) (context : BufferContext) : BufferContext :=
  { context with
    openWait := StreamWait.decrement^[context.registered i] context.openWait
    registered := Function.update context.registered i 0 }

def setSegment (number : StreamSegmentId) (i : ℕ) (h : HiddenSegment) : SegmentLine :=
  { line with
    segments := Function.update line.segments number
      (Function.update (line.segments number) i h) }

def next : Event → SegmentLine
  | .setup a => (line.setup a).1
  | .abandon sequenceNumber submit =>
    (line.getBufferContext sequenceNumber).1.closeBufferContext sequenceNumber true false submit
  | .complete sequenceNumber isEmpty submit =>
    line.closeBufferContext sequenceNumber isEmpty false submit
  | .loaded number i =>
    { line.setSegment number i (line.segments number i).finishLoad with
      contexts := Function.update line.contexts number
        ((line.contexts number).map (finishWait i)) }
  | .encoded number i located =>
    line.setSegment number i ((line.segments number i).finishEncoding located)
  | .close submit =>
    { line with
      segments := fun number =>
        match line.contexts number with
        | none => line.segments number
        | some _ => fun i =>
          (((line.state number).close line.streamCount (submit number)).segments i).finishLoad
      contexts := fun _ => none }

variable {line} {number n : StreamSegmentId} {c c' : ContextState}

@[simp] theorem state_setState : (line.setState number c).state number = c := by
  simp [state, setState]

theorem state_setState_of_ne (h : n ≠ number) :
    (line.setState number c).state n = line.state n := by
  simp [state, setState, h]

@[simp] theorem contexts_setState : (line.setState number c).contexts number = some c.context := by
  simp [setState]

theorem contexts_setState_of_ne (h : n ≠ number) :
    (line.setState number c).contexts n = line.contexts n := by
  simp [setState, h]

@[simp] theorem setState_setState :
    (line.setState number c).setState number c' = line.setState number c' := by
  simp [setState]

@[simp] theorem erase_setState :
    (line.setState number c).erase number c' = line.erase number c' := by
  simp [setState, erase]

theorem state_erase : (line.erase number c).state number =
    ⟨fun i => (c.segments i).finishLoad, .new⟩ := by
  simp [state, erase]

theorem contexts_erase_of_ne (h : n ≠ number) :
    (line.erase number c).contexts n = line.contexts n := by
  simp [erase, h]

theorem state_erase_of_ne (h : n ≠ number) : (line.erase number c).state n = line.state n := by
  simp [state, erase, h]

@[simp] theorem hiddenNumber_setState :
    (line.setState number c).hiddenNumber n = line.hiddenNumber n := rfl

@[simp] theorem subSegmentCount_setState :
    (line.setState number c).subSegmentCount = line.subSegmentCount := rfl

@[simp] theorem streamCount_setState :
    (line.setState number c).streamCount = line.streamCount := rfl

theorem state_closeBufferContext_of_full (isEmpty : Bool) (submit : ℕ → SubmitOutcome)
    (full : (line.state (line.hiddenNumber n)).context.usedBuffers + 1 = line.subSegmentCount) :
    (line.closeBufferContext n isEmpty false submit).state (line.hiddenNumber n) =
      ⟨fun i => (((((line.state (line.hiddenNumber n)).mark (n % line.subSegmentCount)
        isEmpty).close line.streamCount submit).segments i).finishLoad), .new⟩ := by
  have hlast : (line.state (line.hiddenNumber n)).context.usedBuffers =
      line.subSegmentCount - 1 := by omega
  unfold closeBufferContext ContextState.completeSubSegment
  dsimp only
  rw [if_pos hlast, if_pos (by rfl), state_erase]

theorem state_closeBufferContext_of_ne_full (isEmpty : Bool) (submit : ℕ → SubmitOutcome)
    (rest : (line.state (line.hiddenNumber n)).context.usedBuffers + 1 ≠ line.subSegmentCount) :
    (line.closeBufferContext n isEmpty false submit).state (line.hiddenNumber n) =
      (line.state (line.hiddenNumber n)).mark (n % line.subSegmentCount) isEmpty := by
  have hpos := line.subSegmentCount_pos
  have hlast : (line.state (line.hiddenNumber n)).context.usedBuffers ≠
      line.subSegmentCount - 1 := by omega
  unfold closeBufferContext ContextState.completeSubSegment
  dsimp only
  rw [if_neg hlast, if_neg (by simp), state_setState]

theorem state_closeBufferContext_of_ne {isEmpty force : Bool} {submit : ℕ → SubmitOutcome}
    (h : number ≠ line.hiddenNumber n) :
    (line.closeBufferContext n isEmpty force submit).state number = line.state number := by
  unfold closeBufferContext
  dsimp only
  split
  · exact state_erase_of_ne h
  · exact state_setState_of_ne h

theorem fst_enter (line : SegmentLine) (sequenceNumber : StreamSegmentId) (isLoad : Bool)
    (outcome : ℕ → OpenOutcome) :
    (line.enter sequenceNumber isLoad outcome).1 =
      line.setState (line.hiddenNumber sequenceNumber)
        ((line.state (line.hiddenNumber sequenceNumber)).enter line.streamCount
          (line.hiddenNumber sequenceNumber) isLoad outcome).1 := by
  unfold enter
  cases isLoad <;> rfl

theorem enter_getBufferContext (line : SegmentLine) (sequenceNumber : StreamSegmentId)
    (isLoad : Bool) (outcome : ℕ → OpenOutcome) :
    (line.getBufferContext sequenceNumber).1.enter sequenceNumber isLoad outcome =
      let number := line.hiddenNumber sequenceNumber
      let entered := (line.state number).enter line.streamCount number isLoad outcome
      (line.setState number entered.1, entered.2) := by
  unfold enter getBufferContext
  simp only [hiddenNumber_setState, state_setState, setState_setState]
  cases isLoad <;> rfl

theorem counts_closeBufferContext (line : SegmentLine) (sequenceNumber : StreamSegmentId)
    (isEmpty force : Bool) (submit : ℕ → SubmitOutcome) :
    (line.closeBufferContext sequenceNumber isEmpty force submit).subSegmentCount =
        line.subSegmentCount ∧
      (line.closeBufferContext sequenceNumber isEmpty force submit).streamCount =
        line.streamCount := by
  unfold closeBufferContext
  dsimp only
  split <;> exact ⟨rfl, rfl⟩

theorem counts_setup (line : SegmentLine) (a : Attempt) :
    (line.setup a).1.subSegmentCount = line.subSegmentCount ∧
      (line.setup a).1.streamCount = line.streamCount := by
  unfold setup
  rw [enter_getBufferContext]
  dsimp only
  split
  · rename_i hres
    obtain ⟨rfl, -⟩ := Prod.mk.inj hres
    exact ⟨rfl, rfl⟩
  · rename_i hres
    obtain ⟨rfl, -⟩ := Prod.mk.inj hres
    exact counts_closeBufferContext ..

theorem counts_next (line : SegmentLine) (event : Event) :
    (line.next event).subSegmentCount = line.subSegmentCount ∧
      (line.next event).streamCount = line.streamCount := by
  cases event with
  | setup a => exact counts_setup line a
  | abandon sequenceNumber submit => exact counts_closeBufferContext ..
  | complete sequenceNumber isEmpty submit => exact counts_closeBufferContext ..
  | loaded number i | encoded number i located | close submit => exact ⟨rfl, rfl⟩

theorem hiddenNumber_setup (line : SegmentLine) (a : Attempt) (n : StreamSegmentId) :
    (line.setup a).1.hiddenNumber n = line.hiddenNumber n := by
  rw [hiddenNumber, (counts_setup line a).1, hiddenNumber]

theorem state_setup_of_ne {a : Attempt} (h : number ≠ line.hiddenNumber a.sequenceNumber) :
    (line.setup a).1.state number = line.state number := by
  unfold setup
  rw [enter_getBufferContext]
  dsimp only
  split
  · rename_i hres
    obtain ⟨rfl, -⟩ := Prod.mk.inj hres
    exact state_setState_of_ne h
  · rename_i hres
    obtain ⟨rfl, -⟩ := Prod.mk.inj hres
    rw [state_closeBufferContext_of_ne (by exact h)]
    exact state_setState_of_ne h

theorem setup_of_enter {a : Attempt} (h : ((line.getBufferContext a.sequenceNumber).1.enter
    a.sequenceNumber a.isLoad a.outcome).2 = true) :
    line.setup a = (((line.getBufferContext a.sequenceNumber).1.enter a.sequenceNumber a.isLoad
      a.outcome).1, true) := by
  unfold setup
  split
  · rename_i hres
    rw [hres]
  · rename_i hres
    rw [hres] at h
    exact absurd h Bool.false_ne_true

theorem setup_of_enter_failed {a : Attempt} (h : ((line.getBufferContext a.sequenceNumber).1.enter
    a.sequenceNumber a.isLoad a.outcome).2 = false) :
    line.setup a = (((line.getBufferContext a.sequenceNumber).1.enter a.sequenceNumber a.isLoad
      a.outcome).1.closeBufferContext a.sequenceNumber true false a.submit, false) := by
  unfold setup
  split
  · rename_i hres
    rw [hres] at h
    exact absurd h (by simp)
  · rename_i hres
    rw [hres]

theorem initialized_of_enter {streamCount : ℕ} {isLoad : Bool} {outcome : ℕ → OpenOutcome}
    (entered : (c.enter streamCount number isLoad outcome).2 = true) :
    (c.enter streamCount number isLoad outcome).1.context.initialized = true := by
  unfold ContextState.enter at entered ⊢
  split
  · assumption
  · rw [if_neg ‹_›] at entered
    unfold ContextState.initializeContext at entered ⊢
    split
    · rename_i hres
      rw [hres] at entered
      exact absurd entered Bool.false_ne_true
    · rfl

def Step (line line' : SegmentLine) : Prop := ∃ event, line.Enabled event ∧ line' = line.next event

end SegmentLine

namespace MemoryEncoder

open SegmentLine

variable {sequenceNumber : StreamSegmentId} {isLoad : Bool} {outcome : ℕ → ℕ → OpenOutcome}
  {lines : ℕ → SegmentLine}

/-- The first lines are entered, up to one that throws an exception. -/
theorem enterFirst_spec (k : ℕ) :
    ((enterFirst sequenceNumber isLoad outcome lines k).2 = true ∧
        ∀ i, (enterFirst sequenceNumber isLoad outcome lines k).1 i =
            (if i < k then ((lines i).enter sequenceNumber isLoad (outcome i)).1 else lines i) ∧
          (i < k → ((lines i).enter sequenceNumber isLoad (outcome i)).2 = true)) ∨
      (enterFirst sequenceNumber isLoad outcome lines k).2 = false ∧
        ∃ j < k, ((lines j).enter sequenceNumber isLoad (outcome j)).2 = false ∧
          ∀ i, (enterFirst sequenceNumber isLoad outcome lines k).1 i =
              (if i ≤ j then ((lines i).enter sequenceNumber isLoad (outcome i)).1 else lines i) ∧
            (i < j → ((lines i).enter sequenceNumber isLoad (outcome i)).2 = true) := by
  induction k with
  | zero => exact .inl ⟨rfl, fun i => ⟨rfl, fun h => absurd h (Nat.not_lt_zero i)⟩⟩
  | succ k ih =>
    unfold enterFirst
    rcases hfirst : enterFirst sequenceNumber isLoad outcome lines k with ⟨lines', _ | _⟩ <;>
      rw [hfirst] at ih
    · obtain ⟨h, -⟩ | ⟨-, j, hj, hfails, hall⟩ := ih
      · exact absurd h Bool.false_ne_true
      · exact .inr ⟨rfl, j, hj.trans (Nat.lt_succ_self k), hfails, hall⟩
    · obtain ⟨-, hall⟩ | ⟨h, -⟩ := ih
      · dsimp only at hall
        have hk : lines' k = lines k := by rw [(hall k).1, if_neg (lt_irrefl k)]
        have hupdate (i : ℕ) : Function.update lines' k
            ((lines k).enter sequenceNumber isLoad (outcome k)).1 i =
              if i ≤ k then ((lines i).enter sequenceNumber isLoad (outcome i)).1
              else lines i := by
          by_cases hi : i = k
          · subst hi
            simp
          · rw [Function.update_of_ne hi, (hall i).1]
            exact if_congr (by omega) rfl rfl
        dsimp only
        rw [hk]
        cases hres : ((lines k).enter sequenceNumber isLoad (outcome k)).2 with
        | false => exact .inr ⟨rfl, k, Nat.lt_succ_self k, hres, fun i => ⟨hupdate i, (hall i).2⟩⟩
        | true =>
          refine .inl ⟨rfl, fun i => ⟨?_, fun hi => ?_⟩⟩
          · rw [hupdate i]
            exact if_congr Nat.lt_succ_iff.symm rfl rfl
          · rcases Nat.lt_succ_iff_lt_or_eq.mp hi with hlt | rfl
            · exact (hall i).2 hlt
            · exact hres
      · exact absurd h (by simp)

/-- `_setupBufferContexts` consists of steps of the lines. -/
theorem setupBufferContexts_steps (encoder : MemoryEncoder) (sequenceNumber : StreamSegmentId)
    (isLoad : Bool) (outcome : ℕ → ℕ → OpenOutcome) (submit : ℕ → ℕ → SubmitOutcome) {l : ℕ}
    (hl : l < encoder.lineCount) :
    Relation.ReflTransGen Step (encoder.lines l)
      ((encoder.setupBufferContexts sequenceNumber isLoad outcome submit).1.lines l) := by
  let a : Attempt := ⟨sequenceNumber, isLoad, outcome l, submit l⟩
  have hsetup : Step (encoder.lines l) ((encoder.lines l).setup a).1 := ⟨.setup a, trivial, rfl⟩
  have hspec := @enterFirst_spec sequenceNumber isLoad outcome
    (fun i => ((encoder.lines i).getBufferContext sequenceNumber).1) encoder.lineCount
  unfold setupBufferContexts
  dsimp only
  rcases hfirst : enterFirst sequenceNumber isLoad outcome
    (fun i => ((encoder.lines i).getBufferContext sequenceNumber).1) encoder.lineCount with
    ⟨lines', _ | _⟩ <;> rw [hfirst] at hspec
  · obtain ⟨h, -⟩ | ⟨-, j, hj, hfails, hall⟩ := hspec
    · exact absurd h Bool.false_ne_true
    · dsimp only at hall ⊢
      rw [(hall l).1]
      rcases lt_trichotomy l j with hlt | rfl | hgt
      · have hentered := (hall l).2 hlt
        rw [setup_of_enter hentered] at hsetup
        rw [if_pos hlt.le]
        refine .tail (.single hsetup) ⟨.complete sequenceNumber true (submit l), ?_, rfl⟩
        rw [enter_getBufferContext] at hentered ⊢
        have hstate := @state_setState (encoder.lines l)
          ((encoder.lines l).hiddenNumber sequenceNumber)
        simp only [Enabled]
        exact (congrArg (·.context.initialized) hstate).trans (initialized_of_enter hentered)
      · rw [setup_of_enter_failed hfails] at hsetup
        rw [if_pos le_rfl]
        exact .single hsetup
      · rw [if_neg (by omega)]
        exact .single ⟨.abandon sequenceNumber (submit l), trivial, rfl⟩
  · obtain ⟨-, hall⟩ | ⟨h, -⟩ := hspec
    · dsimp only at hall ⊢
      rw [(hall l).1, if_pos hl]
      rw [setup_of_enter ((hall l).2 hl)] at hsetup
      exact .single hsetup
    · exact absurd h (by simp)

end MemoryEncoder

end Simutrace
