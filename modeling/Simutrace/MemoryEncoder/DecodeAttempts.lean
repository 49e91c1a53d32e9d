import Simutrace.MemoryEncoder.Lifetime
import Simutrace.MemoryEncoder.Loading

/-! # Attempts to decode

Before a segment is decoded, the contexts of all lines are opened, and their open
waits say if the segments of the hidden streams are loaded. An open wait lives as
long as its context, with the errors of all attempts that have used it.
-/

namespace Simutrace

/-- Where an attempt is in `_setupBufferContexts`, in the decoder or in the end of the sub segment
context, with the next line. -/
inductive DecodePhase
  | idle
  | opening (line : ℕ)
  | waiting (line : ℕ)
  | ready
  | decoding
  | closing (line : ℕ)
  | erasing (line : ℕ)
  deriving DecidableEq

/-- The segment of the memory stream, and the context that is used of each line. -/
structure DecodeAttempt where
  sequenceNumber : StreamSegmentId
  generation : ℕ → ℕ
  phase : DecodePhase

structure Decoders where
  lineCount : ℕ
  lines : ℕ → SharedLine
  attempts : ℕ → DecodeAttempt
  failed : ℕ → StreamSegmentId → ℕ → Bool

namespace Decoders

variable (u : Decoders)

def use (a l : ℕ) : ContextUse := ((u.attempts a).sequenceNumber, (u.attempts a).generation l)

def number (a l : ℕ) : StreamSegmentId :=
  (u.lines l).line.hiddenNumber (u.attempts a).sequenceNumber

def state (a l : ℕ) : ContextState := (u.lines l).line.state (u.number a l)

inductive Event
  | start (a : ℕ) (sequenceNumber : StreamSegmentId)
  | openContext (a l : ℕ) (outcome : ℕ → OpenOutcome)
  | wait (a l : ℕ)
  | proceed (a : ℕ)
  | finish (a : ℕ)
  | complete (a l : ℕ) (submit : ℕ → SubmitOutcome)
  | erase (a l : ℕ)
  | loaded (l : ℕ) (number : StreamSegmentId) (i : ℕ)
  | fail (l : ℕ) (number : StreamSegmentId) (i : ℕ)

/-- A wait ends when it counts no loads, and the destructor of a context waits too. The load of a
segment ends once or fails, and a load that fails is never completed. -/
def Enabled : Event → Prop
  | .start a _ => (u.attempts a).phase = .idle
  | .openContext a l _ => (u.attempts a).phase = .opening l
  | .wait a l => (u.attempts a).phase = .waiting l ∧ (u.state a l).context.openWait.count = 0
  | .proceed a => (u.attempts a).phase = .ready
  | .finish a => (u.attempts a).phase = .decoding
  | .complete a l _ => (u.attempts a).phase = .closing l
  | .erase a l => (u.attempts a).phase = .erasing l ∧
      ∀ i < (u.lines l).line.streamCount, u.failed l (u.number a l) i = false
  | .loaded l number i => ((u.lines l).line.segments number i).Pending ∧ u.failed l number i = false
  | .fail l number i => ((u.lines l).line.segments number i).Pending

instance : (event : Event) → Decidable (u.Enabled event)
  | .start _ _ | .openContext _ _ _ | .proceed _ | .finish _ | .complete _ _ _ =>
    inferInstanceAs (Decidable (_ = _))
  | .wait _ _ | .loaded _ _ _ => inferInstanceAs (Decidable (_ ∧ _))
  | .erase _ _ => inferInstanceAs (Decidable (_ ∧ ∀ _, _))
  | .fail l number i => inferInstanceAs (Decidable ((u.lines l).line.segments number i).Pending)

def setLine (l : ℕ) (line : SharedLine) : Decoders :=
  { u with lines := Function.update u.lines l line }

def setPhase (a : ℕ) (phase : DecodePhase) : Decoders :=
  { u with attempts := Function.update u.attempts a { u.attempts a with phase := phase } }

def following (phase : ℕ → DecodePhase) (last : DecodePhase) (l : ℕ) : DecodePhase :=
  if l + 1 = u.lineCount then last else phase (l + 1)

end Decoders

/-- The loop over `popError` ends with the first error that it gets. -/
def SharedLine.popError (u : SharedLine) (use : ContextUse) : SharedLine :=
  let number := u.line.hiddenNumber use.1
  let c := u.line.state number
  if u.Exists number use.2 then
    { u with line := u.line.setState number { c with context := { c.context with
      openWait := { c.context.openWait with errors := c.context.openWait.errors.dropLast } } } }
  else u

namespace Decoders

variable (u : Decoders)

def next : Event → Decoders
  | .start a n =>
    { u with
      lines := fun l => if l < u.lineCount then (u.lines l).create n else u.lines l
      attempts := Function.update u.attempts a
        ⟨n, fun l => (u.lines l).generation ((u.lines l).line.hiddenNumber n), .opening 0⟩ }
  | .openContext a l outcome =>
    let entered := ((u.lines l).line.enter (u.attempts a).sequenceNumber true outcome).2
    (u.setLine l ((u.lines l).next (.enter (u.use a l) outcome))).setPhase a
      (if entered then u.following .opening (.waiting 0) l else .closing 0)
  | .wait a l =>
    if (u.state a l).context.openWait.errors = [] then
      u.setPhase a (u.following .waiting .ready l)
    else (u.setLine l ((u.lines l).popError (u.use a l))).setPhase a (.closing 0)
  | .proceed a => u.setPhase a .decoding
  | .finish a => u.setPhase a (.closing 0)
  | .complete a l submit =>
    (u.setLine l ((u.lines l).complete (u.use a l) submit)).setPhase a
      (if (u.lines l).Closes (u.use a l) then .erasing l else u.following .closing .idle l)
  | .erase a l =>
    (u.setLine l ((u.lines l).erase (u.use a l))).setPhase a (u.following .closing .idle l)
  | .loaded l number i => u.setLine l ((u.lines l).next (.loaded number i))
  | .fail l number i =>
    { u with failed := fun l' number' i' =>
        if l' = l ∧ number' = number ∧ i' = i then true else u.failed l' number' i' }

/-- The context that an attempt uses has not been closed. -/
def InUse (a l : ℕ) : Prop :=
  (u.lines l).Exists (u.number a l) ((u.attempts a).generation l) ∧
    (u.state a l).context.usedBuffers < (u.lines l).line.subSegmentCount

def Mapped (a l : ℕ) : Prop :=
  (u.lines l).Exists (u.number a l) ((u.attempts a).generation l) ∧
    ∀ i < (u.lines l).line.streamCount, ∃ id n,
      (u.state a l).context.buffers i = some id ∧ (u.state a l).segments i = .loaded id n

/-- An attempt proceeds only if all segments that it maps are loaded, and it throws an exception
only if one of them could not be opened or loaded. -/
def Reflects : Event → Prop
  | .openContext a l outcome =>
    ((u.lines l).line.enter (u.attempts a).sequenceNumber true outcome).2 = false →
      ∃ i < (u.lines l).line.streamCount, ¬ ((u.state a l).segments i).Acquires true (outcome i)
  | .wait a l => (u.state a l).context.openWait.errors ≠ [] →
      ∃ l' < u.lineCount, ∃ i < (u.lines l').line.streamCount,
        u.failed l' (u.number a l') i = true
  | .proceed a => ∀ l < u.lineCount, u.Mapped a l
  | _ => True

/-- Attempts use contexts only until they are closed, and an open wait has no errors of earlier
attempts and has not been registered so often that its counter wraps around. -/
def Meets : Event → Prop
  | .openContext a l _ | .complete a l _ => u.InUse a l
  | .wait a l => u.InUse a l ∧ (u.state a l).context.openWait.errors = [] ∧
      (u.state a l).context.registeredWaits (u.lines l).line.streamCount < 2 ^ 32
  | .proceed a => ∀ l < u.lineCount, u.InUse a l
  | _ => True

instance (a l : ℕ) : Decidable (u.InUse a l) := inferInstanceAs (Decidable (_ ∧ _))

instance : (event : Event) → Decidable (u.Meets event)
  | .openContext a l _ | .complete a l _ => inferInstanceAs (Decidable (u.InUse a l))
  | .wait _ _ => inferInstanceAs (Decidable (_ ∧ _ ∧ _))
  | .proceed a => inferInstanceAs (Decidable (∀ l < u.lineCount, u.InUse a l))
  | .start _ _ | .finish _ | .erase _ _ | .loaded _ _ _ | .fail _ _ _ => isTrue trivial

/-- No context has been created yet, and nothing is loaded at the moment. -/
structure Fresh : Prop where
  lines : ∀ l, (u.lines l).Fresh
  segments : ∀ l number i, ¬ ((u.lines l).line.segments number i).Pending
  attempts : ∀ a, (u.attempts a).phase = .idle
  failed : ∀ l number i, u.failed l number i = false

/-- The states that are reached, with the steps so far. -/
inductive Run : Decoders → List (Decoders × Event) → Prop
  | start {u : Decoders} (fresh : u.Fresh) : Run u []
  | next {u : Decoders} {steps : List (Decoders × Event)} (run : Run u steps) (event : Event)
      (enabled : u.Enabled event) : Run (u.next event) ((u, event) :: steps)

end Decoders

namespace SharedLine

variable {u u' : SharedLine} {number : StreamSegmentId} {generation : ℕ} {use : ContextUse}

/-- The loads of all contexts are accounted for. -/
def Reads (u : SharedLine) : Prop :=
  ∀ number, (u.line.state number).Reads u.line.subSegmentCount u.line.streamCount

theorem Reads.setState {line : SegmentLine} {c : ContextState} (reads : u.Reads)
    (h : c.Reads u.line.subSegmentCount u.line.streamCount)
    (eq : line = u.line.setState number c) : Reads { u with line := line } := by
  subst eq
  intro n
  by_cases hn : n = number
  · subst hn
    rw [SegmentLine.state_setState]
    exact h
  · rw [SegmentLine.state_setState_of_ne hn]
    exact reads n

theorem Reads.create (reads : u.Reads) (n : StreamSegmentId) : (u.create n).Reads :=
  reads.setState (reads (u.line.hiddenNumber n)) rfl

theorem Reads.enter (reads : u.Reads) (outcome : ℕ → OpenOutcome) :
    (u.next (.enter use outcome)).Reads := by
  dsimp only [SharedLine.next]
  split
  · exact reads.setState (reads (u.line.hiddenNumber use.1)).enter
      (SegmentLine.fst_enter ..)
  · exact reads

theorem Reads.complete (reads : u.Reads) (submit : ℕ → SubmitOutcome) :
    (u.complete use submit).Reads := by
  unfold SharedLine.complete
  dsimp only
  split
  · exact reads.setState ((reads (u.line.hiddenNumber use.1)).completeSubSegment
      (use.1 % u.line.subSegmentCount) true) rfl
  · exact reads

theorem Reads.erase (reads : u.Reads) : (u.erase use).Reads := by
  unfold SharedLine.erase
  dsimp only
  split
  · intro n
    dsimp only
    by_cases hn : n = u.line.hiddenNumber use.1
    · subst hn
      rw [SegmentLine.state_erase]
      exact ContextState.reads_new fun i => HiddenSegment.not_pending_finishLoad
    · rw [SegmentLine.state_erase_of_ne hn]
      exact reads n
  · exact reads

theorem state_loaded (i : ℕ) : (u.next (.loaded number i)).line.state number =
    ⟨Function.update (u.line.segments number) i (u.line.segments number i).finishLoad,
      SegmentLine.finishWait i (u.line.state number).context⟩ := by
  simp only [SegmentLine.state, SharedLine.next, SegmentLine.next, SegmentLine.setSegment,
    Function.update_self]
  cases u.line.contexts number with
  | none => simp [SegmentLine.finishWait, BufferContext.new]
  | some context => rfl

theorem state_loaded_of_ne {n : StreamSegmentId} (i : ℕ) (h : n ≠ number) :
    (u.next (.loaded number i)).line.state n = u.line.state n := by
  simp [SegmentLine.state, SharedLine.next, SegmentLine.next, SegmentLine.setSegment, h]

theorem Reads.loaded (reads : u.Reads) (i : ℕ) : (u.next (.loaded number i)).Reads := by
  intro n
  by_cases hn : n = number
  · subst hn
    rw [state_loaded]
    exact (reads n).finish i
  · rw [state_loaded_of_ne i hn]
    exact reads n

/-- What a step keeps of a context that it neither creates nor erases. -/
structure Keeps (subSegmentCount : ℕ) (c c' : ContextState) : Prop where
  used : c.context.usedBuffers ≤ c'.context.usedBuffers
  initialized : c.context.initialized = true → c'.context.initialized = true
  loaded : c.context.initialized = true → c'.context.usedBuffers < subSegmentCount →
    ∀ i id n, c.segments i = .loaded id n → ∃ id' n', c'.segments i = .loaded id' n'

theorem Keeps.refl {subSegmentCount : ℕ} (c : ContextState) : Keeps subSegmentCount c c where
  used := le_rfl
  initialized := id
  loaded _ _ _ id n h := ⟨id, n, h⟩

/-- What a step keeps of the contexts of a line: an erased one does not come back. -/
structure Continues (u u' : SharedLine) : Prop where
  subSegmentCount : u'.line.subSegmentCount = u.line.subSegmentCount
  streamCount : u'.line.streamCount = u.line.streamCount
  generation : ∀ number, u.generation number ≤ u'.generation number
  erased : ∀ number generation, u.Exists number generation →
    generation < u'.generation number ∨ u'.Exists number generation
  keeps : ∀ number generation, u.Exists number generation → u'.Exists number generation →
    Keeps u.line.subSegmentCount (u.line.state number) (u'.line.state number)

theorem Continues.of_uses {live erasing : List ContextUse} {created : StreamSegmentId → ℕ → ℕ} :
    u.Continues ⟨u.line, u.generation, live, erasing, created⟩ where
  subSegmentCount := rfl
  streamCount := rfl
  generation _ := le_rfl
  erased _ _ h := .inr h
  keeps _ _ _ _ := .refl _

theorem Continues.of_setState {line : SegmentLine} {c : ContextState}
    {live erasing : List ContextUse} {created : StreamSegmentId → ℕ → ℕ}
    (keeps : (u.line.contexts number).isSome → Keeps u.line.subSegmentCount (u.line.state number) c)
    (eq : line = u.line.setState number c) :
    u.Continues ⟨line, u.generation, live, erasing, created⟩ := by
  subst eq
  refine ⟨rfl, rfl, fun _ => le_rfl, fun n g h => .inr ⟨h.1, ?_⟩, fun n g h _ => ?_⟩
  all_goals by_cases hn : n = number
  · rw [hn, SegmentLine.contexts_setState]
    rfl
  · rw [SegmentLine.contexts_setState_of_ne hn]
    exact h.2
  · subst hn
    rw [SegmentLine.state_setState]
    exact keeps h.2
  · rw [SegmentLine.state_setState_of_ne hn]
    exact .refl _

theorem continues_create (n : StreamSegmentId) : u.Continues (u.create n) :=
  .of_setState (fun _ => .refl _) rfl

theorem keeps_enter {c : ContextState} {subSegmentCount streamCount : ℕ}
    {outcome : ℕ → OpenOutcome} :
    Keeps subSegmentCount c (c.enter streamCount number true outcome).1 := by
  refine ⟨(ContextState.usedBuffers_enter streamCount).ge, fun h => ?_, fun h _ => ?_⟩
  all_goals rw [ContextState.enter, if_pos h]
  · exact h
  · exact fun i id n loaded => ⟨id, n, loaded⟩

theorem continues_enter (outcome : ℕ → OpenOutcome) :
    u.Continues (u.next (.enter use outcome)) := by
  dsimp only [SharedLine.next]
  split
  · exact .of_setState (fun _ => keeps_enter) (SegmentLine.fst_enter ..)
  · exact .of_uses

theorem keeps_completeSubSegment {c : ContextState} {subSegmentCount : ℕ}
    (pos : 0 < subSegmentCount) (streamCount j : ℕ) (empty : Bool) (submit : ℕ → SubmitOutcome) :
    Keeps subSegmentCount c
      (c.completeSubSegment subSegmentCount streamCount j empty submit).1 := by
  have hused := ContextState.completeSubSegment_fst_usedBuffers
    (c := c) subSegmentCount streamCount j empty submit
  refine ⟨by omega, fun h => ?_, fun _ hlt => ?_⟩
  · unfold ContextState.completeSubSegment
    split
    · exact ContextState.released_closeFirst.initialized.trans h
    · exact h
  · unfold ContextState.completeSubSegment
    rw [if_neg (by omega)]
    exact fun i id n loaded => ⟨id, n, loaded⟩

theorem continues_complete (submit : ℕ → SubmitOutcome) : u.Continues (u.complete use submit) := by
  unfold SharedLine.complete
  dsimp only
  split
  · exact .of_setState (fun _ => keeps_completeSubSegment u.line.subSegmentCount_pos ..) rfl
  · exact .of_uses

theorem continues_erase : u.Continues (u.erase use) := by
  unfold SharedLine.erase
  dsimp only
  split
  · refine ⟨rfl, rfl, fun n => ?_, fun n g h => ?_, fun n g h h' => ?_⟩
    all_goals by_cases hn : n = u.line.hiddenNumber use.1
    all_goals dsimp only
    · subst hn
      rw [Function.update_self]
      exact Nat.le_succ _
    · rw [Function.update_of_ne hn]
    · subst hn
      rw [Function.update_self]
      exact .inl (Nat.lt_succ_of_le h.1.le)
    · exact .inr ⟨h.1.trans (Function.update_of_ne hn ..).symm,
        (congrArg Option.isSome (SegmentLine.contexts_erase_of_ne hn)).trans h.2⟩
    · subst hn
      have hgen := h'.1
      dsimp only at hgen
      rw [Function.update_self] at hgen
      exact absurd (hgen.symm.trans h.1) (Nat.succ_ne_self _)
    · rw [SegmentLine.state_erase_of_ne hn]
      exact .refl _
  · exact .of_uses

theorem continues_loaded (i : ℕ) : u.Continues (u.next (.loaded number i)) := by
  have hcontexts (n : StreamSegmentId) :
      ((u.next (.loaded number i)).line.contexts n).isSome = (u.line.contexts n).isSome := by
    by_cases hn : n = number
    · subst hn
      simp [SharedLine.next, SegmentLine.next]
    · simp [SharedLine.next, SegmentLine.next, SegmentLine.setSegment, hn]
  refine ⟨rfl, rfl, fun _ => le_rfl, fun n g h => .inr ⟨h.1, (hcontexts n).trans h.2⟩,
    fun n g _ _ => ?_⟩
  by_cases hn : n = number
  · subst hn
    rw [state_loaded]
    refine ⟨le_rfl, id, fun _ _ j id m loaded => ?_⟩
    change u.line.segments n j = .loaded id m at loaded
    dsimp only
    by_cases hj : j = i
    · subst hj
      rw [Function.update_self, loaded]
      exact ⟨id, m, rfl⟩
    · rw [Function.update_of_ne hj]
      exact ⟨id, m, loaded⟩
  · rw [state_loaded_of_ne i hn]
    exact .refl _

end SharedLine

namespace Decoders

variable {u u' : Decoders} {a b l : ℕ}

/-- The context that an attempt uses is in the map of the line, or it has been erased. -/
def Born (u : Decoders) (a l : ℕ) : Prop :=
  (u.attempts a).generation l < (u.lines l).generation (u.number a l) ∨
    (u.lines l).Exists (u.number a l) ((u.attempts a).generation l)

def Opened (u : Decoders) (a l : ℕ) : Prop :=
  u.InUse a l → (u.state a l).context.initialized = true

def Loaded (u : Decoders) (a l : ℕ) : Prop :=
  u.InUse a l → (u.state a l).context.initialized = true ∧
    ∀ i < (u.lines l).line.streamCount, ∃ id n, (u.state a l).segments i = .loaded id n

def Passed (u : Decoders) (a : ℕ) : DecodePhase → Prop
  | .opening k => ∀ l < k, l < u.lineCount → u.Opened a l
  | .waiting k => (∀ l < u.lineCount, u.Opened a l) ∧ ∀ l < k, l < u.lineCount → u.Loaded a l
  | .ready | .decoding => ∀ l < u.lineCount, u.Loaded a l
  | .idle | .closing _ | .erasing _ => True

structure Inv (u : Decoders) : Prop where
  reads : ∀ l, (u.lines l).Reads
  born : ∀ a, (u.attempts a).phase ≠ .idle → ∀ l < u.lineCount, u.Born a l
  passed : ∀ a, u.Passed a (u.attempts a).phase

section Moves

structure Moves (u u' : Decoders) : Prop where
  lineCount : u'.lineCount = u.lineCount
  lines : ∀ l, (u.lines l).Continues (u'.lines l)

/-- An attempt uses the same contexts after a step. -/
structure SameUse (u u' : Decoders) (a : ℕ) : Prop where
  sequenceNumber : (u'.attempts a).sequenceNumber = (u.attempts a).sequenceNumber
  generation : (u'.attempts a).generation = (u.attempts a).generation

theorem SameUse.number (same : u.SameUse u' a) (moves : u.Moves u') :
    u'.number a l = u.number a l := by
  unfold Decoders.number SegmentLine.hiddenNumber
  rw [same.sequenceNumber, (moves.lines l).subSegmentCount]

theorem Born.moves (born : u.Born a l) (moves : u.Moves u') (same : u.SameUse u' a) :
    u'.Born a l := by
  unfold Born at *
  rw [same.number moves, same.generation]
  rcases born with hlt | hexists
  · exact .inl (hlt.trans_le ((moves.lines l).generation _))
  · exact (moves.lines l).erased _ _ hexists

theorem InUse.of_moves (h : u'.InUse a l) (born : u.Born a l) (moves : u.Moves u')
    (same : u.SameUse u' a) : u.InUse a l ∧
      SharedLine.Keeps (u.lines l).line.subSegmentCount (u.state a l) (u'.state a l) := by
  obtain ⟨hexists', hused'⟩ := h
  unfold Decoders.state at *
  rw [same.number moves] at *
  rw [same.generation] at hexists'
  have hexists : (u.lines l).Exists (u.number a l) ((u.attempts a).generation l) := by
    rcases born with hlt | hexists
    · have hle := (moves.lines l).generation (u.number a l)
      exact absurd hexists'.1 (by omega)
    · exact hexists
  have keeps := (moves.lines l).keeps _ _ hexists hexists'
  rw [(moves.lines l).subSegmentCount] at hused'
  exact ⟨⟨hexists, keeps.used.trans_lt hused'⟩, keeps⟩

theorem Opened.moves (opened : u.Opened a l) (born : u.Born a l) (moves : u.Moves u')
    (same : u.SameUse u' a) : u'.Opened a l := by
  intro h
  obtain ⟨huse, keeps⟩ := h.of_moves born moves same
  exact keeps.initialized (opened huse)

theorem Loaded.moves (loaded : u.Loaded a l) (born : u.Born a l) (moves : u.Moves u')
    (same : u.SameUse u' a) : u'.Loaded a l := by
  intro h
  obtain ⟨huse, keeps⟩ := h.of_moves born moves same
  obtain ⟨hinit, hloaded⟩ := loaded huse
  refine ⟨keeps.initialized hinit, fun i hi => ?_⟩
  rw [(moves.lines l).streamCount] at hi
  obtain ⟨id, n, hseg⟩ := hloaded i hi
  have hused := h.2
  rw [(moves.lines l).subSegmentCount] at hused
  exact keeps.loaded hinit hused i id n hseg

theorem Passed.moves {phase : DecodePhase} (passed : u.Passed a phase)
    (born : ∀ l < u.lineCount, u.Born a l) (moves : u.Moves u') (same : u.SameUse u' a) :
    u'.Passed a phase := by
  have hcount := moves.lineCount
  cases phase with
  | idle | closing k | erasing k => trivial
  | opening k =>
    intro l hk hl
    rw [hcount] at hl
    exact (passed l hk hl).moves (born l hl) moves same
  | waiting k =>
    refine ⟨fun l hl => ?_, fun l hk hl => ?_⟩ <;> rw [hcount] at hl
    · exact (passed.1 l hl).moves (born l hl) moves same
    · exact (passed.2 l hk hl).moves (born l hl) moves same
  | ready | decoding =>
    intro l hl
    rw [hcount] at hl
    exact (passed l hl).moves (born l hl) moves same

/-- A step of one attempt. The other ones keep their phase. -/
theorem Inv.step (inv : u.Inv) (moves : u.Moves u') (reads : ∀ l, (u'.lines l).Reads)
    (active : (u.attempts a).phase ≠ .idle) {phase : DecodePhase}
    (attempts : u'.attempts = Function.update u.attempts a { u.attempts a with phase := phase })
    (passed : u'.Passed a phase) : u'.Inv := by
  have hsame (b : ℕ) : u.SameUse u' b := by
    by_cases hb : b = a
    · subst hb
      exact ⟨by rw [attempts, Function.update_self], by rw [attempts, Function.update_self]⟩
    · exact ⟨by rw [attempts, Function.update_of_ne hb], by rw [attempts, Function.update_of_ne hb]⟩
  refine ⟨reads, fun b hb l hl => ?_, fun b => ?_⟩
  · rw [moves.lineCount] at hl
    refine (inv.born b ?_ l hl).moves moves (hsame b)
    by_cases hba : b = a
    · rw [hba]
      exact active
    · rwa [attempts, Function.update_of_ne hba] at hb
  · by_cases hba : b = a
    · subst hba
      rw [attempts, Function.update_self]
      exact passed
    · rw [attempts, Function.update_of_ne hba]
      by_cases hidle : (u.attempts b).phase = .idle
      · rw [hidle]
        trivial
      · exact (inv.passed b).moves (inv.born b hidle) moves (hsame b)

end Moves

section Step

theorem lines_setLine {line : SharedLine} (continues : (u.lines l).Continues line) (k : ℕ) :
    (u.lines k).Continues ((u.setLine l line).lines k) := by
  unfold setLine
  dsimp only
  by_cases hk : k = l
  · subst hk
    rwa [Function.update_self]
  · rw [Function.update_of_ne hk]
    exact .of_uses

theorem reads_setLine {line : SharedLine} (inv : u.Inv) (reads : line.Reads) (k : ℕ) :
    ((u.setLine l line).lines k).Reads := by
  unfold setLine
  dsimp only
  by_cases hk : k = l
  · subst hk
    rwa [Function.update_self]
  · rw [Function.update_of_ne hk]
    exact inv.reads k

theorem Inv.step_line {line : SharedLine} {phase : DecodePhase} (inv : u.Inv)
    (active : (u.attempts a).phase ≠ .idle) (continues : (u.lines l).Continues line)
    (reads : line.Reads)
    (passed : u.Moves ((u.setLine l line).setPhase a phase) →
      ((u.setLine l line).setPhase a phase).Passed a phase) :
    ((u.setLine l line).setPhase a phase).Inv := by
  have moves : u.Moves ((u.setLine l line).setPhase a phase) :=
    ⟨rfl, fun k => lines_setLine continues k⟩
  exact inv.step moves (fun k => reads_setLine inv reads k) active rfl (passed moves)

theorem Inv.step_phase {phase : DecodePhase} (inv : u.Inv)
    (active : (u.attempts a).phase ≠ .idle) (passed : u.Passed a phase) :
    (u.setPhase a phase).Inv := by
  have moves : u.Moves (u.setPhase a phase) := ⟨rfl, fun _ => .of_uses⟩
  have hsame : u.SameUse (u.setPhase a phase) a := by
    constructor <;> simp [setPhase]
  exact inv.step moves inv.reads active rfl (passed.moves (inv.born a active) moves hsame)

theorem Inv.start (inv : u.Inv) (n : StreamSegmentId) (idle : (u.attempts a).phase = .idle) :
    (u.next (.start a n)).Inv := by
  have hlines (k : ℕ) : (u.lines k).Continues ((u.next (.start a n)).lines k) := by
    dsimp only [next]
    split
    · exact SharedLine.continues_create n
    · exact .of_uses
  have moves : u.Moves (u.next (.start a n)) := ⟨rfl, hlines⟩
  refine ⟨fun k => ?_, fun b hb k hk => ?_, fun b => ?_⟩
  · dsimp only [next]
    split
    · exact (inv.reads k).create n
    · exact inv.reads k
  all_goals by_cases hba : b = a
  · subst hba
    change k < u.lineCount at hk
    refine .inr ⟨?_, ?_⟩
    · simp only [Decoders.number, next, Function.update_self]
      rw [if_pos hk]
      rfl
    · simp only [Decoders.number, next, Function.update_self]
      rw [if_pos hk]
      exact congrArg Option.isSome SegmentLine.contexts_setState
  · have hsame : u.SameUse (u.next (.start a n)) b := by
      constructor <;> simp [next, hba]
    have hphase : ((u.next (.start a n)).attempts b).phase = (u.attempts b).phase := by
      simp [next, hba]
    exact (inv.born b (hphase ▸ hb) k hk).moves moves hsame
  · subst hba
    simp only [next, Function.update_self]
    exact fun l h => absurd h (Nat.not_lt_zero l)
  · have hsame : u.SameUse (u.next (.start a n)) b := by
      constructor <;> simp [next, hba]
    have hphase : ((u.next (.start a n)).attempts b).phase = (u.attempts b).phase := by
      simp [next, hba]
    rw [hphase]
    by_cases hidle : (u.attempts b).phase = .idle
    · rw [hidle]
      trivial
    · exact (inv.passed b).moves (inv.born b hidle) moves hsame

variable {n : StreamSegmentId} {outcome : ℕ → OpenOutcome}

theorem snd_enter {line : SegmentLine} : (line.enter n true outcome).2 =
    ((line.state (line.hiddenNumber n)).enter line.streamCount (line.hiddenNumber n) true
      outcome).2 := rfl

theorem opened_openContext {phase : DecodePhase} (inUse : u.InUse a l)
    (entered : ((u.lines l).line.enter (u.attempts a).sequenceNumber true outcome).2 = true) :
    ((u.setLine l ((u.lines l).next
      (.enter (u.use a l) outcome))).setPhase a phase).Opened a l := by
  intro _
  have hline : (((u.setLine l ((u.lines l).next (.enter (u.use a l) outcome))).setPhase a
      phase).lines l).line = ((u.lines l).line.enter (u.attempts a).sequenceNumber true
        outcome).1 := by
    have hexists : (u.lines l).Exists ((u.lines l).line.hiddenNumber (u.use a l).1)
        (u.use a l).2 := inUse.1
    simp only [setLine, setPhase, Function.update_self, SharedLine.next]
    rw [if_pos hexists]
    rfl
  unfold Decoders.state Decoders.number
  rw [hline, SegmentLine.fst_enter, SegmentLine.hiddenNumber_setState]
  simp only [setLine, setPhase, Function.update_self, SegmentLine.state_setState]
  exact SegmentLine.initialized_of_enter (snd_enter.symm.trans entered)

theorem Inv.openContext (inv : u.Inv) (enabled : (u.attempts a).phase = .opening l)
    (inUse : u.InUse a l) : (u.next (.openContext a l outcome)).Inv := by
  have hactive : (u.attempts a).phase ≠ .idle := by simp [enabled]
  have hpassed := inv.passed a
  rw [enabled] at hpassed
  refine inv.step_line hactive (SharedLine.continues_enter outcome) ((inv.reads l).enter outcome)
    fun moves => ?_
  split
  · rename_i hentered
    have hsame : u.SameUse ((u.setLine l ((u.lines l).next (.enter (u.use a l) outcome))).setPhase a
        (u.following .opening (.waiting 0) l)) a := by
      constructor <;> simp [setPhase, setLine]
    rw [if_pos hentered] at moves
    have hopened (k : ℕ) (hk : k < l + 1) (hlt : k < u.lineCount) :
        ((u.setLine l ((u.lines l).next (.enter (u.use a l) outcome))).setPhase a
          (u.following .opening (.waiting 0) l)).Opened a k := by
      rcases Nat.lt_succ_iff_lt_or_eq.mp hk with hkl | rfl
      · exact (hpassed k hkl hlt).moves (inv.born a hactive k hlt) moves hsame
      · exact opened_openContext inUse hentered
    generalize hphase : u.following .opening (.waiting 0) l = phase at hopened
    unfold following at hphase
    split at hphase <;> subst hphase
    · exact ⟨fun k hk => hopened k (by change k < u.lineCount at hk; omega) hk,
        fun k hk => absurd hk (Nat.not_lt_zero k)⟩
    · exact hopened
  · trivial

theorem Inv.wait (inv : u.Inv) (enabled : u.Enabled (.wait a l))
    (meets : u.Meets (.wait a l)) : (u.next (.wait a l)).Inv := by
  obtain ⟨hphase, hended⟩ := enabled
  obtain ⟨hinUse, hnone, hroom⟩ := meets
  have hactive : (u.attempts a).phase ≠ .idle := by simp [hphase]
  have hpassed := inv.passed a
  rw [hphase] at hpassed
  obtain ⟨hopened, hloaded⟩ := hpassed
  have hline (k : ℕ) (hk : k < l + 1) (hlt : k < u.lineCount) : u.Loaded a k := by
    rcases Nat.lt_succ_iff_lt_or_eq.mp hk with hkl | rfl
    · exact hloaded k hkl hlt
    · intro h
      refine ⟨hopened k hlt h, fun i hi => ?_⟩
      obtain ⟨id, m, -, hseg⟩ :=
        (inv.reads k (u.number a k)).loaded (hopened k hlt h) h.2 hroom hended hi
      exact ⟨id, m, hseg⟩
  dsimp only [next]
  rw [if_pos hnone]
  refine inv.step_phase hactive ?_
  unfold following
  split
  · exact fun k hk => hline k (by omega) hk
  · exact ⟨hopened, hline⟩

theorem Inv.next (inv : u.Inv) {event : Event} (enabled : u.Enabled event)
    (meets : u.Meets event) : (u.next event).Inv := by
  cases event with
  | start a n => exact inv.start n enabled
  | openContext a l outcome => exact inv.openContext enabled meets
  | wait a l => exact inv.wait enabled meets
  | proceed a =>
    have hphase : (u.attempts a).phase = .ready := enabled
    have hpassed := inv.passed a
    rw [hphase] at hpassed
    exact inv.step_phase (by simp [hphase]) hpassed
  | finish a =>
    have hphase : (u.attempts a).phase = .decoding := enabled
    exact inv.step_phase (by simp [hphase]) trivial
  | complete a l submit =>
    have hphase : (u.attempts a).phase = .closing l := enabled
    refine inv.step_line (by simp [hphase]) (SharedLine.continues_complete submit)
      ((inv.reads l).complete submit) fun _ => ?_
    unfold following
    split_ifs <;> trivial
  | erase a l =>
    have hphase : (u.attempts a).phase = .erasing l := enabled.1
    refine inv.step_line (by simp [hphase]) SharedLine.continues_erase (inv.reads l).erase
      fun _ => ?_
    unfold following
    split_ifs <;> trivial
  | loaded l number i =>
    have moves : u.Moves (u.next (.loaded l number i)) :=
      ⟨rfl, fun k => lines_setLine (SharedLine.continues_loaded i) k⟩
    refine ⟨reads_setLine inv ((inv.reads l).loaded i),
      fun b hb k hk => (inv.born b hb k hk).moves moves ⟨rfl, rfl⟩, fun b => ?_⟩
    change Passed _ b (u.attempts b).phase
    by_cases hidle : (u.attempts b).phase = .idle
    · rw [hidle]
      trivial
    · exact (inv.passed b).moves (inv.born b hidle) moves ⟨rfl, rfl⟩
  | fail l number i => exact ⟨inv.reads, inv.born, inv.passed⟩

theorem Inv.of_fresh (fresh : u.Fresh) : u.Inv where
  reads l number := by
    rw [SegmentLine.state, (fresh.lines l).contexts]
    exact ContextState.reads_new (fresh.segments l number)
  born a h := absurd (fresh.attempts a) h
  passed a := by
    rw [fresh.attempts a]
    trivial

theorem Run.inv {steps : List (Decoders × Event)} (run : Run u steps)
    (meets : ∀ s ∈ steps, s.1.Meets s.2) : u.Inv := by
  induction run with
  | start fresh => exact .of_fresh fresh
  | next run event enabled ih =>
    exact (ih fun s hs => meets s (List.mem_cons_of_mem _ hs)).next enabled
      (meets _ List.mem_cons_self)

theorem Inv.mapped (inv : u.Inv) (loaded : u.Loaded a l) (inUse : u.InUse a l) : u.Mapped a l := by
  obtain ⟨hinit, hloaded⟩ := loaded inUse
  refine ⟨inUse.1, fun i hi => ?_⟩
  obtain ⟨id, hbuffer, hread⟩ := (inv.reads l (u.number a l)).holds hinit inUse.2 i hi
  obtain ⟨id', m, hseg⟩ := hloaded i hi
  obtain rfl : id' = id := by
    have hread' : ((u.state a l).segments i).ReadFrom id := hread
    rwa [hseg] at hread'
  exact ⟨id', m, hbuffer, hseg⟩

theorem Inv.reflects (inv : u.Inv) {event : Event} (enabled : u.Enabled event)
    (meets : u.Meets event) : u.Reflects event := by
  cases event with
  | openContext a l outcome =>
    exact fun fails => (inv.reads l (u.number a l)).fails_of_enter (snd_enter.symm.trans fails)
  | wait a l => exact fun errors => absurd meets.2.1 errors
  | proceed a =>
    have hphase : (u.attempts a).phase = .ready := enabled
    have hpassed := inv.passed a
    rw [hphase] at hpassed
    exact fun l hl => inv.mapped (hpassed l hl) (meets l hl)
  | start a n | finish a | complete a l submit | erase a l | loaded l number i | fail l number i =>
    trivial

/-- In a run whose attempts only use contexts that have not been closed, and wait for no errors of
earlier ones, all attempts end as their own loads do. -/
theorem reflects_of_meets {steps : List (Decoders × Event)} (run : Run u steps)
    (meets : ∀ s ∈ steps, s.1.Meets s.2) : ∀ s ∈ steps, s.1.Reflects s.2 := by
  induction run with
  | start fresh => simp
  | @next u steps run event enabled ih =>
    rw [List.forall_mem_cons] at meets ⊢
    exact ⟨(run.inv meets.2).reflects enabled meets.1, ih meets.2⟩

end Step

/-- Three lines with two sub segments, in a stream whose segments are stored. -/
def threeLines : Decoders where
  lineCount := 3
  lines _ := SharedLine.pairLine
  attempts _ := ⟨0, fun _ => 0, .idle⟩
  failed _ _ _ := false

theorem fresh_threeLines : threeLines.Fresh where
  lines _ := SharedLine.fresh_pairLine
  segments _ _ _ := id
  attempts _ := rfl
  failed _ _ _ := rfl

theorem reflects_of_meets_proceed : ∃ (u : Decoders) (steps : List (Decoders × Event)),
    Run u steps ∧ steps.head?.map Prod.snd = some (.proceed 0) ∧
      ∀ s ∈ steps, s.1.Reflects s.2 := by
  have opened := (((Run.start fresh_threeLines).next (.start 0 0) rfl).next
    (.openContext 0 0 fun _ => .loading 7) rfl).next (.openContext 0 1 fun _ => .complete 7) rfl
  have waited := ((opened.next (.openContext 0 2 fun _ => .complete 7) rfl).next
    (.loaded 0 0 0) (by decide +kernel)).next (.wait 0 0) (by decide +kernel)
  have run := ((waited.next (.wait 0 1) (by decide +kernel)).next
    (.wait 0 2) (by decide +kernel)).next (.proceed 0) (by decide +kernel)
  exact ⟨_, _, run, rfl, reflects_of_meets run (by decide +kernel)⟩

/-- There is no memory for the first attempt, and the second one throws an exception although its
segments are loaded. -/
theorem not_reflects_of_earlier_error : ¬ ∀ (u : Decoders) (steps : List (Decoders × Event)),
    Run u steps → ∀ s ∈ steps, s.1.Reflects s.2 := by
  intro hall
  have failed := ((Run.start fresh_threeLines).next (.start 0 0) rfl).next
    (.openContext 0 0 fun _ => .noMemory) rfl
  have ended := ((failed.next (.complete 0 0 fun _ => .complete none) (by decide +kernel)).next
    (.complete 0 1 fun _ => .complete none) (by decide +kernel)).next
    (.complete 0 2 fun _ => .complete none) (by decide +kernel)
  have opened := ((ended.next (.start 0 1) (by decide +kernel)).next
    (.openContext 0 0 fun _ => .complete 7) (by decide +kernel)).next
    (.openContext 0 1 fun _ => .complete 7) (by decide +kernel)
  have waiting := (opened.next (.openContext 0 2 fun _ => .complete 7) (by decide +kernel)).next
    (.wait 0 0) (by decide +kernel)
  obtain ⟨l, -, i, -, hfailed⟩ := hall _ _ waiting _ List.mem_cons_self (by decide +kernel)
  exact Bool.false_ne_true hfailed

end Decoders

end Simutrace
