import Simutrace.MemoryEncoder.SegmentLine
import Mathlib.Data.List.Count

/-! # The lifetime of buffer contexts

A decoder uses the contexts of its segment until the sub segment context is
destroyed. A buffer context counts how many of these have ended, and not which
ones, so that segments that are decoded again end it too early.
-/

namespace Simutrace

/-- The use of a context: the segment of the memory stream, and how many contexts with the same
number have been erased before. -/
abbrev ContextUse := StreamSegmentId × ℕ

/-- A line that is used by decoders. The uses that have closed a context still have to erase it.
`created` counts the uses of each context. -/
structure SharedLine where
  line : SegmentLine
  generation : StreamSegmentId → ℕ
  live : List ContextUse
  erasing : List ContextUse
  created : StreamSegmentId → ℕ → ℕ

namespace SharedLine

variable (u : SharedLine)

def Exists (number : StreamSegmentId) (generation : ℕ) : Prop :=
  generation = u.generation number ∧ (u.line.contexts number).isSome

instance (number : StreamSegmentId) (generation : ℕ) : Decidable (u.Exists number generation) :=
  inferInstanceAs (Decidable (_ ∧ _))

def isUse (number : StreamSegmentId) (generation : ℕ) (use : ContextUse) : Bool :=
  u.line.hiddenNumber use.1 = number ∧ use.2 = generation

def liveUses (number : StreamSegmentId) (generation : ℕ) : ℕ :=
  u.live.countP (u.isUse number generation)

def erasingUses (number : StreamSegmentId) (generation : ℕ) : ℕ :=
  u.erasing.countP (u.isUse number generation)

/-- The parts of the lives of sub segment contexts, and the end of a load. -/
inductive Event
  | create (sequenceNumber : StreamSegmentId)
  | enter (use : ContextUse) (outcome : ℕ → OpenOutcome)
  | complete (use : ContextUse) (submit : ℕ → SubmitOutcome)
  | erase (use : ContextUse)
  | loaded (number : StreamSegmentId) (i : ℕ)

def Enabled : Event → Prop
  | .enter use _ | .complete use _ => use ∈ u.live
  | .erase use => use ∈ u.erasing
  | _ => True

instance : (event : Event) → Decidable (u.Enabled event)
  | .enter use _ => inferInstanceAs (Decidable (use ∈ u.live))
  | .complete use _ => inferInstanceAs (Decidable (use ∈ u.live))
  | .erase use => inferInstanceAs (Decidable (use ∈ u.erasing))
  | .create _ => isTrue trivial
  | .loaded _ _ => isTrue trivial

def create (sequenceNumber : StreamSegmentId) : SharedLine :=
  let number := u.line.hiddenNumber sequenceNumber
  let generation := u.generation number
  { u with
    line := (u.line.getBufferContext sequenceNumber).1
    live := (sequenceNumber, generation) :: u.live
    created := Function.update u.created number
      (Function.update (u.created number) generation (u.created number generation + 1)) }

/-- The first part of `_closeBufferContext`. -/
def complete (use : ContextUse) (submit : ℕ → SubmitOutcome) : SharedLine :=
  let number := u.line.hiddenNumber use.1
  let completed := (u.line.state number).completeSubSegment u.line.subSegmentCount
    u.line.streamCount (use.1 % u.line.subSegmentCount) true submit
  if u.Exists number use.2 then
    { u with
      line := u.line.setState number completed.1
      live := u.live.erase use
      erasing := if completed.2 then use :: u.erasing else u.erasing }
  else { u with live := u.live.erase use }

/-- The second part of `_closeBufferContext`, under the lock of the encoder. -/
def erase (use : ContextUse) : SharedLine :=
  let number := u.line.hiddenNumber use.1
  if u.Exists number use.2 then
    { u with
      line := u.line.erase number (u.line.state number)
      generation := Function.update u.generation number (u.generation number + 1)
      erasing := u.erasing.erase use }
  else { u with erasing := u.erasing.erase use }

/-- What happens to a context that has been erased is not defined; nothing changes here. -/
def next : Event → SharedLine
  | .create sequenceNumber => u.create sequenceNumber
  | .enter use outcome =>
    if u.Exists (u.line.hiddenNumber use.1) use.2 then
      { u with line := (u.line.enter use.1 true outcome).1 }
    else u
  | .complete use submit => u.complete use submit
  | .erase use => u.erase use
  | .loaded number i => { u with line := u.line.next (.loaded number i) }

def Closes (use : ContextUse) : Prop :=
  (u.line.state (u.line.hiddenNumber use.1)).context.usedBuffers + 1 = u.line.subSegmentCount

/-- A context is closed and erased only when no other use of it is live, and an erased one is not
used any more. -/
def Safe : Event → Prop
  | .create _ | .loaded _ _ => True
  | .enter use _ => u.Exists (u.line.hiddenNumber use.1) use.2
  | .complete use _ =>
    u.Exists (u.line.hiddenNumber use.1) use.2 ∧
      (u.Closes use → (u.live.erase use).countP (u.isUse (u.line.hiddenNumber use.1) use.2) = 0)
  | .erase use =>
    u.Exists (u.line.hiddenNumber use.1) use.2 ∧
      u.liveUses (u.line.hiddenNumber use.1) use.2 = 0

instance (use : ContextUse) : Decidable (u.Closes use) := inferInstanceAs (Decidable (_ = _))

instance : (event : Event) → Decidable (u.Safe event)
  | .create _ | .loaded _ _ => isTrue trivial
  | .enter _ _ => inferInstanceAs (Decidable (u.Exists _ _))
  | .complete _ _ => inferInstanceAs (Decidable (_ ∧ (u.Closes _ → _)))
  | .erase _ => inferInstanceAs (Decidable (_ ∧ _))

/-- A context has been used at most as often as it has sub segments when it is closed, and the uses
that begin until it is erased have ended by then. -/
def Fits : Event → Prop
  | .create _ | .enter _ _ | .loaded _ _ => True
  | .complete use _ =>
    u.Closes use → u.created (u.line.hiddenNumber use.1) use.2 ≤ u.line.subSegmentCount
  | .erase use =>
    u.created (u.line.hiddenNumber use.1) use.2 ≤
      (u.line.state (u.line.hiddenNumber use.1)).context.usedBuffers

instance : (event : Event) → Decidable (u.Fits event)
  | .create _ | .enter _ _ | .loaded _ _ => isTrue trivial
  | .complete _ _ => inferInstanceAs (Decidable (u.Closes _ → _))
  | .erase _ => inferInstanceAs (Decidable (_ ≤ _))

structure Fresh : Prop where
  contexts : ∀ number, u.line.contexts number = none
  live : u.live = []
  erasing : u.erasing = []
  created : ∀ number generation, u.created number generation = 0

/-- The lines that are reached, with the steps so far. -/
inductive Run : SharedLine → List (SharedLine × Event) → Prop
  | start {u : SharedLine} (fresh : u.Fresh) : Run u []
  | next {u : SharedLine} {steps : List (SharedLine × Event)} (run : Run u steps) (event : Event)
      (enabled : u.Enabled event) : Run (u.next event) ((u, event) :: steps)

/-- As long as all steps are safe, the uses of a context that have not ended are the live ones, and
a closed context is about to be erased by one use. -/
structure Inv : Prop where
  counted : ∀ number, (u.line.state number).context.usedBuffers +
    u.liveUses number (u.generation number) = u.created number (u.generation number)
  closed : ∀ number, u.erasingUses number (u.generation number) =
    if u.line.subSegmentCount ≤ (u.line.state number).context.usedBuffers then 1 else 0
  live_exists : ∀ use ∈ u.live, u.Exists (u.line.hiddenNumber use.1) use.2
  erasing_exists : ∀ use ∈ u.erasing, u.Exists (u.line.hiddenNumber use.1) use.2
  unused : ∀ number generation, u.generation number < generation →
    u.created number generation = 0

variable {u} {use : ContextUse} {number : StreamSegmentId} {generation : ℕ}

theorem isUse_iff : u.isUse number generation use = true ↔
    u.line.hiddenNumber use.1 = number ∧ use.2 = generation := by
  simp [isUse]

theorem isUse_self : u.isUse (u.line.hiddenNumber use.1) use.2 use = true :=
  isUse_iff.mpr ⟨rfl, rfl⟩

theorem usedBuffers_of_none (h : u.line.contexts number = none) :
    (u.line.state number).context.usedBuffers = 0 := by
  simp [SegmentLine.state, h, BufferContext.new]

theorem Inv.of_fresh (fresh : u.Fresh) : u.Inv where
  counted number := by
    rw [usedBuffers_of_none (fresh.contexts number), fresh.created]
    simp [liveUses, fresh.live]
  closed number := by
    rw [usedBuffers_of_none (fresh.contexts number),
      if_neg (Nat.not_le.mpr u.line.subSegmentCount_pos)]
    simp [erasingUses, fresh.erasing]
  live_exists use h := by
    rw [fresh.live] at h
    cases h
  erasing_exists use h := by
    rw [fresh.erasing] at h
    cases h
  unused number generation _ := fresh.created number generation

theorem Inv.live (inv : u.Inv) (h : use ∈ u.live) :
    use.2 = u.generation (u.line.hiddenNumber use.1) ∧
      0 < u.liveUses (u.line.hiddenNumber use.1) use.2 :=
  ⟨(inv.live_exists use h).1, List.countP_pos_iff.mpr ⟨use, h, isUse_self⟩⟩

theorem Inv.erasing (inv : u.Inv) (h : use ∈ u.erasing) :
    u.line.subSegmentCount ≤
        (u.line.state (u.line.hiddenNumber use.1)).context.usedBuffers ∧
      u.erasingUses (u.line.hiddenNumber use.1) use.2 = 1 := by
  have hpos : 0 < u.erasingUses (u.line.hiddenNumber use.1) use.2 :=
    List.countP_pos_iff.mpr ⟨use, h, isUse_self⟩
  have hclosed := inv.closed (u.line.hiddenNumber use.1)
  rw [← (inv.erasing_exists use h).1] at hclosed
  split_ifs at hclosed with hle
  · exact ⟨hle, hclosed⟩
  · omega

theorem Inv.safe_iff (inv : u.Inv) {event : Event} (enabled : u.Enabled event) :
    u.Safe event ↔ u.Fits event := by
  cases event with
  | create sequenceNumber | loaded number i => exact Iff.rfl
  | enter use outcome => exact iff_of_true (inv.live_exists use enabled) trivial
  | complete use submit =>
    obtain ⟨hgen, hpos⟩ := inv.live enabled
    have hcounted := inv.counted (u.line.hiddenNumber use.1)
    rw [← hgen] at hcounted
    have herase : (u.live.erase use).countP (u.isUse (u.line.hiddenNumber use.1) use.2) =
        u.liveUses (u.line.hiddenNumber use.1) use.2 - 1 := by
      rw [List.countP_erase, if_pos ⟨enabled, isUse_self⟩, liveUses]
    simp only [Safe, Fits, Closes, inv.live_exists use enabled, true_and, herase]
    refine forall_congr' fun hcloses => ?_
    omega
  | erase use =>
    have hcounted := inv.counted (u.line.hiddenNumber use.1)
    rw [← (inv.erasing_exists use enabled).1] at hcounted
    simp only [Safe, Fits, inv.erasing_exists use enabled, true_and]
    omega

theorem Inv.of_line {line : SegmentLine} (inv : u.Inv)
    (counts : line.subSegmentCount = u.line.subSegmentCount)
    (used : ∀ number, (line.state number).context.usedBuffers =
      (u.line.state number).context.usedBuffers)
    (contexts : ∀ number, (line.contexts number).isSome = (u.line.contexts number).isSome) :
    Inv { u with line := line } := by
  have hnumber (n : StreamSegmentId) : line.hiddenNumber n = u.line.hiddenNumber n := by
    rw [SegmentLine.hiddenNumber, counts, SegmentLine.hiddenNumber]
  have huse (number : StreamSegmentId) (generation : ℕ) :
      isUse { u with line := line } number generation = u.isUse number generation := by
    funext use
    simp only [isUse, hnumber]
  have hexists (use : ContextUse) (h : u.Exists (u.line.hiddenNumber use.1) use.2) :
      Exists { u with line := line } (line.hiddenNumber use.1) use.2 := by
    rw [hnumber]
    exact ⟨h.1, (contexts _).trans h.2⟩
  refine ⟨fun number => ?_, fun number => ?_, fun use h => hexists use (inv.live_exists use h),
    fun use h => hexists use (inv.erasing_exists use h), inv.unused⟩
  · rw [liveUses, huse]
    exact (congrArg (· + _) (used number)).trans (inv.counted number)
  · rw [erasingUses, huse]
    simp only [used, counts]
    exact inv.closed number

theorem Inv.enter (inv : u.Inv) (outcome : ℕ → OpenOutcome)
    (h : u.Exists (u.line.hiddenNumber use.1) use.2) :
    (u.next (.enter use outcome)).Inv := by
  simp only [next, if_pos h, SegmentLine.fst_enter]
  refine inv.of_line rfl (fun number => ?_) fun number => ?_
  all_goals by_cases hn : number = u.line.hiddenNumber use.1
  · subst hn
    rw [SegmentLine.state_setState, ContextState.usedBuffers_enter]
  · rw [SegmentLine.state_setState_of_ne hn]
  · subst hn
    rw [SegmentLine.contexts_setState, h.2]
    rfl
  · rw [SegmentLine.contexts_setState_of_ne hn]

theorem Inv.loaded (inv : u.Inv) (number : StreamSegmentId) (i : ℕ) :
    (u.next (.loaded number i)).Inv := by
  refine inv.of_line rfl (fun n => ?_) fun n => ?_
  all_goals by_cases hn : n = number
  · subst hn
    simp only [SegmentLine.state, SegmentLine.next, Function.update_self]
    cases u.line.contexts n <;> rfl
  · simp [SegmentLine.state, SegmentLine.next, hn, SegmentLine.setSegment]
  · subst hn
    simp [SegmentLine.next]
  · simp [SegmentLine.next, hn, SegmentLine.setSegment]

theorem Inv.create (inv : u.Inv) (n : StreamSegmentId) : (u.create n).Inv := by
  have hstate (number : StreamSegmentId) :
      (u.create n).line.state number = u.line.state number := by
    by_cases hn : number = u.line.hiddenNumber n
    · subst hn
      exact SegmentLine.state_setState
    · exact SegmentLine.state_setState_of_ne hn
  have hexists {use : ContextUse} (h : u.Exists (u.line.hiddenNumber use.1) use.2) :
      (u.create n).Exists (u.line.hiddenNumber use.1) use.2 := by
    refine ⟨h.1, ?_⟩
    by_cases hn : u.line.hiddenNumber use.1 = u.line.hiddenNumber n
    · rw [hn]
      exact congrArg Option.isSome SegmentLine.contexts_setState
    · exact (congrArg Option.isSome (SegmentLine.contexts_setState_of_ne hn)).trans h.2
  refine ⟨fun number => ?_, fun number => ?_, fun use h => ?_,
    fun use h => hexists (inv.erasing_exists use h), fun number generation hlt => ?_⟩
  · have hcounted := inv.counted number
    have hlive : (u.create n).liveUses number (u.generation number) =
        u.liveUses number (u.generation number) +
          if u.isUse number (u.generation number) (n, u.generation (u.line.hiddenNumber n)) then 1
          else 0 := List.countP_cons
    rw [hstate]
    change _ + (u.create n).liveUses number (u.generation number) =
      (u.create n).created number (u.generation number)
    rw [hlive]
    by_cases hn : number = u.line.hiddenNumber n
    · subst hn
      have huse : u.isUse (u.line.hiddenNumber n) (u.generation (u.line.hiddenNumber n))
          (n, u.generation (u.line.hiddenNumber n)) = true := isUse_iff.mpr ⟨rfl, rfl⟩
      simp only [huse, if_true, SharedLine.create, Function.update_self]
      omega
    · have huse : ¬ u.isUse number (u.generation number)
          (n, u.generation (u.line.hiddenNumber n)) = true :=
        fun h => hn (isUse_iff.mp h).1.symm
      simp only [if_neg huse, SharedLine.create, Function.update_of_ne hn]
      omega
  · rw [hstate]
    exact inv.closed number
  · rcases List.mem_cons.mp h with rfl | h
    · exact ⟨rfl, congrArg Option.isSome SegmentLine.contexts_setState⟩
    · exact hexists (inv.live_exists use h)
  · have hunused := inv.unused number generation hlt
    change u.generation number < generation at hlt
    by_cases hn : number = u.line.hiddenNumber n
    · subst hn
      simp only [SharedLine.create, Function.update_self]
      rw [Function.update_of_ne (by omega)]
      exact hunused
    · simp only [SharedLine.create, Function.update_of_ne hn]
      exact hunused

theorem Exists.setState {c : ContextState} {n : StreamSegmentId}
    (h : u.Exists number generation) :
    Exists { u with line := u.line.setState n c } number generation := by
  refine ⟨h.1, ?_⟩
  by_cases hn : number = n
  · rw [hn]
    exact congrArg Option.isSome SegmentLine.contexts_setState
  · exact (congrArg Option.isSome (SegmentLine.contexts_setState_of_ne hn)).trans h.2

theorem Inv.complete (inv : u.Inv) (submit : ℕ → SubmitOutcome) (live : use ∈ u.live) :
    (u.complete use submit).Inv := by
  have hexists := inv.live_exists use live
  obtain ⟨hgen, hpos⟩ := inv.live live
  have hused := ContextState.completeSubSegment_fst_usedBuffers
    (c := u.line.state (u.line.hiddenNumber use.1)) u.line.subSegmentCount u.line.streamCount
    (use.1 % u.line.subSegmentCount) true submit
  have hlast := ContextState.completeSubSegment_snd
    (c := u.line.state (u.line.hiddenNumber use.1)) u.line.subSegmentCount_pos u.line.streamCount
    (use.1 % u.line.subSegmentCount) true submit
  unfold SharedLine.complete
  dsimp only
  rw [if_pos hexists]
  generalize (u.line.state (u.line.hiddenNumber use.1)).completeSubSegment u.line.subSegmentCount
    u.line.streamCount (use.1 % u.line.subSegmentCount) true submit = completed at hused hlast
  refine ⟨fun number => ?_, fun number => ?_, fun use' h => ?_, fun use' h => ?_, inv.unused⟩
  · have hcounted := inv.counted number
    have hlive : (u.live.erase use).countP (u.isUse number (u.generation number)) =
        u.liveUses number (u.generation number) -
          if use ∈ u.live ∧ u.isUse number (u.generation number) use then 1 else 0 :=
      List.countP_erase ..
    change ((u.line.setState _ _).state number).context.usedBuffers +
      (u.live.erase use).countP (u.isUse number (u.generation number)) =
        u.created number (u.generation number)
    rw [hlive]
    by_cases hn : number = u.line.hiddenNumber use.1
    · subst hn
      rw [if_pos ⟨live, isUse_iff.mpr ⟨rfl, hgen⟩⟩, SegmentLine.state_setState, hused]
      rw [hgen] at hpos
      omega
    · rw [if_neg fun h => hn (isUse_iff.mp h.2).1.symm, SegmentLine.state_setState_of_ne hn]
      omega
  · have hclosed := inv.closed number
    have hpos := u.line.subSegmentCount_pos
    change (if completed.2 then use :: u.erasing else u.erasing).countP
      (u.isUse number (u.generation number)) = if u.line.subSegmentCount ≤
        ((u.line.setState _ _).state number).context.usedBuffers then 1 else 0
    by_cases hn : number = u.line.hiddenNumber use.1
    · subst hn
      rw [SegmentLine.state_setState, hused]
      unfold erasingUses at hclosed
      by_cases hfull : completed.2 = true
      · have hused := hlast.mp hfull
        rw [if_neg (by omega)] at hclosed
        rw [if_pos hfull, List.countP_cons_of_pos (isUse_iff.mpr ⟨rfl, hgen⟩), hclosed,
          if_pos (by omega)]
      · have hused : ¬ _ := mt hlast.mpr hfull
        rw [if_neg hfull, hclosed]
        exact if_congr (by omega) rfl rfl
    · have huse : ¬ u.isUse number (u.generation number) use = true :=
        fun h => hn (isUse_iff.mp h).1.symm
      rw [SegmentLine.state_setState_of_ne hn, ← hclosed]
      split
      · exact List.countP_cons_of_neg huse
      · rfl
  · exact (inv.live_exists use' (List.mem_of_mem_erase h)).setState
  · dsimp only at h
    split at h
    · rcases List.mem_cons.mp h with rfl | h
      · exact hexists.setState
      · exact (inv.erasing_exists use' h).setState
    · exact (inv.erasing_exists use' h).setState

/-- A context that is about to be erased has no other user. -/
theorem Inv.ne_of_erasing (inv : u.Inv) (erasing : use ∈ u.erasing) {use' : ContextUse}
    (h : use' ∈ u.erasing.erase use) :
    u.line.hiddenNumber use'.1 ≠ u.line.hiddenNumber use.1 := by
  have hone := (inv.erasing erasing).2
  have hgen := (inv.erasing_exists use erasing).1
  intro hn
  have hcount : (u.erasing.erase use).countP (u.isUse (u.line.hiddenNumber use.1) use.2) = 0 := by
    rw [List.countP_erase, if_pos ⟨erasing, isUse_self⟩]
    unfold erasingUses at hone
    omega
  have hexists := inv.erasing_exists use' (List.mem_of_mem_erase h)
  exact List.countP_eq_zero.mp hcount use' h
    (isUse_iff.mpr ⟨hn, hexists.1.trans ((congrArg _ hn).trans hgen.symm)⟩)

theorem Inv.ne_of_live (inv : u.Inv) (erasing : use ∈ u.erasing)
    (ended : u.liveUses (u.line.hiddenNumber use.1) use.2 = 0) {use' : ContextUse}
    (h : use' ∈ u.live) : u.line.hiddenNumber use'.1 ≠ u.line.hiddenNumber use.1 := by
  have hgen := (inv.erasing_exists use erasing).1
  intro hn
  exact List.countP_eq_zero.mp ended use' h
    (isUse_iff.mpr ⟨hn, (inv.live_exists use' h).1.trans ((congrArg _ hn).trans hgen.symm)⟩)

theorem Inv.erase (inv : u.Inv) (erasing : use ∈ u.erasing)
    (ended : u.liveUses (u.line.hiddenNumber use.1) use.2 = 0) : (u.erase use).Inv := by
  have hgone {use' : ContextUse} (hexists : u.Exists (u.line.hiddenNumber use'.1) use'.2)
      (hne : u.line.hiddenNumber use'.1 ≠ u.line.hiddenNumber use.1) :
      Exists { u with
        line := u.line.erase (u.line.hiddenNumber use.1)
          (u.line.state (u.line.hiddenNumber use.1))
        generation := Function.update u.generation (u.line.hiddenNumber use.1)
          (u.generation (u.line.hiddenNumber use.1) + 1) }
        (u.line.hiddenNumber use'.1) use'.2 := by
    refine ⟨?_, (congrArg Option.isSome (SegmentLine.contexts_erase_of_ne hne)).trans hexists.2⟩
    exact hexists.1.trans (Function.update_of_ne hne ..).symm
  have hother {use' : ContextUse} (h : use' ∈ u.erasing.erase use) := inv.ne_of_erasing erasing h
  have hlive {use' : ContextUse} (h : use' ∈ u.live) := inv.ne_of_live erasing ended h
  unfold SharedLine.erase
  dsimp only
  rw [if_pos (inv.erasing_exists use erasing)]
  refine ⟨fun number => ?_, fun number => ?_,
    fun use' h => hgone (inv.live_exists use' h) (hlive h),
    fun use' h => hgone (inv.erasing_exists use' (List.mem_of_mem_erase h)) (hother h),
    fun number generation hlt => ?_⟩
  · change ((u.line.erase _ _).state number).context.usedBuffers +
      u.liveUses number (Function.update u.generation _ _ number) =
        u.created number (Function.update u.generation _ _ number)
    by_cases hn : number = u.line.hiddenNumber use.1
    · subst hn
      have hnone : u.liveUses (u.line.hiddenNumber use.1)
          (u.generation (u.line.hiddenNumber use.1) + 1) = 0 :=
        List.countP_eq_zero.mpr fun use' h huse => hlive h (isUse_iff.mp huse).1
      rw [Function.update_self, SegmentLine.state_erase, hnone,
        inv.unused _ _ (Nat.lt_succ_self _)]
      rfl
    · rw [Function.update_of_ne hn, SegmentLine.state_erase_of_ne hn]
      exact inv.counted number
  · change (u.erasing.erase use).countP
      (u.isUse number (Function.update u.generation _ _ number)) = if u.line.subSegmentCount ≤
        ((u.line.erase _ _).state number).context.usedBuffers then 1 else 0
    by_cases hn : number = u.line.hiddenNumber use.1
    · subst hn
      rw [SegmentLine.state_erase]
      refine Eq.trans ?_ (if_neg (Nat.not_le.mpr u.line.subSegmentCount_pos)).symm
      exact List.countP_eq_zero.mpr fun use' h huse => hother h (isUse_iff.mp huse).1
    · have huse : ¬ u.isUse number (u.generation number) use = true :=
        fun h => hn (isUse_iff.mp h).1.symm
      rw [Function.update_of_ne hn, SegmentLine.state_erase_of_ne hn, List.countP_erase,
        if_neg fun h => huse h.2]
      exact inv.closed number
  · dsimp only at hlt ⊢
    by_cases hn : number = u.line.hiddenNumber use.1
    · subst hn
      rw [Function.update_self] at hlt
      exact inv.unused _ _ (by omega)
    · rw [Function.update_of_ne hn] at hlt
      exact inv.unused _ _ hlt

/-- Without a step in between, both parts make up `_closeBufferContext`. -/
theorem line_complete_erase (submit : ℕ → SubmitOutcome)
    (h : u.Exists (u.line.hiddenNumber use.1) use.2) :
    (if u.Closes use then (u.complete use submit).erase use else u.complete use submit).line =
      u.line.closeBufferContext use.1 true false submit := by
  have hlast := ContextState.completeSubSegment_snd
    (c := u.line.state (u.line.hiddenNumber use.1)) u.line.subSegmentCount_pos u.line.streamCount
    (use.1 % u.line.subSegmentCount) true submit
  have hcomplete : (u.complete use submit).line = u.line.setState (u.line.hiddenNumber use.1)
      ((u.line.state (u.line.hiddenNumber use.1)).completeSubSegment u.line.subSegmentCount
        u.line.streamCount (use.1 % u.line.subSegmentCount) true submit).1 := by
    simp only [SharedLine.complete, if_pos h]
  have hexists : (u.complete use submit).Exists (u.line.hiddenNumber use.1) use.2 := by
    refine ⟨?_, ?_⟩
    · simpa only [SharedLine.complete, if_pos h] using h.1
    · rw [hcomplete, SegmentLine.contexts_setState]
      rfl
  by_cases hcloses : u.Closes use
  · have herase : ((u.complete use submit).erase use).line = (u.complete use submit).line.erase
        ((u.complete use submit).line.hiddenNumber use.1)
        ((u.complete use submit).line.state ((u.complete use submit).line.hiddenNumber use.1)) := by
      have hnumber : (u.complete use submit).line.hiddenNumber use.1 =
          u.line.hiddenNumber use.1 := by rw [hcomplete, SegmentLine.hiddenNumber_setState]
      simp only [SharedLine.erase, hnumber, if_pos hexists]
    rw [if_pos hcloses, herase, hcomplete, SegmentLine.hiddenNumber_setState,
      SegmentLine.state_setState, SegmentLine.erase_setState]
    unfold SegmentLine.closeBufferContext
    dsimp only
    rw [hlast.mpr hcloses]
    rfl
  · rw [if_neg hcloses, hcomplete]
    unfold SegmentLine.closeBufferContext
    dsimp only
    rw [Bool.eq_false_iff.mpr (mt hlast.mp hcloses)]
    rfl

theorem Inv.next (inv : u.Inv) {event : Event} (enabled : u.Enabled event) (safe : u.Safe event) :
    (u.next event).Inv := by
  cases event with
  | create n => exact inv.create n
  | enter use outcome => exact inv.enter outcome safe
  | complete use submit => exact inv.complete submit enabled
  | erase use => exact inv.erase enabled safe.2
  | loaded number i => exact inv.loaded number i

theorem Run.inv {steps : List (SharedLine × Event)} (run : Run u steps)
    (safe : ∀ s ∈ steps, s.1.Safe s.2) : u.Inv := by
  induction run with
  | start fresh => exact .of_fresh fresh
  | next run event enabled ih =>
    exact (ih fun s hs => safe s (List.mem_cons_of_mem _ hs)).next enabled
      (safe _ List.mem_cons_self)

/-- All steps are safe if and only if each context fits its uses: at most as many as it has sub
segments when it is closed, and none that has begun since then is left when it is erased. -/
theorem safe_iff_fits {steps : List (SharedLine × Event)} (run : Run u steps) :
    (∀ s ∈ steps, s.1.Safe s.2) ↔ ∀ s ∈ steps, s.1.Fits s.2 := by
  induction run with
  | start fresh => simp
  | @next u steps run event enabled ih =>
    rw [List.forall_mem_cons, List.forall_mem_cons, ← ih]
    exact and_congr_left fun safe => (run.inv safe).safe_iff enabled

/-- A line with two sub segments, in a stream whose first segment is stored. -/
def pairLine : SharedLine where
  line := ⟨2, 1, fun _ _ => .stored, fun _ => none, Nat.zero_lt_two, Nat.zero_lt_one⟩
  generation := fun _ => 0
  live := []
  erasing := []
  created := fun _ _ => 0

theorem fresh_pairLine : pairLine.Fresh := ⟨fun _ => rfl, rfl, rfl, fun _ _ => rfl⟩

def follow : List Event → SharedLine × List (SharedLine × Event) →
    Option (SharedLine × List (SharedLine × Event))
  | [], run => some run
  | event :: events, (u, steps) =>
    if u.Enabled event then follow events (u.next event, (u, event) :: steps) else none

theorem Run.follow {events : List Event} {u' : SharedLine}
    {steps steps' : List (SharedLine × Event)}
    (run : Run u steps) (h : follow events (u, steps) = some (u', steps')) : Run u' steps' := by
  induction events generalizing u steps with
  | nil =>
    obtain ⟨rfl, rfl⟩ := Prod.mk.inj (Option.some.inj h)
    exact run
  | cons event events ih =>
    obtain ⟨enabled, h⟩ := Option.ite_none_right_eq_some.mp h
    exact ih (run.next event enabled) h

/-- The run of steps that are all enabled. -/
def replay (u : SharedLine) (events : List Event) : SharedLine × List (SharedLine × Event) :=
  (follow events (u, [])).getD (u, [])

theorem Fresh.run_replay {events : List Event} (fresh : u.Fresh)
    (h : (SharedLine.follow events (u, [])).isSome = true) :
    Run (u.replay events).1 (u.replay events).2 :=
  (Run.start fresh).follow (Option.getD_of_ne_none (Option.isSome_iff_ne_none.mp h) _).symm

/-- Two segments are decoded at the same time, and the context is erased. -/
def overlapped : SharedLine × List (SharedLine × Event) :=
  pairLine.replay [.create 0, .enter (0, 0) fun _ => .complete 7, .create 1,
    .enter (1, 0) fun _ => .complete 7, .complete (0, 0) fun _ => .complete none,
    .complete (1, 0) fun _ => .complete none, .erase (1, 0)]

theorem run_overlapped : Run overlapped.1 overlapped.2 :=
  fresh_pairLine.run_replay (by decide +kernel)

theorem safe_overlapped : overlapped.1.line.contexts 0 = none ∧
    ∀ s ∈ overlapped.2, s.1.Safe s.2 :=
  ⟨by decide +kernel, (safe_iff_fits run_overlapped).mpr (by decide +kernel)⟩

/-- The first segment is decoded twice, and the second one while the context is closed. -/
theorem not_safe_of_reload : ¬ ∀ (u : SharedLine) (steps : List (SharedLine × Event)),
    Run u steps → ∀ s ∈ steps, s.1.Safe s.2 := by
  intro hall
  have first := (((Run.start fresh_pairLine).next (.create 0) trivial).next
    (.enter (0, 0) fun _ => .complete 7) (by decide +kernel)).next
    (.complete (0, 0) fun _ => .complete none) (by decide +kernel)
  have again := ((first.next (.create 0) trivial).next
    (.enter (0, 0) fun _ => .complete 7) (by decide)).next (.create 1) trivial
  have both := (again.next (.enter (1, 0) fun _ => .complete 7) (by decide +kernel)).next
    (.complete (0, 0) fun _ => .complete none) (by decide +kernel)
  exact absurd (hall _ _ both _ List.mem_cons_self) (by decide +kernel)

end SharedLine

end Simutrace
