import Simutrace.VariableData.Acceptance
import Simutrace.VariableData.LengthQuery

/-! # Chains of segments

Payloads that are written one after the other are in a chain of segments. A segment
counts the payloads that begin in it, so that one in the middle of a payload counts
none. Whether it is accepted depends on where its neighbours' payloads begin.
-/

namespace Simutrace

/-- A payload and the memory of the segments that are appended for it. -/
structure VariableWrite where
  appended : List Storage
  source : List UInt8

def WriteHandle.appended (sequenceNumber : ℕ) (content : Storage) : WriteHandle :=
  ⟨sequenceNumber, ⟨content, 0, 0⟩, 0⟩

/-- The segment is not before the one of the handle. It counts an entry if one begins in it, or if
the handle has counted one before. -/
def WriteHandle.Counts (handle : WriteHandle) (begun : List ℕ) (s : ℕ × DataSegment) : Prop :=
  handle.sequenceNumber ≤ s.1 ∧ s.2.entryCount ≤ s.2.rawEntryCount ∧
    (0 < s.2.entryCount ↔
      s.1 ∈ begun ∨ s.1 = handle.sequenceNumber ∧ 0 < handle.segment.entryCount)

namespace VariableLayout

/-- What `StWriteVariableData` does with a payload. -/
def outcome (layout : VariableLayout) (w : WriteHandle × VariableWrite) : WriteOutcome :=
  layout.stWriteVariableData w.2.appended w.1 w.2.source

/-- The segments that are submitted when payloads are written and the handle is closed. An append
that fails ends the chain. -/
def submittedChain (layout : VariableLayout) :
    List VariableWrite → WriteHandle → List (ℕ × DataSegment)
  | [], handle => [(handle.sequenceNumber, handle.segment)]
  | write :: writes, handle =>
    let outcome := layout.stWriteVariableData write.appended handle write.source
    outcome.submitted ++
      match outcome.handle with
      | none => []
      | some handle => submittedChain layout writes handle

/-- The segments that the payloads begin in. -/
def begun (layout : VariableLayout) : List VariableWrite → WriteHandle → List ℕ
  | [], _ => []
  | write :: writes, handle =>
    (if write.source = [] then [] else [(layout.start handle).1]) ++
      match (layout.stWriteVariableData write.appended handle write.source).handle with
      | none => []
      | some handle => begun layout writes handle

variable {layout : VariableLayout} {handle : WriteHandle} {source : List UInt8}
  {appended : List Storage} {submitted : List (ℕ × DataSegment)} {reference saved : ℕ}
  {begun begun' : List ℕ} {s : ℕ × DataSegment}

theorem submittedChain_cons {write : VariableWrite} {writes : List VariableWrite}
    {next : WriteHandle} (h : (layout.outcome (handle, write)).handle = some next) :
    layout.submittedChain (write :: writes) handle =
      (layout.outcome (handle, write)).submitted ++ layout.submittedChain writes next := by
  unfold outcome at h ⊢
  rw [submittedChain, h]

theorem start_bounds (layout : VariableLayout) (handle : WriteHandle) :
    handle.sequenceNumber ≤ (layout.start handle).1 ∧
      (layout.start handle).1 ≤ handle.sequenceNumber + 1 := by
  unfold start
  split <;> omega

theorem counts_writtenSegment {dest : Storage} {m : ℕ}
    (counted : handle.segment.entryCount ≤ handle.segment.rawEntryCount)
    (room : handle.segment.rawEntryCount + (m + 1) ≤ layout.blocks)
    (mem : handle.sequenceNumber ∈ begun ↔ source.length = saved) :
    handle.Counts begun
      (handle.sequenceNumber, writtenSegment saved handle source dest (m + 1)) := by
  have hlt := layout.blocks_lt
  have hraw : (writtenSegment saved handle source dest (m + 1)).rawEntryCount =
      handle.segment.rawEntryCount + (m + 1) := Nat.mod_eq_of_lt (by omega)
  have hentry : (writtenSegment saved handle source dest (m + 1)).entryCount =
      if source.length = saved then handle.segment.entryCount + 1
      else handle.segment.entryCount := rfl
  refine ⟨le_rfl, ?_, ?_⟩
  · rw [hraw, hentry]
    split <;> omega
  · rw [hentry, mem]
    by_cases hsaved : source.length = saved
    · simp [hsaved]
    · simp [hsaved]

theorem counts_of_nextHandle {content : Storage}
    (h : (nextHandle handle content).Counts begun' s)
    (mem : ∀ n, handle.sequenceNumber < n → (n ∈ begun ↔ n ∈ begun')) :
    handle.Counts begun s := by
  obtain ⟨hle, hcounted, hstarts⟩ := h
  have hlt : handle.sequenceNumber < s.1 := hle
  have hzero : ¬ 0 < (nextHandle handle content).segment.entryCount := lt_irrefl 0
  refine ⟨hlt.le, hcounted, hstarts.trans ?_⟩
  rw [mem _ hlt]
  simp only [hzero, and_false, or_false, hlt.ne', false_and]

structure Continued (layout : VariableLayout) (handle : WriteHandle) (begun : List ℕ)
    (outcome : WriteOutcome) (submitted : List (ℕ × DataSegment)) : Prop where
  counts : ∀ s ∈ outcome.submitted, s ∈ submitted ∨ handle.Counts begun s
  handle : ∀ next ∈ outcome.handle, next.Valid layout ∧
    handle.Counts begun (next.sequenceNumber, next.segment) ∧
    (∀ s ∈ outcome.submitted, s ∈ submitted ∨ s.1 < next.sequenceNumber) ∧
    ∀ n ∈ begun, n ≤ next.sequenceNumber

theorem Continued.of_nextHandle {outcome : WriteOutcome} {content : Storage}
    {segment : DataSegment}
    (h : Continued layout (nextHandle handle content) begun' outcome
      (submitted ++ [(handle.sequenceNumber, segment)]))
    (counts : handle.Counts begun (handle.sequenceNumber, segment))
    (mem : ∀ n, handle.sequenceNumber < n → (n ∈ begun ↔ n ∈ begun')) :
    Continued layout handle begun outcome submitted := by
  constructor
  · intro s hs
    rcases h.counts s hs with hs | hs
    · rcases List.mem_append.mp hs with hs | hs
      · exact .inl hs
      · rw [List.mem_singleton.mp hs]
        exact .inr counts
    · exact .inr (counts_of_nextHandle hs mem)
  · intro next hnext
    obtain ⟨hvalid, hcounts, hbefore, hbegun⟩ := h.handle next hnext
    have hlt : handle.sequenceNumber < next.sequenceNumber := hcounts.1
    refine ⟨hvalid, counts_of_nextHandle hcounts mem, fun s hs => ?_, fun n hn => ?_⟩
    · rcases hbefore s hs with hs | hs
      · rcases List.mem_append.mp hs with hs | hs
        · exact .inl hs
        · rw [List.mem_singleton.mp hs]
          exact .inr hlt
      · exact .inr hs
    · by_contra hle
      have hn' := (mem n (by omega)).mp hn
      exact hle (hbegun n hn')

theorem valid_written {dest : Storage} {m : ℕ} (valid : handle.Valid layout)
    (room : handle.segment.rawEntryCount + (m + 1) ≤ layout.blocks) :
    WriteHandle.Valid layout ⟨handle.sequenceNumber,
      writtenSegment saved handle source dest (m + 1),
      handle.entry + (m + 1) * layout.sizeHint.val⟩ := by
  have hlt := layout.blocks_lt
  have hraw : (writtenSegment saved handle source dest (m + 1)).rawEntryCount =
      handle.segment.rawEntryCount + (m + 1) := Nat.mod_eq_of_lt (by omega)
  constructor
  · dsimp only
    rw [hraw, Nat.add_mul _ (m + 1), valid.entry]
  · exact hraw ▸ room

theorem mem_begun_of_room (room : handle.segment.rawEntryCount < layout.blocks) (n : ℕ) :
    n ∈ (if source.length = saved then [(layout.start handle).1] else []) ↔
      source.length = saved ∧ n = handle.sequenceNumber := by
  unfold start
  rw [if_pos room]
  split <;> simp [*]

theorem continued_last {dest : Storage} {m : ℕ} (valid : handle.Valid layout)
    (room : handle.segment.rawEntryCount + (m + 1) ≤ layout.blocks)
    (counts : handle.Counts begun
      (handle.sequenceNumber, writtenSegment saved handle source dest (m + 1)))
    (begins : ∀ n ∈ begun, n = handle.sequenceNumber) :
    Continued layout handle begun ⟨reference, 0, some ⟨handle.sequenceNumber,
      writtenSegment saved handle source dest (m + 1),
      handle.entry + (m + 1) * layout.sizeHint.val⟩, submitted⟩ submitted := by
  refine ⟨fun s hs => .inl hs, fun next hnext => ?_⟩
  obtain rfl := Option.some.inj hnext
  exact ⟨valid_written valid room, counts, fun s hs => .inl hs, fun n hn => (begins n hn).le⟩

/-- The loop counts an entry only in the segment that it begins in. -/
theorem continued_writeSegments (valid : handle.Valid layout)
    (counted : handle.segment.entryCount ≤ handle.segment.rawEntryCount) (nonempty : source ≠ [])
    (le : source.length ≤ saved) :
    Continued layout handle
      (if source.length = saved then [(layout.start handle).1] else [])
      (layout.writeSegments reference saved appended handle source submitted) submitted := by
  induction appended generalizing handle source submitted with
  | nil =>
    by_cases hroom : handle.segment.rawEntryCount < layout.blocks
    · obtain ⟨m, dest, hwritten, hle, -⟩ := writeVariableData_of_room valid nonempty hroom
      have hmem := @mem_begun_of_room layout handle source saved hroom
      rw [writeSegments_of_room (by omega : 0 < m + 1) hwritten]
      by_cases hends : source.length ≤ (m + 1) * layout.sizeHint.blockDataSize
      · rw [if_pos hends]
        refine continued_last valid hle (counts_writtenSegment counted hle ?_)
          fun n hn => ((hmem n).mp hn).2
        rw [hmem, and_iff_left rfl]
      · rw [if_neg hends]
        exact ⟨fun s hs => .inl hs, fun next hnext => by cases hnext⟩
    · rw [writeSegments_of_full (writeVariableData_of_full valid hroom)]
      exact ⟨fun s hs => .inl hs, fun next hnext => by cases hnext⟩
  | cons content appended ih =>
    have hvalid := @valid_nextHandle layout handle content
    by_cases hroom : handle.segment.rawEntryCount < layout.blocks
    · obtain ⟨m, dest, hwritten, hle, -⟩ := writeVariableData_of_room valid nonempty hroom
      have hmem := @mem_begun_of_room layout handle source saved hroom
      have hcounts : handle.Counts
          (if source.length = saved then [(layout.start handle).1] else [])
          (handle.sequenceNumber, writtenSegment saved handle source dest (m + 1)) := by
        refine counts_writtenSegment counted hle ?_
        rw [hmem, and_iff_left rfl]
      rw [writeSegments_of_room (by omega : 0 < m + 1) hwritten]
      by_cases hends : source.length ≤ (m + 1) * layout.sizeHint.blockDataSize
      · rw [if_pos hends]
        exact continued_last valid hle hcounts fun n hn => ((hmem n).mp hn).2
      · rw [if_neg hends]
        have hpos : 0 < (m + 1) * layout.sizeHint.blockDataSize :=
          Nat.mul_pos (Nat.succ_pos _) layout.sizeHint.blockDataSize_pos
        have hlength : (source.drop ((m + 1) * layout.sizeHint.blockDataSize)).length < saved := by
          rw [List.length_drop]
          omega
        have hdrop : source.drop ((m + 1) * layout.sizeHint.blockDataSize) ≠ [] := by
          rw [Ne, List.drop_eq_nil_iff]
          omega
        have hnext := @ih (nextHandle handle content)
          (source.drop ((m + 1) * layout.sizeHint.blockDataSize))
          (submitted ++ [(handle.sequenceNumber, writtenSegment saved handle source dest (m + 1))])
          hvalid le_rfl hdrop hlength.le
        rw [if_neg hlength.ne] at hnext
        refine hnext.of_nextHandle hcounts fun n hn => ?_
        rw [hmem]
        exact iff_of_false (fun h => hn.ne' h.2) (List.not_mem_nil)
    · have hnext := @ih (nextHandle handle content) source
        (submitted ++ [(handle.sequenceNumber, handle.segment)]) hvalid le_rfl nonempty le
      have hstart : (layout.start (nextHandle handle content)).1 = (layout.start handle).1 := by
        have hempty : (nextHandle handle content).segment.rawEntryCount < layout.blocks :=
          layout.blocks_pos
        rw [VariableStream.start_of_full hroom, VariableStream.start_of_room hempty]
        rfl
      rw [hstart] at hnext
      rw [writeSegments_of_full (writeVariableData_of_full valid hroom)]
      refine hnext.of_nextHandle ⟨le_rfl, counted, ?_⟩ fun n _ => Iff.rfl
      have hnot : handle.sequenceNumber ∉
          (if source.length = saved then [(layout.start handle).1] else []) := by
        rw [VariableStream.start_of_full hroom]
        split <;> simp
      simp [hnot]

theorem continued_stWriteVariableData (valid : handle.Valid layout)
    (counted : handle.segment.entryCount ≤ handle.segment.rawEntryCount) :
    Continued layout handle (if source = [] then [] else [(layout.start handle).1])
      (layout.stWriteVariableData appended handle source) [] := by
  unfold stWriteVariableData
  by_cases hsource : source = []
  · rw [if_pos hsource, if_pos (by rw [hsource]; rfl)]
    refine ⟨fun s hs => .inl hs, fun next hnext => ?_⟩
    obtain rfl := Option.some.inj hnext
    exact ⟨valid, ⟨le_rfl, counted, by simp⟩, fun s hs => .inl hs, fun n hn => by cases hn⟩
  · have hwritten := @continued_writeSegments layout handle source appended []
      (layout.reference handle) source.length valid counted hsource le_rfl
    rw [if_pos rfl] at hwritten
    rwa [if_neg hsource, if_neg (by rwa [List.length_eq_zero_iff])]

/-- The segments of a chain count an entry if and only if a payload begins in them. -/
theorem counts_submittedChain {writes : List VariableWrite} (valid : handle.Valid layout)
    (counted : handle.segment.entryCount ≤ handle.segment.rawEntryCount) :
    (∀ s ∈ layout.submittedChain writes handle,
      handle.Counts (layout.begun writes handle) s) ∧
      ∀ n ∈ layout.begun writes handle, handle.sequenceNumber ≤ n := by
  induction writes generalizing handle with
  | nil =>
    refine ⟨fun s hs => ?_, fun n hn => by cases hn⟩
    rw [List.mem_singleton.mp hs]
    exact ⟨le_rfl, counted, by simp [VariableLayout.begun]⟩
  | cons write writes ih =>
    have hwritten := @continued_stWriteVariableData layout handle write.source write.appended
      valid counted
    have hstart (n : ℕ) (hn : n ∈ if write.source = [] then [] else [(layout.start handle).1]) :
        handle.sequenceNumber ≤ n := by
      split at hn
      · cases hn
      · rw [List.mem_singleton.mp hn]
        exact (layout.start_bounds handle).1
    unfold submittedChain VariableLayout.begun
    dsimp only
    cases hnext : (layout.stWriteVariableData write.appended handle write.source).handle with
    | none =>
      dsimp only
      rw [List.append_nil, List.append_nil]
      exact ⟨fun s hs => (hwritten.counts s hs).resolve_left (List.not_mem_nil), hstart⟩
    | some next =>
      obtain ⟨hvalid, hcounts, hbefore, hbegun⟩ := hwritten.handle next hnext
      obtain ⟨hrest, hlater⟩ := ih hvalid hcounts.2.1
      have hle : handle.sequenceNumber ≤ next.sequenceNumber := hcounts.1
      dsimp only
      refine ⟨fun s hs => ?_, fun n hn => ?_⟩
      · rcases List.mem_append.mp hs with hs | hs
        · -- No later payload begins in a segment that was submitted.
          obtain ⟨hge, hcounted, hstarts⟩ :=
            (hwritten.counts s hs).resolve_left (List.not_mem_nil)
          have hlt := (hbefore s hs).resolve_left (List.not_mem_nil)
          refine ⟨hge, hcounted, hstarts.trans ?_⟩
          have hnot : s.1 ∉ layout.begun writes next := fun h =>
            absurd (hlater _ h) (by omega)
          rw [List.mem_append, or_iff_left hnot]
        · obtain ⟨hge, hcounted, hstarts⟩ := hrest s hs
          refine ⟨hle.trans hge, hcounted, hstarts.trans ?_⟩
          have hentry := hcounts.2.2
          dsimp only at hentry
          have hfirst (h : s.1 ∈ if write.source = [] then [] else [(layout.start handle).1]) :
              s.1 = next.sequenceNumber := le_antisymm (hbegun _ h) hge
          rw [List.mem_append, hentry]
          constructor
          · rintro (h | ⟨h, h' | ⟨h', hpos⟩⟩)
            · exact .inl (.inr h)
            · exact .inl (.inl (h ▸ h'))
            · exact .inr ⟨h.trans h', hpos⟩
          · rintro ((h | h) | ⟨h, hpos⟩)
            · exact .inr ⟨hfirst h, .inl (hfirst h ▸ h)⟩
            · exact .inl h
            · exact .inr ⟨by omega, .inr ⟨by omega, hpos⟩⟩
      · rcases List.mem_append.mp hn with hn | hn
        · exact hstart n hn
        · exact hle.trans (hlater n hn)

end VariableLayout

structure SubmittedSegment.IsOf (x : SubmittedSegment) (s : ℕ × DataSegment) : Prop where
  sequenceNumber : x.sequenceNumber = s.1
  entryCount : x.entryCount = s.2.entryCount
  rawEntryCount : x.rawEntryCount = s.2.rawEntryCount

namespace ServerStream

variable {layout : VariableLayout} {s : ServerStream} {events : List SegmentEvent}
  {slots stored earlier own : List SubmittedSegment} {writes : List VariableWrite} {n : ℕ}
  {content : Storage}

def StartsEntry (earlier own : List SubmittedSegment) (begun : List ℕ) (x : SubmittedSegment) :
    Prop :=
  (x ∈ earlier ∧ 0 < x.entryCount) ∨ (x ∈ own ∧ x.sequenceNumber ∈ begun)

/-- The control elements of a chain, of which those without blocks are not submitted. -/
def Submits (layout : VariableLayout) (own : List SubmittedSegment) (writes : List VariableWrite)
    (handle : WriteHandle) : Prop :=
  List.Forall₂ SubmittedSegment.IsOf own
    ((layout.submittedChain writes handle).filter fun s => 0 < s.2.rawEntryCount)

theorem exists_isOf {segments : List (ℕ × DataSegment)}
    (h : List.Forall₂ SubmittedSegment.IsOf own segments) {x : SubmittedSegment} (mem : x ∈ own) :
    ∃ segment ∈ segments, x.IsOf segment := by
  induction h with
  | nil => cases mem
  | @cons y segment own segments first _ ih =>
    rcases List.mem_cons.mp mem with rfl | hx
    · exact ⟨segment, List.mem_cons_self, first⟩
    · obtain ⟨segment', hmem, hof⟩ := ih hx
      exact ⟨segment', List.mem_cons_of_mem _ hmem, hof⟩

theorem startsEntry_iff {x : SubmittedSegment}
    (submits : Submits layout own writes (.appended n content)) (mem : x ∈ earlier ++ own) :
    StartsEntry earlier own (layout.begun writes (.appended n content)) x ↔ 0 < x.entryCount := by
  have hown (hx : x ∈ own) :
      x.sequenceNumber ∈ layout.begun writes (.appended n content) ↔ 0 < x.entryCount := by
    obtain ⟨segment, hmem, hsegment⟩ := exists_isOf submits hx
    have hvalid : (WriteHandle.appended n content).Valid layout :=
      ⟨(Nat.zero_mul _).symm, Nat.zero_le _⟩
    obtain ⟨-, -, hstarts⟩ := (VariableLayout.counts_submittedChain hvalid le_rfl).1 segment
      (List.mem_filter.mp hmem).1
    have hzero : ¬ 0 < (WriteHandle.appended n content).segment.entryCount := lt_irrefl 0
    rw [hsegment.sequenceNumber, hsegment.entryCount, hstarts]
    simp only [hzero, and_false, or_false]
  constructor
  · rintro (⟨-, h⟩ | ⟨hx, h⟩)
    · exact h
    · exact (hown hx).mp h
  · intro h
    rcases List.mem_append.mp mem with hx | hx
    · exact .inl ⟨hx, h⟩
    · exact .inr ⟨hx, (hown hx).mpr h⟩

/-- The segments of a chain are stored if and only if no segment ends before it starts, and with
each two neighbours, an entry begins in both or in none of them. If the second one is stored before
the first one, an entry may begin in the first one alone. The earlier segments may still be encoded,
and further ones are appended while encodings end. -/
theorem acceptsAll_submittedChain_iff (h : s.Encodes slots stored) (sub : ∀ x ∈ stored, x ∈ slots)
    (orderly : Orderly slots events) (chain : slots ++ appends events = earlier ++ own)
    (submits : Submits layout own writes (.appended n content)) :
    s.AcceptsAll events ↔ (∀ x ∈ encodings events, x.startTime ≤ x.endTime) ∧
      ∀ x y, AreNeighbours (earlier ++ own) x y →
        (EndsBefore stored (encodings events) x y →
          (StartsEntry earlier own (layout.begun writes (.appended n content)) x ↔
            StartsEntry earlier own (layout.begun writes (.appended n content)) y) ∧
          (x.startTime = x.endTime → x.endTime < y.startTime)) ∧
        (EndsBefore stored (encodings events) y x →
          (StartsEntry earlier own (layout.begun writes (.appended n content)) y →
            StartsEntry earlier own (layout.begun writes (.appended n content)) x) ∧
          (y.startTime = y.endTime → x.endTime < y.startTime)) := by
  rw [h.acceptsAll_iff sub orderly, chain]
  refine and_congr_right fun _ => forall_congr' fun x => forall_congr' fun y =>
    forall_congr' fun hneighbours => ?_
  rw [startsEntry_iff submits hneighbours.1, startsEntry_iff submits hneighbours.2.1]
  unfold SubmittedSegment.AcceptedBehind SubmittedSegment.AcceptedBefore
  have hbehind : (x.entryCount = 0 ↔ y.entryCount = 0) ↔
      (0 < x.entryCount ↔ 0 < y.entryCount) := by omega
  have hbefore : (x.entryCount = 0 → y.entryCount = 0) ↔
      (0 < y.entryCount → 0 < x.entryCount) := by omega
  rw [hbehind, hbefore]

/-! ## A payload in two segments -/

/-- The payload that ends in the second segment. -/
def longWrite : VariableWrite := ⟨[.empty], VariableStream.longSource⟩

def frontSegment : SubmittedSegment :=
  ⟨0, 0, 1, 2 ^ 24, 10, 20, 2 ^ 26, by decide, by decide, by decide, by decide, by decide⟩

def continuedSegment : SubmittedSegment :=
  ⟨1, 1, 0, 1, 30, 40, 4, Nat.zero_lt_one, by decide, by decide, by decide, by decide⟩

def longEvents (order : List SubmittedSegment) : List SegmentEvent :=
  .append frontSegment 1 2 :: .append continuedSegment 1 3 :: order.map .encoded

theorem encodes_new : new.Encodes [] [] :=
  ⟨.new, (fun _ h => by cases h), fun _ _ => rfl, (fun _ h => by cases h), List.nodup_nil,
    fun _ h => by cases h⟩

theorem submits_longWrite :
    Submits VariableStream.smallBlocks [frontSegment, continuedSegment] [longWrite]
      (.appended 0 .empty) := by
  obtain ⟨segment, segment', ⟨hraw, hentry⟩, ⟨hraw', hentry'⟩, houtcome⟩ :=
    VariableStream.stWriteVariableData_longSource
  have hchain : VariableStream.smallBlocks.submittedChain [longWrite] (.appended 0 .empty) =
      [(0, segment), (1, segment')] := by
    have hnext : (VariableStream.smallBlocks.outcome (.appended 0 .empty, longWrite)).handle =
        some ⟨1, segment', 4⟩ := congrArg WriteOutcome.handle houtcome
    rw [VariableLayout.submittedChain_cons hnext]
    exact congrArg (WriteOutcome.submitted · ++ [(1, segment')]) houtcome
  unfold Submits
  rw [hchain, List.filter_cons_of_pos (by simp [hraw]), List.filter_cons_of_pos (by simp [hraw']),
    List.filter_nil]
  exact .cons ⟨rfl, hentry.symm, hraw.symm⟩ (.cons ⟨rfl, hentry'.symm, hraw'.symm⟩ .nil)

theorem begun_longWrite :
    VariableStream.smallBlocks.begun [longWrite] (.appended 0 .empty) = [0] := by
  obtain ⟨segment, segment', -, -, houtcome⟩ := VariableStream.stWriteVariableData_longSource
  have hnil : longWrite.source ≠ [] := VariableStream.longSource_ne_nil
  have hnext : (VariableStream.smallBlocks.stWriteVariableData longWrite.appended
      (.appended 0 .empty) longWrite.source).handle = some ⟨1, segment', 4⟩ :=
    congrArg WriteOutcome.handle houtcome
  have hstart : VariableStream.smallBlocks.start (.appended 0 .empty) = (0, 0) :=
    VariableStream.start_of_room VariableStream.smallBlocks.blocks_pos
  rw [VariableLayout.begun, if_neg hnil, hnext, hstart]
  rfl

theorem orderly_longEvents {order : List SubmittedSegment}
    (h : ∀ x ∈ order, x ∈ [frontSegment, continuedSegment]) : Orderly [] (longEvents order) := by
  refine ⟨⟨(fun _ h => by cases h), by decide⟩, ⟨?_, by decide⟩, ?_⟩
  · intro y hy
    rw [List.mem_singleton.mp hy]
    decide
  · induction order with
    | nil => trivial
    | cons x order ih =>
      exact ⟨h x List.mem_cons_self, ih fun y hy => h y (List.mem_cons_of_mem _ hy)⟩

theorem eq_of_areNeighbours {x y : SubmittedSegment}
    (h : AreNeighbours [frontSegment, continuedSegment] x y) :
    x = frontSegment ∧ y = continuedSegment := by
  obtain ⟨hx, hy, hlt, -⟩ := h
  simp only [List.mem_cons, List.not_mem_nil, or_false] at hx hy
  rcases hx with rfl | rfl <;> rcases hy with rfl | rfl
  · exact (lt_irrefl _ hlt).elim
  · exact ⟨rfl, rfl⟩
  · exact absurd hlt (by decide)
  · exact (lt_irrefl _ hlt).elim

theorem EndsBefore.eq_of_pair {a b x y : SubmittedSegment} (h : EndsBefore [] [a, b] x y) :
    x = a ∧ y = b := by
  obtain ⟨before, after, heq, hx⟩ := h
  rcases before with _ | ⟨c, _ | ⟨d, before⟩⟩
  · cases hx
  · obtain ⟨rfl, heq'⟩ := List.cons.inj heq
    exact ⟨List.mem_singleton.mp hx, (List.cons.inj heq').1.symm⟩
  · simp at heq

/-- If the encoding of the second segment ends first, both are stored. -/
theorem acceptsAll_longWrite :
    new.AcceptsAll (longEvents [continuedSegment, frontSegment]) := by
  have horderly : Orderly [] (longEvents [continuedSegment, frontSegment]) :=
    orderly_longEvents (by simp)
  refine (@acceptsAll_submittedChain_iff _ new _ [] [] [] [frontSegment, continuedSegment] _ _ _
    encodes_new (fun _ h => h) horderly rfl submits_longWrite).mpr ⟨?_, fun x y hneighbours => ?_⟩
  · change ∀ x ∈ [continuedSegment, frontSegment], x.startTime ≤ x.endTime
    decide
  · obtain ⟨rfl, rfl⟩ := eq_of_areNeighbours hneighbours
    refine ⟨?_, fun _ => ⟨fun _ => .inr ⟨List.mem_cons_self, ?_⟩, fun h => ?_⟩⟩
    · intro hends
      have hnumber := congrArg SubmittedSegment.sequenceNumber (EndsBefore.eq_of_pair hends).1
      exact absurd hnumber (by decide)
    · rw [begun_longWrite]
      exact List.mem_cons_self
    · exact absurd h (by decide)

/-- Otherwise the second segment is not accepted behind the first one. -/
theorem not_acceptsAll_longWrite :
    Orderly [] (longEvents [frontSegment, continuedSegment]) ∧
      Submits VariableStream.smallBlocks [frontSegment, continuedSegment] [longWrite]
        (.appended 0 .empty) ∧
      ¬ new.AcceptsAll (longEvents [frontSegment, continuedSegment]) := by
  have horderly : Orderly [] (longEvents [frontSegment, continuedSegment]) :=
    orderly_longEvents (by simp)
  refine ⟨horderly, submits_longWrite, fun haccepts => ?_⟩
  have hall := (encodes_new.acceptsAll_iff (fun _ h => h) horderly).mp haccepts
  have hneighbours : AreNeighbours [frontSegment, continuedSegment] frontSegment
      continuedSegment := by
    refine ⟨by simp, by simp, by decide, fun z hz => ?_⟩
    simp only [List.mem_cons, List.not_mem_nil, or_false] at hz
    rcases hz with rfl | rfl
    · exact .inl le_rfl
    · exact .inr le_rfl
  have hbehind := (hall.2 _ _ hneighbours).1 ⟨[frontSegment], [], rfl, by simp⟩
  exact absurd (hbehind.1.mpr rfl) (by decide)

end ServerStream

end Simutrace
