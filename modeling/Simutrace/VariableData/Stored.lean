import Simutrace.VariableData.Access

/-! # Stored entries

When the segments of an entry have been stored as they were written, the stream
holds the entry at the block that the handle was at. The reference of the entry
leads to this block as long as the bytes at the end of the segments before it,
which are too few for a block, do not add up to more than the blocks in front.
-/

namespace Simutrace

/-- The segment has the blocks of another one, and may have more. -/
def DataSegment.Continues (layout : VariableLayout) (segment segment' : DataSegment) : Prop :=
  segment.rawEntryCount ≤ segment'.rawEntryCount ∧
    ∀ i < segment.rawEntryCount * layout.sizeHint.val,
      segment'.content.content i = segment.content.content i

/-- The next block is behind the ones that are counted. -/
structure WriteHandle.Valid (layout : VariableLayout) (handle : WriteHandle) : Prop where
  entry : handle.entry = handle.segment.rawEntryCount * layout.sizeHint.val
  room : handle.segment.rawEntryCount ≤ layout.blocks

structure VariableLayout.Stores (layout : VariableLayout) (At : ℕ → DataSegment → Prop)
    (outcome : WriteOutcome) : Prop where
  submitted : ∀ s ∈ outcome.submitted, ∃ segment, At s.1 segment ∧
    s.2.Continues layout segment ∧ segment.rawEntryCount = s.2.rawEntryCount
  handle : ∀ handle ∈ outcome.handle, ∃ segment, At handle.sequenceNumber segment ∧
    handle.segment.Continues layout segment

abbrev VariableStream.Stores {layout : VariableLayout} (stream : VariableStream layout) :
    WriteOutcome → Prop :=
  layout.Stores stream.HasSegment

namespace VariableLayout

variable {layout : VariableLayout} {handle : WriteHandle} {source : List UInt8}
  {appended : List Storage} {submitted : List (ℕ × DataSegment)} {reference saved : ℕ}

def start (layout : VariableLayout) (handle : WriteHandle) : ℕ × ℕ :=
  if handle.segment.rawEntryCount < layout.blocks then
    (handle.sequenceNumber, handle.segment.rawEntryCount)
  else (handle.sequenceNumber + 1, 0)

def segmentCount (layout : VariableLayout) (handle : WriteHandle) (length : ℕ) : ℕ :=
  ((layout.start handle).2 + (length - 1) / layout.sizeHint.blockDataSize) / layout.blocks + 1

theorem blocks_pos (layout : VariableLayout) : 0 < layout.blocks :=
  Nat.div_pos layout.admits layout.sizeHint.val_pos

theorem blocks_mul_le (layout : VariableLayout) :
    layout.blocks * layout.sizeHint.val ≤ layout.segmentSize := Nat.div_mul_le_self _ _

theorem lt_blocks_add (layout : VariableLayout) :
    layout.segmentSize < (layout.blocks + 1) * layout.sizeHint.val := by
  rw [Nat.mul_comm]
  exact Nat.lt_mul_div_succ _ layout.sizeHint.val_pos

theorem blocks_lt (layout : VariableLayout) : layout.blocks < 2 ^ 32 :=
  (Nat.div_le_self _ _).trans_lt layout.small

theorem start_lt (layout : VariableLayout) (handle : WriteHandle) :
    (layout.start handle).2 < layout.blocks := by
  unfold start
  split
  · assumption
  · exact layout.blocks_pos

/-- A full segment has the reference of the first block of the next one. -/
theorem reference_eq (valid : handle.Valid layout) : layout.reference handle =
    layout.blocks * (layout.start handle).1 + (layout.start handle).2 := by
  unfold VariableLayout.reference start
  split
  · rfl
  · have := valid.room
    obtain h : handle.segment.rawEntryCount = layout.blocks := by omega
    rw [h]
    ring

/-- In a segment with room, the blocks that fit in are written. -/
theorem writeVariableData_of_room (valid : handle.Valid layout) (nonempty : source ≠ [])
    (room : handle.segment.rawEntryCount < layout.blocks) :
    ∃ m dest, writeVariableData layout.sizeHint handle.segment.content handle.entry
        (layout.segmentSize - handle.entry) source 0 =
        ⟨dest, m + 1, min source.length ((m + 1) * layout.sizeHint.blockDataSize)⟩ ∧
      handle.segment.rawEntryCount + (m + 1) ≤ layout.blocks ∧
      m * layout.sizeHint.blockDataSize < source.length ∧
      ((m + 1) * layout.sizeHint.blockDataSize < source.length →
        handle.segment.rawEntryCount + (m + 1) = layout.blocks) ∧
      KeepsOutside handle.entry ((m + 1) * layout.sizeHint.val) handle.segment.content dest ∧
      HoldsBlocks layout.sizeHint dest handle.entry source (m + 1) := by
  have hentry := valid.entry
  have hpos := layout.sizeHint.val_pos
  have hsize := layout.blocks_mul_le
  have hsize' := layout.lt_blocks_add
  have hroom := Nat.mul_le_mul_right layout.sizeHint.val (show _ + 1 ≤ _ from room)
  rw [Nat.add_mul, Nat.one_mul] at hroom
  obtain ⟨m, hm, hcount, hwritten, hdest, hwrites⟩ := @writeVariableData_spec layout.sizeHint
    handle.segment.content handle.entry (layout.segmentSize - handle.entry) 0 source nonempty
    (by omega)
  obtain ⟨m, rfl⟩ := Nat.exists_eq_add_one.mpr hm
  have hfits := hwrites.fits
  have hle : handle.segment.rawEntryCount + (m + 1) ≤ layout.blocks := by
    by_contra hlt
    have := Nat.mul_le_mul_right layout.sizeHint.val
      (show layout.blocks + 1 ≤ handle.segment.rawEntryCount + (m + 1) by omega)
    rw [Nat.add_mul _ (m + 1)] at this
    omega
  have hlt := layout.blocks_lt
  rw [Nat.mod_eq_of_lt (by omega)] at hcount
  refine ⟨m, _, ?_, hle, hwrites.needed, fun hdata => ?_, hwrites.keeps, hwrites.holds⟩
  · rw [← hdest, ← hwritten, ← hcount]
  · by_contra hne
    have := hwrites.full hdata
    have := Nat.mul_le_mul_right layout.sizeHint.val
      (show handle.segment.rawEntryCount + (m + 1 + 1) ≤ layout.blocks by omega)
    rw [Nat.add_mul _ (m + 1 + 1)] at this
    omega

theorem writeVariableData_of_full (valid : handle.Valid layout)
    (full : ¬ handle.segment.rawEntryCount < layout.blocks) :
    writeVariableData layout.sizeHint handle.segment.content handle.entry
      (layout.segmentSize - handle.entry) source 0 = ⟨handle.segment.content, 0, 0⟩ := by
  have hentry := valid.entry
  have hroom := valid.room
  have hpos := layout.sizeHint.val_pos
  have hsize := layout.lt_blocks_add
  rw [show layout.blocks = handle.segment.rawEntryCount by omega, Nat.add_mul, Nat.one_mul]
    at hsize
  unfold writeVariableData
  rw [if_pos (by omega)]

def nextHandle (handle : WriteHandle) (content : Storage) : WriteHandle :=
  ⟨handle.sequenceNumber + 1, ⟨content, 0, 0⟩, 0⟩

theorem valid_nextHandle (handle : WriteHandle) (content : Storage) :
    (nextHandle handle content).Valid layout :=
  ⟨(Nat.zero_mul _).symm, Nat.zero_le _⟩

def writtenSegment (saved : ℕ) (handle : WriteHandle) (source : List UInt8) (dest : Storage)
    (count : ℕ) : DataSegment :=
  ⟨dest, if source.length = saved then handle.segment.entryCount + 1
    else handle.segment.entryCount, (handle.segment.rawEntryCount + count) % 2 ^ 32⟩

theorem entryCount_writtenSegment (saved : ℕ) (handle : WriteHandle) (source : List UInt8)
    (dest : Storage) (count : ℕ) : (writtenSegment saved handle source dest count).entryCount =
      if source.length = saved then handle.segment.entryCount + 1
      else handle.segment.entryCount := rfl

theorem rawEntryCount_writtenSegment (saved : ℕ) (handle : WriteHandle) (source : List UInt8)
    (dest : Storage) (count : ℕ) : (writtenSegment saved handle source dest count).rawEntryCount =
      (handle.segment.rawEntryCount + count) % 2 ^ 32 := rfl

theorem writeSegments_of_room {dest : Storage} {count : ℕ} (positive : 0 < count)
    (written : writeVariableData layout.sizeHint handle.segment.content handle.entry
      (layout.segmentSize - handle.entry) source 0 =
      ⟨dest, count, min source.length (count * layout.sizeHint.blockDataSize)⟩) :
    layout.writeSegments reference saved appended handle source submitted =
      if source.length ≤ count * layout.sizeHint.blockDataSize then
        ⟨reference, 0, some ⟨handle.sequenceNumber, writtenSegment saved handle source dest count,
          handle.entry + count * layout.sizeHint.val⟩, submitted⟩
      else
        match appended with
        | [] => ⟨reference, source.length - count * layout.sizeHint.blockDataSize, none, submitted⟩
        | content :: appended =>
          layout.writeSegments reference saved appended (nextHandle handle content)
            (source.drop (count * layout.sizeHint.blockDataSize))
            (submitted ++
              [(handle.sequenceNumber, writtenSegment saved handle source dest count)]) := by
  have hdrop : source.drop (min source.length (count * layout.sizeHint.blockDataSize)) =
      source.drop (count * layout.sizeHint.blockDataSize) := by
    rcases Nat.le_total source.length (count * layout.sizeHint.blockDataSize) with h | h
    · rw [min_eq_left h, List.drop_length, List.drop_eq_nil_of_le h]
    · rw [min_eq_right h]
  have hnil : source.drop (count * layout.sizeHint.blockDataSize) = [] ↔
      source.length ≤ count * layout.sizeHint.blockDataSize := List.drop_eq_nil_iff
  cases appended <;>
  · rw [writeSegments]
    simp only [written, positive, if_true, hdrop, hnil, true_and, List.length_drop]
    rfl

theorem writeSegments_of_full
    (written : writeVariableData layout.sizeHint handle.segment.content handle.entry
      (layout.segmentSize - handle.entry) source 0 = ⟨handle.segment.content, 0, 0⟩) :
    layout.writeSegments reference saved appended handle source submitted =
      match appended with
      | [] => ⟨reference, source.length, none, submitted⟩
      | content :: appended =>
        layout.writeSegments reference saved appended (nextHandle handle content) source
          (submitted ++ [(handle.sequenceNumber, handle.segment)]) := by
  cases appended <;>
  · rw [writeSegments]
    simp only [written, lt_irrefl, if_false, false_and, nextHandle]

theorem submitted_subset {s : ℕ × DataSegment} (h : s ∈ submitted) :
    s ∈ (layout.writeSegments reference saved appended handle source submitted).submitted := by
  induction appended generalizing handle source submitted with
  | nil =>
    rw [writeSegments]
    split
    all_goals split <;> exact h
  | cons content appended ih =>
    rw [writeSegments]
    split
    all_goals
      split
      · exact h
      · exact ih (List.mem_append_left _ h)

end VariableLayout

namespace VariableStream

variable {layout : VariableLayout} {At : ℕ → DataSegment → Prop} {handle : WriteHandle}
  {source : List UInt8} {appended : List Storage} {submitted : List (ℕ × DataSegment)}
  {reference saved m : ℕ} {dest : Storage} {segment : DataSegment}

theorem holdsBlocks_of_continues (valid : handle.Valid layout)
    (room : handle.segment.rawEntryCount + (m + 1) ≤ layout.blocks)
    (holds : HoldsBlocks layout.sizeHint dest handle.entry source (m + 1))
    (continues : (VariableLayout.writtenSegment saved handle source dest (m + 1)).Continues layout
      segment) : handle.segment.rawEntryCount + (m + 1) ≤ segment.rawEntryCount ∧
      HoldsBlocks layout.sizeHint segment.content
        (handle.segment.rawEntryCount * layout.sizeHint.val) source (m + 1) := by
  have hlt := layout.blocks_lt
  obtain ⟨hcount, hcontent⟩ := continues
  have hraw : (VariableLayout.writtenSegment saved handle source dest (m + 1)).rawEntryCount =
      handle.segment.rawEntryCount + (m + 1) := Nat.mod_eq_of_lt (by omega)
  rw [hraw] at hcount hcontent
  rw [← valid.entry]
  refine ⟨hcount, holds.congr fun i hi hi' => hcontent i ?_⟩
  rw [Nat.add_mul, ← valid.entry]
  exact hi'

theorem start_of_room (room : handle.segment.rawEntryCount < layout.blocks) :
    layout.start handle = (handle.sequenceNumber, handle.segment.rawEntryCount) := by
  unfold VariableLayout.start
  rw [if_pos room]

theorem start_of_full (full : ¬ handle.segment.rawEntryCount < layout.blocks) :
    layout.start handle = (handle.sequenceNumber + 1, 0) := by
  unfold VariableLayout.start
  rw [if_neg full]

theorem holds_last (valid : handle.Valid layout)
    (room : handle.segment.rawEntryCount + (m + 1) ≤ layout.blocks)
    (needed : m * layout.sizeHint.blockDataSize < source.length)
    (ends : source.length ≤ (m + 1) * layout.sizeHint.blockDataSize)
    (holds : HoldsBlocks layout.sizeHint dest handle.entry source (m + 1))
    (stored : ∃ segment, At handle.sequenceNumber segment ∧
      (VariableLayout.writtenSegment saved handle source dest (m + 1)).Continues layout segment) :
    layout.Holds At (layout.start handle).1 (layout.start handle).2 source
      (layout.segmentCount handle source.length) := by
  obtain ⟨segment, hstored, hcontinues⟩ := stored
  obtain ⟨hcount, hblocks⟩ := holdsBlocks_of_continues valid room holds hcontinues
  have hm : (source.length - 1) / layout.sizeHint.blockDataSize = m :=
    Nat.div_eq_of_lt_le (by omega) (by omega)
  have hone : layout.segmentCount handle source.length = 1 := by
    rw [VariableLayout.segmentCount, start_of_room (by omega), hm, Nat.div_eq_of_lt (by omega)]
  rw [hone, start_of_room (by omega)]
  exact .last hstored hblocks needed ends hcount

theorem segmentCount_next (m : ℕ) (content : Storage)
    (full : handle.segment.rawEntryCount + (m + 1) = layout.blocks)
    (continued : (m + 1) * layout.sizeHint.blockDataSize < source.length) :
    layout.segmentCount handle source.length =
      layout.segmentCount (VariableLayout.nextHandle handle content)
        (source.length - (m + 1) * layout.sizeHint.blockDataSize) + 1 := by
  have hpos := layout.sizeHint.blockDataSize_pos
  have hlength : source.length - 1 = (source.length - (m + 1) * layout.sizeHint.blockDataSize - 1) +
      (m + 1) * layout.sizeHint.blockDataSize := by omega
  have hroom : (VariableLayout.nextHandle handle content).segment.rawEntryCount < layout.blocks :=
    layout.blocks_pos
  unfold VariableLayout.segmentCount
  rw [start_of_room (by omega), start_of_room hroom, hlength, Nat.add_mul_div_right _ _ hpos,
    show handle.segment.rawEntryCount + (_ + (m + 1)) = _ + layout.blocks by
      rw [← full, Nat.add_left_comm], Nat.add_div_right _ layout.blocks_pos]
  exact congrArg (· / layout.blocks + 1 + 1) (Nat.zero_add _).symm

theorem segmentCount_eq_one_iff (nonempty : source ≠ []) :
    layout.segmentCount handle source.length = 1 ↔ source.length ≤
      (layout.blocks - (layout.start handle).2) * layout.sizeHint.blockDataSize := by
  have hlength := List.length_pos_iff.mpr nonempty
  have hstart := layout.start_lt handle
  unfold VariableLayout.segmentCount
  rw [Nat.add_eq_right, Nat.div_eq_zero_iff_lt layout.blocks_pos, ← Nat.lt_sub_iff_add_lt',
    Nat.div_lt_iff_lt_mul layout.sizeHint.blockDataSize_pos]
  omega

theorem holds_next (valid : handle.Valid layout) {content : Storage}
    (full : handle.segment.rawEntryCount + (m + 1) = layout.blocks)
    (continued : (m + 1) * layout.sizeHint.blockDataSize < source.length)
    (holds : HoldsBlocks layout.sizeHint dest handle.entry source (m + 1))
    (stored : At handle.sequenceNumber segment)
    (continues : (VariableLayout.writtenSegment saved handle source dest (m + 1)).Continues layout
      segment)
    (count : segment.rawEntryCount =
      (VariableLayout.writtenSegment saved handle source dest (m + 1)).rawEntryCount)
    (rest : layout.Holds At (layout.start (VariableLayout.nextHandle handle content)).1
      (layout.start (VariableLayout.nextHandle handle content)).2
      (source.drop ((m + 1) * layout.sizeHint.blockDataSize))
      (layout.segmentCount (VariableLayout.nextHandle handle content)
        (source.drop ((m + 1) * layout.sizeHint.blockDataSize)).length)) :
    layout.Holds At (layout.start handle).1 (layout.start handle).2 source
      (layout.segmentCount handle source.length) := by
  obtain ⟨-, hblocks⟩ := holdsBlocks_of_continues valid full.le holds continues
  have hcount : (VariableLayout.writtenSegment saved handle source dest (m + 1)).rawEntryCount =
      layout.blocks := by
    rw [← full]
    exact Nat.mod_eq_of_lt (full ▸ layout.blocks_lt)
  have hroom : (VariableLayout.nextHandle handle content).segment.rawEntryCount < layout.blocks :=
    layout.blocks_pos
  rw [start_of_room hroom, List.length_drop] at rest
  rw [segmentCount_next m content full continued, start_of_room (by omega)]
  exact .next stored hblocks continued (by rw [count, hcount, full]) rest

theorem holds_of_full {content : Storage}
    (full : ¬ handle.segment.rawEntryCount < layout.blocks)
    (rest : layout.Holds At (layout.start (VariableLayout.nextHandle handle content)).1
      (layout.start (VariableLayout.nextHandle handle content)).2 source
      (layout.segmentCount (VariableLayout.nextHandle handle content) source.length)) :
    layout.Holds At (layout.start handle).1 (layout.start handle).2 source
      (layout.segmentCount handle source.length) := by
  have hroom : (VariableLayout.nextHandle handle content).segment.rawEntryCount < layout.blocks :=
    layout.blocks_pos
  have hcount : layout.segmentCount handle source.length =
      layout.segmentCount (VariableLayout.nextHandle handle content) source.length := by
    unfold VariableLayout.segmentCount
    rw [start_of_full full, start_of_room hroom]
    rfl
  rw [start_of_room hroom] at rest
  rw [hcount, start_of_full full]
  exact rest

/-- An entry is held if there are all its segments. -/
theorem holds_of_writeSegments (valid : handle.Valid layout) (nonempty : source ≠ [])
    (complete : (layout.writeSegments reference saved appended handle source
      submitted).sourceLength = 0)
    (stores : layout.Stores At
      (layout.writeSegments reference saved appended handle source submitted)) :
    layout.Holds At (layout.start handle).1 (layout.start handle).2 source
      (layout.segmentCount handle source.length) := by
  have hpos := List.length_pos_iff.mpr nonempty
  induction appended generalizing handle source submitted with
  | nil =>
    by_cases hroom : handle.segment.rawEntryCount < layout.blocks
    · obtain ⟨m, dest, hwritten, hle, hneeded, -, -, hholds⟩ :=
        VariableLayout.writeVariableData_of_room valid nonempty hroom
      rw [VariableLayout.writeSegments_of_room (by omega : 0 < m + 1) hwritten] at complete stores
      split at complete
      · rename_i hends
        rw [if_pos hends] at stores
        exact holds_last valid hle hneeded hends hholds (stores.handle _ rfl)
      · dsimp only at complete
        omega
    · rw [VariableLayout.writeSegments_of_full
        (VariableLayout.writeVariableData_of_full valid hroom)] at complete
      dsimp only at complete
      omega
  | cons content appended ih =>
    by_cases hroom : handle.segment.rawEntryCount < layout.blocks
    · obtain ⟨m, dest, hwritten, hle, hneeded, hfull, -, hholds⟩ :=
        VariableLayout.writeVariableData_of_room valid nonempty hroom
      rw [VariableLayout.writeSegments_of_room (by omega : 0 < m + 1) hwritten] at complete stores
      split at complete
      · rename_i hends
        rw [if_pos hends] at stores
        exact holds_last valid hle hneeded hends hholds (stores.handle _ rfl)
      · rename_i hends
        rw [if_neg hends] at stores
        have hlt : (m + 1) * layout.sizeHint.blockDataSize < source.length := by omega
        have hdrop : source.drop ((m + 1) * layout.sizeHint.blockDataSize) ≠ [] := by
          rw [Ne, List.drop_eq_nil_iff]
          omega
        obtain ⟨segment, hstored, hcontinues, hraw⟩ := stores.submitted
          (handle.sequenceNumber, VariableLayout.writtenSegment saved handle source dest (m + 1))
          (VariableLayout.submitted_subset (by simp))
        exact holds_next valid (hfull hlt) hlt hholds hstored hcontinues hraw
          (ih (VariableLayout.valid_nextHandle handle content) hdrop complete stores
            (List.length_pos_iff.mpr hdrop))
    · rw [VariableLayout.writeSegments_of_full
        (VariableLayout.writeVariableData_of_full valid hroom)] at complete stores
      exact holds_of_full hroom
        (ih (VariableLayout.valid_nextHandle handle content) nonempty complete stores hpos)

end VariableStream

end Simutrace
