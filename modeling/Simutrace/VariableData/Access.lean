import Simutrace.VariableData.RoundTrip

/-! # Writing and reading variable-sized entries

An entry begins at any block of a segment and is continued in the segments that
follow. It is read with a reference, which numbers the blocks of all segments.
-/

namespace Simutrace

/-- The sizes of a stream that is accepted. A segment is smaller than 4 GiB. -/
structure VariableLayout where
  sizeHint : SizeHint
  segmentSize : ℕ
  admits : sizeHint.val ≤ segmentSize
  small : segmentSize < 2 ^ 32

structure DataSegment where
  content : Storage
  entryCount : ℕ
  rawEntryCount : ℕ

/-- A handle of an appended segment with the offset of the next block. -/
structure WriteHandle where
  sequenceNumber : ℕ
  segment : DataSegment
  entry : ℕ

/-- The reference and the bytes that are left when `StWriteVariableData` returns, the handle, unless
no segment could be appended, and the segments that were submitted. -/
structure WriteOutcome where
  reference : ℕ
  sourceLength : ℕ
  handle : Option WriteHandle
  submitted : List (ℕ × DataSegment)

def variableEntryEmptyIndex : ℕ := 2 ^ 64 - 2

namespace VariableLayout

variable (layout : VariableLayout)

def blocks : ℕ := layout.segmentSize / layout.sizeHint.val

/-- The loop of `StWriteVariableData`. The entry is counted with the first bytes that are written.
The given memory is the one of the segments that can be appended. -/
def writeSegments (reference savedSourceLength : ℕ) :
    List Storage → WriteHandle → List UInt8 → List (ℕ × DataSegment) → WriteOutcome
  | appended, handle, source, submitted =>
    let length := layout.segmentSize - handle.entry
    let written := writeVariableData layout.sizeHint handle.segment.content handle.entry length
      source 0
    let count := written.blockCount
    let rest := if 0 < count then source.drop written.written else source
    let segment := if 0 < count then
        ⟨written.dest,
          if source.length = savedSourceLength then handle.segment.entryCount + 1
          else handle.segment.entryCount,
          (handle.segment.rawEntryCount + count) % 2 ^ 32⟩
      else handle.segment
    if 0 < count ∧ rest = [] then
      ⟨reference, 0,
        some ⟨handle.sequenceNumber, segment, handle.entry + count * layout.sizeHint.val⟩,
        submitted⟩
    else
      match appended with
      | [] => ⟨reference, rest.length, none, submitted⟩
      | content :: appended =>
        writeSegments reference savedSourceLength appended
          ⟨handle.sequenceNumber + 1, ⟨content, 0, 0⟩, 0⟩ rest
          (submitted ++ [(handle.sequenceNumber, segment)])

def reference (handle : WriteHandle) : ℕ :=
  layout.blocks * handle.sequenceNumber + handle.segment.rawEntryCount

def stWriteVariableData (appended : List Storage) (handle : WriteHandle) (source : List UInt8) :
    WriteOutcome :=
  if source.length = 0 then ⟨variableEntryEmptyIndex, 0, some handle, []⟩
  else layout.writeSegments (layout.reference handle) source.length appended handle source []

end VariableLayout

/-- The segments of a stream that can be opened, by their sequence numbers. -/
structure VariableStream (layout : VariableLayout) where
  segments : List (Option DataSegment)
  length : segments.length < 2 ^ 32
  fits : ∀ segment, some segment ∈ segments →
    segment.rawEntryCount * layout.sizeHint.val ≤ layout.segmentSize

/-- The segment that is open, the destination and the length that is returned, or the error
value. -/
structure ReadOutcome where
  handle : Option ℕ
  dest : Storage
  length : Option ℕ

namespace VariableStream

variable {layout : VariableLayout} (stream : VariableStream layout)

/-- The loop of `StReadVariableData`. A segment is opened unless the handle has it already, with the
same content. There is no result if the source is not in front of the end of the segment. -/
def readSegments (rsqn localRef : ℕ) (dest : Storage) (destinationBuffer len : ℕ) :
    Option ReadOutcome :=
  match _stored : stream.segments[rsqn]? with
  | none => some ⟨none, dest, none⟩
  | some none => some ⟨none, dest, none⟩
  | some (some segment) =>
    let src := localRef * layout.sizeHint.val
    let segmentEnd := segment.rawEntryCount * layout.sizeHint.val
    if segmentEnd ≤ src then none
    else
      match readVariableData segment.content src (segmentEnd - src) dest destinationBuffer with
      | none => none
      | some read =>
        if read.finished then some ⟨some rsqn, read.dest, some (len + read.dataSize)⟩
        else readSegments (rsqn + 1) 0 read.dest (destinationBuffer + read.dataSize)
          (len + read.dataSize)
termination_by stream.segments.length - rsqn
decreasing_by
  have := (List.getElem?_eq_some_iff.mp _stored).1
  omega

def stReadVariableData (handle : Option ℕ) (reference : ℕ) (dest : Storage)
    (destinationBuffer : ℕ) : Option ReadOutcome :=
  if reference = variableEntryEmptyIndex then some ⟨handle, dest, some 0⟩
  else
    let rsqn := reference * layout.sizeHint.val % 2 ^ 64 / layout.segmentSize % 2 ^ 32
    stream.readSegments rsqn (reference - rsqn * layout.blocks) dest destinationBuffer 0

end VariableStream

/-- An entry that begins at a block of a segment and is continued to a number of segments. Behind
its last block, a segment may have further entries. -/
inductive VariableLayout.Holds (layout : VariableLayout) (At : ℕ → DataSegment → Prop) :
    ℕ → ℕ → List UInt8 → ℕ → Prop
  | last {q i m : ℕ} {data : List UInt8} {segment : DataSegment} (stored : At q segment)
      (holds : HoldsBlocks layout.sizeHint segment.content (i * layout.sizeHint.val) data (m + 1))
      (needed : m * layout.sizeHint.blockDataSize < data.length)
      (ends : data.length ≤ (m + 1) * layout.sizeHint.blockDataSize)
      (room : i + (m + 1) ≤ segment.rawEntryCount) : Holds layout At q i data 1
  | next {q i m k : ℕ} {data : List UInt8} {segment : DataSegment} (stored : At q segment)
      (holds : HoldsBlocks layout.sizeHint segment.content (i * layout.sizeHint.val) data (m + 1))
      (continued : (m + 1) * layout.sizeHint.blockDataSize < data.length)
      (full : i + (m + 1) = segment.rawEntryCount)
      (rest : Holds layout At (q + 1) 0
        (data.drop ((m + 1) * layout.sizeHint.blockDataSize)) k) :
      Holds layout At q i data (k + 1)

namespace VariableStream

variable {layout : VariableLayout}

abbrev HasSegment (stream : VariableStream layout) (n : ℕ) (segment : DataSegment) : Prop :=
  stream.segments[n]? = some (some segment)

abbrev Holds (stream : VariableStream layout) : ℕ → ℕ → List UInt8 → ℕ → Prop :=
  layout.Holds stream.HasSegment

variable {stream : VariableStream layout} {q i k : ℕ} {data : List UInt8} {segment : DataSegment}

theorem readSegments_of_some {rsqn localRef destinationBuffer len : ℕ} {dest : Storage}
    (h : stream.segments[rsqn]? = some (some segment)) :
    stream.readSegments rsqn localRef dest destinationBuffer len =
      if segment.rawEntryCount * layout.sizeHint.val ≤ localRef * layout.sizeHint.val then none
      else (readVariableData segment.content (localRef * layout.sizeHint.val)
        (segment.rawEntryCount * layout.sizeHint.val - localRef * layout.sizeHint.val) dest
        destinationBuffer).bind fun read =>
          if read.finished then some ⟨some rsqn, read.dest, some (len + read.dataSize)⟩
          else stream.readSegments (rsqn + 1) 0 read.dest (destinationBuffer + read.dataSize)
            (len + read.dataSize) := by
  rw [readSegments]
  split
  · rename_i heq
    rw [h] at heq
    cases heq
  · rename_i heq
    rw [h] at heq
    cases heq
  · rename_i segment' heq
    rw [h] at heq
    obtain rfl := Option.some.inj (Option.some.inj heq)
    dsimp only
    split
    · rfl
    · split <;> (rename_i hread; rw [hread]; rfl)

theorem readSegments_of_ne {rsqn localRef destinationBuffer len : ℕ} {dest : Storage}
    (h : ∀ segment, stream.segments[rsqn]? ≠ some (some segment)) :
    stream.readSegments rsqn localRef dest destinationBuffer len = some ⟨none, dest, none⟩ := by
  rw [readSegments]
  split
  · rfl
  · rfl
  · rename_i segment heq
    exact absurd heq (h segment)

theorem readVariableData_of_holds {m srcSize : ℕ} (holds : HoldsBlocks layout.sizeHint
      segment.content (i * layout.sizeHint.val) data (m + 1))
    (needed : m * layout.sizeHint.blockDataSize < data.length)
    (room : (m + 1) * layout.sizeHint.val ≤ srcSize)
    (last : data.length ≤ (m + 1) * layout.sizeHint.blockDataSize ∨
      srcSize = (m + 1) * layout.sizeHint.val) (dest : Storage) (pointer : ℕ) :
    readVariableData segment.content (i * layout.sizeHint.val) srcSize dest pointer =
      some ⟨copyTo dest pointer (data.take ((m + 1) * layout.sizeHint.blockDataSize)),
        min data.length ((m + 1) * layout.sizeHint.blockDataSize),
        decide (data.length ≤ (m + 1) * layout.sizeHint.blockDataSize)⟩ := by
  have hlower := layout.sizeHint.lower
  have hle : layout.sizeHint.val ≤ (m + 1) * layout.sizeHint.val :=
    Nat.le_mul_of_pos_left _ (Nat.succ_pos _)
  unfold readVariableData
  rw [if_neg (by omega), readBlocks_spec holds needed room last, Nat.zero_add]

theorem readSegments_of_last {m : ℕ} (stored : stream.segments[q]? = some (some segment))
    (holds : HoldsBlocks layout.sizeHint segment.content (i * layout.sizeHint.val) data (m + 1))
    (needed : m * layout.sizeHint.blockDataSize < data.length)
    (ends : data.length ≤ (m + 1) * layout.sizeHint.blockDataSize)
    (room : i + (m + 1) ≤ segment.rawEntryCount) (dest : Storage) (pointer len : ℕ) :
    stream.readSegments q i dest pointer len =
      some ⟨some q, copyTo dest pointer data, some (len + data.length)⟩ := by
  have hmul := Nat.mul_le_mul_right layout.sizeHint.val room
  rw [Nat.add_mul] at hmul
  have hpos : 0 < (m + 1) * layout.sizeHint.val :=
    Nat.mul_pos (Nat.succ_pos _) layout.sizeHint.val_pos
  rw [readSegments_of_some stored, if_neg (by omega),
    readVariableData_of_holds holds needed (by omega) (.inl ends), Option.bind_some,
    decide_eq_true ends, if_pos rfl, List.take_of_length_le ends, min_eq_left ends]

theorem readSegments_of_next {m : ℕ} (stored : stream.segments[q]? = some (some segment))
    (holds : HoldsBlocks layout.sizeHint segment.content (i * layout.sizeHint.val) data (m + 1))
    (continued : (m + 1) * layout.sizeHint.blockDataSize < data.length)
    (full : i + (m + 1) = segment.rawEntryCount) (dest : Storage) (pointer len : ℕ) :
    stream.readSegments q i dest pointer len =
      stream.readSegments (q + 1) 0
        (copyTo dest pointer (data.take ((m + 1) * layout.sizeHint.blockDataSize)))
        (pointer + (m + 1) * layout.sizeHint.blockDataSize)
        (len + (m + 1) * layout.sizeHint.blockDataSize) := by
  have hpos : 0 < (m + 1) * layout.sizeHint.val :=
    Nat.mul_pos (Nat.succ_pos _) layout.sizeHint.val_pos
  have hsize : segment.rawEntryCount * layout.sizeHint.val - i * layout.sizeHint.val =
      (m + 1) * layout.sizeHint.val := by
    rw [← full, Nat.add_mul, Nat.add_sub_cancel_left]
  have hneeded : m * layout.sizeHint.blockDataSize < data.length :=
    (Nat.mul_le_mul_right _ (Nat.le_succ m)).trans_lt continued
  rw [readSegments_of_some stored, if_neg (by omega), hsize,
    readVariableData_of_holds holds hneeded le_rfl (.inr rfl), Option.bind_some,
    decide_eq_false (by omega), if_neg (by simp), min_eq_right continued.le]

/-- With a buffer, the data is copied to it. -/
theorem Holds.readSegments {dest : Storage} {pointer len : ℕ} (h : stream.Holds q i data k)
    (buffer : pointer ≠ 0) : ∃ handle, stream.readSegments q i dest pointer len =
      some ⟨handle, dest.write pointer data, some (len + data.length)⟩ := by
  induction h generalizing dest pointer len with
  | @last q i m data segment stored holds needed ends room =>
    refine ⟨some q, ?_⟩
    rw [readSegments_of_last stored holds needed ends room]
    unfold copyTo
    rw [if_neg buffer]
  | @next q i m k data segment stored holds continued full rest ih =>
    obtain ⟨handle, hrest⟩ := @ih
      (copyTo dest pointer (data.take ((m + 1) * layout.sizeHint.blockDataSize)))
      (pointer + (m + 1) * layout.sizeHint.blockDataSize)
      (len + (m + 1) * layout.sizeHint.blockDataSize) (by omega)
    have hlength : (data.take ((m + 1) * layout.sizeHint.blockDataSize)).length =
        (m + 1) * layout.sizeHint.blockDataSize := by
      rw [List.length_take]
      omega
    have hwrite := Storage.write_append dest pointer
      (data.take ((m + 1) * layout.sizeHint.blockDataSize))
      (data.drop ((m + 1) * layout.sizeHint.blockDataSize))
    rw [List.take_append_drop, hlength] at hwrite
    refine ⟨handle, ?_⟩
    rw [readSegments_of_next stored holds continued full, hrest, List.length_drop, hwrite]
    unfold copyTo
    rw [if_neg buffer, Nat.add_assoc, Nat.add_sub_of_le continued.le]

/-- With a null pointer, the length is returned as well. Data that follows in further segments is
copied to the address that is reached from null. -/
theorem Holds.readSegments_null (h : stream.Holds q i data k) :
    (k = 1 ∧ ∀ dest len, ∃ handle, stream.readSegments q i dest 0 len =
      some ⟨handle, dest, some (len + data.length)⟩) ∨
    (1 < k ∧ ∃ n, 0 < n ∧ n < data.length ∧ ∀ dest len, ∃ handle,
      stream.readSegments q i dest 0 len =
        some ⟨handle, dest.write n (data.drop n), some (len + data.length)⟩) := by
  cases h with
  | @last _ _ m _ segment stored holds needed ends room =>
    exact .inl ⟨rfl, fun dest len =>
      ⟨some q, readSegments_of_last stored holds needed ends room dest 0 len⟩⟩
  | @next _ _ m k _ segment stored holds continued full rest =>
    have hpos : 0 < (m + 1) * layout.sizeHint.blockDataSize :=
      Nat.mul_pos (Nat.succ_pos _) layout.sizeHint.blockDataSize_pos
    have hk : 0 < k := by cases rest <;> omega
    refine .inr ⟨by omega, _, hpos, continued, fun dest len => ?_⟩
    obtain ⟨handle, hrest⟩ := @Holds.readSegments _ _ _ _ _ _ dest _
      (len + (m + 1) * layout.sizeHint.blockDataSize) rest hpos.ne'
    refine ⟨handle, ?_⟩
    rw [readSegments_of_next stored holds continued full, Nat.zero_add]
    unfold copyTo
    rw [if_pos rfl, hrest, List.length_drop, Nat.add_assoc, Nat.add_sub_of_le continued.le]

end VariableStream

end Simutrace
