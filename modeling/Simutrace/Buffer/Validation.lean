import Mathlib.Algebra.Group.Nat.Defs
import Simutrace.Buffer.FailedSubmit

/-! # The check of a submitted segment

The product of the entry size and the entry count has 32 bits. A segment may be
handed to the encoder with more entries than there is room for, if the product
wraps to a number that is not larger than the segment.
-/

namespace Simutrace.Buffer

variable {n : ℕ}

namespace ServerStream

variable (stream : ServerStream)

/-- The offset of `getSegmentEnd` and the length that the generic encoder compresses. -/
def getSegmentEnd (control : SegmentControlElement) : ℕ :=
  ((if stream.isVariableEntrySize then stream.getEntrySize else stream.entrySize) *
    control.rawEntryCount).toNat

def encodeLoop : ℕ → ℕ → List ℕ
  | 0, _ => []
  | count + 1, entryBuffer => entryBuffer :: encodeLoop count
      (entryBuffer + stream.getEntrySize.toNat)

structure Inside (segmentSize : ℕ) (control : SegmentControlElement) : Prop where
  product : stream.getEntrySize.toNat * control.rawEntryCount.toNat ≤ segmentSize
  segmentEnd : stream.getSegmentEnd control ≤ segmentSize
  entries : ∀ offset ∈ stream.encodeLoop control.rawEntryCount.toNat 0,
    offset + stream.getEntrySize.toNat ≤ segmentSize

variable {stream} {control : SegmentControlElement}

theorem getEntrySize_of_fixed (h : stream.isVariableEntrySize = false) :
    stream.getEntrySize = stream.entrySize := by
  have hflag : stream.entrySize &&& variableEntrySizeFlag = 0 := by
    unfold isVariableEntrySize at h
    simpa using h
  unfold getEntrySize
  refine BitVec.eq_of_getLsbD_eq fun i hi => ?_
  have hbit : (stream.entrySize &&& variableEntrySizeFlag).getLsbD i = false := by
    rw [hflag]
    exact BitVec.getLsbD_zero
  rw [BitVec.getLsbD_and] at hbit
  rw [BitVec.getLsbD_and, BitVec.getLsbD_not, decide_eq_true hi, Bool.true_and]
  cases hentry : stream.entrySize.getLsbD i with
  | false => rfl
  | true =>
    rw [hentry, Bool.true_and] at hbit
    rw [hbit]
    rfl

theorem getSegmentEnd_eq : stream.getSegmentEnd control =
    stream.getEntrySize.toNat * control.rawEntryCount.toNat % 2 ^ 32 := by
  have hsize : (if stream.isVariableEntrySize then stream.getEntrySize else stream.entrySize) =
      stream.getEntrySize := by
    split
    · rfl
    · exact (getEntrySize_of_fixed (Bool.eq_false_of_not_eq_true ‹_›)).symm
  unfold getSegmentEnd
  rw [hsize, BitVec.toNat_mul]

theorem le_of_mem_encodeLoop {count entryBuffer offset : ℕ}
    (h : offset ∈ stream.encodeLoop count entryBuffer) :
    offset + stream.getEntrySize.toNat ≤ entryBuffer + stream.getEntrySize.toNat * count := by
  induction count generalizing entryBuffer with
  | zero => cases h
  | succ count ih =>
    rw [Nat.mul_succ]
    rcases List.mem_cons.mp h with rfl | h
    · omega
    · have := ih h
      omega

theorem inside_iff {segmentSize : ℕ} : stream.Inside segmentSize control ↔
    stream.getEntrySize.toNat * control.rawEntryCount.toNat ≤ segmentSize := by
  refine ⟨Inside.product, fun h => ⟨h, ?_, fun offset hoffset => ?_⟩⟩
  · rw [getSegmentEnd_eq]
    exact (Nat.mod_le _ _).trans h
  · have := le_of_mem_encodeLoop hoffset
    omega

end ServerStream

namespace ServerStreamBuffer

variable {b : ServerStreamBuffer n} {seg : Fin n} {stream : ServerStream}
  {client : ClientSegment} {s : Segment n}

def SubmitsInside (b : ServerStreamBuffer n) (seg : Fin n) (client : ClientSegment) : Prop :=
  ∀ stream s, (b.segments seg).stream = some stream →
    b.handed seg client = some (.writing, s) → stream.Inside b.segmentSize s.control

theorem entriesValid_iff : b.entriesValid stream (fixEntryCount stream
      (b.copyControl stream seg client)) = true ↔
    stream.getEntrySize.toNat * client.rawEntryCount.toNat % 2 ^ 32 ≤ b.segmentSize ∧
      (stream.isVariableEntrySize = true → client.entryCount ≤ client.rawEntryCount) := by
  unfold entriesValid fixEntryCount
  cases stream.isVariableEntrySize <;> simp [copyControl, BitVec.toNat_mul]

/-- A segment is handed to the encoder if it is writable, not empty, and passes all checks. -/
theorem handed_writing_iff (hs : (b.segments seg).stream = some stream) :
    (∃ s, b.handed seg client = some (.writing, s)) ↔ (b.segments seg).flags.readOnly = false ∧
      client.cookieValid = true ∧ client.rawEntryCount ≠ 0 ∧
      (stream.getEntrySize.toNat * client.rawEntryCount.toNat % 2 ^ 32 ≤ b.segmentSize ∧
        (stream.isVariableEntrySize = true → client.entryCount ≤ client.rawEntryCount)) ∧
      cyclesValid stream client = true := by
  cases hw : (b.segments seg).flags.readOnly with
  | true =>
    refine iff_of_false ?_ (fun h => by cases h.1)
    rintro ⟨s, h⟩
    unfold handed submitUnchecked at h
    rw [hs, Option.bind_some, hw, if_pos rfl] at h
    split at h
    · rw [Option.map_map] at h
      obtain ⟨_, -, h⟩ := Option.map_eq_some_iff.mp h
      cases h
    · cases h
  | false =>
    rw [handed_writable hs hw, ← @entriesValid_iff n b seg]
    dsimp only
    have hraw : (b.copyControl stream seg client).rawEntryCount = client.rawEntryCount := rfl
    rw [hraw, ← Bool.and_eq_true]
    split_ifs with hcookie hempty hvalid
    · simp [hcookie]
    · simp [hempty]
    · exact iff_of_true ⟨_, rfl⟩ ⟨rfl, Bool.eq_true_of_not_eq_false hcookie, hempty, hvalid⟩
    · refine iff_of_false ?_ (fun h => hvalid h.2.2.2)
      rintro ⟨s, h⟩
      cases h

theorem rawEntryCount_of_handed (hs : (b.segments seg).stream = some stream)
    (h : b.handed seg client = some (.writing, s)) :
    s.control.rawEntryCount = client.rawEntryCount := by
  have hw := ((handed_writing_iff hs).mp ⟨s, h⟩).1
  rw [handed_writable hs hw] at h
  dsimp only at h
  split_ifs at h
  · cases h
  · cases h
  · obtain rfl := congrArg Prod.snd (Option.some.inj h)
    change (fixEntryCount stream (b.copyControl stream seg client)).rawEntryCount = _
    unfold fixEntryCount
    split <;> rfl
  · cases h

/-- What a submission hands over is inside the segment, unless the product of an otherwise valid
submission wraps to a number that is not larger than the segment. -/
theorem submitsInside_iff (hs : (b.segments seg).stream = some stream)
    (small : b.segmentSize < 2 ^ 32) : b.SubmitsInside seg client ↔
      stream.getEntrySize.toNat * client.rawEntryCount.toNat < 2 ^ 32 ∨
      b.segmentSize < stream.getEntrySize.toNat * client.rawEntryCount.toNat % 2 ^ 32 ∨
      (stream.isVariableEntrySize = true ∧ client.rawEntryCount < client.entryCount) ∨
      cyclesValid stream client = false ∨ client.cookieValid = false ∨
      (b.segments seg).flags.readOnly = true := by
  have hinside : b.SubmitsInside seg client ↔ ((∃ s, b.handed seg client = some (.writing, s)) →
      stream.getEntrySize.toNat * client.rawEntryCount.toNat ≤ b.segmentSize) := by
    constructor
    · rintro h ⟨s, hhanded⟩
      have hproduct := (h stream s hs hhanded).product
      rwa [rawEntryCount_of_handed hs hhanded] at hproduct
    · intro h stream' s hs' hhanded
      obtain rfl := Option.some.inj (hs.symm.trans hs')
      rw [ServerStream.inside_iff, rawEntryCount_of_handed hs hhanded]
      exact h ⟨s, hhanded⟩
  rw [hinside, handed_writing_iff hs]
  constructor
  · intro h
    by_contra hnot
    simp only [not_or, not_and, not_lt] at hnot
    obtain ⟨hwraps, hle, hcounts, hcycles, hcookie, hwritable⟩ := hnot
    have hne : client.rawEntryCount ≠ 0 := by
      rintro hzero
      rw [hzero] at hwraps
      exact absurd hwraps (by simp)
    have := h ⟨Bool.eq_false_of_not_eq_true hwritable, Bool.eq_true_of_not_eq_false hcookie, hne,
      ⟨hle, fun hv => BitVec.not_lt.mp (hcounts hv)⟩, Bool.eq_true_of_not_eq_false hcycles⟩
    omega
  · rintro h ⟨hw, hcookie, -, ⟨hle, hcounts⟩, hcycles⟩
    rcases h with h | h | ⟨hv, h⟩ | h | h | h
    · rwa [Nat.mod_eq_of_lt h] at hle
    · exact absurd hle (not_le.mpr h)
    · exact absurd (hcounts hv) (BitVec.not_le.mpr h)
    · cases hcycles.symm.trans h
    · cases hcookie.symm.trans h
    · cases hw.symm.trans h

/-- A segment of 64 MiB that was requested to write entries of sixteen bytes. -/
def requestedSegment : ServerStreamBuffer 1 :=
  match (initial 1 (64 * 2 ^ 20) true).requestUnchecked (some ⟨0, 1, 16, false⟩) 0 ⟨false, false⟩
    none with
  | some (_, b) => b
  | none => initial 1 (64 * 2 ^ 20) true

/-- The count with which the product wraps to zero. -/
def wrappingClient : ClientSegment := ⟨0, 0x10000000, true, 0, 0⟩

theorem submitsInside_requestedSegment :
    requestedSegment.SubmitsInside 0 ⟨0, 4, true, 0, 0⟩ ↔
      16 * 4 < 2 ^ 32 ∨ 64 * 2 ^ 20 < 16 * 4 % 2 ^ 32 ∨
      ((⟨0, 1, 16, false⟩ : ServerStream).isVariableEntrySize = true ∧ (4 : BitVec 32) < 0) ∨
      cyclesValid ⟨0, 1, 16, false⟩ ⟨0, 4, true, 0, 0⟩ = false ∨ true = false ∨
      (requestedSegment.segments 0).flags.readOnly = true :=
  @submitsInside_iff 1 requestedSegment 0 ⟨0, 1, 16, false⟩ ⟨0, 4, true, 0, 0⟩ rfl (by decide)

/-- A segment with room for four million entries is handed over with sixty-four times as many. -/
theorem not_submitsInside_wrapping : ¬ requestedSegment.SubmitsInside 0 wrappingClient := by
  intro h
  obtain ⟨s, hs⟩ := (@handed_writing_iff 1 requestedSegment 0 ⟨0, 1, 16, false⟩ wrappingClient
    rfl).mpr (by decide)
  have hproduct := (h ⟨0, 1, 16, false⟩ s rfl hs).product
  rw [rawEntryCount_of_handed rfl hs] at hproduct
  exact absurd hproduct (by decide)

end ServerStreamBuffer

end Simutrace.Buffer
