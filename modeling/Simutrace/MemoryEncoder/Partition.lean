import Simutrace.Library.EqualParts
import Simutrace.MemoryEncoder.SegmentBounds

/-! # Sub segments for any segment size

The layout of the memory encoder follows from the segment size of the build. For
every size that holds an entry, the divisions leave each sub segment with room
for all entries of a memory stream segment, and the encoder stays inside.
-/

namespace Simutrace

open Vpc4

namespace AccessType

variable {t : AccessType}

theorem totalStreamCount_pos : 0 < t.totalStreamCount := Nat.succ_pos _

theorem idStream_lt (i : Fin t.idStreamCount) : i + 1 < t.totalStreamCount := by
  rw [totalStreamCount]
  omega

theorem dataStream_lt (i : Fin t.dataStreamCount) :
    t.idStreamCount + i + 1 < t.totalStreamCount := by
  rw [totalStreamCount]
  omega

theorem cycleStream_lt : t.idStreamCount + t.dataStreamCount + 1 < t.totalStreamCount :=
  Nat.lt_succ_self _

end AccessType

namespace SegmentLayout

variable (segmentSize : ℕ) (t : AccessType)

def maxEntryCount : ℕ := segmentSize / t.entrySize

/-- The number of sub segments with `size` bytes for an entry, cast to 32 bits. -/
def subSegmentCount (size : ℕ) : ℕ := segmentSize / (maxEntryCount segmentSize t * size) % 2 ^ 32

def subSegmentSize (size : ℕ) : ℕ := segmentSize / subSegmentCount segmentSize t size

def subSegmentStart (k : ℕ) (n : StreamSegmentId) : ℕ :=
  n % subSegmentCount segmentSize t (t.hiddenEntrySize k) *
    subSegmentSize segmentSize t (t.hiddenEntrySize k)

def getSubSegment (k : ℕ) (n : StreamSegmentId) (segment : List UInt8) : List UInt8 :=
  (segment.drop (subSegmentStart segmentSize t k n)).take
    (subSegmentSize segmentSize t (t.hiddenEntrySize k))

def mapSubSegments (n : StreamSegmentId) (segments : Fin t.totalStreamCount → List UInt8) :
    SubSegments t where
  metaData := getSubSegment segmentSize t 0 n (segments ⟨0, AccessType.totalStreamCount_pos⟩)
  ids i := getSubSegment segmentSize t (i + 1) n (segments ⟨i + 1, AccessType.idStream_lt i⟩)
  data i := getSubSegment segmentSize t (t.idStreamCount + i + 1) n
    (segments ⟨t.idStreamCount + i + 1, AccessType.dataStream_lt i⟩)
  cycle := getSubSegment segmentSize t (t.idStreamCount + t.dataStreamCount + 1) n
    (segments ⟨t.idStreamCount + t.dataStreamCount + 1, AccessType.cycleStream_lt⟩)

variable {segmentSize t} {size k : ℕ} {n n' : StreamSegmentId}

theorem maxEntryCount_mul_le (hle : size ≤ t.entrySize) :
    maxEntryCount segmentSize t * size ≤ segmentSize :=
  (Nat.mul_le_mul_left _ hle).trans (Nat.div_mul_le_self _ _)

theorem subSegmentCount_eq (h : t.entrySize ≤ segmentSize) (hpos : 0 < size) :
    subSegmentCount segmentSize t size = segmentSize / (maxEntryCount segmentSize t * size) := by
  have hentry : 0 < t.entrySize := Nat.zero_lt_of_lt t.eight_le_entrySize
  have hlt := EqualParts.count_lt h hentry hpos
  have hbound := t.entrySize_le
  exact Nat.mod_eq_of_lt (hlt.trans (by omega))

theorem subSegmentCount_pos (h : t.entrySize ≤ segmentSize) (hpos : 0 < size)
    (hle : size ≤ t.entrySize) : 0 < subSegmentCount segmentSize t size := by
  have hentry : 0 < t.entrySize := Nat.zero_lt_of_lt t.eight_le_entrySize
  rw [subSegmentCount_eq h hpos]
  exact Nat.div_pos (maxEntryCount_mul_le hle) (Nat.mul_pos (Nat.div_pos h hentry) hpos)

theorem maxEntryCount_mul_le_subSegmentSize (h : t.entrySize ≤ segmentSize) (hpos : 0 < size)
    (hle : size ≤ t.entrySize) :
    maxEntryCount segmentSize t * size ≤ subSegmentSize segmentSize t size := by
  rw [subSegmentSize, subSegmentCount_eq h hpos]
  exact EqualParts.required_le (maxEntryCount_mul_le hle)

theorem subSegmentCount_segmentSize (cfg : BuildConfig) (hpos : 0 < size) :
    subSegmentCount cfg.segmentSize t size = MemoryLayout.subSegmentCount cfg t size := by
  have h₁ := cfg.segmentSize_pos
  have h₂ := t.entrySize_le
  exact subSegmentCount_eq (by omega) hpos

theorem subSegmentStart_le (h : t.entrySize ≤ segmentSize) (k : ℕ) (n : StreamSegmentId) :
    subSegmentStart segmentSize t k n + subSegmentSize segmentSize t (t.hiddenEntrySize k) ≤
      segmentSize :=
  EqualParts.end_le (Nat.mod_lt n
    (subSegmentCount_pos h AccessType.hiddenEntrySize_pos AccessType.hiddenEntrySize_le))

theorem disjoint_subSegments (k : ℕ) (hne : n ≠ n')
    (same : n / subSegmentCount segmentSize t (t.hiddenEntrySize k) =
      n' / subSegmentCount segmentSize t (t.hiddenEntrySize k)) :
    subSegmentStart segmentSize t k n + subSegmentSize segmentSize t (t.hiddenEntrySize k) ≤
        subSegmentStart segmentSize t k n' ∨
      subSegmentStart segmentSize t k n' + subSegmentSize segmentSize t (t.hiddenEntrySize k) ≤
        subSegmentStart segmentSize t k n :=
  EqualParts.disjoint (EqualParts.mod_ne_of_div_eq hne same) _

theorem length_getSubSegment (h : t.entrySize ≤ segmentSize) {segment : List UInt8}
    (length : segment.length = segmentSize) : (getSubSegment segmentSize t k n segment).length =
      subSegmentSize segmentSize t (t.hiddenEntrySize k) := by
  have hend := subSegmentStart_le h k n
  rw [getSubSegment, List.length_take, List.length_drop, length]
  omega

/-- The pointer stands inside a sub segment of the given size or at its end. -/
structure Within (size : ℕ) (c : Cursor) : Prop where
  length : c.bytes.length = size
  pos : c.pos ≤ size

/-- All pointers stand inside their sub segments, so that the rest of these can be filled. -/
structure Inside (segmentSize : ℕ) (e : Coder t) : Prop where
  ipId : Within (subSegmentSize segmentSize t 1) e.ip.codeBuffer
  ipData : Within (subSegmentSize segmentSize t (t.width / 8)) e.ip.dataBuffer
  fieldId : ∀ i, Within (subSegmentSize segmentSize t 1) (e.values i).codeBuffer
  fieldData : ∀ i, Within (subSegmentSize segmentSize t (t.width / 8)) (e.values i).dataBuffer
  cycleId : Within (subSegmentSize segmentSize t 1) e.cycle.codeBuffer
  cycleData : Within (subSegmentSize segmentSize t 8) e.cycle.dataBuffer
  metaData : Within (subSegmentSize segmentSize t 2) e.metaDataBuffer

structure Sized (segmentSize : ℕ) (b : SubSegments t) : Prop where
  metaData : b.metaData.length = subSegmentSize segmentSize t 2
  ids : ∀ i, (b.ids i).length = subSegmentSize segmentSize t 1
  data : ∀ i, (b.data i).length = subSegmentSize segmentSize t (t.width / 8)
  cycle : b.cycle.length = subSegmentSize segmentSize t 8

theorem sized_mapSubSegments (h : t.entrySize ≤ segmentSize)
    {segments : Fin t.totalStreamCount → List UInt8}
    (length : ∀ k, (segments k).length = segmentSize) :
    Sized segmentSize (mapSubSegments segmentSize t n segments) where
  metaData := length_getSubSegment h (length _)
  ids i := by
    have hentry : t.hiddenEntrySize (i + 1) = 1 := by
      rw [AccessType.hiddenEntrySize, if_neg (by omega), if_pos (by omega)]
    exact (length_getSubSegment h (length _)).trans (by rw [hentry])
  data i := by
    have hentry : t.hiddenEntrySize (t.idStreamCount + i + 1) = t.width / 8 := by
      rw [AccessType.hiddenEntrySize, if_neg (by omega), if_neg (by omega), if_pos (by omega)]
    exact (length_getSubSegment h (length _)).trans (by rw [hentry])
  cycle := by
    have hentry : t.hiddenEntrySize (t.idStreamCount + t.dataStreamCount + 1) = 8 := by
      rw [AccessType.hiddenEntrySize, if_neg (by omega), if_neg (by omega), if_neg (by omega)]
    exact (length_getSubSegment h (length _)).trans (by rw [hentry])

variable {memory : PredictorMemory t} {startCycle : BitVec 64} {entries : List (MemoryEntry t)}
  {b : SubSegments t}

/-- Encoding entries that fit into a segment leaves all pointers inside, whatever is predicted. -/
theorem inside_foldlM (h : t.entrySize ≤ segmentSize) (sized : Sized segmentSize b)
    (fits : entries.length ≤ maxEntryCount segmentSize t) :
    ∃ e, entries.foldlM Coder.encodeEntry (Coder.start memory startCycle b) = some e ∧
      Inside segmentSize e := by
  have hsub (size : ℕ) (hpos : 0 < size) (hle : size ≤ t.entrySize) :
      entries.length * size ≤ subSegmentSize segmentSize t size :=
    (Nat.mul_le_mul_right size fits).trans (maxEntryCount_mul_le_subSegmentSize h hpos hle)
  have hwide : 0 < t.width / 8 := by cases t <;> decide
  have h₈ := t.eight_le_entrySize
  have hroom : Coder.Room (entries.length + 0) (Coder.start memory startCycle b) := by
    apply Coder.room_start_of_le
    · intro i
      have hone := hsub 1 (by omega) (by omega)
      rw [sized.ids]
      omega
    · intro i
      rw [sized.data]
      exact hsub _ hwide t.width_le_entrySize
    · rw [sized.cycle]
      exact hsub 8 (by omega) h₈
    · rw [sized.metaData]
      exact hsub 2 (by omega) (by omega)
  obtain ⟨e, he, hr⟩ := Coder.foldlM_of_room hroom
  have hext := Coder.extends_foldlM he
  have hwithin {size : ℕ} {c : Cursor} (length : c.bytes.length = size)
      (pos : c.pos ≤ c.bytes.length) : Within size c := ⟨length, length ▸ pos⟩
  refine ⟨e, he, ?_⟩
  constructor
  · exact hwithin (hext.ip.codeLength.trans (sized.ids _)) hr.ip.codeBuffer
  · exact hwithin (hext.ip.dataLength.trans (sized.data _)) (by simpa using hr.ip.dataBuffer)
  · exact fun i => hwithin ((hext.values i).codeLength.trans (sized.ids _))
      (hr.values i).codeBuffer
  · exact fun i => hwithin ((hext.values i).dataLength.trans (sized.data _))
      (by simpa using (hr.values i).dataBuffer)
  · exact hwithin (hext.cycle.codeLength.trans (sized.ids _)) hr.cycle.codeBuffer
  · exact hwithin (hext.cycle.dataLength.trans sized.cycle) (by simpa using hr.cycle.dataBuffer)
  · exact hwithin (hext.metaDataLength.trans sized.metaData) hr.metaDataBuffer

/-- For every segment size that holds an entry of each type, each sub segment has room for all
entries, those of one hidden segment are disjoint parts of it, and in each step of encoding a
segment all pointers are inside their sub segments. -/
theorem layout_sound (segmentSize : ℕ) (h : ∀ t : AccessType, t.entrySize ≤ segmentSize)
    (t : AccessType) :
    (∀ k, 0 < subSegmentCount segmentSize t (t.hiddenEntrySize k) ∧
      maxEntryCount segmentSize t * t.hiddenEntrySize k ≤
        subSegmentSize segmentSize t (t.hiddenEntrySize k)) ∧
    (∀ k n, subSegmentStart segmentSize t k n +
      subSegmentSize segmentSize t (t.hiddenEntrySize k) ≤ segmentSize) ∧
    (∀ k n n', n ≠ n' → n / subSegmentCount segmentSize t (t.hiddenEntrySize k) =
        n' / subSegmentCount segmentSize t (t.hiddenEntrySize k) →
      subSegmentStart segmentSize t k n + subSegmentSize segmentSize t (t.hiddenEntrySize k) ≤
          subSegmentStart segmentSize t k n' ∨
        subSegmentStart segmentSize t k n' + subSegmentSize segmentSize t (t.hiddenEntrySize k) ≤
          subSegmentStart segmentSize t k n) ∧
    ∀ (memory : PredictorMemory t) (startCycle : BitVec 64) (n : StreamSegmentId)
      (segments : Fin t.totalStreamCount → List UInt8),
      (∀ k, (segments k).length = segmentSize) →
      ∀ entries : List (MemoryEntry t), entries.length ≤ maxEntryCount segmentSize t →
        ∀ before after, entries = before ++ after → ∃ e,
          before.foldlM Coder.encodeEntry
            (Coder.start memory startCycle (mapSubSegments segmentSize t n segments)) = some e ∧
          Inside segmentSize e := by
  refine ⟨fun k => ⟨?_, ?_⟩, subSegmentStart_le (h t), fun k n n' => disjoint_subSegments k, ?_⟩
  · exact subSegmentCount_pos (h t) AccessType.hiddenEntrySize_pos AccessType.hiddenEntrySize_le
  · exact maxEntryCount_mul_le_subSegmentSize (h t) AccessType.hiddenEntrySize_pos
      AccessType.hiddenEntrySize_le
  · rintro memory startCycle n segments length _ fits before after rfl
    apply inside_foldlM (h t) (sized_mapSubSegments (h t) length)
    rw [List.length_append] at fits
    omega

theorem layout_sound_small : subSegmentStart 100 .dataMemoryAccess64 1 3 +
    subSegmentSize 100 .dataMemoryAccess64 1 ≤ 100 :=
  (layout_sound 100 (by intro t; cases t <;> decide) .dataMemoryAccess64).2.1 1 3

end SegmentLayout

end Simutrace
