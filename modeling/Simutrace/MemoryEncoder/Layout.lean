import Mathlib.Data.Fin.Basic
import Mathlib.Tactic.NormNum

/-! # Layout of the memory encoder

The four memory entry types, and how the sub segments of a memory stream
segment are packed into the segments of its hidden streams.
-/

namespace Simutrace

/-- The segment size chosen at build time, in MiB. Raw entry counts have 32 bits. -/
structure BuildConfig where
  segmentMiB : ℕ
  pos : 0 < segmentMiB
  lt : segmentMiB < 4096

namespace BuildConfig

def segmentSize (cfg : BuildConfig) : ℕ := cfg.segmentMiB * 0x100000

def default : BuildConfig := ⟨64, by decide, by decide⟩

theorem segmentSize_pos (cfg : BuildConfig) : 0x100000 ≤ cfg.segmentSize := by
  have := cfg.pos
  rw [segmentSize]; omega

theorem segmentSize_lt (cfg : BuildConfig) : cfg.segmentSize < 2 ^ 32 := by
  have := cfg.lt
  rw [segmentSize]; omega

end BuildConfig

inductive AccessType
  | memoryAccess32 | dataMemoryAccess32 | memoryAccess64 | dataMemoryAccess64
  deriving DecidableEq, Repr

namespace AccessType

variable (t : AccessType)

/-- Bits of an address and of a data field. -/
abbrev width : AccessType → ℕ
  | memoryAccess32 | dataMemoryAccess32 => 32
  | memoryAccess64 | dataMemoryAccess64 => 64

def arch32Bit : Bool := t.width = 32

abbrev dataFieldCount : AccessType → ℕ
  | memoryAccess32 | memoryAccess64 => 1
  | dataMemoryAccess32 | dataMemoryAccess64 => 2

/-- The packed size of an entry: meta data, instruction pointer and data fields. -/
def entrySize : ℕ := 8 + (1 + t.dataFieldCount) * (t.width / 8)

abbrev idStreamCount : ℕ := 2 + t.dataFieldCount

abbrev dataStreamCount : ℕ := 1 + t.dataFieldCount

def lineCount : ℕ := if t.arch32Bit then 4 else 3

theorem eight_dvd_width : 8 ∣ t.width := by cases t <;> decide

theorem width_le_entrySize : t.width / 8 ≤ t.entrySize := by cases t <;> decide

theorem eight_le_entrySize : 8 ≤ t.entrySize := Nat.le_add_right _ _

theorem entrySize_le : t.entrySize ≤ 32 := by cases t <;> decide

end AccessType

namespace MemoryLayout

variable (cfg : BuildConfig) (t : AccessType)

def maxEntryCount : ℕ := cfg.segmentSize / t.entrySize

/-- How many sub segments with `size` bytes for an entry fit into a hidden segment. -/
def subSegmentCount (size : ℕ) : ℕ := cfg.segmentSize / (maxEntryCount cfg t * size)

def subSegmentSize (size : ℕ) : ℕ := cfg.segmentSize / subSegmentCount cfg t size

def dataSubSegmentCount : ℕ := subSegmentCount cfg t (t.width / 8)

def dataSubSegmentSize : ℕ := subSegmentSize cfg t (t.width / 8)

def cycleSubSegmentCount : ℕ := subSegmentCount cfg t 8

def cycleSubSegmentSize : ℕ := subSegmentSize cfg t 8

def metaSubSegmentCount : ℕ := subSegmentCount cfg t 2

def metaSubSegmentSize : ℕ := subSegmentSize cfg t 2

def idSubSegmentCount : ℕ := subSegmentCount cfg t 1

def idSubSegmentSize : ℕ := subSegmentSize cfg t 1

def fillChar : UInt8 := 0xFF

variable {cfg t}

theorem maxEntryCount_pos : 0 < maxEntryCount cfg t := by
  have h₁ := cfg.segmentSize_pos
  have h₂ := t.entrySize_le
  have h₃ := t.eight_le_entrySize
  exact Nat.div_pos (by omega) (by omega)

theorem maxEntryCount_mul_le {size : ℕ} (h : size ≤ t.entrySize) :
    maxEntryCount cfg t * size ≤ cfg.segmentSize :=
  (Nat.mul_le_mul_left _ h).trans (Nat.div_mul_le_self _ _)

theorem subSegmentCount_pos {size : ℕ} (hs : 0 < size) (h : size ≤ t.entrySize) :
    0 < subSegmentCount cfg t size :=
  Nat.div_pos (maxEntryCount_mul_le h) (Nat.mul_pos maxEntryCount_pos hs)

theorem maxEntryCount_mul_le_subSegmentSize {size : ℕ} (hs : 0 < size) (h : size ≤ t.entrySize) :
    maxEntryCount cfg t * size ≤ subSegmentSize cfg t size := by
  rw [subSegmentSize, Nat.le_div_iff_mul_le (subSegmentCount_pos hs h), Nat.mul_comm]
  exact Nat.div_mul_le_self _ _

theorem subSegmentSize_mul_le (size : ℕ) :
    subSegmentSize cfg t size * subSegmentCount cfg t size ≤ cfg.segmentSize :=
  Nat.div_mul_le_self _ _

example : dataSubSegmentCount .default .dataMemoryAccess64 = 4 ∧
    idSubSegmentCount .default .memoryAccess32 = 16 := by decide

end MemoryLayout

end Simutrace
