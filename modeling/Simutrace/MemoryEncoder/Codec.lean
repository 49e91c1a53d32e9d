import Simutrace.MemoryEncoder.Layout
import Simutrace.Vpc4.Predictors

/-! # Encoding and decoding a memory segment

The entries of a memory stream segment are turned into predictor ids and
unpredicted data, each kind in a sub segment of its own hidden stream. The
decoder reads the sub segments with freshly constructed predictors.
-/

namespace Simutrace

open Vpc4

structure MemoryEntry (t : AccessType) where
  metadata : BitVec 64
  ip : BitVec t.width
  dataFields : Fin t.dataFieldCount → BitVec t.width

namespace MetaData

/-- The low 48 bits of the meta data hold the cycle count. -/
def cycleCountMask : BitVec 64 := BitVec.ofNat 64 (2 ^ 48 - 1)

def cycleCount (value : BitVec 64) : BitVec 64 := value &&& cycleCountMask

def setCycleCount (value cycle : BitVec 64) : BitVec 64 :=
  (value &&& ~~~cycleCountMask) ||| (cycle &&& cycleCountMask)

def toBits (value : BitVec 64) : BitVec 16 := ((value &&& ~~~cycleCountMask) >>> 48).setWidth 16

def ofBits (bits : BitVec 16) : BitVec 64 := bits.setWidth 64 <<< 48

theorem getLsbD_cycleCountMask (i : ℕ) : cycleCountMask.getLsbD i = decide (i < 48) := by
  rw [cycleCountMask, BitVec.getLsbD, BitVec.toNat_ofNat, Nat.mod_eq_of_lt (by norm_num),
    Nat.testBit_two_pow_sub_one]

theorem setCycleCount_ofBits (value : BitVec 64) :
    setCycleCount (ofBits (toBits value)) (cycleCount value) = value := by
  apply BitVec.eq_of_getLsbD_eq
  intro i hi
  simp only [setCycleCount, ofBits, toBits, cycleCount, BitVec.getLsbD_or, BitVec.getLsbD_and,
    BitVec.getLsbD_not, getLsbD_cycleCountMask, BitVec.getLsbD_shiftLeft, BitVec.getLsbD_setWidth,
    BitVec.getLsbD_ushiftRight]
  rcases Nat.lt_or_ge i 48 with h | h
  · simp [h]
  · have hl : ¬ i < 48 := by omega
    have h₁ : i - 48 < 64 := by omega
    have h₂ : i - 48 < 16 := by omega
    have hs : 48 + (i - 48) = i := by omega
    simp [hl, hs, h₁, h₂, hi]

end MetaData

/-- The buffers mapped for one memory stream segment. -/
structure SubSegments (t : AccessType) where
  metaData : List UInt8
  ids : Fin t.idStreamCount → List UInt8
  data : Fin t.dataStreamCount → List UInt8
  cycle : List UInt8

namespace SubSegments

variable {t : AccessType}

def ipId : Fin t.idStreamCount := ⟨0, by rw [AccessType.idStreamCount]; omega⟩

def fieldId (i : Fin t.dataFieldCount) : Fin t.idStreamCount :=
  ⟨i + 1, by rw [AccessType.idStreamCount]; omega⟩

def cycleId : Fin t.idStreamCount := 
  ⟨1 + t.dataFieldCount, by rw [AccessType.idStreamCount]; omega⟩

def ipData : Fin t.dataStreamCount := ⟨0, by rw [AccessType.dataStreamCount]; omega⟩

def fieldData (i : Fin t.dataFieldCount) : Fin t.dataStreamCount :=
  ⟨i + 1, by rw [AccessType.dataStreamCount]; omega⟩

structure Sized (cfg : BuildConfig) (b : SubSegments t) : Prop where
  metaData : b.metaData.length = MemoryLayout.metaSubSegmentSize cfg t
  ids : ∀ i, (b.ids i).length = MemoryLayout.idSubSegmentSize cfg t
  data : ∀ i, (b.data i).length = MemoryLayout.dataSubSegmentSize cfg t
  cycle : b.cycle.length = MemoryLayout.cycleSubSegmentSize cfg t

/-- Sub segments of a freshly mapped store: all bytes are zero. -/
def cleared (cfg : BuildConfig) (t : AccessType) : SubSegments t where
  metaData := List.replicate (MemoryLayout.metaSubSegmentSize cfg t) 0
  ids _ := List.replicate (MemoryLayout.idSubSegmentSize cfg t) 0
  data _ := List.replicate (MemoryLayout.dataSubSegmentSize cfg t) 0
  cycle := List.replicate (MemoryLayout.cycleSubSegmentSize cfg t) 0

theorem sized_cleared (cfg : BuildConfig) (t : AccessType) : (cleared cfg t).Sized cfg :=
  ⟨List.length_replicate, fun _ => List.length_replicate, fun _ => List.length_replicate,
    List.length_replicate⟩

end SubSegments

structure PredictorMemory (t : AccessType) where
  ip : FcmOrder → UsageMemory 2
  cycle : FcmOrder → UsageMemory 2
  values : Fin t.dataFieldCount → (o : ValueOrder) → UsageMemory o.lineLength

/-- The predictors with the write or read pointers into the sub segments. -/
structure Coder (t : AccessType) where
  ip : Channel (FcmPair t.width)
  values : Fin t.dataFieldCount → Channel (ValuePredictor t.width)
  cycle : Channel CyclePredictor
  metaDataBuffer : Cursor

/-- All results of a loop over independent parts, unless one of them failed. -/
def allSome {n : ℕ} {α : Type} (f : Fin n → Option α) : Option (Fin n → α) :=
  if h : ∀ i, (f i).isSome then some fun i => (f i).get (h i) else none

theorem allSome_eq_some_iff {n : ℕ} {α : Type} {f : Fin n → Option α} {g : Fin n → α} :
    allSome f = some g ↔ ∀ i, f i = some (g i) := by
  unfold allSome
  split
  · rename_i h
    rw [Option.some_inj, funext_iff]
    exact forall_congr' fun i => (Option.eq_some_iff_get_eq.trans ⟨fun ⟨_, e⟩ => e,
      fun e => ⟨h i, e⟩⟩).symm
  · rename_i h
    exact iff_of_false (by simp) fun hg => h fun i => by simp [hg i]

namespace Coder

variable {t : AccessType}

def start (memory : PredictorMemory t) (startCycle : BitVec 64) (b : SubSegments t) : Coder t where
  ip := ⟨.new memory.ip, ⟨b.ids SubSegments.ipId, 0⟩, ⟨b.data SubSegments.ipData, 0⟩⟩
  values i := ⟨.new (memory.values i), ⟨b.ids (SubSegments.fieldId i), 0⟩,
    ⟨b.data (SubSegments.fieldData i), 0⟩⟩
  cycle := ⟨.new memory.cycle startCycle, ⟨b.ids SubSegments.cycleId, 0⟩, ⟨b.cycle, 0⟩⟩
  metaDataBuffer := ⟨b.metaData, 0⟩

def encodeEntry (c : Coder t) (entry : MemoryEntry t) : Option (Coder t) := do
  let ip ← IpPredictor.encodeIp c.ip entry.ip
  let values ← allSome fun i =>
    ValuePredictor.encodeValue (c.values i) (entry.dataFields i) entry.ip
  let cycle ← CyclePredictor.encodeCycle c.cycle (MetaData.cycleCount entry.metadata) entry.ip
  let metaDataBuffer ← c.metaDataBuffer.putWord (MetaData.toBits entry.metadata)
  return ⟨ip, values, cycle, metaDataBuffer⟩

def decodeEntry (c : Coder t) : Option (MemoryEntry t × Coder t) := do
  let (entryIp, ip) ← IpPredictor.decodeIp c.ip
  let values ← allSome fun i => ValuePredictor.decodeValue (c.values i) entryIp
  let (bits, metaDataBuffer) ← c.metaDataBuffer.getWord 16
  let (cycleCount, cycle) ← CyclePredictor.decodeCycle c.cycle entryIp
  return (
    ⟨MetaData.setCycleCount (MetaData.ofBits bits) cycleCount, entryIp, fun i => (values i).1⟩,
    ⟨ip, fun i => (values i).2, cycle, metaDataBuffer⟩)

/-- The sub segments as the encoder leaves them. The unused space for data and cycle counts is
filled, that for ids and meta data is not. -/
def finish (c : Coder t) : SubSegments t where
  metaData := c.metaDataBuffer.bytes
  ids k :=
    if h : 0 < k.val ∧ k.val < 1 + t.dataFieldCount then
      (c.values ⟨k.val - 1, by omega⟩).codeBuffer.bytes
    else if k.val = 0 then c.ip.codeBuffer.bytes else c.cycle.codeBuffer.bytes
  data k :=
    if h : 0 < k.val then
      have : k.val < 1 + t.dataFieldCount := k.isLt
      ((c.values ⟨k.val - 1, by omega⟩).dataBuffer.fillRest MemoryLayout.fillChar).bytes
    else (c.ip.dataBuffer.fillRest MemoryLayout.fillChar).bytes
  cycle := (c.cycle.dataBuffer.fillRest MemoryLayout.fillChar).bytes

def decodeEntries : ℕ → Coder t → Option (List (MemoryEntry t))
  | 0, _ => some []
  | n + 1, c => do
    let (entry, c) ← c.decodeEntry
    let entries ← decodeEntries n c
    return entry :: entries

end Coder

def encode {t : AccessType} (memory : PredictorMemory t) (startCycle : BitVec 64)
    (entries : List (MemoryEntry t)) (b : SubSegments t) : Option (SubSegments t) := do
  let c ← entries.foldlM Coder.encodeEntry (Coder.start memory startCycle b)
  return c.finish

def decode {t : AccessType} (memory : PredictorMemory t) (startCycle : BitVec 64)
    (entryCount : ℕ) (b : SubSegments t) : Option (List (MemoryEntry t)) :=
  (Coder.start memory startCycle b).decodeEntries entryCount

end Simutrace
