import Simutrace.Library.LittleEndian
import Mathlib.Algebra.Group.Nat.Defs
import Simutrace.Library.Storage

/-! # The simtrace file format

A store file starts with a header. Frames and frame directories follow in the
order they were reserved. A directory is an array of entries, each of which is
free, holds the header and offset of a frame, or links to the next directory.
-/

namespace Simutrace.Simtrace3

/-- A position in the store file. -/
abbrev FileOffset := BitVec 64

def frameMarker : ℕ := 0x454D5246

def directoryLinkMarker : ℕ := 0x4B4E4C44

def directorySize : ℕ := 1024

def directoryTableSize : ℕ := 448

/-- The first bytes of a store file. -/
def signature : ℕ := 0x65636172746d6953

def headerReservedSpace : ℕ := 0x1000

def frameHeaderSize : ℕ := 120

def directoryEntrySize : ℕ := 128

def attributeHeaderSize : ℕ := 32

def satStreamDescription : BitVec 8 := 1

def satAssociatedStreams : BitVec 8 := 2

/-- Files cannot grow beyond what an offset can address. -/
def fileSizeLimit : ℕ := 2 ^ 64 - 1

/-- The header of a frame; its marker and its reserved bytes are the same in all frames. -/
structure FrameHeader where
  sequenceNumber : BitVec 32
  streamId : BitVec 32
  typeId : BitVec 128
  entryCount : BitVec 32
  rawEntryCount : BitVec 32
  startTime : BitVec 64
  endTime : BitVec 64
  startCycle : BitVec 64
  endCycle : BitVec 64
  startIndex : BitVec 64
  totalSize : BitVec 64
  attribute₀ : BitVec 64
  attribute₁ : BitVec 64
  attributeCount : BitVec 8
  checksum : BitVec 32
  deriving DecidableEq, Repr

namespace FrameHeader

def fieldSizes : List ℕ := [4, 4, 4, 4, 16, 4, 4, 8, 8, 8, 8, 8, 8, 8, 8, 8, 1, 3, 4]

def fields (h : FrameHeader) : List ℕ :=
  [frameMarker, 0, h.sequenceNumber.toNat, h.streamId.toNat, h.typeId.toNat, h.entryCount.toNat,
    h.rawEntryCount.toNat, h.startTime.toNat, h.endTime.toNat, h.startCycle.toNat,
    h.endCycle.toNat, h.startIndex.toNat, h.totalSize.toNat, 0, h.attribute₀.toNat,
    h.attribute₁.toNat, h.attributeCount.toNat, 0, h.checksum.toNat]

def toBytes (h : FrameHeader) : List UInt8 := LittleEndian.pack fieldSizes h.fields

def ofFields : List ℕ → Option FrameHeader
  | [_, _, sqn, stream, type, entries, raw, startTime, endTime, startCycle, endCycle, startIndex,
      totalSize, _, attribute₀, attribute₁, attributeCount, _, checksum] =>
    some ⟨.ofNat 32 sqn, .ofNat 32 stream, .ofNat 128 type, .ofNat 32 entries, .ofNat 32 raw,
      .ofNat 64 startTime, .ofNat 64 endTime, .ofNat 64 startCycle, .ofNat 64 endCycle,
      .ofNat 64 startIndex, .ofNat 64 totalSize, .ofNat 64 attribute₀, .ofNat 64 attribute₁,
      .ofNat 8 attributeCount, .ofNat 32 checksum⟩
  | _ => none

/-- The header found at the start of a memory region. -/
def ofBytes (bs : List UInt8) : Option FrameHeader :=
  ofFields (LittleEndian.unpack fieldSizes bs)

@[simp] theorem length_toBytes (h : FrameHeader) : h.toBytes.length = frameHeaderSize :=
  LittleEndian.length_pack rfl

theorem ofFields_fields (h : FrameHeader) : ofFields h.fields = some h := by
  simp only [ofFields, fields, BitVec.ofNat_toNat, BitVec.setWidth_eq]

theorem fields_fit (h : FrameHeader) :
    List.Forall₂ (fun n x => x < 256 ^ n) fieldSizes h.fields := by
  have hfit {w n : ℕ} (x : BitVec w) (hw : w = 8 * n) : x.toNat < 256 ^ n := by
    subst hw
    calc x.toNat < 2 ^ (8 * n) := x.isLt
      _ = 256 ^ n := by rw [pow_mul]; norm_num
  simp only [fieldSizes, fields, List.forall₂_cons, List.forall₂_nil_left_iff, and_true]
  refine ⟨by decide, by decide, hfit _ rfl, hfit _ rfl, hfit _ rfl, hfit _ rfl, hfit _ rfl,
    hfit _ rfl, hfit _ rfl, hfit _ rfl, hfit _ rfl, hfit _ rfl, hfit _ rfl, by decide,
    hfit _ rfl, hfit _ rfl, hfit _ rfl, by decide, hfit _ rfl⟩

theorem ofBytes_toBytes (h : FrameHeader) (rest : List UInt8) :
    ofBytes (h.toBytes ++ rest) = some h := by
  rw [ofBytes, toBytes, LittleEndian.unpack_pack h.fields_fit, ofFields_fields]

end FrameHeader

structure FrameHeaderLink where
  frameHeader : FrameHeader
  offset : FileOffset
  deriving DecidableEq, Repr

/-- The contents of a directory slot, told apart by the marker value. -/
inductive FrameDirectoryEntry
  | free
  | framelink (link : FrameHeaderLink)
  | directoryLink (nextDirectory : FileOffset)
  deriving DecidableEq, Repr

namespace FrameHeaderLink

def toBytes (l : FrameHeaderLink) : List UInt8 :=
  l.frameHeader.toBytes ++ LittleEndian.ofWord l.offset

@[simp] theorem length_toBytes (l : FrameHeaderLink) : l.toBytes.length = directoryEntrySize := by
  simp [toBytes, frameHeaderSize, directoryEntrySize]

end FrameHeaderLink

namespace FrameDirectoryEntry

def markerValue (bs : List UInt8) : ℕ := LittleEndian.value (bs.take 4)

def ofBytes (bs : List UInt8) : FrameDirectoryEntry :=
  if markerValue bs = frameMarker then
    match FrameHeader.ofBytes bs with
    | some header => framelink ⟨header, LittleEndian.toWord 64 ((bs.drop frameHeaderSize).take 8)⟩
    | none => free
  else if markerValue bs = directoryLinkMarker then
    directoryLink (LittleEndian.toWord 64 ((bs.drop 8).take 8))
  else free

theorem ofBytes_framelink (l : FrameHeaderLink) : ofBytes l.toBytes = framelink l := by
  have hm : markerValue l.toBytes = frameMarker := by
    simp [markerValue, FrameHeaderLink.toBytes, FrameHeader.toBytes, FrameHeader.fieldSizes,
      FrameHeader.fields, LittleEndian.pack, List.take_left', frameMarker]
  have ho : (l.toBytes.drop frameHeaderSize).take 8 = LittleEndian.ofWord l.offset := by
    rw [FrameHeaderLink.toBytes, List.drop_left' (FrameHeader.length_toBytes _)]
    exact List.take_of_length_le (by simp)
  rw [ofBytes, if_pos hm, FrameHeaderLink.toBytes, FrameHeader.ofBytes_toBytes,
    ← FrameHeaderLink.toBytes, ho, LittleEndian.toWord_ofWord (by decide)]

theorem ofBytes_zero : ofBytes (List.replicate directoryEntrySize 0) = free := by decide

/-- A link is written as its marker and, behind four bytes of padding, the next directory. -/
theorem ofBytes_directoryLink {pad rest : List UInt8} (hp : pad.length = 4) (next : FileOffset) :
    ofBytes (LittleEndian.bytes 4 directoryLinkMarker ++ pad ++ LittleEndian.ofWord next ++ rest) =
      directoryLink next := by
  have hm : markerValue (LittleEndian.bytes 4 directoryLinkMarker ++ pad ++
      LittleEndian.ofWord next ++ rest) = directoryLinkMarker := by
    simp [markerValue, List.take_left', directoryLinkMarker]
  have hl : (LittleEndian.bytes 4 directoryLinkMarker ++ pad).length = 8 := by simp [hp]
  rw [ofBytes, hm, if_neg (by decide), if_pos rfl, List.append_assoc, List.drop_left' hl,
    List.take_left' (by simp), LittleEndian.toWord_ofWord (by decide)]

end FrameDirectoryEntry

end Simutrace.Simtrace3
