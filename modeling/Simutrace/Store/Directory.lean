import Simutrace.Store.Format
import Mathlib.Data.BitVec
import Mathlib.Logic.Function.Basic

/-! # Frame directories

Committing a frame writes it to reserved space and enters a copy of its header
into the last directory. The last slot of a directory is kept for the link to
the next one. Opening a store follows the directories up to the first free slot.
-/

namespace Simutrace.Simtrace3

/-- An attribute of a frame with its data. The file layer refuses to write an empty buffer. -/
structure Attribute where
  type : BitVec 8
  uncompressedSize : BitVec 64
  buffer : List UInt8
  buffer_ne : buffer ≠ []

namespace Attribute

def marker : ℕ := 0x52545441

def toBytes (a : Attribute) : List UInt8 :=
  LittleEndian.pack [4, 1, 3, 8, 8, 8]
    [marker, a.type.toNat, 0, 0, a.buffer.length, a.uncompressedSize.toNat] ++ a.buffer

def size (a : Attribute) : ℕ := attributeHeaderSize + a.buffer.length

@[simp] theorem length_toBytes (a : Attribute) : a.toBytes.length = a.size := by
  simp [toBytes, size, LittleEndian.length_pack, attributeHeaderSize]

end Attribute

/-- A frame with its attributes; the header accounts for all of them. -/
structure Simtrace3Frame where
  header : FrameHeader
  attributes : List Attribute
  totalSize_eq : header.totalSize.toNat = frameHeaderSize + (attributes.map Attribute.size).sum

namespace Simtrace3Frame

/-- The frame as it is written to the store, the attributes in the order they were added. -/
def toBytes (f : Simtrace3Frame) : List UInt8 :=
  f.header.toBytes ++ f.attributes.flatMap Attribute.toBytes

def updateHash (murmur3 : List UInt8 → BitVec 32) (f : Simtrace3Frame) : Simtrace3Frame :=
  { f with header := { f.header with checksum := murmur3 (f.header.toBytes.take 116) } }

theorem length_toBytes (f : Simtrace3Frame) : f.toBytes.length = f.header.totalSize.toNat := by
  rw [f.totalSize_eq, toBytes, List.length_append, FrameHeader.length_toBytes,
    List.length_flatMap]
  simp only [Attribute.length_toBytes]

end Simtrace3Frame

/-- The header of a store file. The table has `directoryTableSize` entries, and what is written to
later ones overwrites the memory behind it. -/
structure SimtraceV3Header where
  fileSize : BitVec 64
  uncompressedFileSize : BitVec 64
  frameCount : ℕ
  entryCount : BitVec 64
  rawEntryCount : BitVec 64
  startTime : BitVec 64
  endTime : BitVec 64
  startCycle : BitVec 64
  endCycle : BitVec 64
  directoryCount : ℕ
  directoryCapacity : ℕ
  directories : ℕ → FileOffset

structure StoreFile where
  header : SimtraceV3Header
  storage : Storage

/-- Where an access to the store file fails while a frame is committed. A failed write of a frame
leaves some of its bytes in the file. -/
inductive IoFault
  | commitSpace
  | writeFrame (written : ℕ)
  | reserveDirectory
  | mapDirectory
  deriving DecidableEq, Repr

/-- An open store with the mapped directory and the index of its next free slot. -/
structure Simtrace3Store where
  file : StoreFile
  readMode : Bool
  directory : Option ℕ
  nextFrameIndex : ℕ

def entryOffset (dir index : ℕ) : ℕ := dir + index * directoryEntrySize

def slot (storage : Storage) (dir index : ℕ) : FrameDirectoryEntry :=
  .ofBytes (storage.read (entryOffset dir index) directoryEntrySize)

def slotMarker (storage : Storage) (dir index : ℕ) : ℕ :=
  FrameDirectoryEntry.markerValue (storage.read (entryOffset dir index) directoryEntrySize)

def SimtraceV3Header.init : SimtraceV3Header where
  fileSize := .ofNat 64 headerReservedSpace
  uncompressedFileSize := .ofNat 64 headerReservedSpace
  frameCount := 0
  entryCount := 0
  rawEntryCount := 0
  startTime := -1
  endTime := -1
  startCycle := -1
  endCycle := -1
  directoryCount := 0
  directoryCapacity := directorySize
  directories _ := 0

/-- Account a frame in the information about the store. -/
def SimtraceV3Header.addFrame (h : SimtraceV3Header) (frame : FrameHeader)
    (uncompressedSize : BitVec 64) : SimtraceV3Header :=
  { h with
    fileSize := h.fileSize + frame.totalSize
    uncompressedFileSize := h.uncompressedFileSize + uncompressedSize
    startTime := if frame.startTime < h.startTime then frame.startTime else h.startTime
    endTime := if h.endTime = -1 ∨ (frame.endTime ≠ -1 ∧ h.endTime < frame.endTime) then
      frame.endTime else h.endTime
    startCycle := if frame.startCycle < h.startCycle then frame.startCycle else h.startCycle
    endCycle := if h.endCycle = -1 ∨ (frame.endCycle ≠ -1 ∧ h.endCycle < frame.endCycle) then
      frame.endCycle else h.endCycle
    entryCount := h.entryCount + frame.entryCount.setWidth 64
    rawEntryCount := h.rawEntryCount + frame.rawEntryCount.setWidth 64 }

namespace Simtrace3Store

def createStore : Simtrace3Store where
  file := ⟨.init, { Storage.empty with size := headerReservedSpace }.write 0
    (LittleEndian.bytes 8 signature)⟩
  readMode := false
  directory := none
  nextFrameIndex := 0

variable (s : Simtrace3Store)

def setStorage (storage : Storage) : Simtrace3Store :=
  { s with file := { s.file with storage } }

def reserveSpace (length : ℕ) : Option (ℕ × Simtrace3Store) := do
  let (offset, storage) ← s.file.storage.reserve fileSizeLimit length
  let header := { s.file.header with
    fileSize := s.file.header.fileSize + .ofNat 64 length
    uncompressedFileSize := s.file.header.uncompressedFileSize + .ofNat 64 length }
  return (offset, { s with file := ⟨header, storage⟩ })

-- The count is compared with the capacity of a directory and not with the size of the table.
def recordDirectory (offset : ℕ) : Simtrace3Store :=
  let h := s.file.header
  let directories :=
    if h.directoryCount < h.directoryCapacity then
      Function.update h.directories h.directoryCount (.ofNat 64 offset)
    else h.directories
  let header := { h with directories, directoryCount := h.directoryCount + 1 }
  { s with file := { s.file with header } }

def linkDirectory (offset : ℕ) : Simtrace3Store :=
  match s.directory with
  | none => s
  | some dir =>
    let last := entryOffset dir (s.file.header.directoryCapacity - 1)
    let storage := s.file.storage.write last (LittleEndian.bytes 4 directoryLinkMarker)
    s.setStorage (storage.write (last + 8) (LittleEndian.ofWord (BitVec.ofNat 64 offset)))

def addDirectory (fault : Option IoFault) : Option Unit × Simtrace3Store :=
  match s.reserveSpace (s.file.header.directoryCapacity * directoryEntrySize) with
  | none => (none, s)
  | some (offset, s) =>
    if fault = some .reserveDirectory then (none, s)
    else
      let s := (s.recordDirectory offset).linkDirectory offset
      if fault = some .mapDirectory then (none, { s with directory := none })
      else (some (), { s with directory := some offset, nextFrameIndex := 0 })

def setSlot (dir : ℕ) (link : FrameHeaderLink) : Simtrace3Store :=
  let storage := s.file.storage.write (entryOffset dir s.nextFrameIndex) link.toBytes
  let header := { s.file.header with frameCount := s.file.header.frameCount + 1 }
  { s with file := ⟨header, storage⟩, nextFrameIndex := s.nextFrameIndex + 1 }

/-- Add a directory if the current one is full or none has been setup in the first place. -/
def prepareDirectory (fault : Option IoFault) : Option Unit × Simtrace3Store :=
  if s.directory = none ∨ s.nextFrameIndex = s.file.header.directoryCapacity - 1 then
    s.addDirectory fault
  else (some (), s)

def addFrameToDirectory (fault : Option IoFault) (link : FrameHeaderLink) :
    Option Unit × Simtrace3Store :=
  match s.prepareDirectory fault with
  | (none, s) => (none, s)
  | (some (), s) =>
    match s.directory with
    | none => (none, s)
    | some dir => (some (), s.setSlot dir link)

def addFrameToStoreInformation (frame : FrameHeader) (uncompressedSize : BitVec 64) :
    Simtrace3Store :=
  { s with file := { s.file with header := s.file.header.addFrame frame uncompressedSize } }

def writeFrame (fault : Option IoFault) (frame : Simtrace3Frame) : Option ℕ × Simtrace3Store :=
  match s.file.storage.reserve fileSizeLimit frame.header.totalSize.toNat with
  | none => (none, s)
  | some (offset, storage) =>
    match fault with
    | some .commitSpace => (none, s.setStorage storage)
    | some (.writeFrame written) =>
      (none, s.setStorage (storage.write offset (frame.toBytes.take written)))
    | _ => (some offset, s.setStorage (storage.write offset frame.toBytes))

def uncompressedBytes (frame : Simtrace3Frame) : BitVec 64 :=
  .ofNat 64 frameHeaderSize +
    (frame.attributes.map fun a => a.uncompressedSize + .ofNat 64 attributeHeaderSize).sum

/-- Write a frame to the store and then make it visible in the directory. Any failure on the way
switches the store to read-only mode. -/
def commitFrame (murmur3 : List UInt8 → BitVec 32) (fault : Option IoFault)
    (frame : Simtrace3Frame) : Option FileOffset × Simtrace3Store :=
  let frame := frame.updateHash murmur3
  if s.readMode ∨ frame.header.streamId = -1 then (none, s)
  else
    match s.writeFrame fault frame with
    | (none, s) => (none, { s with readMode := true })
    | (some offset, s) =>
      match s.addFrameToDirectory fault ⟨frame.header, .ofNat 64 offset⟩ with
      | (none, s) => (none, { s with readMode := true })
      | (some (), s) =>
        (some (.ofNat 64 offset),
          s.addFrameToStoreInformation frame.header (uncompressedBytes frame))

end Simtrace3Store

namespace StoreFile

variable {σ : Type} (f : StoreFile)

/-- Iterate over the entries from a slot on and open their frames. A build with assertions checks
that the marker of the last slot is zero. -/
def walk (assertions : Bool) (openFrame : σ → FrameHeaderLink → Option σ) :
    ℕ → ℕ → ℕ → σ → Option σ
  | 0, _, _, _ => none
  | fuel + 1, dir, index, st =>
    if f.header.directoryCapacity ≤ index then none
    else
      match slot f.storage dir index with
      | .framelink link =>
        (openFrame st link).bind (walk assertions openFrame fuel dir (index + 1))
      | .directoryLink next => walk assertions openFrame fuel next.toNat 0 st
      | .free => if assertions ∧ slotMarker f.storage dir index ≠ 0 then none else some st

def openStore (assertions : Bool) (openFrame : σ → FrameHeaderLink → Option σ) (fuel : ℕ)
    (st : σ) : Option σ :=
  if f.header.directoryCount = 0 then some st
  else
    let dir := f.header.directories 0
    if dir = 0 then none else f.walk assertions openFrame fuel dir.toNat 0 st

end StoreFile

end Simutrace.Simtrace3
