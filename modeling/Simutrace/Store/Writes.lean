import Simutrace.Store.DirectoryWriter

/-! # The single writes of a commit

A commit reaches the file as a sequence of writes, and the file may be found as
it is after any of them. Applied one after the other they have the effect of
the commit.
-/

namespace Simutrace.Simtrace3

/-- A reservation of space or a single write to the file or its mapped header and directory. -/
inductive FileWrite
  | commitSpace (length : ℕ)
  | headerSize (length : ℕ)
  | frame (pos : ℕ) (bytes : List UInt8)
  | directoryTable (index : ℕ) (offset : FileOffset)
  | directoryCount (count : ℕ)
  | linkMarker (pos : ℕ)
  | linkOffset (pos : ℕ) (nextDirectory : FileOffset)
  | entryHeader (pos : ℕ) (header : FrameHeader)
  | entryOffset (pos : ℕ) (offset : FileOffset)
  | frameCount
  | storeInformation (frame : FrameHeader) (uncompressedSize : BitVec 64)

namespace StoreFile

def mapHeader (f : StoreFile) (g : SimtraceV3Header → SimtraceV3Header) : StoreFile :=
  { f with header := g f.header }

def write (f : StoreFile) (pos : ℕ) (bytes : List UInt8) : StoreFile :=
  { f with storage := f.storage.write pos bytes }

def apply (f : StoreFile) : FileWrite → StoreFile
  | .commitSpace length =>
    { f with storage := { f.storage with size := f.storage.size + length } }
  | .headerSize length => f.mapHeader fun h => { h with
      fileSize := h.fileSize + .ofNat 64 length
      uncompressedFileSize := h.uncompressedFileSize + .ofNat 64 length }
  | .frame pos bytes => f.write pos bytes
  | .directoryTable index offset => f.mapHeader fun h => { h with
      directories := Function.update h.directories index offset }
  | .directoryCount count => f.mapHeader fun h => { h with directoryCount := count }
  | .linkMarker pos => f.write pos (LittleEndian.bytes 4 directoryLinkMarker)
  | .linkOffset pos next => f.write (pos + 8) (LittleEndian.ofWord next)
  | .entryHeader pos header => f.write pos header.toBytes
  | .entryOffset pos offset => f.write (pos + frameHeaderSize) (LittleEndian.ofWord offset)
  | .frameCount => f.mapHeader fun h => { h with frameCount := h.frameCount + 1 }
  | .storeInformation frame size => f.mapHeader fun h => h.addFrame frame size

end StoreFile

def attributeWrites : ℕ → List Attribute → List FileWrite
  | _, [] => []
  | pos, a :: attributes =>
    .frame pos (a.toBytes.take attributeHeaderSize) ::
      .frame (pos + attributeHeaderSize) a.buffer ::
      attributeWrites (pos + a.size) attributes

namespace Simtrace3Store

variable (s : Simtrace3Store)

def writeFrameWrites (fault : Option IoFault) (frame : Simtrace3Frame) : List FileWrite :=
  match s.file.storage.reserve fileSizeLimit frame.header.totalSize.toNat with
  | none => []
  | some (offset, _) =>
    .commitSpace frame.header.totalSize.toNat ::
      match fault with
      | some .commitSpace => []
      | some (.writeFrame written) => [.frame offset (frame.toBytes.take written)]
      | _ => .frame offset frame.header.toBytes ::
        attributeWrites (offset + frameHeaderSize) frame.attributes

def linkDirectoryWrites (offset : ℕ) : List FileWrite :=
  match s.directory with
  | none => []
  | some dir =>
    let last := entryOffset dir (s.file.header.directoryCapacity - 1)
    [.linkMarker last, .linkOffset last (.ofNat 64 offset)]

def recordDirectoryWrites (offset : ℕ) : List FileWrite :=
  let h := s.file.header
  (if h.directoryCount < h.directoryCapacity then
    [.directoryTable h.directoryCount (.ofNat 64 offset)] else []) ++
    [.directoryCount (h.directoryCount + 1)]

def addDirectoryWrites (fault : Option IoFault) : List FileWrite :=
  let length := s.file.header.directoryCapacity * directoryEntrySize
  match s.reserveSpace length with
  | none => []
  | some (offset, s) =>
    [.commitSpace length, .headerSize length] ++
      if fault = some .reserveDirectory then []
      else s.recordDirectoryWrites offset ++ s.linkDirectoryWrites offset

def prepareDirectoryWrites (fault : Option IoFault) : List FileWrite :=
  if s.directory = none ∨ s.nextFrameIndex = s.file.header.directoryCapacity - 1 then
    s.addDirectoryWrites fault
  else []

def setSlotWrites (dir : ℕ) (link : FrameHeaderLink) : List FileWrite :=
  let pos := entryOffset dir s.nextFrameIndex
  [.entryHeader pos link.frameHeader, .entryOffset pos link.offset, .frameCount]

def addFrameToDirectoryWrites (fault : Option IoFault) (link : FrameHeaderLink) :
    List FileWrite :=
  s.prepareDirectoryWrites fault ++
    match s.prepareDirectory fault with
    | (none, _) => []
    | (some (), s) =>
      match s.directory with
      | none => []
      | some dir => s.setSlotWrites dir link

/-- The writes of `commitFrame`, up to where it fails. -/
def commitFrameWrites (murmur3 : List UInt8 → BitVec 32) (fault : Option IoFault)
    (frame : Simtrace3Frame) : List FileWrite :=
  let frame := frame.updateHash murmur3
  if s.readMode ∨ frame.header.streamId = -1 then []
  else
    s.writeFrameWrites fault frame ++
      match s.writeFrame fault frame with
      | (none, _) => []
      | (some offset, s) =>
        let link : FrameHeaderLink := ⟨frame.header, .ofNat 64 offset⟩
        s.addFrameToDirectoryWrites fault link ++
          match s.addFrameToDirectory fault link with
          | (none, _) => []
          | (some (), _) => [.storeInformation frame.header (uncompressedBytes frame)]

def commitsWrites (murmur3 : List UInt8 → BitVec 32) :
    Simtrace3Store → List (Option IoFault × Simtrace3Frame) → List FileWrite
  | _, [] => []
  | s, (fault, frame) :: commits =>
    s.commitFrameWrites murmur3 fault frame ++
      commitsWrites murmur3 (s.commitFrame murmur3 fault frame).2 commits

/-! ## The effect of the writes -/

variable {s} {fault : Option IoFault} {frame : Simtrace3Frame}

end Simtrace3Store

end Simutrace.Simtrace3
