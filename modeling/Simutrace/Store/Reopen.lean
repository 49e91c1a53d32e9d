import Simutrace.Store.DirectoryWalk
import Simutrace.Stream.Types
import Mathlib.Algebra.Order.BigOperators.Group.List

/-! # Opening the frames of a store

The frame zero of a stream carries its descriptor, and a second one names the
streams its encoder keeps data in. All other frames add a segment to a stream.
-/

namespace Simutrace.Simtrace3

abbrev StreamId := BitVec 32

def findAttribute (type : BitVec 8) (attributes : List (BitVec 8 × List UInt8)) :
    Option (List UInt8) :=
  (attributes.find? fun a => a.1 = type).map Prod.snd

/-- The attributes of a frame in the order they were added. -/
def readAttributes : ℕ → List UInt8 → List (BitVec 8 × List UInt8)
  | 0, _ => []
  | n + 1, bs =>
    match LittleEndian.unpack [4, 1, 3, 8, 8, 8] bs with
    | [_, type, _, _, size, _] =>
      let rest := bs.drop attributeHeaderSize
      (.ofNat 8 type, rest.take size) :: readAttributes n (rest.drop size)
    | _ => []

def FrameHeader.checksumData (h : FrameHeader) : List UInt8 := h.toBytes.take 116

def FrameHeader.validateHash (murmur3 : List UInt8 → BitVec 32) (h : FrameHeader) : Prop :=
  murmur3 h.checksumData = h.checksum

instance (murmur3 : List UInt8 → BitVec 32) (h : FrameHeader) :
    Decidable (h.validateHash murmur3) :=
  inferInstanceAs (Decidable (_ = _))

def parseFrame (murmur3 : List UInt8 → BitVec 32) (bs : List UInt8) :
    Option (FrameHeader × List (BitVec 8 × List UInt8)) := do
  let header ← FrameHeader.ofBytes bs
  if header.validateHash murmur3 then
    some (header, readAttributes header.attributeCount.toNat (bs.drop frameHeaderSize))
  else none

def readFrame (murmur3 : List UInt8 → BitVec 32) (storage : Storage) (link : FrameHeaderLink) :
    Option (FrameHeader × List (BitVec 8 × List UInt8)) :=
  parseFrame murmur3 (storage.read link.offset.toNat link.frameHeader.totalSize.toNat)

structure StoreStream where
  descriptor : List UInt8
  associated : Option (List StreamId)
  stream : ServerStream

abbrev Streams := StreamId → Option StoreStream

def StoreStream.new (descriptor : List UInt8) : StoreStream := ⟨descriptor, none, .new⟩

def storageLocation (h : FrameHeader) : StorageLocation where
  sequenceNumber := h.sequenceNumber.toNat
  ranges
    | .qIndex =>
      if h.entryCount ≠ 0 ∧ h.startIndex ≠ -1 then
        ⟨h.startIndex.toNat, (h.startIndex + h.entryCount.setWidth 64 - 1).toNat⟩
      else .invalid
    | .qCycleCount => ⟨h.startCycle.toNat, h.endCycle.toNat⟩
    | .qRealTime => ⟨h.startTime.toNat, h.endTime.toNat⟩
  compressedSize := h.totalSize.toNat
  rawEntryCount := h.rawEntryCount.toNat

def loadSegment (s : ServerStream) (location : StorageLocation) : Option ServerStream :=
  if s.SegmentIsAllocated location.sequenceNumber then none else s.addSegment location

def packAssociatedStreams (ids : List StreamId) : List UInt8 :=
  LittleEndian.pack (List.replicate (ids.length + 1) 4) (ids.length :: ids.map BitVec.toNat)

section

variable (totalStreamCount : List UInt8 → BitVec 32) (murmur3 : List UInt8 → BitVec 32)

/-- Inform the encoder of a stream about the attributes of a zero frame. The number of streams it
is associated with depends on the type of the stream and is zero for the generic encoder. -/
def initializeEncoder (streams : Streams) (attributes : List (BitVec 8 × List UInt8))
    (stream : StoreStream) : Option StoreStream :=
  let count := (totalStreamCount stream.descriptor).toNat
  if count = 0 ∨ stream.associated.isSome then some stream
  else
    match findAttribute satAssociatedStreams attributes with
    | none => some stream
    | some buffer =>
      match LittleEndian.unpack (List.replicate (count + 1) 4) buffer with
      | [] => none
      | streamCount :: ids =>
        let ids := ids.map (BitVec.ofNat 32)
        if streamCount = count ∧ ∀ id ∈ ids, (streams id).isSome then
          some { stream with associated := some ids }
        else none

/-- Apply the attributes of a zero frame. The stream is looked up by the id in the directory, and
created with the id in the frame if it does not exist. -/
def openZeroFrame (streams : Streams) (streamId : StreamId) (header : FrameHeader)
    (attributes : List (BitVec 8 × List UInt8)) : Option Streams := do
  let (id, stream) ←
    match streams streamId with
    | some stream => some (streamId, stream)
    | none => (findAttribute satStreamDescription attributes).map fun descriptor =>
      (header.streamId, .new descriptor)
  let streams := Function.update streams id (some stream)
  let stream ← initializeEncoder totalStreamCount streams attributes stream
  some (Function.update streams id (some stream))

def openDataFrame (streams : Streams) (header : FrameHeader) : Option Streams := do
  let stream ← streams header.streamId
  let s ← loadSegment stream.stream (storageLocation header)
  some (Function.update streams header.streamId (some { stream with stream := s }))

def openFrame (storage : Storage) (streams : Streams) (link : FrameHeaderLink) : Option Streams :=
  if link.frameHeader.sequenceNumber = -1 then
    (readFrame murmur3 storage link).bind fun frame =>
      openZeroFrame totalStreamCount streams link.frameHeader.streamId frame.1 frame.2
  else openDataFrame streams link.frameHeader

end

/-! ## Reading what was written -/

variable {murmur3 : List UInt8 → BitVec 32}

theorem FrameHeader.checksumData_eq (h : FrameHeader) :
    h.checksumData = LittleEndian.pack fieldSizes.dropLast h.fields.dropLast := by
  have hlen : fieldSizes.dropLast.length = h.fields.dropLast.length := rfl
  have hpack : h.toBytes = LittleEndian.pack fieldSizes.dropLast h.fields.dropLast ++
      LittleEndian.pack [4] [h.checksum.toNat] := LittleEndian.pack_append hlen _ _
  rw [checksumData, hpack]
  exact List.take_left' (LittleEndian.length_pack rfl)

theorem Simtrace3Frame.validateHash_updateHash (frame : Simtrace3Frame) :
    (frame.updateHash murmur3).header.validateHash murmur3 := by
  rw [FrameHeader.validateHash, FrameHeader.checksumData_eq]
  exact congrArg murmur3 (FrameHeader.checksumData_eq frame.header).symm

def Attribute.entry (a : Attribute) : BitVec 8 × List UInt8 := (a.type, a.buffer)

theorem Attribute.unpack_toBytes (a : Attribute) (rest : List UInt8)
    (h : a.buffer.length < 2 ^ 64) :
    LittleEndian.unpack [4, 1, 3, 8, 8, 8] (a.toBytes ++ rest) =
      [Attribute.marker, a.type.toNat, 0, 0, a.buffer.length, a.uncompressedSize.toNat] := by
  rw [Attribute.toBytes, List.append_assoc]
  apply LittleEndian.unpack_pack
  simp only [List.forall₂_cons, List.forall₂_nil_left_iff, and_true]
  exact ⟨by decide, a.type.isLt, by decide, by decide, h, a.uncompressedSize.isLt⟩

theorem readAttributes_cons (a : Attribute) (n : ℕ) (rest : List UInt8)
    (h : a.buffer.length < 2 ^ 64) :
    readAttributes (n + 1) (a.toBytes ++ rest) = a.entry :: readAttributes n rest := by
  rw [readAttributes, a.unpack_toBytes rest h, Attribute.toBytes, List.append_assoc]
  have hlen : (LittleEndian.pack [4, 1, 3, 8, 8, 8] [Attribute.marker, a.type.toNat, 0, 0,
      a.buffer.length, a.uncompressedSize.toNat]).length = attributeHeaderSize :=
    LittleEndian.length_pack rfl
  dsimp only
  rw [List.drop_left' hlen, List.take_left, List.drop_left,
    BitVec.ofNat_toNat, BitVec.setWidth_eq, Attribute.entry]

theorem readAttributes_flatMap {attributes : List Attribute}
    (h : ∀ a ∈ attributes, a.buffer.length < 2 ^ 64) :
    readAttributes attributes.length (attributes.flatMap Attribute.toBytes) =
      attributes.map Attribute.entry := by
  induction attributes with
  | nil => rfl
  | cons a attributes ih =>
    rw [List.length_cons, List.flatMap_cons, readAttributes_cons a _ _ (h a List.mem_cons_self),
      ih fun b hb => h b (List.mem_cons_of_mem _ hb), List.map_cons]

theorem Simtrace3Frame.length_buffer_lt (frame : Simtrace3Frame) {a : Attribute}
    (h : a ∈ frame.attributes) : a.buffer.length < 2 ^ 64 := by
  have hle : a.size ≤ (frame.attributes.map Attribute.size).sum :=
    List.le_sum_of_mem (List.mem_map_of_mem h)
  have htotal := frame.totalSize_eq
  have hlt := frame.header.totalSize.isLt
  rw [Attribute.size] at hle
  omega

theorem parseFrame_toBytes {frame : Simtrace3Frame} (hash : frame.header.validateHash murmur3)
    (count : frame.header.attributeCount.toNat = frame.attributes.length) :
    parseFrame murmur3 frame.toBytes =
      some (frame.header, frame.attributes.map Attribute.entry) := by
  rw [parseFrame, Simtrace3Frame.toBytes, FrameHeader.ofBytes_toBytes]
  simp only [Option.bind_eq_bind, Option.bind_some, if_pos hash]
  rw [List.drop_left' (FrameHeader.length_toBytes _), count,
    readAttributes_flatMap fun a ha => frame.length_buffer_lt ha]

theorem readFrame_eq_parseFrame {storage : Storage} {c : Committed}
    (h : storage.read c.2.toNat c.1.toBytes.length = c.1.toBytes) :
    readFrame murmur3 storage c.link = parseFrame murmur3 c.1.toBytes := by
  have hbytes : storage.read c.2.toNat c.1.header.totalSize.toNat = c.1.toBytes := by
    rwa [← c.1.length_toBytes]
  simp only [readFrame, Committed.link, hbytes]

theorem readFrame_of_stored {storage : Storage} {current : Option ℕ} {c : Committed}
    (h : Stored storage current c.1 c.2) (hash : c.1.header.validateHash murmur3)
    (count : c.1.header.attributeCount.toNat = c.1.attributes.length) :
    readFrame murmur3 storage c.link =
      some (c.1.header, c.1.attributes.map Attribute.entry) :=
  (readFrame_eq_parseFrame h.read).trans (parseFrame_toBytes hash count)

theorem unpack_packAssociatedStreams {ids : List StreamId} (h : ids.length < 2 ^ 32) :
    LittleEndian.unpack (List.replicate (ids.length + 1) 4) (packAssociatedStreams ids) =
      ids.length :: ids.map BitVec.toNat := by
  have hfit : List.Forall₂ (fun n x => x < 256 ^ n) (List.replicate (ids.length + 1) 4)
      (ids.length :: ids.map BitVec.toNat) := by
    refine .cons h ?_
    clear h
    induction ids with
    | nil => exact .nil
    | cons i ids ih => exact .cons i.isLt ih
  simpa [packAssociatedStreams] using LittleEndian.unpack_pack hfit []

section

variable {totalStreamCount : List UInt8 → BitVec 32} {streams : Streams} {header : FrameHeader}
  {a : Attribute}

theorem openZeroFrame_register (h : streams header.streamId = none)
    (ht : a.type = satStreamDescription) :
    openZeroFrame totalStreamCount streams header.streamId header [a.entry] =
      some (Function.update streams header.streamId (some (.new a.buffer))) := by
  have hdesc : findAttribute satStreamDescription [a.entry] = some a.buffer := by
    simp [findAttribute, Attribute.entry, ht]
  have hassoc : findAttribute satAssociatedStreams [a.entry] = none := by
    simp [findAttribute, Attribute.entry, ht, satStreamDescription, satAssociatedStreams]
  have hinit : ∀ streams stream, initializeEncoder totalStreamCount streams [a.entry] stream =
      some stream := fun streams stream => by
    rw [initializeEncoder, hassoc]
    exact ite_self _
  simp only [openZeroFrame, h, hdesc, Option.map_some, Option.bind_eq_bind, Option.bind_some, hinit,
    Function.update_idem]

theorem openZeroFrame_associate {ids : List StreamId} {stream : StoreStream}
    (h : streams header.streamId = some stream) (hnew : stream.associated = none)
    (hcount : (totalStreamCount stream.descriptor).toNat = ids.length) (hne : ids ≠ [])
    (hids : ∀ i ∈ ids, streams i ≠ none) (ht : a.type = satAssociatedStreams)
    (hbuf : a.buffer = packAssociatedStreams ids) :
    openZeroFrame totalStreamCount streams header.streamId header [a.entry] =
      some (Function.update streams header.streamId
        (some { stream with associated := some ids })) := by
  have hassoc : findAttribute satAssociatedStreams [a.entry] =
      some (packAssociatedStreams ids) := by
    simp [findAttribute, Attribute.entry, ht, hbuf]
  have hlt : ids.length < 2 ^ 32 := hcount ▸ (totalStreamCount stream.descriptor).isLt
  have hids' : (ids.map BitVec.toNat).map (BitVec.ofNat 32) = ids := by
    simp [List.map_map, Function.comp_def]
  have hinit : initializeEncoder totalStreamCount streams [a.entry] stream =
      some { stream with associated := some ids } := by
    have hif : ¬ (ids.length = 0 ∨ stream.associated.isSome = true) := by
      simpa [hnew] using hne
    rw [initializeEncoder, hassoc, hcount]
    dsimp only
    rw [if_neg hif, unpack_packAssociatedStreams hlt]
    dsimp only
    rw [hids', if_pos ⟨rfl, fun i hi => Option.isSome_iff_ne_none.mpr (hids i hi)⟩]
  have hself : Function.update streams header.streamId (some stream) = streams := by
    rw [← h, Function.update_eq_self]
  simp only [openZeroFrame, h, Option.bind_eq_bind, Option.bind_some, hself, hinit]

end

end Simutrace.Simtrace3
