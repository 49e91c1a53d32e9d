import Simutrace.GenericEncoder.Compression
import Simutrace.Library.MurmurHash3
import Simutrace.MemoryEncoder.RoundTrip
import Simutrace.Store.Commit
import Simutrace.Store.Reload

/-! # The bounds of a segment that is decoded

The decoder of a memory stream takes the number of entries of a segment from
the directory of the store. It stays inside the segment and the sub segments if
and only if the segment has room for as many entries.
-/

namespace Simutrace

open Vpc4

namespace MemoryEntry

variable {t : AccessType}

/-- An entry as it lies in a segment. -/
def toBytes (entry : MemoryEntry t) : List UInt8 :=
  LittleEndian.ofWord entry.metadata ++ LittleEndian.ofWord entry.ip ++
    (List.ofFn fun i => LittleEndian.ofWord (entry.dataFields i)).flatten

@[simp] theorem length_toBytes (entry : MemoryEntry t) :
    entry.toBytes.length = t.entrySize := by
  simp only [toBytes, List.length_append, LittleEndian.length_ofWord, List.length_flatten,
    List.map_ofFn, Function.comp_def, List.ofFn_const, List.sum_replicate, AccessType.entrySize,
    nsmul_eq_mul, Nat.cast_id]
  ring

end MemoryEntry

namespace Coder

variable {t : AccessType} {cfg : BuildConfig} {c : Coder t} {segment segment' : Cursor} {n : ℕ}

/-- Decode entries one behind the other into a segment. There is no result if the decoder leaves
the segment or one of the sub segments. -/
def decodeInto (segment : Cursor) : ℕ → Coder t → Option Cursor
  | 0, _ => some segment
  | n + 1, c => do
    let (entry, c) ← c.decodeEntry
    let segment ← segment.put entry.toBytes
    decodeInto segment n c

theorem decodeInto_of_room (hr : Room n c)
    (fits : segment.pos + n * t.entrySize ≤ segment.bytes.length) :
    ∃ segment', decodeInto segment n c = some segment' := by
  induction n generalizing segment c with
  | zero => exact ⟨segment, rfl⟩
  | succ n ih =>
    obtain ⟨entry, c', hentry, hr'⟩ := decodeEntry_of_room hr
    rw [Nat.succ_mul] at fits
    obtain ⟨next, hput⟩ : ∃ next, segment.put entry.toBytes = some next :=
      Cursor.put_of_fits (by rw [entry.length_toBytes]; omega)
    have hpos := Cursor.pos_put hput
    have hlen := Cursor.length_put hput
    rw [entry.length_toBytes] at hpos
    have hfits : next.pos + n * t.entrySize ≤ next.bytes.length := by omega
    obtain ⟨segment', h⟩ := ih hr' hfits
    exact ⟨segment', by simp [decodeInto, hentry, hput, h]⟩

theorem pos_decodeInto (h : decodeInto segment n c = some segment')
    (inside : segment.pos ≤ segment.bytes.length) :
    segment.pos + n * t.entrySize ≤ segment.bytes.length := by
  induction n generalizing segment c with
  | zero => simpa using inside
  | succ n ih =>
    simp only [decodeInto, Option.bind_eq_bind, Option.bind_eq_some_iff] at h
    obtain ⟨⟨entry, c'⟩, -, next, hput, h⟩ := h
    have hpos := Cursor.pos_put hput
    have hlen := Cursor.length_put hput
    have hfits := (Cursor.put_eq_some_iff.mp hput).1
    rw [entry.length_toBytes] at hpos hfits
    have hnext := ih h (by omega)
    rw [Nat.succ_mul]
    omega

/-- Whatever the sub segments hold, the decoder stays inside them and the segment if and only if
the segment has room for the entries. -/
theorem decodeInto_isSome_iff {b : SubSegments t} {segment : List UInt8}
    (memory : PredictorMemory t) (startCycle : BitVec 64) (hb : b.Sized cfg)
    (size : segment.length = cfg.segmentSize) :
    ((start memory startCycle b).decodeInto ⟨segment, 0⟩ n).isSome ↔
      n ≤ MemoryLayout.maxEntryCount cfg t := by
  have hentry : 0 < t.entrySize := Nat.zero_lt_of_lt t.eight_le_entrySize
  rw [Option.isSome_iff_exists]
  constructor
  · rintro ⟨segment', h⟩
    have hpos := pos_decodeInto h (Nat.zero_le _)
    rw [Nat.zero_add, size] at hpos
    exact (Nat.le_div_iff_mul_le hentry).mpr hpos
  · intro hn
    apply decodeInto_of_room (room_start hb hn)
    rw [Nat.zero_add, size]
    exact (Nat.le_div_iff_mul_le hentry).mp hn

end Coder

/-! ## Loading a segment -/

namespace AccessType

variable (t : AccessType)

abbrev totalStreamCount : ℕ := t.idStreamCount + (t.dataStreamCount + 1) + 1

/-- What an entry takes at most of a hidden stream, in the order in which these are associated. -/
def hiddenEntrySize (k : ℕ) : ℕ :=
  if k = 0 then 2
  else if k ≤ t.idStreamCount then 1
  else if k ≤ t.idStreamCount + t.dataStreamCount then t.width / 8
  else 8

variable {t} {k : ℕ}

theorem hiddenEntrySize_pos : 0 < t.hiddenEntrySize k := by
  unfold hiddenEntrySize
  split_ifs <;> cases t <;> decide

theorem hiddenEntrySize_le : t.hiddenEntrySize k ≤ t.entrySize := by
  unfold hiddenEntrySize
  split_ifs <;> cases t <;> decide

end AccessType

namespace MemoryLayout

variable (cfg : BuildConfig) (t : AccessType)

def getSubSegment (k : ℕ) (n : StreamSegmentId) (segment : List UInt8) : List UInt8 :=
  let size := subSegmentSize cfg t (t.hiddenEntrySize k)
  (segment.drop (n % subSegmentCount cfg t (t.hiddenEntrySize k) * size)).take size

variable {cfg t}

theorem length_getSubSegment {k : ℕ} {n : StreamSegmentId} {segment : List UInt8}
    (size : segment.length = cfg.segmentSize) :
    (getSubSegment cfg t k n segment).length =
      subSegmentSize cfg t (t.hiddenEntrySize k) := by
  have hpos : 0 < subSegmentCount cfg t (t.hiddenEntrySize k) :=
    subSegmentCount_pos AccessType.hiddenEntrySize_pos AccessType.hiddenEntrySize_le
  have hmod := Nat.mod_lt n hpos
  have hall : subSegmentSize cfg t (t.hiddenEntrySize k) * _ ≤ cfg.segmentSize :=
    subSegmentSize_mul_le (t.hiddenEntrySize k)
  rw [Nat.mul_comm] at hall
  have hlast := Nat.mul_le_mul_right (subSegmentSize cfg t (t.hiddenEntrySize k))
    (Nat.succ_le_of_lt hmod)
  rw [Nat.succ_mul] at hlast
  unfold getSubSegment
  simp only [List.length_take, List.length_drop, size]
  omega

end MemoryLayout

/-- Set up the pointers into the hidden segments. -/
def mapSubSegments (cfg : BuildConfig) {t : AccessType} (n : StreamSegmentId)
    (segments : Fin t.totalStreamCount → List UInt8) : SubSegments t where
  metaData := MemoryLayout.getSubSegment cfg t 0 n (segments ⟨0, Nat.succ_pos _⟩)
  ids i := MemoryLayout.getSubSegment cfg t (i + 1) n
    (segments ⟨i + 1, by rw [AccessType.totalStreamCount]; omega⟩)
  data i := MemoryLayout.getSubSegment cfg t (t.idStreamCount + i + 1) n
    (segments ⟨t.idStreamCount + i + 1, by rw [AccessType.totalStreamCount]; omega⟩)
  cycle := MemoryLayout.getSubSegment cfg t (t.idStreamCount + t.dataStreamCount + 1) n
    (segments ⟨t.idStreamCount + t.dataStreamCount + 1, Nat.lt_succ_self _⟩)

theorem sized_mapSubSegments {cfg : BuildConfig} {t : AccessType} {n : StreamSegmentId}
    {segments : Fin t.totalStreamCount → List UInt8}
    (size : ∀ k, (segments k).length = cfg.segmentSize) :
    (mapSubSegments cfg n segments).Sized cfg where
  metaData := MemoryLayout.length_getSubSegment (size _)
  ids i := by
    have hentry : t.hiddenEntrySize (i + 1) = 1 := by
      rw [AccessType.hiddenEntrySize, if_neg (by omega), if_pos (by omega)]
    exact (MemoryLayout.length_getSubSegment (size _)).trans (by rw [hentry]; rfl)
  data i := by
    have hentry : t.hiddenEntrySize (t.idStreamCount + i + 1) = t.width / 8 := by
      rw [AccessType.hiddenEntrySize, if_neg (by omega), if_neg (by omega), if_pos (by omega)]
    exact (MemoryLayout.length_getSubSegment (size _)).trans (by rw [hentry]; rfl)
  cycle := by
    have hentry : t.hiddenEntrySize (t.idStreamCount + t.dataStreamCount + 1) = 8 := by
      rw [AccessType.hiddenEntrySize, if_neg (by omega), if_neg (by omega), if_neg (by omega)]
    exact (MemoryLayout.length_getSubSegment (size _)).trans (by rw [hentry]; rfl)

/-- How loading a segment of a memory stream ends. An encoder without hidden streams divides by the
number of their sub segments, which is zero then. -/
inductive DecodeResult
  | failed
  | decoded (segment : List UInt8)
  | outside
  | divisionByZero

def decodeSegment {t : AccessType} (memory : PredictorMemory t) (location : StorageLocation)
    (segment : List UInt8) : Option (SubSegments t) → DecodeResult
  | none => .failed
  | some b =>
    let c := Coder.start memory (.ofNat 64 (location.ranges .qCycleCount).start) b
    match c.decodeInto ⟨segment, 0⟩ location.rawEntryCount with
    | none => .outside
    | some segment => .decoded segment.bytes

/-- What the encoders of the hidden streams make of their stored segments. These are loaded as a
whole, or loading them fails with an exception. -/
structure HiddenLoader (cfg : BuildConfig) where
  load : BitVec 32 → StorageLocation → Option (List UInt8)
  length_load : ∀ id location segment, load id location = some segment →
    segment.length = cfg.segmentSize

namespace GenericEncoder

def decode (z : Lzma) (segmentSize : ℕ) (frame : Simtrace3.Simtrace3Frame) :
    Option (List UInt8) := do
  let dataAttr ← frame.attributes.find? fun a => a.type = satData
  if segmentSize < dataAttr.uncompressedSize.toNat then none
  else
    (lzmaDecompress z dataAttr.buffer segmentSize).toOption.map fun data =>
      data.takeD segmentSize 0

def hiddenLoader (z : Lzma) (cfg : BuildConfig) (frames : List Simtrace3.Simtrace3Frame) :
    HiddenLoader cfg where
  load id location := do
    let frame ← frames.find? fun frame => frame.header.streamId = id ∧
      frame.header.sequenceNumber.toNat = location.sequenceNumber
    decode z cfg.segmentSize frame
  length_load id location segment h := by
    simp only [decode, Option.bind_eq_bind, Option.bind_eq_some_iff] at h
    obtain ⟨frame, -, dataAttr, -, hdata⟩ := h
    split at hdata
    · cases hdata
    · obtain ⟨data, -, rfl⟩ := Option.map_eq_some_iff.mp hdata
      exact List.takeD_length _ _ _

end GenericEncoder

namespace Simtrace3

/-- The encoder is chosen by the type in the descriptor; the generic one has no hidden streams. -/
def associatedStreamCount (accessType : List UInt8 → Option AccessType) (descriptor : List UInt8) :
    BitVec 32 :=
  match accessType descriptor with
  | none => 0
  | some t => .ofNat 32 t.totalStreamCount

namespace Streams

variable {cfg : BuildConfig} (loader : HiddenLoader cfg) (streams : Streams)

def location (id : StreamId) (n : StreamSegmentId) : Option StorageLocation :=
  (streams.segment id n).bind (·.location)

/-- Load the segment of an associated stream that holds the given segment of the memory stream. -/
def openHidden (t : AccessType) (associated : List StreamId) (n : StreamSegmentId)
    (k : Fin t.totalStreamCount) : Option (List UInt8) := do
  let id ← associated[k.val]?
  let location ← streams.location id
    (n / MemoryLayout.subSegmentCount cfg t (t.hiddenEntrySize k))
  loader.load id location

def subSegments (t : AccessType) (associated : List StreamId) (n : StreamSegmentId) :
    Option (SubSegments t) :=
  (allSome (streams.openHidden loader t associated n)).map (mapSubSegments cfg n)

def loadSegment {t : AccessType} (stream : StoreStream) (n : StreamSegmentId)
    (location : StorageLocation) (memory : PredictorMemory t) (segment : List UInt8) :
    DecodeResult :=
  match stream.associated with
  | none => .divisionByZero
  | some associated =>
    decodeSegment memory location segment (streams.subSegments loader t associated n)

structure StoredSegment (accessType : List UInt8 → Option AccessType) (streams : Streams)
    (stream : StoreStream) (t : AccessType) (n : StreamSegmentId) (location : StorageLocation) :
    Prop where
  type : accessType stream.descriptor = some t
  stored : ∃ id, streams id = some stream ∧ streams.location id n = some location

variable {loader streams} {t : AccessType} {associated : List StreamId} {n : StreamSegmentId}
  {b : SubSegments t}

theorem sized_subSegments (h : streams.subSegments loader t associated n = some b) :
    b.Sized cfg := by
  obtain ⟨segments, hsegments, rfl⟩ := Option.map_eq_some_iff.mp h
  apply sized_mapSubSegments
  intro k
  have hk := allSome_eq_some_iff.mp hsegments k
  simp only [openHidden, Option.bind_eq_bind, Option.bind_eq_some_iff] at hk
  obtain ⟨id, -, location, -, hload⟩ := hk
  exact loader.length_load id location _ hload

/-- A segment whose sub segments are loaded is left if and only if it has too many entries. -/
theorem loadSegment_ne_outside_iff {stream : StoreStream} {location : StorageLocation}
    {segment : List UInt8} (memory : PredictorMemory t) (size : segment.length = cfg.segmentSize) :
    streams.loadSegment loader stream n location memory segment ≠ .outside ↔
      ∀ associated, stream.associated = some associated →
        (streams.subSegments loader t associated n).isSome →
          location.rawEntryCount ≤ MemoryLayout.maxEntryCount cfg t := by
  unfold loadSegment
  rcases stream.associated with _ | associated
  · simp
  rcases hsub : streams.subSegments loader t associated n with _ | b
  · simp [hsub, decodeSegment]
  have hinside : decodeSegment memory location segment (some b) ≠ .outside ↔
      location.rawEntryCount ≤ MemoryLayout.maxEntryCount cfg t := by
    rw [← Coder.decodeInto_isSome_iff memory (.ofNat 64 (location.ranges .qCycleCount).start)
      (sized_subSegments hsub) size, decodeSegment]
    split <;> simp_all
  simp [hsub, hinside]

end Streams

section

variable (f : StoreFile) (cfg : BuildConfig) (accessType : List UInt8 → Option AccessType)
  (murmur3 : List UInt8 → BitVec 32) (loader : HiddenLoader cfg)

def StoreFile.Opens (streams : Streams) : Prop :=
  ∃ assertions fuel,
    f.openStore assertions (openFrame (associatedStreamCount accessType) murmur3 f.storage) fuel
      (fun _ => none) = some streams

/-- No load of a segment of a memory stream accesses memory outside of the segment and its sub
segments. -/
def StoreFile.DecodesInside : Prop :=
  ∀ streams, f.Opens accessType murmur3 streams → ∀ stream t n location,
    Streams.StoredSegment accessType streams stream t n location →
    ∀ (memory : PredictorMemory t) segment, segment.length = cfg.segmentSize →
      streams.loadSegment loader stream n location memory segment ≠ .outside

/-- No segment of a memory stream whose sub segments can be loaded has more entries than fit. -/
def StoreFile.CountsFit : Prop :=
  ∀ streams, f.Opens accessType murmur3 streams → ∀ stream t n location,
    Streams.StoredSegment accessType streams stream t n location →
    ∀ associated, stream.associated = some associated →
      (streams.subSegments loader t associated n).isSome →
        location.rawEntryCount ≤ MemoryLayout.maxEntryCount cfg t

/-- Decoding stays inside the segments of a store if and only if the entry counts in its
directories fit. -/
theorem decodesInside_iff : f.DecodesInside cfg accessType murmur3 loader ↔
    f.CountsFit cfg accessType murmur3 loader := by
  have size : (List.replicate cfg.segmentSize (0 : UInt8)).length = cfg.segmentSize :=
    List.length_replicate
  constructor
  · intro inside streams opens stream t n location stored
    exact (Streams.loadSegment_ne_outside_iff ⟨fun _ _ => 0, fun _ _ => 0, fun _ _ _ => 0⟩
      size).mp (inside streams opens stream t n location stored _ _ size)
  · intro fit streams opens stream t n location stored memory segment hsize
    exact (Streams.loadSegment_ne_outside_iff memory hsize).mpr
      (fit streams opens stream t n location stored)

end

/-! ## A segment with one entry too many -/

section

variable {accessType : List UInt8 → Option AccessType} {murmur3 : List UInt8 → BitVec 32}
  {frames : List Simtrace3Frame} {committed : List Committed} {store : Simtrace3Store}

/-- Open frames whose offsets do not matter. -/
def openFrames (accessType : List UInt8 → Option AccessType) (streams : Streams)
    (frames : List Simtrace3Frame) : Option Streams :=
  frames.foldlM
    (fun streams frame => openCommitted (associatedStreamCount accessType) streams (frame, 0))
    streams

theorem openFrames_append (streams : Streams) (fs gs : List Simtrace3Frame) :
    openFrames accessType streams (fs ++ gs) =
      (openFrames accessType streams fs).bind fun streams => openFrames accessType streams gs :=
  List.foldlM_append

theorem openFrames_cons (streams : Streams) (frame : Simtrace3Frame) (fs : List Simtrace3Frame) :
    openFrames accessType streams (frame :: fs) =
      (openCommitted (associatedStreamCount accessType) streams (frame, 0)).bind
        fun streams => openFrames accessType streams fs :=
  List.foldlM_cons

theorem opens_commitFrames {streams : Streams}
    (e : Simtrace3Store.createStore.commitFrames murmur3 frames = some (committed, store))
    (updated : committed.map Prod.fst = frames.map (·.updateHash murmur3))
    (count : ∀ f ∈ frames, f.header.attributeCount.toNat = f.attributes.length)
    (opened : openFrames accessType (fun _ => none) (frames.map (·.updateHash murmur3)) =
      some streams) : store.file.Opens accessType murmur3 streams := by
  obtain ⟨current, index, h, -⟩ := Simtrace3Store.consistent_createStore.commitFrames e
  rw [List.nil_append] at h
  have hr : ∀ c ∈ committed, c.Readable murmur3 := by
    intro c hc
    have hm : c.1 ∈ frames.map (·.updateHash murmur3) := updated ▸ List.mem_map_of_mem hc
    obtain ⟨f, hf, hfc⟩ := List.mem_map.mp hm
    have hash : (f.updateHash murmur3).header.validateHash murmur3 := f.validateHash_updateHash
    rw [hfc] at hash
    exact ⟨hash, fun _ => hfc ▸ count f hf⟩
  refine ⟨true, 2 * (committed.map Committed.link).length + 1, ?_⟩
  rw [h.directories.openStore h.capacity le_rfl, foldlM_openFrame h.stored hr]
  rw [openFrames, ← updated, List.foldlM_map] at opened
  exact opened

end

def Simtrace3Frame.segment (streamId : StreamId) (entryCount : BitVec 32) (a : Attribute)
    (fits : frameHeaderSize + a.size < 2 ^ 64) : Simtrace3Frame where
  header :=
    { FrameHeader.zero streamId 0 a with
      sequenceNumber := 0
      entryCount := entryCount
      rawEntryCount := entryCount
      startTime := 0
      endTime := 0
      startCycle := 0
      endCycle := 0
      startIndex := 0 }
  attributes := [a]
  totalSize_eq := by simpa [FrameHeader.zero] using Nat.mod_eq_of_lt fits

namespace Overlong

/-- The only type of memory entries has its own descriptor. -/
def accessType (descriptor : List UInt8) : Option AccessType :=
  if descriptor = [1] then some .memoryAccess32 else none

def memoryAttribute : Attribute := ⟨satStreamDescription, 1, [1], nofun⟩

def hiddenAttribute : Attribute := ⟨satStreamDescription, 1, [0], nofun⟩

def associatedStreams : List StreamId := [1, 2, 3, 4, 5, 6, 7]

def associatedAttribute : Attribute :=
  ⟨satAssociatedStreams, 32, packAssociatedStreams associatedStreams, by decide⟩

/-- The data of a hidden segment, which are zeros. -/
def dataAttribute : Attribute :=
  ⟨GenericEncoder.satData, 0x4000000,
    LittleEndian.bytes 8 0x4000000 ++ List.replicate 5 0 ++ [0], by decide⟩

/-- The frame of the only segment of the memory stream has no data of its own. -/
def memorySegment (entryCount : BitVec 32) : Simtrace3Frame where
  header := { (Simtrace3Frame.bare 0).header with
    entryCount := entryCount
    rawEntryCount := entryCount }
  attributes := []
  totalSize_eq := rfl

def registeringFrames : List Simtrace3Frame :=
  .zero 0 0 memoryAttribute (by decide) ::
    associatedStreams.map fun id => .zero id 0 hiddenAttribute (by decide)

def associatingFrame : Simtrace3Frame := .zero 0 0 associatedAttribute (by decide)

/-- The segments of the hidden streams have the full size. That of the memory stream has one entry
more than fits into a segment. -/
def segmentFrames : List Simtrace3Frame :=
  (associatedStreams.map fun id => .segment id 0x4000000 dataAttribute (by decide)) ++
    [memorySegment 0x400001]

def frames : List Simtrace3Frame := registeringFrames ++ associatingFrame :: segmentFrames

def loader : HiddenLoader .default :=
  GenericEncoder.hiddenLoader GenericEncoder.zeroRun .default frames

def registered : Streams :=
  (openFrames accessType (fun _ => none)
    (registeringFrames.map (·.updateHash (MurmurHash3.hash32 0)))).getD fun _ => none

def associated : Streams :=
  Function.update registered 0
    (some { StoreStream.new [1] with associated := some associatedStreams })

def loaded : Streams :=
  (openFrames accessType associated
    (segmentFrames.map (·.updateHash (MurmurHash3.hash32 0)))).getD fun _ => none

theorem openFrames_frames : openFrames accessType (fun _ => none)
    (frames.map (·.updateHash (MurmurHash3.hash32 0))) = some loaded := by
  have hregister : openFrames accessType (fun _ => none)
      (registeringFrames.map (·.updateHash (MurmurHash3.hash32 0))) = some registered := rfl
  have hassociate : openCommitted (associatedStreamCount accessType) registered
      (associatingFrame.updateHash (MurmurHash3.hash32 0), 0) = some associated := by
    have hall : associatedStreams.all (fun id => (registered id).isSome) = true := rfl
    have hzero : (associatingFrame.updateHash (MurmurHash3.hash32 0)).header.sequenceNumber =
        -1 := rfl
    rw [openCommitted, if_pos hzero]
    exact openZeroFrame_associate rfl rfl rfl (List.cons_ne_nil _ _)
      (fun i hi => Option.isSome_iff_ne_none.mp (List.all_eq_true.mp hall i hi)) rfl rfl
  have hload : openFrames accessType associated
      (segmentFrames.map (·.updateHash (MurmurHash3.hash32 0))) = some loaded := rfl
  rw [frames, List.map_append, List.map_cons, openFrames_append, hregister, Option.bind_some,
    openFrames_cons, hassociate, Option.bind_some, hload]

theorem isSome_subSegments :
    (loaded.subSegments loader .memoryAccess32 associatedStreams 0).isSome := by
  have hidden (k : Fin (AccessType.totalStreamCount .memoryAccess32)) :
      (loaded.openHidden loader .memoryAccess32 associatedStreams 0 k).isSome := by
    revert k
    decide +kernel
  rw [Streams.subSegments, Option.isSome_map, allSome, dif_pos hidden]
  rfl

/-- A store in which the directory entry of a segment has one entry too many can be opened, and
decoding the segment writes behind its end. -/
theorem not_decodesInside : ∃ committed store,
    Simtrace3Store.createStore.commitFrames (MurmurHash3.hash32 0) frames =
        some (committed, store) ∧
      ¬ store.file.DecodesInside .default accessType (MurmurHash3.hash32 0) loader := by
  have hid : ∀ f ∈ frames, f.header.streamId ≠ -1 := by decide
  obtain ⟨committed, store, e, updated⟩ :=
    Simtrace3Store.commitFrames_of_fits (MurmurHash3.hash32 0)
      Simtrace3Store.consistent_createStore rfl hid (by decide) (by decide)
  refine ⟨committed, store, e, fun inside => ?_⟩
  have opens := opens_commitFrames e updated (by decide) openFrames_frames
  obtain ⟨stream, hstream, hassoc⟩ : ∃ stream, loaded 0 = some stream ∧
      stream.descriptor = [1] ∧ stream.associated = some associatedStreams := ⟨_, rfl, rfl, rfl⟩
  obtain ⟨location, hlocation, hcount⟩ : ∃ location, loaded.location 0 0 = some location ∧
      location.rawEntryCount = 0x400001 := ⟨_, rfl, rfl⟩
  have size : (List.replicate BuildConfig.default.segmentSize (0 : UInt8)).length =
      BuildConfig.default.segmentSize := List.length_replicate
  have fits := (Streams.loadSegment_ne_outside_iff
    (⟨fun _ _ => 0, fun _ _ => 0, fun _ _ _ => 0⟩ : PredictorMemory .memoryAccess32) size).mp
      (inside loaded opens stream .memoryAccess32 0 location ⟨by rw [hassoc.1]; rfl,
        0, hstream, hlocation⟩ _ _ size) associatedStreams hassoc.2 isSome_subSegments
  rw [hcount] at fits
  exact absurd fits (by decide)

end Overlong

end Simtrace3

end Simutrace
