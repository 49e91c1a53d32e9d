import Simutrace.Library.MurmurHash3
import Simutrace.Store.IdAllocator
import Simutrace.Store.Mapping

/-! # Opening frames from a mapping

Opening a zero frame takes the start of an attribute's data for a stream
descriptor, or for the ids of the associated streams, whatever size the header
of the attribute tells. A frame that holds its attributes may be too small.
-/

namespace Simutrace.Simtrace3

def streamDescriptorSize : ℕ := 552

def streamFlagsEnd : ℕ := 260

/-- What opening a frame depends on in its store: how many streams the encoder of each stream is
still to be associated with, the ids that are left, and which descriptors make a stream, again with
the number of its associated streams. -/
structure LoadingStore where
  findStream : BitVec 32 → Option ℕ
  streamIds : IdAllocator 32
  createStream : List UInt8 → Option ℕ

/-- An access to an object, up to the given number of its bytes. -/
structure Access where
  object : BitVec 64
  stop : ℕ

def Access.Inside (a : Access) (n : ℕ) : Prop := a.object.toNat + a.stop ≤ n

namespace Mapping

section

variable (store : LoadingStore) (r : Storage)

def findAttribute (type : BitVec 8) (ds : List AttributeHeaderDescription) :
    Option AttributeHeaderDescription :=
  ds.find? fun d => d.type = type

/-- What creating a stream reads. The flags select a buffer, then the stream gets an id and a copy
of its descriptor. -/
def openStream (header : FrameHeader) (ds : List AttributeHeaderDescription) :
    List Access × Option ℕ :=
  match findAttribute satStreamDescription ds with
  | none => ([], none)
  | some d =>
    match store.streamIds.createStream header.streamId with
    | none => ([⟨d.buffer, streamFlagsEnd⟩], none)
    | some _ => ([⟨d.buffer, streamFlagsEnd⟩, ⟨d.buffer, streamDescriptorSize⟩],
        store.createStream (r.read d.buffer.toNat streamDescriptorSize))

/-- What the encoder of a stream reads to find its associated streams. If their number is the
expected one, it copies all of their ids. -/
def initializeEncoder (ds : List AttributeHeaderDescription) (totalStreamCount : ℕ) : List Access :=
  if totalStreamCount = 0 then []
  else
    match findAttribute satAssociatedStreams ds with
    | none => []
    | some d =>
      ⟨d.buffer, 4⟩ :: if (word r 32 d.buffer.toNat).toNat = totalStreamCount then
        [⟨d.buffer, 4 * (totalStreamCount + 1)⟩] else []

def openFrame (streamId : BitVec 32) (header : FrameHeader)
    (ds : List AttributeHeaderDescription) : List Access :=
  let stream :=
    match store.findStream streamId with
    | some totalStreamCount => ([], some totalStreamCount)
    | none => openStream store r header ds
  stream.1 ++ stream.2.elim [] (initializeEncoder r ds)

/-! ## Where the attributes lie -/

/-- The data of the first of `n` attributes with a type, by the sizes in their headers. -/
def attributePosition (type : BitVec 8) : ℕ → ℕ → Option ℕ
  | 0, _ => none
  | n + 1, pos =>
    if word r 8 (pos + 4) = type then some (pos + attributeHeaderSize)
    else attributePosition type n (pos + attributeHeaderSize + (word r 64 (pos + 16)).toNat)

def dataPosition (header : FrameHeader) (type : BitVec 8) : Option ℕ :=
  attributePosition r type header.attributeCount.toNat frameHeaderSize

def DescriptorFits (streamId : BitVec 32) (header : FrameHeader) : Prop :=
  store.findStream streamId = none → ∀ pos ∈ dataPosition r header satStreamDescription,
    pos + streamFlagsEnd ≤ r.size ∧
      (store.streamIds.createStream header.streamId ≠ none → pos + streamDescriptorSize ≤ r.size)

def totalStreamCount (streamId : BitVec 32) (header : FrameHeader) : Option ℕ :=
  match store.findStream streamId with
  | some count => some count
  | none => (dataPosition r header satStreamDescription).bind fun pos =>
    (store.streamIds.createStream header.streamId).bind fun _ =>
      store.createStream (r.read pos streamDescriptorSize)

def AssociatedFits (header : FrameHeader) (totalStreamCount : ℕ) : Prop :=
  totalStreamCount ≠ 0 → ∀ pos ∈ dataPosition r header satAssociatedStreams,
    pos + 4 ≤ r.size ∧ ((word r 32 pos).toNat = totalStreamCount →
      pos + 4 * (totalStreamCount + 1) ≤ r.size)

def OpenFits (streamId : BitVec 32) (header : FrameHeader) : Prop :=
  DescriptorFits store r streamId header ∧
    ∀ count ∈ totalStreamCount store r streamId header, AssociatedFits r header count

end

variable {store : LoadingStore} {r r' : Storage} {header : FrameHeader} {streamId : BitVec 32}
  {n k pos : ℕ} {type : BitVec 8}

theorem findAttribute_descriptions {position : BitVec 64} (hr : r.size < 2 ^ 64)
    (h : extent r k position.toNat ≤ r.size) :
    (findAttribute type (descriptions r k position)).map (fun d => d.buffer.toNat) =
      attributePosition r type k position.toNat := by
  induction k generalizing position with
  | zero => rfl
  | succ k ih =>
    obtain ⟨d, hd⟩ : ∃ d, d = description r position := ⟨_, rfl⟩
    have hposition : d.position = position := by rw [hd]; rfl
    have htype : word r 8 (position.toNat + 4) = d.type := by rw [hd]; rfl
    have hsize : word r 64 (position.toNat + 16) = d.size := by rw [hd]; rfl
    rw [extent, hsize] at h
    rw [descriptions, attributePosition, htype, hsize, ← hd, findAttribute, List.find?_cons]
    subst hposition
    have hle := le_extent r k (d.position.toNat + attributeHeaderSize + d.size.toNat)
    have hbuffer : d.buffer.toNat = d.position.toNat + attributeHeaderSize :=
      buffer_toNat hr (by omega)
    by_cases hfound : d.type = type
    · simp [hfound, hbuffer]
    · have hin : d.Inside r.size := ⟨by omega, by omega⟩
      have hnext := next_toNat hr hin
      rw [← hnext] at h
      have hrest := ih h
      rw [hnext] at hrest
      simpa [findAttribute, hfound] using hrest

theorem findAttribute_eq (type : BitVec 8) (hr : r.size < 2 ^ 64)
    (h : extent r header.attributeCount.toNat frameHeaderSize ≤ r.size) :
    (findAttribute type (descriptions r header.attributeCount.toNat
      (.ofNat 64 frameHeaderSize))).map (fun d => d.buffer.toNat) = dataPosition r header type :=
  findAttribute_descriptions hr h

theorem initializeEncoder_inside_iff (hr : r.size < 2 ^ 64)
    (h : extent r header.attributeCount.toNat frameHeaderSize ≤ r.size) {count : ℕ} :
    (∀ a ∈ initializeEncoder r (descriptions r header.attributeCount.toNat
      (.ofNat 64 frameHeaderSize)) count, a.Inside r.size) ↔ AssociatedFits r header count := by
  have hpos := findAttribute_eq satAssociatedStreams hr h
  unfold initializeEncoder AssociatedFits
  rw [← hpos]
  by_cases hcount : count = 0
  · simp [hcount]
  · rw [if_neg hcount]
    cases findAttribute satAssociatedStreams _ with
    | none => simp
    | some d =>
      by_cases hword : (word r 32 d.buffer.toNat).toNat = count
      · simp [hcount, hword, Access.Inside]
      · simp [hcount, hword, Access.Inside]

/-- What opening a frame reads lies in the mapping if and only if the frame holds it. -/
theorem openFrame_inside_iff (hr : r.size < 2 ^ 64)
    (h : extent r header.attributeCount.toNat frameHeaderSize ≤ r.size) :
    (∀ a ∈ openFrame store r streamId header (descriptions r header.attributeCount.toNat
      (.ofNat 64 frameHeaderSize)), a.Inside r.size) ↔ OpenFits store r streamId header := by
  have hpos := findAttribute_eq satStreamDescription hr h
  unfold openFrame OpenFits DescriptorFits totalStreamCount
  cases store.findStream streamId with
  | some count => simpa using initializeEncoder_inside_iff hr h
  | none =>
    dsimp only
    unfold openStream
    rw [← hpos]
    cases findAttribute satStreamDescription _ with
    | none => simp
    | some d =>
      cases store.streamIds.createStream header.streamId with
      | none => simp [Access.Inside]
      | some _ =>
        dsimp only [Option.map_some, Option.bind_some]
        rw [List.forall_mem_append]
        refine and_congr (by simp [Access.Inside]) ?_
        cases store.createStream (r.read d.buffer.toNat streamDescriptorSize) with
        | none => simp
        | some count => simpa using initializeEncoder_inside_iff hr h

/-! ## Memory behind the frame -/

theorem attributePosition_congr (h : r.AgreeBelow n r') (hext : extent r k pos ≤ n) :
    attributePosition r' type k pos = attributePosition r type k pos := by
  induction k generalizing pos with
  | zero => rfl
  | succ k ih =>
    rw [extent] at hext
    have hle := le_extent r k (pos + attributeHeaderSize + (word r 64 (pos + 16)).toNat)
    have hheader : pos + 32 ≤ n := (Nat.le_add_right _ _).trans (hle.trans hext)
    have htype : word r' 8 (pos + 4) = word r 8 (pos + 4) := word_congr h (by omega)
    have hsize : word r' 64 (pos + 16) = word r 64 (pos + 16) := word_congr h (by omega)
    rw [attributePosition, attributePosition, htype, hsize, ih hext]

theorem openFits_congr (h : r.AgreeBelow r.size r') (hsize : r'.size = r.size)
    (hext : extent r header.attributeCount.toNat frameHeaderSize ≤ r.size) :
    OpenFits store r' streamId header ↔ OpenFits store r streamId header := by
  have hpos (type : BitVec 8) : dataPosition r' header type = dataPosition r header type :=
    attributePosition_congr h hext
  have hdescriptor : DescriptorFits store r' streamId header ↔
      DescriptorFits store r streamId header := by
    unfold DescriptorFits
    rw [hpos, hsize]
  have hassociated (count : ℕ) : AssociatedFits r' header count ↔
      AssociatedFits r header count := by
    unfold AssociatedFits
    rw [hpos, hsize]
    refine imp_congr_right fun _ => forall₂_congr fun pos _ => and_congr_right fun hle => ?_
    rw [word_congr h hle]
  unfold OpenFits
  rw [hdescriptor]
  apply and_congr_right
  intro hfits
  have hcount : totalStreamCount store r' streamId header =
      totalStreamCount store r streamId header := by
    unfold totalStreamCount
    cases hfind : store.findStream streamId with
    | some count => rfl
    | none =>
      dsimp only
      rw [hpos]
      cases hdata : dataPosition r header satStreamDescription with
      | none => rw [Option.bind_none, Option.bind_none]
      | some pos =>
        cases hid : store.streamIds.createStream header.streamId with
        | none => simp only [Option.bind_some, Option.bind_none]
        | some _ =>
          have hle := (hfits hfind pos hdata).2 (by simp [hid])
          dsimp only [Option.bind_some]
          rw [h.read hle]
  rw [hcount]
  exact forall₂_congr fun count _ => hassociated count

end Mapping

/-! ## Frames of any file -/

section

variable (sys : System) (beyond : ℕ → UInt8) (murmur3 : List UInt8 → BitVec 32)
  (store : LoadingStore) (file : Storage)

-- The segment of any other frame is described by the header in the directory alone.
/-- Opening a frame reads those that hold meta data. It throws an exception or does not leave the
mapping. -/
def FrameOpenSafe (link : FrameHeaderLink) : Prop :=
  link.frameHeader.sequenceNumber = -1 → ∀ mapped,
    mapSegment sys file.size link.offset link.frameHeader.totalSize = some mapped →
      Mapping.ReadsInside murmur3 (mapping beyond file link.offset mapped) ∧
      ∀ header ds, Mapping.readFrame murmur3 (mapping beyond file link.offset mapped) =
        some (header, ds) → ∀ a ∈ Mapping.openFrame store (mapping beyond file link.offset mapped)
          link.frameHeader.streamId header ds, a.Inside mapped

/-- The part of the file that a directory entry describes holds the frame, and what opening it reads
of its attributes. -/
structure FrameOpenFits (link : FrameHeaderLink) : Prop where
  frame : FrameFits sys murmur3 file link.offset link.frameHeader.totalSize
  attributes : Mapping.ValidateHash murmur3
      (filePart file link.offset link.frameHeader.totalSize.toNat) →
    ∀ header, FrameHeader.ofBytes ((filePart file link.offset
      link.frameHeader.totalSize.toNat).read 0 frameHeaderSize) = some header →
        Mapping.OpenFits store (filePart file link.offset link.frameHeader.totalSize.toNat)
          link.frameHeader.streamId header

variable {sys beyond murmur3 store file}

/-- A frame that is mapped is opened safely if and only if it fits. -/
theorem opensInside_mapping_iff {link : FrameHeaderLink} {mapped : ℕ}
    (h : mapSegment sys file.size link.offset link.frameHeader.totalSize = some mapped) :
    (Mapping.ReadsInside murmur3 (mapping beyond file link.offset mapped) ∧
      ∀ header ds, Mapping.readFrame murmur3 (mapping beyond file link.offset mapped) =
        some (header, ds) → ∀ a ∈ Mapping.openFrame store (mapping beyond file link.offset mapped)
          link.frameHeader.streamId header ds, a.Inside mapped) ↔
      FrameOpenFits sys murmur3 store file link := by
  rw [readsInside_mapping_iff h]
  refine Iff.trans (and_congr_right fun hfits => ?_)
    ⟨fun ⟨hframe, hattributes⟩ => ⟨hframe, hattributes⟩, fun hf => ⟨hf.frame, hf.attributes⟩⟩
  have hlt := link.frameHeader.totalSize.isLt
  have hmapped := mapped_eq h
  rw [if_pos hfits.length] at hmapped
  subst hmapped
  have ha := agreeBelow_mapping beyond file link.offset link.frameHeader.totalSize.toNat
  have hsize : (mapping beyond file link.offset link.frameHeader.totalSize.toNat).size =
      (filePart file link.offset link.frameHeader.totalSize.toNat).size := rfl
  have hheader := Mapping.header_congr ha hfits.header
  have hhash : Mapping.ValidateHash murmur3 _ ↔ _ := Mapping.validateHash_congr ha hfits.header
  constructor
  · intro hopen hv header hh
    have hextent := hfits.attributes hv header hh
    rw [← Mapping.openFits_congr ha hsize hextent]
    refine (Mapping.openFrame_inside_iff hlt ?_).mp (hopen header _ ?_)
    · exact (Mapping.extent_le_iff_of_agree ha).mp hextent
    · exact Mapping.readFrame_eq_some_iff.mpr ⟨hheader.symm ▸ hh, hhash.mpr hv, rfl⟩
  · intro hopen header ds hread
    obtain ⟨hh, hv, rfl⟩ := Mapping.readFrame_eq_some_iff.mp hread
    have hv' := hhash.mp hv
    have hh' := hheader ▸ hh
    have hextent := hfits.attributes hv' header hh'
    refine (Mapping.openFrame_inside_iff hlt ?_).mpr ?_
    · exact (Mapping.extent_le_iff_of_agree ha).mp hextent
    · exact (Mapping.openFits_congr ha hsize hextent).mpr (hopen hv' header hh')

/-- Reading a frame of any file is safe if and only if it cannot be mapped or fits, and opening one
if and only if it is not read, cannot be mapped, or fits with what is read of its attributes. -/
theorem frameSafe_iff (sys : System) (beyond : ℕ → UInt8)
    (murmur3 : List UInt8 → BitVec 32) (store : LoadingStore) (file : Storage) :
    (∀ offset size, FrameReadSafe sys beyond murmur3 file offset size ↔
      (mapSegment sys file.size offset size = none ∨
        FrameFits sys murmur3 file offset size)) ∧
    ∀ link, FrameOpenSafe sys beyond murmur3 store file link ↔
      (link.frameHeader.sequenceNumber ≠ -1 ∨
        mapSegment sys file.size link.offset link.frameHeader.totalSize = none ∨
        FrameOpenFits sys murmur3 store file link) := by
  refine ⟨fun offset size => frameReadSafe_iff, fun link => ?_⟩
  rw [FrameOpenSafe, imp_iff_not_or]
  apply or_congr_right
  cases hm : mapSegment sys file.size link.offset link.frameHeader.totalSize with
  | none => simp
  | some mapped =>
    simp only [Option.some.injEq, forall_eq', reduceCtorEq, false_or]
    exact opensInside_mapping_iff hm

end

/-! ## Attributes that are larger or smaller than what they claim to be -/

def describingHeader : FrameHeader where
  sequenceNumber := -1
  streamId := 0
  typeId := 0
  entryCount := 0
  rawEntryCount := 0
  startTime := -1
  endTime := -1
  startCycle := -1
  endCycle := -1
  startIndex := -1
  totalSize := 160
  attribute₀ := 0x780001
  attribute₁ := 0
  attributeCount := 1
  checksum := 0xa837c2e9

/-- A file with one frame, the descriptor of which has 8 bytes of data and claims to have the given
number. -/
def describingFile (size : ℕ) : Storage :=
  { Storage.empty with size := 4256 }.write 4096 (describingHeader.toBytes ++
    LittleEndian.pack [4, 1, 3, 8, 8, 8] [0x52545441, 1, 0, 0, size, size])

/-- A store without streams. -/
def emptyStore : LoadingStore := ⟨fun _ => none, .new, fun _ => none⟩

theorem describingFile_fits (size : ℕ) (hsize : size = 2 ^ 40 ∨ size = 8)
    (h : FrameOpenSafe ⟨4096, fun _ _ => true⟩ (fun _ => 0) (MurmurHash3.hash32 0) emptyStore
      (describingFile size) ⟨describingHeader, 4096⟩) :
    FrameOpenFits ⟨4096, fun _ _ => true⟩ (MurmurHash3.hash32 0) emptyStore (describingFile size)
      ⟨describingHeader, 4096⟩ := by
  have hmap : mapSegment ⟨4096, fun _ _ => true⟩ (describingFile size).size 4096
      describingHeader.totalSize = some 160 := by
    rcases hsize with rfl | rfl <;> decide
  exact (opensInside_mapping_iff hmap).mp (h rfl _ hmap)

/-- Both frames are opened. The attribute of the one ends far behind the mapping, and that of the
other one is taken for a whole descriptor. -/
theorem not_frameOpenSafe_described :
    ¬ FrameOpenSafe ⟨4096, fun _ _ => true⟩ (fun _ => 0) (MurmurHash3.hash32 0) emptyStore
      (describingFile (2 ^ 40)) ⟨describingHeader, 4096⟩ ∧
    ¬ FrameOpenSafe ⟨4096, fun _ _ => true⟩ (fun _ => 0) (MurmurHash3.hash32 0) emptyStore
      (describingFile 8) ⟨describingHeader, 4096⟩ := by
  constructor
  · intro h
    have hhash : Mapping.ValidateHash (MurmurHash3.hash32 0)
        (filePart (describingFile (2 ^ 40)) 4096 describingHeader.totalSize.toNat) := by
      decide +kernel
    have hheader : FrameHeader.ofBytes ((filePart (describingFile (2 ^ 40)) 4096
        describingHeader.totalSize.toNat).read 0 frameHeaderSize) = some describingHeader := by
      decide +kernel
    have hextent : ¬ Mapping.extent (filePart (describingFile (2 ^ 40)) 4096
        describingHeader.totalSize.toNat) describingHeader.attributeCount.toNat frameHeaderSize ≤
          describingHeader.totalSize.toNat := by
      decide +kernel
    exact hextent ((describingFile_fits _ (Or.inl rfl) h).frame.attributes hhash _ hheader)
  · intro h
    have hhash : Mapping.ValidateHash (MurmurHash3.hash32 0)
        (filePart (describingFile 8) 4096 describingHeader.totalSize.toNat) := by
      decide +kernel
    have hheader : FrameHeader.ofBytes ((filePart (describingFile 8) 4096
        describingHeader.totalSize.toNat).read 0 frameHeaderSize) = some describingHeader := by
      decide +kernel
    have hposition : Mapping.dataPosition (filePart (describingFile 8) 4096
        describingHeader.totalSize.toNat) describingHeader satStreamDescription = some 152 := by
      decide +kernel
    have hfits := (describingFile_fits _ (Or.inr rfl) h).attributes hhash _ hheader
    have hflags : 152 + streamFlagsEnd ≤ describingHeader.totalSize.toNat :=
      (hfits.1 rfl 152 hposition).1
    exact absurd hflags (by decide)

end Simutrace.Simtrace3
