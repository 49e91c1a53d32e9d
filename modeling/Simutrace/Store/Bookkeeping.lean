import Simutrace.Library.MurmurHash3
import Simutrace.Library.RangeTiling
import Simutrace.Library.ValidExtremes
import Simutrace.Store.Commit
import Simutrace.Store.FrameCodec

/-! # The space of a store file and its header

Any number of workers commit frames at the same time. Each reserves space and
writes its frame there, and then enters the frame into the directory and the
header, one worker after the other. Between the steps of one worker come those
of all others.
-/

namespace Simutrace.Simtrace3

/-- What a part of the file was reserved for. -/
inductive Space
  | header
  | frame
  | directory
  deriving DecidableEq, Repr

def Space.range (kind : Space) (offset size : ℕ) : RangeEntry ℕ Space :=
  ⟨offset, offset + size - 1, kind⟩

/-- How far a worker has come in `commitFrame`. It holds the lock of the file from `locked` on. -/
inductive CommitPhase
  | reserved
  | writing (position : ℕ) (parts : List (List UInt8))
  | locked
  | directoryReserved (dir : ℕ)
  | directoryCommitted (dir : ℕ)
  | directoryCounted (dir : ℕ)
  | prepared
  | entered
  | loaded (header : SimtraceV3Header)

def CommitPhase.HoldsLock : CommitPhase → Prop
  | reserved | writing _ _ => False
  | _ => True

instance : DecidablePred CommitPhase.HoldsLock := fun phase => by
  cases phase <;> first | exact isTrue trivial | exact isFalse id

/-- A frame that is being committed, with the position of its space. -/
structure CommitCall where
  frame : Simtrace3Frame
  offset : ℕ
  phase : CommitPhase

namespace CommitCall

variable (c : CommitCall)

def totalSize : ℕ := c.frame.header.totalSize.toNat

def withPhase (phase : CommitPhase) : CommitCall := { c with phase }

def parts : List (List UInt8) := FrameBuilder.parts ⟨c.frame.header, c.frame.attributes⟩

/-- The end of a space the last byte of which was not written yet. -/
def uncommitted : Option ℕ :=
  match c.phase with
  | .reserved => some (c.offset + c.totalSize)
  | .directoryReserved dir => some (dir + directoryBytes)
  | _ => none

/-- The space that was reserved for a frame and its directory and not accounted yet. -/
def pendingSize : ℕ :=
  match c.phase with
  | .directoryReserved _ | .directoryCommitted _ => c.totalSize + directoryBytes
  | _ => c.totalSize

/-- The frames that are in the directory and not accounted yet. -/
def pendingFrames : ℕ :=
  match c.phase with
  | .entered | .loaded _ => 1
  | _ => 0

end CommitCall

/-- The directory that is being added. -/
def CommitPhase.directory : CommitPhase → Option ℕ
  | directoryReserved dir | directoryCommitted dir | directoryCounted dir => some dir
  | _ => none

structure CommitCall.Placed (c : CommitCall) (spaces : List (RangeEntry ℕ Space)) : Prop where
  frame : Space.frame.range c.offset c.totalSize ∈ spaces
  directory : ∀ dir ∈ c.phase.directory, Space.directory.range dir directoryBytes ∈ spaces
  writing : ∀ position parts, c.phase = .writing position parts →
    position + parts.flatten.length = c.offset + c.totalSize

theorem CommitCall.Placed.withPhase {c : CommitCall} {spaces : List (RangeEntry ℕ Space)}
    (h : c.Placed spaces) {phase : CommitPhase} (hd : phase.directory = none)
    (hw : ∀ position parts, phase ≠ .writing position parts) :
    (c.withPhase phase).Placed spaces where
  frame := h.frame
  directory dir hdir := by
    rw [CommitCall.withPhase, hd] at hdir
    cases hdir
  writing position parts hp := absurd hp (hw position parts)

theorem CommitCall.Placed.mono {c : CommitCall} {spaces spaces' : List (RangeEntry ℕ Space)}
    (h : c.Placed spaces) (hsub : ∀ r ∈ spaces, r ∈ spaces') : c.Placed spaces' :=
  ⟨hsub _ h.frame, fun dir hd => hsub _ (h.directory dir hd), h.writing⟩

theorem CommitCall.Placed.keepDirectory {c : CommitCall} {spaces : List (RangeEntry ℕ Space)}
    (h : c.Placed spaces) {phase : CommitPhase} {dir : ℕ}
    (hr : Space.directory.range dir directoryBytes ∈ spaces) (hd : phase.directory = some dir)
    (hw : ∀ position parts, phase ≠ .writing position parts) :
    (c.withPhase phase).Placed spaces where
  frame := h.frame
  directory dir' hdir := by
    rw [CommitCall.withPhase, hd] at hdir
    obtain rfl := Option.some.inj hdir
    exact hr
  writing position parts hp := absurd hp (hw position parts)

/-! ## The information about the store -/

/-- What the header tells about the frames of the store. -/
structure SimtraceV3Header.Summarizes (h : SimtraceV3Header) (frames : List FrameHeader) :
    Prop where
  entryCount : h.entryCount.toNat = (frames.map (·.entryCount.toNat)).sum % 2 ^ 64
  rawEntryCount : h.rawEntryCount.toNat = (frames.map (·.rawEntryCount.toNat)).sum % 2 ^ 64
  startTime : ValidExtremes.IsMinimum invalidLargeObjectId (frames.map (·.startTime.toNat))
    h.startTime.toNat
  endTime : ValidExtremes.IsMaximum invalidLargeObjectId (frames.map (·.endTime.toNat))
    h.endTime.toNat
  startCycle : ValidExtremes.IsMinimum invalidLargeObjectId (frames.map (·.startCycle.toNat))
    h.startCycle.toNat
  endCycle : ValidExtremes.IsMaximum invalidLargeObjectId (frames.map (·.endCycle.toNat))
    h.endCycle.toNat

namespace SimtraceV3Header

variable {h : SimtraceV3Header} {frames : List FrameHeader}

theorem summarizes_init : init.Summarizes [] :=
  ⟨rfl, rfl, ValidExtremes.isMinimum_nil, ValidExtremes.isMaximum_nil,
    ValidExtremes.isMinimum_nil, ValidExtremes.isMaximum_nil⟩

theorem isMinimum_snoc {xs : List ℕ} {m x : BitVec 64}
    (hm : ValidExtremes.IsMinimum invalidLargeObjectId xs m.toNat) :
    ValidExtremes.IsMinimum invalidLargeObjectId (xs ++ [x.toNat])
      (if x < m then x else m).toNat := by
  have hsnoc := hm.snoc (Nat.le_pred_of_lt m.isLt) (Nat.le_pred_of_lt x.isLt)
  rwa [← apply_ite BitVec.toNat] at hsnoc

theorem isMaximum_snoc {xs : List ℕ} {m x : BitVec 64}
    (hm : ValidExtremes.IsMaximum invalidLargeObjectId xs m.toNat) :
    ValidExtremes.IsMaximum invalidLargeObjectId (xs ++ [x.toNat])
      (if m = -1 ∨ (x ≠ -1 ∧ m < x) then x else m).toNat := by
  have hinvalid (y : BitVec 64) : y.toNat = invalidLargeObjectId ↔ y = -1 := by
    rw [← BitVec.toNat_inj]
    rfl
  have hsnoc := hm.snoc (x := x.toNat)
  simp only [ne_eq, hinvalid] at hsnoc
  rwa [← apply_ite BitVec.toNat] at hsnoc

theorem sum_snoc {xs : List ℕ} {m : BitVec 64} {x : BitVec 32} (hm : m.toNat = xs.sum % 2 ^ 64) :
    (m + x.setWidth 64).toNat = (xs ++ [x.toNat]).sum % 2 ^ 64 := by
  have hx : x.toNat < 2 ^ 64 := x.isLt.trans (by decide)
  rw [BitVec.toNat_add, BitVec.toNat_setWidth, Nat.mod_eq_of_lt hx, hm, Nat.mod_add_mod,
    List.sum_append, List.sum_singleton]

theorem Summarizes.congr {h' : SimtraceV3Header} (hs : h.Summarizes frames)
    (entryCount : h'.entryCount = h.entryCount) (rawEntryCount : h'.rawEntryCount = h.rawEntryCount)
    (startTime : h'.startTime = h.startTime) (endTime : h'.endTime = h.endTime)
    (startCycle : h'.startCycle = h.startCycle) (endCycle : h'.endCycle = h.endCycle) :
    h'.Summarizes frames where
  entryCount := entryCount ▸ hs.entryCount
  rawEntryCount := rawEntryCount ▸ hs.rawEntryCount
  startTime := startTime ▸ hs.startTime
  endTime := endTime ▸ hs.endTime
  startCycle := startCycle ▸ hs.startCycle
  endCycle := endCycle ▸ hs.endCycle

theorem Summarizes.addFrame (hs : h.Summarizes frames) (frame : FrameHeader)
    (uncompressedSize : BitVec 64) :
    (h.addFrame frame uncompressedSize).Summarizes (frames ++ [frame]) where
  entryCount := by
    rw [List.map_append]
    exact sum_snoc hs.entryCount
  rawEntryCount := by
    rw [List.map_append]
    exact sum_snoc hs.rawEntryCount
  startTime := by
    rw [List.map_append]
    exact isMinimum_snoc hs.startTime
  endTime := by
    rw [List.map_append]
    exact isMaximum_snoc hs.endTime
  startCycle := by
    rw [List.map_append]
    exact isMinimum_snoc hs.startCycle
  endCycle := by
    rw [List.map_append]
    exact isMaximum_snoc hs.endCycle

end SimtraceV3Header

/-! ## The workers -/

/-- A store to which frames are committed. Its storage has the size that was reserved, which the
file does not reach before the last reserved space is committed. -/
structure CommitSystem where
  store : Simtrace3Store
  length : ℕ
  calls : List CommitCall
  spaces : List (RangeEntry ℕ Space)
  committed : List Committed

namespace CommitSystem

def createStore : CommitSystem where
  store := .createStore
  length := headerReservedSpace
  calls := []
  spaces := [Space.header.range 0 headerReservedSpace]
  committed := []

variable (s : CommitSystem)

def header : SimtraceV3Header := s.store.file.header

/-- The position at which the next space is reserved. -/
def writePosition : ℕ := s.store.file.storage.size

def setHeader (header : SimtraceV3Header) : CommitSystem :=
  { s with store := { s.store with file := { s.store.file with header } } }

def reserveSpace (kind : Space) (size : ℕ) : Option (ℕ × CommitSystem) :=
  match s.store.file.storage.reserve fileSizeLimit size with
  | none => none
  | some (offset, storage) => some (offset,
      { s with
        store := s.store.setStorage storage
        spaces := s.spaces ++ [kind.range offset size] })

/-- Write to the file, which grows if it does not reach up to there. -/
def write (pos : ℕ) (bytes : List UInt8) : CommitSystem :=
  { s with
    store := s.store.setStorage (s.store.file.storage.write pos bytes)
    length := max s.length (pos + bytes.length) }

def start (murmur3 : List UInt8 → BitVec 32) (frame : Simtrace3Frame) : Option CommitSystem :=
  let frame := frame.updateHash murmur3
  if s.store.readMode ∨ frame.header.streamId = -1 then none
  else
    (s.reserveSpace .frame frame.header.totalSize.toNat).map fun (offset, s) =>
      { s with calls := s.calls ++ [⟨frame, offset, .reserved⟩] }

def addFileSize (length : BitVec 64) : CommitSystem :=
  s.setHeader { s.header with
    fileSize := s.header.fileSize + length
    uncompressedFileSize := s.header.uncompressedFileSize + length }

/-- Enter a new directory into the header, link the last one to it and map it. -/
def addDirectory (dir : ℕ) : CommitSystem :=
  let store := (s.store.recordDirectory dir).linkDirectory dir
  { s with store := { store with directory := some dir, nextFrameIndex := 0 } }

/-- Account a frame in the header that was loaded. This ends its call. -/
def account (header : SimtraceV3Header) (c : CommitCall) : CommitSystem :=
  { s.setHeader (header.addFrame c.frame.header (Simtrace3Store.uncompressedBytes c.frame)) with
    committed := s.committed ++ [(c.frame, .ofNat 64 c.offset)] }

-- The header is mapped memory. What is added to it is loaded first and stored then, except for the
-- size of a new directory, which is added at once.
/-- The next step of a worker. It waits for the lock as long as another worker holds it. -/
def advance (c : CommitCall) : Option (CommitSystem × List CommitCall) :=
  let capacity := s.header.directoryCapacity
  match c.phase with
  | .reserved => some (s.write (c.offset + c.totalSize - 1) [0],
      [c.withPhase (.writing c.offset c.parts)])
  | .writing position (bytes :: parts) => some (s.write position bytes,
      [c.withPhase (.writing (position + bytes.length) parts)])
  | .writing _ [] =>
    if ∃ c' ∈ s.calls, c'.phase.HoldsLock then none else some (s, [c.withPhase .locked])
  | .locked =>
    if s.store.directory = none ∨ s.store.nextFrameIndex = capacity - 1 then
      (s.reserveSpace .directory (capacity * directoryEntrySize)).map fun (dir, s) =>
        (s, [c.withPhase (.directoryReserved dir)])
    else some (s, [c.withPhase .prepared])
  | .directoryReserved dir => some (s.write (dir + capacity * directoryEntrySize - 1) [0],
      [c.withPhase (.directoryCommitted dir)])
  | .directoryCommitted dir =>
    some (s.addFileSize (.ofNat 64 (capacity * directoryEntrySize)),
      [c.withPhase (.directoryCounted dir)])
  | .directoryCounted dir => some (s.addDirectory dir, [c.withPhase .prepared])
  | .prepared => s.store.directory.map fun dir =>
      ({ s with store := s.store.setSlot dir ⟨c.frame.header, .ofNat 64 c.offset⟩ },
        [c.withPhase .entered])
  | .entered => some (s, [c.withPhase (.loaded s.header)])
  | .loaded header => some (s.account header c, [])

/-- A worker begins to commit a frame or takes its next step. -/
inductive Step (murmur3 : List UInt8 → BitVec 32) : CommitSystem → CommitSystem → Prop
  | start {s s' : CommitSystem} {frame : Simtrace3Frame} (h : s.start murmur3 frame = some s') :
      Step murmur3 s s'
  | advance {s s' : CommitSystem} {before after next : List CommitCall} {c : CommitCall}
      (calls : s.calls = before ++ c :: after) (h : s.advance c = some (s', next)) :
      Step murmur3 s { s' with calls := before ++ next ++ after }

def Reachable (murmur3 : List UInt8 → BitVec 32) : CommitSystem → Prop :=
  Relation.ReflTransGen (Step murmur3) createStore

variable {s s' : CommitSystem} {c : CommitCall} {next before after : List CommitCall}
  {kind : Space} {size offset : ℕ} {murmur3 : List UInt8 → BitVec 32} {frame : Simtrace3Frame}

/-- What a step of a worker can do. -/
inductive Advance (s : CommitSystem) (c : CommitCall) : CommitSystem → List CommitCall → Prop
  | commitSpace (phase : c.phase = .reserved) :
      Advance s c (s.write (c.offset + c.totalSize - 1) [0])
        [c.withPhase (.writing c.offset c.parts)]
  | write {position bytes parts} (phase : c.phase = .writing position (bytes :: parts)) :
      Advance s c (s.write position bytes) [c.withPhase (.writing (position + bytes.length) parts)]
  | lock {position} (phase : c.phase = .writing position [])
      (free : ∀ c' ∈ s.calls, ¬ c'.phase.HoldsLock) : Advance s c s [c.withPhase .locked]
  | reserveDirectory {s' dir} (phase : c.phase = .locked)
      (reserved : s.reserveSpace .directory (s.header.directoryCapacity * directoryEntrySize) =
        some (dir, s')) : Advance s c s' [c.withPhase (.directoryReserved dir)]
  | keepDirectory (phase : c.phase = .locked) : Advance s c s [c.withPhase .prepared]
  | commitDirectory {dir} (phase : c.phase = .directoryReserved dir) :
      Advance s c (s.write (dir + s.header.directoryCapacity * directoryEntrySize - 1) [0])
        [c.withPhase (.directoryCommitted dir)]
  | countDirectory {dir} (phase : c.phase = .directoryCommitted dir) :
      Advance s c (s.addFileSize (.ofNat 64 (s.header.directoryCapacity * directoryEntrySize)))
        [c.withPhase (.directoryCounted dir)]
  | addDirectory {dir} (phase : c.phase = .directoryCounted dir) :
      Advance s c (s.addDirectory dir) [c.withPhase .prepared]
  | enter {dir} (phase : c.phase = .prepared) (directory : s.store.directory = some dir) :
      Advance s c { s with store := s.store.setSlot dir ⟨c.frame.header, .ofNat 64 c.offset⟩ }
        [c.withPhase .entered]
  | load (phase : c.phase = .entered) : Advance s c s [c.withPhase (.loaded s.header)]
  | account {header} (phase : c.phase = .loaded header) :
      Advance s c (s.account header c) []

theorem advance_cases (h : s.advance c = some (s', next)) : Advance s c s' next := by
  unfold advance at h
  dsimp only at h
  split at h
  · rename_i phase
    obtain ⟨rfl, rfl⟩ := Prod.mk.inj (Option.some.inj h)
    exact .commitSpace phase
  · rename_i position bytes parts phase
    obtain ⟨rfl, rfl⟩ := Prod.mk.inj (Option.some.inj h)
    exact .write phase
  · rename_i position phase
    split_ifs at h with hlock
    obtain ⟨rfl, rfl⟩ := Prod.mk.inj (Option.some.inj h)
    exact .lock phase fun c' hc hl => hlock ⟨c', hc, hl⟩
  · rename_i phase
    split_ifs at h
    · obtain ⟨⟨dir, s₁⟩, hr, he⟩ := Option.map_eq_some_iff.mp h
      obtain ⟨rfl, rfl⟩ := Prod.mk.inj he
      exact .reserveDirectory phase hr
    · obtain ⟨rfl, rfl⟩ := Prod.mk.inj (Option.some.inj h)
      exact .keepDirectory phase
  · rename_i dir phase
    obtain ⟨rfl, rfl⟩ := Prod.mk.inj (Option.some.inj h)
    exact .commitDirectory phase
  · rename_i dir phase
    obtain ⟨rfl, rfl⟩ := Prod.mk.inj (Option.some.inj h)
    exact .countDirectory phase
  · rename_i dir phase
    obtain ⟨rfl, rfl⟩ := Prod.mk.inj (Option.some.inj h)
    exact .addDirectory phase
  · rename_i phase
    obtain ⟨dir, hd, he⟩ := Option.map_eq_some_iff.mp h
    obtain ⟨rfl, rfl⟩ := Prod.mk.inj he
    exact .enter phase hd
  · rename_i phase
    obtain ⟨rfl, rfl⟩ := Prod.mk.inj (Option.some.inj h)
    exact .load phase
  · rename_i header phase
    obtain ⟨rfl, rfl⟩ := Prod.mk.inj (Option.some.inj h)
    exact .account phase

/-! ## Space -/

theorem reserveSpace_eq_some_iff : s.reserveSpace kind size = some (offset, s') ↔
    s.writePosition + size ≤ fileSizeLimit ∧ offset = s.writePosition ∧ s' = { s with
      store := s.store.setStorage { s.store.file.storage with size := s.writePosition + size }
      spaces := s.spaces ++ [kind.range s.writePosition size] } := by
  unfold reserveSpace
  cases hr : s.store.file.storage.reserve fileSizeLimit size with
  | none =>
    refine iff_of_false (by simp) fun h => ?_
    have hle : s.store.file.storage.size + size ≤ fileSizeLimit := h.1
    rw [Storage.reserve, if_pos hle] at hr
    cases hr
  | some r =>
    obtain ⟨offset', storage⟩ := r
    obtain ⟨hle, rfl, rfl⟩ := Storage.reserve_eq_some_iff.mp hr
    simp only [Option.some.injEq, Prod.mk.injEq]
    constructor
    · rintro ⟨rfl, rfl⟩
      exact ⟨hle, rfl, rfl⟩
    · rintro ⟨-, rfl, rfl⟩
      exact ⟨rfl, rfl⟩

structure Spaced (s : CommitSystem) : Prop where
  first : s.spaces.head? = some (Space.header.range 0 headerReservedSpace)
  tiles : RangeIndex.Tiles s.spaces 0 s.writePosition
  limit : s.writePosition ≤ fileSizeLimit
  capacity : s.header.directoryCapacity = directorySize
  directory : ∀ dir ∈ s.store.directory, Space.directory.range dir directoryBytes ∈ s.spaces
  committed : ∀ c ∈ s.committed,
    Space.frame.range c.2.toNat c.1.header.totalSize.toNat ∈ s.spaces

theorem totalSize_pos (c : CommitCall) : 0 < c.totalSize := by
  rw [CommitCall.totalSize, c.frame.totalSize_eq, frameHeaderSize]
  omega

theorem length_flatten_parts (c : CommitCall) : c.parts.flatten.length = c.totalSize := by
  rw [CommitCall.parts, FrameBuilder.flatten_parts]
  exact c.frame.length_toBytes

theorem spaced_createStore : createStore.Spaced where
  first := rfl
  tiles := ⟨rfl, by decide, rfl⟩
  limit := by decide
  capacity := rfl
  directory := by simp [createStore, Simtrace3Store.createStore]
  committed := by simp [createStore]

theorem Spaced.reserveSpace (h : s.Spaced) (hpos : 0 < size)
    (hr : s.reserveSpace kind size = some (offset, s')) : s'.Spaced := by
  obtain ⟨hle, rfl, rfl⟩ := reserveSpace_eq_some_iff.mp hr
  have hstop : (kind.range s.writePosition size).stop + 1 = s.writePosition + size := by
    simp only [Space.range]
    omega
  have htiles := RangeIndex.Tiles.snoc (r := kind.range s.writePosition size) h.tiles
    (by simp only [Space.range]; omega)
  rw [hstop] at htiles
  refine ⟨?_, htiles, hle, h.capacity, fun dir hd => ?_, fun c hc => ?_⟩
  · rw [List.head?_append, h.first]
    rfl
  · exact List.mem_append_left _ (h.directory dir hd)
  · exact List.mem_append_left _ (h.committed c hc)

theorem Spaced.write (h : s.Spaced) (pos : ℕ) (bytes : List UInt8) : (s.write pos bytes).Spaced :=
  ⟨h.first, h.tiles, h.limit, h.capacity, h.directory, h.committed⟩

theorem Spaced.le_writePosition (h : s.Spaced) (hs : kind.range offset size ∈ s.spaces) :
    offset + size ≤ s.writePosition := by
  have hmem := (h.tiles.mem hs).2.2
  simp only [Space.range] at hmem
  omega

theorem directoryBytes_pos : 0 < directoryBytes := by decide

theorem Spaced.reserved (hs : s.Spaced) (hpos : 0 < size)
    (hr : s.reserveSpace kind size = some (offset, s')) :
    s'.Spaced ∧ (∀ r ∈ s.spaces, r ∈ s'.spaces) ∧ kind.range offset size ∈ s'.spaces := by
  refine ⟨hs.reserveSpace hpos hr, ?_⟩
  obtain ⟨-, rfl, rfl⟩ := reserveSpace_eq_some_iff.mp hr
  exact ⟨fun r hr => List.mem_append_left _ hr, List.mem_append_right _ List.mem_cons_self⟩

theorem writePosition_addDirectory (s : CommitSystem) (dir : ℕ) :
    (s.addDirectory dir).writePosition = s.writePosition := by
  rw [addDirectory, writePosition, Simtrace3Store.size_linkDirectory]
  rfl

theorem header_addDirectory (s : CommitSystem) (dir : ℕ) :
    (s.addDirectory dir).header = (s.store.recordDirectory dir).file.header := by
  rw [addDirectory, header, Simtrace3Store.header_linkDirectory]

theorem Spaced.advance (hs : s.Spaced) (hc : c.Placed s.spaces)
    (hl : ∀ header, c.phase = .loaded header → header = s.header)
    (ha : s.advance c = some (s', next)) :
    s'.Spaced ∧ (∀ r ∈ s.spaces, r ∈ s'.spaces) ∧ ∀ c' ∈ next, c'.Placed s'.spaces := by
  cases advance_cases ha with
  | commitSpace phase =>
    refine ⟨hs.write _ _, fun r hr => hr, List.forall_mem_singleton.mpr ⟨hc.frame, ?_, ?_⟩⟩
    · rintro dir ⟨⟩
    · rintro position parts ⟨⟩
      rw [length_flatten_parts]
      rfl
  | @write position bytes parts phase =>
    refine ⟨hs.write _ _, fun r hr => hr, List.forall_mem_singleton.mpr ⟨hc.frame, ?_, ?_⟩⟩
    · rintro dir ⟨⟩
    · rintro position' parts' ⟨⟩
      have hend := hc.writing _ _ phase
      rwa [List.flatten_cons, List.length_append, ← Nat.add_assoc] at hend
  | lock phase free =>
    exact ⟨hs, fun r hr => hr, List.forall_mem_singleton.mpr (hc.withPhase rfl (by simp))⟩
  | reserveDirectory phase reserved =>
    rw [hs.capacity, ← directoryBytes] at reserved
    obtain ⟨hs', hsub, hmem⟩ := hs.reserved directoryBytes_pos reserved
    exact ⟨hs', hsub, List.forall_mem_singleton.mpr
      ((hc.mono hsub).keepDirectory hmem rfl (by simp))⟩
  | keepDirectory phase =>
    exact ⟨hs, fun r hr => hr, List.forall_mem_singleton.mpr (hc.withPhase rfl (by simp))⟩
  | @commitDirectory dir phase =>
    have hmem := hc.directory dir (by rw [phase]; rfl)
    exact ⟨hs.write _ _, fun r hr => hr, List.forall_mem_singleton.mpr
      (hc.keepDirectory hmem rfl (by simp))⟩
  | @countDirectory dir phase =>
    have hmem := hc.directory dir (by rw [phase]; rfl)
    exact ⟨⟨hs.first, hs.tiles, hs.limit, hs.capacity, hs.directory, hs.committed⟩, fun r hr => hr,
      List.forall_mem_singleton.mpr (hc.keepDirectory hmem rfl (by simp))⟩
  | @addDirectory dir phase =>
    have hmem := hc.directory dir (by rw [phase]; rfl)
    have hs' : (s.addDirectory dir).Spaced := by
      refine ⟨hs.first, ?_, ?_, ?_, ?_, hs.committed⟩
      · rw [writePosition_addDirectory]
        exact hs.tiles
      · rw [writePosition_addDirectory]
        exact hs.limit
      · rw [header_addDirectory]
        exact hs.capacity
      · rintro _ ⟨⟩
        exact hmem
    exact ⟨hs', fun r hr => hr, List.forall_mem_singleton.mpr (hc.withPhase rfl (by simp))⟩
  | enter phase directory =>
    exact ⟨⟨hs.first, hs.tiles, hs.limit, hs.capacity, hs.directory, hs.committed⟩, fun r hr => hr,
      List.forall_mem_singleton.mpr (hc.withPhase rfl (by simp))⟩
  | load phase =>
    exact ⟨hs, fun r hr => hr, List.forall_mem_singleton.mpr (hc.withPhase rfl (by simp))⟩
  | @account header phase =>
    obtain rfl := hl header phase
    have hoffset : (BitVec.ofNat 64 c.offset).toNat = c.offset := by
      have hle := hs.le_writePosition hc.frame
      have hlimit := hs.limit
      simp only [fileSizeLimit] at hlimit
      rw [BitVec.toNat_ofNat, Nat.mod_eq_of_lt (by omega)]
    refine ⟨⟨hs.first, hs.tiles, hs.limit, hs.capacity, hs.directory, fun c' hm => ?_⟩,
      fun r hr => hr, List.forall_mem_nil _⟩
    rcases List.mem_append.mp hm with hm | hm
    · exact hs.committed c' hm
    · obtain rfl := List.mem_singleton.mp hm
      rw [hoffset]
      exact hc.frame

/-! ## The length of the file -/

/-- The file reaches up to the write position, or the last space is yet to be committed. -/
structure Grown (s : CommitSystem) : Prop where
  length_le : s.length ≤ s.writePosition
  last : s.length = s.writePosition ∨ ∃ c ∈ s.calls, c.uncommitted = some s.writePosition

theorem writePosition_write (s : CommitSystem) (pos : ℕ) (bytes : List UInt8) :
    (s.write pos bytes).writePosition = s.writePosition := rfl

theorem length_write (s : CommitSystem) (pos : ℕ) (bytes : List UInt8) :
    (s.write pos bytes).length = max s.length (pos + bytes.length) := rfl

theorem Grown.replace {m : ℕ} (h : s.Grown) (hcalls : s.calls = before ++ c :: after)
    (hp : s'.writePosition = s.writePosition) (hl : s'.length = max s.length m)
    (hm : m ≤ s.writePosition) (hc : ∀ e ∈ c.uncommitted, e = m) (next : List CommitCall) :
    { s' with calls := before ++ next ++ after }.Grown := by
  refine ⟨?_, ?_⟩
  · change s'.length ≤ s'.writePosition
    rw [hp, hl]
    exact max_le h.length_le hm
  · change s'.length = s'.writePosition ∨ ∃ c' ∈ before ++ next ++ after,
      c'.uncommitted = some s'.writePosition
    rw [hp, hl]
    rcases h.last with hlen | ⟨c', hmem, hlast⟩
    · rw [hlen, max_eq_left hm]
      exact Or.inl rfl
    · rw [hcalls, List.mem_append, List.mem_cons] at hmem
      rcases hmem with hmem | rfl | hmem
      · exact Or.inr ⟨c', by simp [hmem], hlast⟩
      · rw [← hc _ hlast, max_eq_right (hc _ hlast ▸ h.length_le)]
        exact Or.inl rfl
      · exact Or.inr ⟨c', by simp [hmem], hlast⟩

theorem Grown.advance (h : s.Grown) (hs : s.Spaced) (hcalls : s.calls = before ++ c :: after)
    (hc : c.Placed s.spaces) (ha : s.advance c = some (s', next)) :
    { s' with calls := before ++ next ++ after }.Grown := by
  have hend := hs.le_writePosition hc.frame
  have hpos := totalSize_pos c
  have hkeep {s' : CommitSystem} {next : List CommitCall} (hu : c.uncommitted = none)
      (hp : s'.writePosition = s.writePosition) (hl : s'.length = s.length) :
      { s' with calls := before ++ next ++ after }.Grown :=
    h.replace hcalls hp (by rw [hl, Nat.max_zero]) (Nat.zero_le _) (by simp [hu]) next
  have hdirectoryBytes := directoryBytes_pos
  cases advance_cases ha with
  | commitSpace phase =>
    refine h.replace hcalls (writePosition_write s _ _) (length_write s _ _) ?_ (fun e he => ?_) _
    · rw [List.length_singleton]
      omega
    · rw [CommitCall.uncommitted, phase] at he
      obtain rfl := Option.some.inj he
      rw [List.length_singleton]
      omega
  | write phase =>
    have hwriting := hc.writing _ _ phase
    rw [List.flatten_cons, List.length_append] at hwriting
    refine h.replace hcalls (writePosition_write s _ _) (length_write s _ _) (by omega)
      (fun e he => ?_) _
    rw [CommitCall.uncommitted, phase] at he
    cases he
  | lock phase free => exact hkeep (by rw [CommitCall.uncommitted, phase]) rfl rfl
  | reserveDirectory phase reserved =>
    rw [hs.capacity, ← directoryBytes] at reserved
    obtain ⟨-, rfl, rfl⟩ := reserveSpace_eq_some_iff.mp reserved
    refine ⟨h.length_le.trans (Nat.le_add_right _ _),
      Or.inr ⟨c.withPhase (.directoryReserved s.writePosition), ?_, rfl⟩⟩
    simp
  | keepDirectory phase => exact hkeep (by rw [CommitCall.uncommitted, phase]) rfl rfl
  | @commitDirectory dir phase =>
    have hend := hs.le_writePosition (hc.directory dir (by rw [phase]; rfl))
    refine h.replace hcalls (writePosition_write s _ _) (length_write s _ _) ?_ (fun e he => ?_) _
    · rw [List.length_singleton, hs.capacity, ← directoryBytes]
      omega
    · rw [CommitCall.uncommitted, phase] at he
      obtain rfl := Option.some.inj he
      rw [List.length_singleton, hs.capacity, ← directoryBytes]
      omega
  | countDirectory phase => exact hkeep (by rw [CommitCall.uncommitted, phase]) rfl rfl
  | addDirectory phase =>
    exact hkeep (by rw [CommitCall.uncommitted, phase]) (writePosition_addDirectory _ _) rfl
  | enter phase directory => exact hkeep (by rw [CommitCall.uncommitted, phase]) rfl rfl
  | load phase => exact hkeep (by rw [CommitCall.uncommitted, phase]) rfl rfl
  | account phase => exact hkeep (by rw [CommitCall.uncommitted, phase]) rfl rfl

/-! ## The lock of the file -/

/-- At most one worker holds the lock, and the header it loaded has not changed since. -/
structure Exclusive (s : CommitSystem) : Prop where
  pairwise : s.calls.Pairwise fun c c' => ¬ (c.phase.HoldsLock ∧ c'.phase.HoldsLock)
  loaded : ∀ c ∈ s.calls, ∀ header, c.phase = .loaded header → header = s.header

theorem Exclusive.not_holdsLock (h : s.Exclusive) (hcalls : s.calls = before ++ c :: after)
    (hc : c.phase.HoldsLock) : ∀ c' ∈ before ++ after, ¬ c'.phase.HoldsLock := by
  have hp := h.pairwise
  rw [hcalls, List.pairwise_middle fun hab hba => hab ⟨hba.2, hba.1⟩, List.pairwise_cons] at hp
  exact fun c' hc' hl => hp.1 c' hc' ⟨hc, hl⟩

theorem header_advance (ha : s.advance c = some (s', next)) (hc : ¬ c.phase.HoldsLock) :
    s'.header = s.header := by
  cases advance_cases ha with
  | commitSpace | write | lock | load | keepDirectory => rfl
  | reserveDirectory phase | commitDirectory phase | countDirectory phase | addDirectory phase
  | enter phase | account phase =>
    rw [phase] at hc
    exact absurd trivial hc

theorem holdsLock_advance (ha : s.advance c = some (s', next)) {c' : CommitCall}
    (hc' : c' ∈ next) (hl : c'.phase.HoldsLock) :
    c.phase.HoldsLock ∨ ∀ c'' ∈ s.calls, ¬ c''.phase.HoldsLock := by
  cases advance_cases ha with
  | commitSpace | write =>
    obtain rfl := List.mem_singleton.mp hc'
    exact absurd hl id
  | lock phase free => exact Or.inr free
  | reserveDirectory phase | keepDirectory phase | commitDirectory phase | countDirectory phase
  | addDirectory phase | enter phase | load phase | account phase =>
    rw [phase]
    exact Or.inl trivial

theorem length_next (ha : s.advance c = some (s', next)) : next.length ≤ 1 := by
  cases advance_cases ha with
  | account => exact Nat.zero_le 1
  | _ => exact le_rfl

theorem loaded_advance (ha : s.advance c = some (s', next)) {c' : CommitCall} (hc' : c' ∈ next)
    {h : SimtraceV3Header} (hl : c'.phase = .loaded h) : h = s'.header := by
  cases advance_cases ha with
  | load =>
    obtain rfl := List.mem_singleton.mp hc'
    obtain rfl := CommitPhase.loaded.inj hl
    rfl
  | account => cases hc'
  | _ =>
    obtain rfl := List.mem_singleton.mp hc'
    cases hl

theorem Exclusive.advance (h : s.Exclusive) (hcalls : s.calls = before ++ c :: after)
    (ha : s.advance c = some (s', next)) :
    { s' with calls := before ++ next ++ after }.Exclusive := by
  have hothers : ∀ c' ∈ before ++ after, c'.phase.HoldsLock → ¬ c.phase.HoldsLock :=
    fun c' hc' hl hc => h.not_holdsLock hcalls hc c' hc' hl
  have hmem {c' : CommitCall} (hc' : c' ∈ before ++ after) : c' ∈ s.calls := by
    rw [hcalls]
    rcases List.mem_append.mp hc' with hc' | hc'
    · exact List.mem_append_left _ hc'
    · exact List.mem_append_right _ (List.mem_cons_of_mem c hc')
  have hnext (c' : CommitCall) (hc' : c' ∈ next) (c'' : CommitCall) (hc'' : c'' ∈ before ++ after) :
      ¬ (c'.phase.HoldsLock ∧ c''.phase.HoldsLock) := by
    rintro ⟨hl, hl'⟩
    rcases holdsLock_advance ha hc' hl with hc | hfree
    · exact hothers c'' hc'' hl' hc
    · exact hfree c'' (hmem hc'') hl'
  have hpairwise : (next ++ (before ++ after)).Pairwise
      fun c c' => ¬ (c.phase.HoldsLock ∧ c'.phase.HoldsLock) := by
    have hp := h.pairwise
    rw [hcalls, List.pairwise_middle fun hab hba => hab ⟨hba.2, hba.1⟩, List.pairwise_cons] at hp
    refine List.pairwise_append.mpr ⟨?_, hp.2, hnext⟩
    rcases next with _ | ⟨c', _ | ⟨c'', rest⟩⟩
    · exact .nil
    · exact List.pairwise_singleton _ _
    · have hlen := length_next ha
      simp at hlen
  constructor
  · change (before ++ next ++ after).Pairwise _
    rw [List.append_assoc]
    refine (List.Perm.pairwise_iff (fun hab hba => hab ⟨hba.2, hba.1⟩) ?_).mp hpairwise
    rw [← List.append_assoc, ← List.append_assoc]
    exact List.perm_append_comm.append_right after
  · intro c' hc' header hl
    change header = s'.header
    rcases List.mem_append.mp hc' with hc' | hc'
    · rcases List.mem_append.mp hc' with hc' | hc'
      · have hc' := List.mem_append_left after hc'
        have hlock : c'.phase.HoldsLock := by
          rw [hl]
          exact trivial
        rw [header_advance ha (hothers c' hc' hlock)]
        exact h.loaded c' (hmem hc') header hl
      · exact loaded_advance ha hc' hl
    · have hc' := List.mem_append_right before hc'
      have hlock : c'.phase.HoldsLock := by
        rw [hl]
        exact trivial
      rw [header_advance ha (hothers c' hc' hlock)]
      exact h.loaded c' (hmem hc') header hl

/-! ## The header -/

structure Accounted (s : CommitSystem) : Prop where
  fileSize : s.header.fileSize.toNat + (s.calls.map CommitCall.pendingSize).sum = s.writePosition
  frameCount : s.header.frameCount =
    s.committed.length + (s.calls.map CommitCall.pendingFrames).sum
  summarizes : s.header.Summarizes (s.committed.map (·.1.header))

theorem accounted_createStore : createStore.Accounted where
  fileSize := rfl
  frameCount := rfl
  summarizes := SimtraceV3Header.summarizes_init

theorem Accounted.replace (h : s.Accounted) (hcalls : s.calls = before ++ c :: after)
    (hsize : s'.header.fileSize.toNat + (next.map CommitCall.pendingSize).sum + s.writePosition =
      s.header.fileSize.toNat + c.pendingSize + s'.writePosition)
    (hcount : s'.header.frameCount + s.committed.length + c.pendingFrames =
      s.header.frameCount + s'.committed.length + (next.map CommitCall.pendingFrames).sum)
    (hsummary : s'.header.Summarizes (s'.committed.map (·.1.header))) :
    { s' with calls := before ++ next ++ after }.Accounted := by
  have hold := h.fileSize
  have hold' := h.frameCount
  rw [hcalls] at hold hold'
  simp only [List.map_append, List.map_cons, List.sum_append, List.sum_cons] at hold hold'
  refine ⟨?_, ?_, hsummary⟩
  · change s'.header.fileSize.toNat + ((before ++ next ++ after).map _).sum = s'.writePosition
    simp only [List.map_append, List.sum_append]
    omega
  · change s'.header.frameCount = s'.committed.length + ((before ++ next ++ after).map _).sum
    simp only [List.map_append, List.sum_append]
    omega

/-- What is pending of a call was not accounted yet, so that the file size does not overflow. -/
theorem Accounted.add_pendingSize_le (h : s.Accounted) (hcalls : s.calls = before ++ c :: after) :
    s.header.fileSize.toNat + c.pendingSize ≤ s.writePosition := by
  have hsize := h.fileSize
  rw [hcalls] at hsize
  simp only [List.map_append, List.map_cons, List.sum_append, List.sum_cons] at hsize
  omega

theorem toNat_add_of_le {size : BitVec 64} {n : ℕ} (h : size.toNat + n ≤ fileSizeLimit) :
    (size + .ofNat 64 n).toNat = size.toNat + n := by
  simp only [fileSizeLimit] at h
  rw [BitVec.toNat_add, BitVec.toNat_ofNat]
  omega

theorem Accounted.keep (h : s.Accounted) (hcalls : s.calls = before ++ c :: after)
    (s' : CommitSystem) (phase : CommitPhase) (hheader : s'.header = s.header)
    (hposition : s'.writePosition = s.writePosition) (hcommitted : s'.committed = s.committed)
    (hsize : (c.withPhase phase).pendingSize = c.pendingSize)
    (hcount : (c.withPhase phase).pendingFrames = c.pendingFrames) :
    { s' with calls := before ++ [c.withPhase phase] ++ after }.Accounted := by
  refine h.replace hcalls ?_ ?_ ?_
  · simp [hheader, hposition, hsize]
  · simp [hheader, hcommitted, hcount]
  · rw [hheader, hcommitted]
    exact h.summarizes

theorem Accounted.reserveDirectory (h : s.Accounted) (hcalls : s.calls = before ++ c :: after)
    {dir : ℕ} (phase : c.phase = .locked)
    (reserved : s.reserveSpace .directory directoryBytes = some (dir, s')) :
    { s' with calls := before ++ [c.withPhase (.directoryReserved dir)] ++ after }.Accounted := by
  obtain ⟨-, rfl, rfl⟩ := reserveSpace_eq_some_iff.mp reserved
  refine h.replace hcalls ?_ ?_ h.summarizes
  · have hpending : c.pendingSize = c.totalSize := by rw [CommitCall.pendingSize, phase]
    rw [hpending, List.map_singleton, List.sum_singleton]
    change s.header.fileSize.toNat + (c.totalSize + directoryBytes) + s.writePosition =
      s.header.fileSize.toNat + c.totalSize + (s.writePosition + directoryBytes)
    omega
  · have hpending : c.pendingFrames = 0 := by rw [CommitCall.pendingFrames, phase]
    rw [hpending]
    rfl

theorem Accounted.countDirectory (h : s.Accounted) (hs : s.Spaced)
    (hcalls : s.calls = before ++ c :: after) {dir : ℕ} {length : BitVec 64}
    (phase : c.phase = .directoryCommitted dir) (hlength : length = .ofNat 64 directoryBytes) :
    { s.addFileSize length with
      calls := before ++ [c.withPhase (.directoryCounted dir)] ++ after }.Accounted := by
  have hpending : c.pendingSize = c.totalSize + directoryBytes := by
    rw [CommitCall.pendingSize, phase]
  have hpending' : c.pendingFrames = 0 := by rw [CommitCall.pendingFrames, phase]
  have hle := (h.add_pendingSize_le hcalls).trans hs.limit
  rw [hpending] at hle
  have hadd : (s.header.fileSize + length).toNat = s.header.fileSize.toNat + directoryBytes := by
    rw [hlength]
    exact toNat_add_of_le (by omega)
  refine h.replace hcalls ?_ ?_ (h.summarizes.congr rfl rfl rfl rfl rfl rfl)
  · rw [hpending, List.map_singleton, List.sum_singleton]
    change (s.header.fileSize + length).toNat + c.totalSize + s.writePosition =
      s.header.fileSize.toNat + (c.totalSize + directoryBytes) + s.writePosition
    rw [hadd]
    omega
  · rw [hpending']
    rfl

theorem Accounted.addDirectory (h : s.Accounted) (hcalls : s.calls = before ++ c :: after)
    {dir : ℕ} (phase : c.phase = .directoryCounted dir) :
    { s.addDirectory dir with calls := before ++ [c.withPhase .prepared] ++ after }.Accounted := by
  have hpending : c.pendingSize = c.totalSize := by rw [CommitCall.pendingSize, phase]
  have hpending' : c.pendingFrames = 0 := by rw [CommitCall.pendingFrames, phase]
  have hheader := header_addDirectory s dir
  refine h.replace hcalls ?_ ?_ ?_
  · rw [hpending, hheader, writePosition_addDirectory]
    rfl
  · rw [hpending', hheader]
    rfl
  · rw [hheader]
    exact h.summarizes.congr rfl rfl rfl rfl rfl rfl

theorem Accounted.enter (h : s.Accounted) (hcalls : s.calls = before ++ c :: after)
    (phase : c.phase = .prepared) (dir : ℕ) (link : FrameHeaderLink) :
    { s with
      store := s.store.setSlot dir link
      calls := before ++ [c.withPhase .entered] ++ after }.Accounted := by
  have hpending : c.pendingSize = c.totalSize := by rw [CommitCall.pendingSize, phase]
  have hpending' : c.pendingFrames = 0 := by rw [CommitCall.pendingFrames, phase]
  let entered : CommitSystem := { s with store := s.store.setSlot dir link }
  have hsummary : entered.header.Summarizes (entered.committed.map (·.1.header)) :=
    h.summarizes.congr rfl rfl rfl rfl rfl rfl
  refine h.replace hcalls ?_ ?_ hsummary
  · rw [hpending]
    rfl
  · rw [hpending', List.map_singleton, List.sum_singleton]
    change s.header.frameCount + 1 + s.committed.length + 0 =
      s.header.frameCount + s.committed.length + 1
    omega

theorem Accounted.account (h : s.Accounted) (hs : s.Spaced)
    (hcalls : s.calls = before ++ c :: after) (phase : c.phase = .loaded s.header) :
    { s.account s.header c with calls := before ++ [] ++ after }.Accounted := by
  have hpending : c.pendingSize = c.totalSize := by rw [CommitCall.pendingSize, phase]
  have hpending' : c.pendingFrames = 1 := by rw [CommitCall.pendingFrames, phase]
  have hle := (h.add_pendingSize_le hcalls).trans hs.limit
  refine h.replace hcalls ?_ ?_ ?_
  · have htotal := toNat_add_of_le (hpending ▸ hle)
    rw [CommitCall.totalSize, BitVec.ofNat_toNat, BitVec.setWidth_eq] at htotal
    rw [hpending]
    change (s.header.fileSize + c.frame.header.totalSize).toNat + 0 + s.writePosition =
      s.header.fileSize.toNat + c.totalSize + s.writePosition
    rw [htotal]
    rfl
  · have hlen : (s.account s.header c).committed.length = s.committed.length + 1 :=
      List.length_append
    rw [hpending', hlen]
    change s.header.frameCount + s.committed.length + 1 =
      s.header.frameCount + (s.committed.length + 1) + 0
    omega
  · have hframes : (s.account s.header c).committed.map (·.1.header) =
        s.committed.map (·.1.header) ++ [c.frame.header] := List.map_append
    rw [hframes]
    exact h.summarizes.addFrame _ _

theorem Accounted.advance (h : s.Accounted) (hs : s.Spaced) (he : s.Exclusive)
    (hcalls : s.calls = before ++ c :: after) (ha : s.advance c = some (s', next)) :
    { s' with calls := before ++ next ++ after }.Accounted := by
  have hbytes : s.header.directoryCapacity * directoryEntrySize = directoryBytes := by
    rw [hs.capacity, directoryBytes]
  cases advance_cases ha with
  | commitSpace phase | write phase | lock phase | keepDirectory phase | commitDirectory phase
  | load phase =>
    refine h.keep hcalls _ _ rfl rfl rfl ?_ ?_
    · simp only [CommitCall.pendingSize, phase, CommitCall.withPhase]
      rfl
    · simp only [CommitCall.pendingFrames, phase, CommitCall.withPhase]
  | reserveDirectory phase reserved =>
    rw [hbytes] at reserved
    exact h.reserveDirectory hcalls phase reserved
  | countDirectory phase => exact h.countDirectory hs hcalls phase (by rw [hbytes])
  | addDirectory phase => exact h.addDirectory hcalls phase
  | enter phase directory => exact h.enter hcalls phase _ _
  | @account header phase =>
    have hmem : c ∈ s.calls := by
      rw [hcalls]
      exact List.mem_append_right _ List.mem_cons_self
    obtain rfl := he.loaded c hmem header phase
    exact h.account hs hcalls phase

/-! ## All interleavings -/

/-- What holds in every state. -/
structure Consistent (s : CommitSystem) : Prop where
  spaced : s.Spaced
  placed : ∀ c ∈ s.calls, c.Placed s.spaces
  grown : s.Grown
  exclusive : s.Exclusive
  accounted : s.Accounted

theorem consistent_createStore : createStore.Consistent where
  spaced := spaced_createStore
  placed := by simp [createStore]
  grown := ⟨le_rfl, Or.inl rfl⟩
  exclusive := ⟨.nil, by simp [createStore]⟩
  accounted := accounted_createStore

/-- A call that begins has reserved its space, and nothing else changes. -/
theorem Consistent.start (h : s.Consistent) (hs : s.start murmur3 frame = some s') :
    s'.Consistent := by
  simp only [CommitSystem.start] at hs
  split_ifs at hs
  obtain ⟨⟨offset, s₁⟩, hr, rfl⟩ := Option.map_eq_some_iff.mp hs
  obtain ⟨c, hc⟩ : ∃ c : CommitCall, c = ⟨frame.updateHash murmur3, offset, .reserved⟩ := ⟨_, rfl⟩
  have hpos : 0 < (frame.updateHash murmur3).header.totalSize.toNat := totalSize_pos ⟨_, 0, .locked⟩
  obtain ⟨hspaced, hsub, hrange⟩ := h.spaced.reserved hpos hr
  obtain ⟨-, rfl, rfl⟩ := reserveSpace_eq_some_iff.mp hr
  dsimp only
  rw [← hc]
  refine ⟨⟨hspaced.first, hspaced.tiles, hspaced.limit, hspaced.capacity, hspaced.directory,
    hspaced.committed⟩, fun c' hc' => ?_, ⟨?_, ?_⟩, ⟨?_, ?_⟩, ⟨?_, ?_, h.accounted.summarizes⟩⟩
  · rcases List.mem_append.mp hc' with hc' | hc'
    · exact (h.placed c' hc').mono hsub
    · obtain rfl := List.mem_singleton.mp hc'
      subst hc
      exact ⟨hrange, by rintro dir ⟨⟩, by rintro position parts ⟨⟩⟩
  · exact h.grown.length_le.trans (Nat.le_add_right _ _)
  · refine Or.inr ⟨c, List.mem_append_right _ List.mem_cons_self, ?_⟩
    subst hc
    rfl
  · refine List.pairwise_append.mpr ⟨h.exclusive.pairwise, List.pairwise_singleton _ _, ?_⟩
    rintro c' - c'' hc'' ⟨-, hl⟩
    obtain rfl := List.mem_singleton.mp hc''
    subst hc
    exact hl
  · intro c' hc' header hl
    rcases List.mem_append.mp hc' with hc' | hc'
    · exact h.exclusive.loaded c' hc' header hl
    · obtain rfl := List.mem_singleton.mp hc'
      subst hc
      cases hl
  · have hsize := h.accounted.fileSize
    subst hc
    rw [List.map_append, List.sum_append, ← Nat.add_assoc]
    exact congrArg (· + _) hsize
  · have hcount := h.accounted.frameCount
    subst hc
    rw [List.map_append, List.sum_append]
    exact hcount

theorem Consistent.advance (h : s.Consistent) (hcalls : s.calls = before ++ c :: after)
    (ha : s.advance c = some (s', next)) :
    { s' with calls := before ++ next ++ after }.Consistent := by
  have hmem : c ∈ s.calls := by
    rw [hcalls]
    exact List.mem_append_right _ List.mem_cons_self
  have hc := h.placed c hmem
  obtain ⟨hs, hsub, hnext⟩ := h.spaced.advance hc (h.exclusive.loaded c hmem) ha
  refine ⟨⟨hs.first, hs.tiles, hs.limit, hs.capacity, hs.directory, hs.committed⟩, ?_,
    h.grown.advance h.spaced hcalls hc ha, h.exclusive.advance hcalls ha,
    h.accounted.advance h.spaced h.exclusive hcalls ha⟩
  intro c' hc'
  rcases List.mem_append.mp hc' with hc' | hc'
  · rcases List.mem_append.mp hc' with hc' | hc'
    · exact (h.placed c' (by rw [hcalls]; exact List.mem_append_left _ hc')).mono hsub
    · exact hnext c' hc'
  · refine (h.placed c' ?_).mono hsub
    rw [hcalls]
    exact List.mem_append_right _ (List.mem_cons_of_mem c hc')

theorem Consistent.step (h : s.Consistent) (hs : Step murmur3 s s') : s'.Consistent := by
  cases hs with
  | start hs => exact h.start hs
  | advance hcalls ha => exact h.advance hcalls ha

theorem Reachable.consistent (h : Reachable murmur3 s) : s.Consistent := by
  induction h with
  | refl => exact consistent_createStore
  | tail _ hs ih => exact ih.step hs

/-- The space of the header and all spaces that were reserved tile the file up to the write
position, among them those of the frames and directories in use. While no frame is being committed,
the header has the length of the file and tells about all frames that were committed. -/
structure Bookkept (s : CommitSystem) : Prop where
  tiles : RangeIndex.Tiles s.spaces 0 s.writePosition
  disjoint : s.spaces.Pairwise fun x y => x.stop < y.start
  header : Space.header.range 0 headerReservedSpace ∈ s.spaces
  calls : ∀ c ∈ s.calls, Space.frame.range c.offset c.totalSize ∈ s.spaces ∧
    ∀ dir ∈ c.phase.directory, Space.directory.range dir directoryBytes ∈ s.spaces
  committed : ∀ c ∈ s.committed,
    Space.frame.range c.2.toNat c.1.header.totalSize.toNat ∈ s.spaces
  directory : ∀ dir ∈ s.store.directory, Space.directory.range dir directoryBytes ∈ s.spaces
  idle : s.calls = [] → s.header.fileSize.toNat = s.length ∧ s.length = s.writePosition ∧
    s.header.frameCount = s.committed.length ∧
      s.header.Summarizes (s.committed.map (·.1.header))

/-- The file and its header are kept consistent by all interleavings of the workers. -/
theorem bookkept_of_reachable (h : Reachable murmur3 s) : s.Bookkept := by
  obtain ⟨hs, hplaced, hgrown, -, haccount⟩ := h.consistent
  refine ⟨hs.tiles, hs.tiles.pairwise, List.mem_of_mem_head? hs.first, fun c hc => ?_,
    hs.committed, hs.directory, fun hidle => ?_⟩
  · exact ⟨(hplaced c hc).frame, (hplaced c hc).directory⟩
  · have hlength : s.length = s.writePosition := by
      rcases hgrown.last with hl | ⟨c, hc, -⟩
      · exact hl
      · rw [hidle] at hc
        cases hc
    have hsize := haccount.fileSize
    have hcount := haccount.frameCount
    rw [hidle] at hsize hcount
    exact ⟨hlength ▸ hsize, hlength, hcount, haccount.summarizes⟩

theorem Reachable.first (h : Reachable murmur3 s) (hc : s.calls = c :: after)
    (ha : s.advance c = some (s', next)) :
    Reachable murmur3 { s' with calls := next ++ after } := by
  have hfirst : s.calls = [] ++ c :: after := hc
  exact h.tail (.advance hfirst ha)

theorem Reachable.second {b : CommitCall} (h : Reachable murmur3 s) (hc : s.calls = [b, c])
    (ha : s.advance c = some (s', next)) : Reachable murmur3 { s' with calls := b :: next } := by
  have hsecond : s.calls = [b] ++ c :: [] := hc
  have hstep : Step murmur3 s _ := .advance hsecond ha
  rw [List.append_nil] at hstep
  exact h.tail hstep

/-- The second of two workers overtakes the first one, which writes its frame in the meantime. -/
theorem bookkept_two_commits : ∃ s, Reachable (MurmurHash3.hash32 0) s ∧ s.calls = [] ∧
    s.committed.map (·.1.header.streamId) = [2, 1] ∧ s.Bookkept := by
  have hstart : Reachable (MurmurHash3.hash32 0) _ :=
    .single (.start (show createStore.start _ (.bare 1) = some _ from rfl))
  have hboth : Reachable (MurmurHash3.hash32 0) _ :=
    hstart.tail (.start (show CommitSystem.start _ _ (.bare 2) = some _ from rfl))
  have hspace₂ := hboth.second rfl rfl
  have hframe₂ := hspace₂.second rfl rfl
  have hlock₂ := hframe₂.second rfl rfl
  have hspace₁ := hlock₂.first rfl rfl
  have hreserve := hspace₁.second rfl rfl
  have hframe₁ := hreserve.first rfl rfl
  have hdirectory := hframe₁.second rfl rfl
  have hcount := hdirectory.second rfl rfl
  have hadd := hcount.second rfl rfl
  have henter₂ := hadd.second rfl rfl
  have hload₂ := henter₂.second rfl rfl
  have haccount₂ := hload₂.second rfl rfl
  have hlock₁ := haccount₂.first rfl rfl
  have hkeep := hlock₁.first rfl rfl
  have henter₁ := hkeep.first rfl rfl
  have hload₁ := henter₁.first rfl rfl
  have haccount₁ := hload₁.first rfl rfl
  exact ⟨_, haccount₁, rfl, rfl, bookkept_of_reachable haccount₁⟩

end CommitSystem

end Simutrace.Simtrace3
