import Simutrace.Library.MurmurHash3
import Simutrace.Store.DirectoryWriter

/-! # Committing and reopening

As long as the file and the directory table have space, every commit succeeds.
Opening the file then visits the committed frames in commit order.
-/

namespace Simutrace.Simtrace3

variable {current : Option ℕ} {index : ℕ} {links : List FrameHeaderLink} {frames : List Committed}
  {f : StoreFile}

def directoryBytes : ℕ := directorySize * directoryEntrySize

def maxFrameCount : ℕ := directoryTableSize * (directorySize - 1)

theorem Directories.count_lt (h : Directories f current index links)
    (hfull : current = none ∨ index = directorySize - 1) (hl : links.length < maxFrameCount) :
    f.header.directoryCount < directoryTableSize := by
  have hd : directorySize - 1 = 1023 := rfl
  have ht : directoryTableSize = 448 := rfl
  rw [maxFrameCount] at hl
  cases h with
  | empty count => omega
  | chain _ _ _ _ _ _ _ total =>
    have hfs := hfull.resolve_left (by simp)
    rw [List.length_append] at hl
    rw [hd] at total hfs hl
    rw [ht] at hl ⊢
    omega

namespace Simtrace3Store

variable {s s' : Simtrace3Store} {frame : Simtrace3Frame} {murmur3 : List UInt8 → BitVec 32}

def extent (s : Simtrace3Store) : ℕ :=
  s.file.storage.size + (directoryTableSize - s.file.header.directoryCount) * directoryBytes

theorem reserveSpace_of_fits (length : ℕ) (h : s.file.storage.size + length ≤ fileSizeLimit) :
    ∃ offset s₁, s.reserveSpace length = some (offset, s₁) := by
  simp [reserveSpace, Storage.reserve, h]

theorem prepareDirectory_of_fits (h : Holds s.file current index links frames)
    (hd : s.directory = current) (hi : s.nextFrameIndex = index)
    (hl : links.length < maxFrameCount) (hfit : s.extent ≤ fileSizeLimit) :
    ∃ s', s.prepareDirectory none = (some (), s') ∧ s'.directory ≠ none ∧
      s'.extent = s.extent := by
  unfold prepareDirectory
  split
  · rename_i hfull
    have hcap := h.capacity
    have hlt := h.directories.count_lt (by rwa [h.capacity, hi, hd] at hfull) hl
    have hpos : directoryTableSize - s.file.header.directoryCount =
      (directoryTableSize - (s.file.header.directoryCount + 1)) + 1 := by omega
    rw [extent, hpos, Nat.succ_mul] at hfit
    obtain ⟨offset, s₁, hres⟩ := reserveSpace_of_fits (s := s)
      (s.file.header.directoryCapacity * directoryEntrySize)
      (by rw [h.capacity, ← directoryBytes]; omega)
    obtain ⟨ho, -, hs, -, -, -, -, hn, -⟩ := reserveSpace_eq hres
    refine ⟨{ (s₁.recordDirectory offset).linkDirectory offset with
      directory := some offset, nextFrameIndex := 0 }, ?_, by simp, ?_⟩
    · simp [addDirectory, hres]
    · have hcount : (s₁.recordDirectory offset).file.header.directoryCount =
          s.file.header.directoryCount + 1 := congrArg (· + 1) hn
      have hsize : (s₁.recordDirectory offset).file.storage.size =
          s.file.storage.size + directoryBytes := by
        rw [directoryBytes, ← hcap, ← ho]; exact hs
      simp only [extent, size_linkDirectory, header_linkDirectory, hcount, hsize, hpos,
        Nat.succ_mul]
      omega
  · rename_i hfree
    exact ⟨s, rfl, fun hn => hfree (Or.inl hn), rfl⟩

theorem writeFrame_of_fits
    (h : s.file.storage.size + frame.header.totalSize.toNat ≤ fileSizeLimit) :
    ∃ offset s', s.writeFrame none frame = (some offset, s') ∧
      s'.extent = s.extent + frame.header.totalSize.toNat := by
  refine ⟨s.file.storage.size, _, by simp only [writeFrame, Storage.reserve, if_pos h]; rfl, ?_⟩
  simp only [extent, setStorage, Storage.size_write]
  omega

theorem commitFrame_of_prepared {murmur3 : List UInt8 → BitVec 32} {offset dir : ℕ}
    {s₁ s₂ : Simtrace3Store} (hw : s.readMode = false) (hid : frame.header.streamId ≠ -1)
    (he₁ : s.writeFrame none (frame.updateHash murmur3) = (some offset, s₁))
    (he₂ : s₁.prepareDirectory none = (some (), s₂)) (hdir : s₂.directory = some dir) :
    s.commitFrame murmur3 none frame = (some (.ofNat 64 offset),
      (s₂.setSlot dir
        ⟨(frame.updateHash murmur3).header, .ofNat 64 offset⟩).addFrameToStoreInformation
        (frame.updateHash murmur3).header (uncompressedBytes (frame.updateHash murmur3))) := by
  have hopen : ¬ (s.readMode = true ∨ (frame.updateHash murmur3).header.streamId = -1) := by
    rintro (h | h)
    · rw [hw] at h; cases h
    · exact hid h
  simp only [commitFrame, if_neg hopen, he₁, addFrameToDirectory, he₂, hdir]

/-- A commit succeeds while there is space for the frame and for the directories left, and the
directories have a slot left. -/
theorem commitFrame_of_fits (murmur3 : List UInt8 → BitVec 32) (h : s.Consistent frames)
    (hw : s.readMode = false) (hid : frame.header.streamId ≠ -1)
    (hn : frames.length < maxFrameCount)
    (hfit : s.extent + frame.header.totalSize.toNat ≤ fileSizeLimit) :
    ∃ offset s', s.commitFrame murmur3 none frame = (some offset, s') ∧ s'.readMode = false ∧
      s'.extent = s.extent + frame.header.totalSize.toNat := by
  obtain ⟨current, index, hh, hcur⟩ := h
  obtain ⟨hd, hi⟩ := hcur hw
  have hsize : s.file.storage.size +
      (frame.updateHash murmur3).header.totalSize.toNat ≤ fileSizeLimit := by
    rw [extent] at hfit
    exact le_trans (Nat.add_le_add_right (Nat.le_add_right _ _) _) hfit
  obtain ⟨offset, s₁, he₁, hx₁⟩ := writeFrame_of_fits hsize
  obtain ⟨hd₁, hi₁, hr₁, h₁, -⟩ := holds_writeFrame hh he₁
  obtain ⟨s₂, he₂, hne, hx₂⟩ := prepareDirectory_of_fits h₁ (hd₁.trans hd) (hi₁.trans hi)
    (by rwa [List.length_map]) (hx₁ ▸ hfit)
  obtain ⟨hr₂, -⟩ := holds_prepareDirectory h₁ (hd₁.trans hd) (hi₁.trans hi) he₂
  obtain ⟨dir, hdir⟩ := Option.ne_none_iff_exists'.mp hne
  exact ⟨_, _, commitFrame_of_prepared hw hid he₁ he₂ hdir, (hr₂.trans hr₁).trans hw,
    hx₂.trans hx₁⟩

theorem prepareDirectory_of_space (hcap : s.file.header.directoryCapacity = directorySize)
    (hfit : s.file.storage.size + directoryBytes ≤ fileSizeLimit) :
    ∃ s', s.prepareDirectory none = (some (), s') ∧ s'.directory ≠ none ∧
      s'.file.storage.size ≤ s.file.storage.size + directoryBytes := by
  rw [prepareDirectory]
  split
  · obtain ⟨offset, s₁, hres⟩ := reserveSpace_of_fits (s := s)
      (s.file.header.directoryCapacity * directoryEntrySize) (by rwa [hcap])
    obtain ⟨ho, -, hs, -⟩ := reserveSpace_eq hres
    refine ⟨{ (s₁.recordDirectory offset).linkDirectory offset with
      directory := some offset, nextFrameIndex := 0 }, by simp [addDirectory, hres], by simp, ?_⟩
    have hsize : (s₁.recordDirectory offset).file.storage.size =
        s.file.storage.size + directoryBytes := by
      rw [directoryBytes, ← hcap, ← ho]; exact hs
    simp only [size_linkDirectory, hsize, le_refl]
  · rename_i hfree
    exact ⟨s, rfl, fun hn => hfree (Or.inl hn), Nat.le_add_right _ _⟩

/-- A commit succeeds while there is space for the frame and one more directory. -/
theorem commitFrame_of_space (murmur3 : List UInt8 → BitVec 32) (h : s.Consistent frames)
    (hw : s.readMode = false) (hid : frame.header.streamId ≠ -1)
    (hfit : s.file.storage.size + (frame.header.totalSize.toNat + directoryBytes) ≤
      fileSizeLimit) :
    ∃ offset s', s.commitFrame murmur3 none frame = (some offset, s') ∧ s'.readMode = false ∧
      s'.file.storage.size ≤
        s.file.storage.size + (frame.header.totalSize.toNat + directoryBytes) := by
  obtain ⟨current, index, hh, hcur⟩ := h
  obtain ⟨hd, hi⟩ := hcur hw
  have hsize : s.file.storage.size +
      (frame.updateHash murmur3).header.totalSize.toNat ≤ fileSizeLimit :=
    (Nat.add_le_add_left (Nat.le_add_right _ _) _).trans hfit
  have he₁ : s.writeFrame none (frame.updateHash murmur3) = (some s.file.storage.size,
      s.setStorage ({ s.file.storage with size := s.file.storage.size +
        (frame.updateHash murmur3).header.totalSize.toNat }.write s.file.storage.size
          (frame.updateHash murmur3).toBytes)) := by
    simp only [writeFrame, Storage.reserve, if_pos hsize]
  obtain ⟨hd₁, hi₁, hr₁, h₁, -⟩ := holds_writeFrame hh he₁
  rw [← Nat.add_assoc] at hfit ⊢
  obtain ⟨s₂, he₂, hne, hx₂⟩ := prepareDirectory_of_space h₁.capacity hfit
  obtain ⟨hr₂, -⟩ := holds_prepareDirectory h₁ (hd₁.trans hd) (hi₁.trans hi) he₂
  obtain ⟨dir, hdir⟩ := Option.ne_none_iff_exists'.mp hne
  exact ⟨_, _, commitFrame_of_prepared hw hid he₁ he₂ hdir, (hr₂.trans hr₁).trans hw, hx₂⟩

/-- Commit frames one after the other, without a failure. -/
def commitFrames (murmur3 : List UInt8 → BitVec 32) :
    Simtrace3Store → List Simtrace3Frame → Option (List Committed × Simtrace3Store)
  | s, [] => some ([], s)
  | s, frame :: fs =>
    match s.commitFrame murmur3 none frame with
    | (none, _) => none
    | (some offset, s) => do
      let (committed, s) ← commitFrames murmur3 s fs
      return ((frame.updateHash murmur3, offset) :: committed, s)

theorem Consistent.commitFrames {fs : List Simtrace3Frame} {committed : List Committed}
    (h : s.Consistent frames) (e : s.commitFrames murmur3 fs = some (committed, s')) :
    s'.Consistent (frames ++ committed) := by
  induction fs generalizing s frames committed with
  | nil =>
    obtain ⟨rfl, rfl⟩ := Prod.mk.inj (Option.some.inj e)
    rwa [List.append_nil]
  | cons frame fs ih =>
    rw [Simtrace3Store.commitFrames] at e
    split at e
    · cases e
    · rename_i offset s₁ he
      simp only [Option.bind_eq_bind, Option.bind_eq_some_iff] at e
      obtain ⟨⟨committed', s''⟩, hr, he'⟩ := e
      obtain ⟨rfl, rfl⟩ := Prod.mk.inj (Option.some.inj he')
      have := ih ((h.commitFrame he).2 offset rfl) hr
      rwa [List.append_assoc] at this

theorem length_commitFrames {fs : List Simtrace3Frame} {committed : List Committed}
    (e : s.commitFrames murmur3 fs = some (committed, s')) : committed.length = fs.length := by
  induction fs generalizing s committed with
  | nil =>
    obtain ⟨rfl, -⟩ := Prod.mk.inj (Option.some.inj e)
    rfl
  | cons frame fs ih =>
    rw [Simtrace3Store.commitFrames] at e
    split at e
    · cases e
    · simp only [Option.bind_eq_bind, Option.bind_eq_some_iff] at e
      obtain ⟨⟨committed', s''⟩, hr, he'⟩ := e
      obtain ⟨rfl, rfl⟩ := Prod.mk.inj (Option.some.inj he')
      rw [List.length_cons, List.length_cons, ih hr]

theorem commitFrames_of_fits (murmur3 : List UInt8 → BitVec 32) {fs : List Simtrace3Frame}
    (h : s.Consistent frames) (hw : s.readMode = false) (hid : ∀ f ∈ fs, f.header.streamId ≠ -1)
    (hn : frames.length + fs.length ≤ maxFrameCount)
    (hfit : s.extent + (fs.map fun f => f.header.totalSize.toNat).sum ≤ fileSizeLimit) :
    ∃ committed s', s.commitFrames murmur3 fs = some (committed, s') ∧
      committed.map Prod.fst = fs.map (·.updateHash murmur3) := by
  induction fs generalizing s frames with
  | nil => exact ⟨[], s, rfl, rfl⟩
  | cons frame fs ih =>
    rw [List.length_cons] at hn
    rw [List.map_cons, List.sum_cons] at hfit
    obtain ⟨offset, s₁, he, hw₁, hx⟩ := commitFrame_of_fits murmur3 h hw
      (hid frame List.mem_cons_self) (by omega) (by omega)
    obtain ⟨committed, s', hr, hc⟩ := ih ((h.commitFrame he).2 offset rfl) hw₁
      (fun f hf => hid f (List.mem_cons_of_mem _ hf))
      (by rw [List.length_append, List.length_singleton]; omega) (by omega)
    exact ⟨(frame.updateHash murmur3, offset) :: committed, s',
      by simp [Simtrace3Store.commitFrames, he, hr], by simp [hc]⟩

end Simtrace3Store

def visit (visited : List FrameHeaderLink) (link : FrameHeaderLink) :
    Option (List FrameHeaderLink) :=
  some (visited ++ [link])

theorem foldlM_visit (visited links : List FrameHeaderLink) :
    links.foldlM visit visited = some (visited ++ links) := by
  induction links generalizing visited with
  | nil => simp
  | cons l links ih => rw [List.foldlM_cons, visit]; simp [ih]

/-- Any number of frames for which the directories and the file have space are committed, lie in
the file at the offsets of their links, and are opened in commit order by the directory walk, which
then stops. -/
theorem openStore_visits_committed (murmur3 : List UInt8 → BitVec 32) (fs : List Simtrace3Frame)
    (hid : ∀ f ∈ fs, f.header.streamId ≠ -1) (hn : fs.length ≤ maxFrameCount)
    (hfit : Simtrace3Store.createStore.extent +
      (fs.map fun f => f.header.totalSize.toNat).sum ≤ fileSizeLimit) :
    ∃ committed store,
      Simtrace3Store.createStore.commitFrames murmur3 fs = some (committed, store) ∧
      committed.map Prod.fst = fs.map (·.updateHash murmur3) ∧
      (∀ c ∈ committed, store.file.storage.read c.2.toNat c.1.toBytes.length = c.1.toBytes) ∧
      ∀ assertions fuel, 2 * fs.length + 1 ≤ fuel →
        (∀ {σ : Type} (openFrame : σ → FrameHeaderLink → Option σ) (s : σ),
          store.file.openStore assertions openFrame fuel s =
            (committed.map Committed.link).foldlM openFrame s) ∧
        store.file.openStore assertions visit fuel [] =
          some (committed.map fun c => ⟨c.1.header, c.2⟩) := by
  obtain ⟨committed, store, he, hc⟩ := Simtrace3Store.commitFrames_of_fits murmur3
    Simtrace3Store.consistent_createStore rfl hid (by simpa using hn) hfit
  obtain ⟨current, index, h, -⟩ := Simtrace3Store.consistent_createStore.commitFrames he
  rw [List.nil_append] at h
  have hlen : committed.length = fs.length := by
    simpa using congrArg List.length hc
  refine ⟨committed, store, he, hc, fun c hm => (h.stored c hm).read,
    fun assertions fuel hfuel => ?_⟩
  have hfuel' : 2 * (committed.map Committed.link).length + 1 ≤ fuel := by
    rw [List.length_map, hlen]
    exact hfuel
  constructor
  · exact fun openFrame s => h.directories.openStore h.capacity hfuel' s
  · rw [h.directories.openStore h.capacity hfuel', foldlM_visit]
    rfl

/-- A frame without attributes for the given stream. -/
def Simtrace3Frame.bare (streamId : BitVec 32) : Simtrace3Frame where
  header := ⟨0, streamId, 0, 0, 0, 0, 0, 0, 0, 0, .ofNat 64 frameHeaderSize, 0, 0, 0, 0⟩
  attributes := []
  totalSize_eq := rfl

theorem openStore_visits_two_committed :
    ∃ committed store, Simtrace3Store.createStore.commitFrames (MurmurHash3.hash32 0)
        [.bare 1, .bare 2] = some (committed, store) ∧
      committed.map Prod.fst =
        [Simtrace3Frame.bare 1, .bare 2].map (·.updateHash (MurmurHash3.hash32 0)) ∧
      (∀ c ∈ committed, store.file.storage.read c.2.toNat c.1.toBytes.length = c.1.toBytes) ∧
      store.file.openStore true visit 5 [] = some (committed.map fun c => ⟨c.1.header, c.2⟩) := by
  obtain ⟨committed, store, he, hc, hread, hopen⟩ := openStore_visits_committed
    (MurmurHash3.hash32 0) [.bare 1, .bare 2] (by simp [Simtrace3Frame.bare]) (by decide)
    (by decide)
  exact ⟨committed, store, he, hc, hread, (hopen true 5 le_rfl).2⟩

end Simutrace.Simtrace3
