import Simutrace.Store.Commit
import Simutrace.Store.Writes

/-! # The directory table of the header

Every new directory is recorded in the table of the header. The check before
that allows as many entries as a directory has, and the table has fewer. The
writes stay within the table as long as the frames fit into its directories.
-/

namespace Simutrace.Simtrace3

def tableEntryOffset (index : ℕ) : ℕ := 168 + 8 * index

/-- The checksum of the header comes right behind the table. -/
def checksumOffset : ℕ := tableEntryOffset directoryTableSize

/-- All writes to the table of the header are to its entries and not to the memory behind it. -/
def WithinTable (ws : List FileWrite) : Prop :=
  ∀ index offset, FileWrite.directoryTable index offset ∈ ws →
    index < directoryTableSize ∧ tableEntryOffset index + 8 ≤ checksumOffset

def Records (ws : List FileWrite) (index : ℕ) : Prop :=
  ∃ offset, FileWrite.directoryTable index offset ∈ ws

theorem records_append {ws ws' : List FileWrite} {index : ℕ} :
    Records (ws ++ ws') index ↔ Records ws index ∨ Records ws' index := by
  simp only [Records, List.mem_append, exists_or]

theorem withinTable_iff {ws : List FileWrite} :
    WithinTable ws ↔ ∀ index, Records ws index → index < directoryTableSize := by
  constructor
  · rintro h index ⟨offset, hm⟩
    exact (h index offset hm).1
  · rintro h index offset hm
    have hlt := h index ⟨offset, hm⟩
    refine ⟨hlt, ?_⟩
    rw [checksumOffset, tableEntryOffset, tableEntryOffset]
    omega

theorem not_records_attributeWrites (pos : ℕ) (attributes : List Attribute) (index : ℕ) :
    ¬ Records (attributeWrites pos attributes) index := by
  rintro ⟨offset, hm⟩
  induction attributes generalizing pos with
  | nil => cases hm
  | cons a attributes ih =>
    simp only [attributeWrites, List.mem_cons, reduceCtorEq, false_or] at hm
    exact ih _ hm

namespace Simtrace3Store

variable {s s' : Simtrace3Store} {murmur3 : List UInt8 → BitVec 32} {frame : Simtrace3Frame}
  {offset : FileOffset} {n : ℕ}

theorem not_records_writeFrameWrites (s : Simtrace3Store) (frame : Simtrace3Frame) (index : ℕ) :
    ¬ Records (s.writeFrameWrites none frame) index := by
  rintro ⟨offset, hm⟩
  unfold writeFrameWrites at hm
  split at hm
  · cases hm
  · simp only [List.mem_cons, reduceCtorEq, false_or] at hm
    exact not_records_attributeWrites _ _ index ⟨offset, hm⟩

theorem records_recordDirectoryWrites (s : Simtrace3Store) (offset index : ℕ) :
    Records (s.recordDirectoryWrites offset) index ↔
      index = s.file.header.directoryCount ∧ index < s.file.header.directoryCapacity := by
  simp only [recordDirectoryWrites, Records]
  split <;> simp
  · rintro rfl
    assumption
  · omega

theorem not_records_linkDirectoryWrites (s : Simtrace3Store) (offset index : ℕ) :
    ¬ Records (s.linkDirectoryWrites offset) index := by
  rw [linkDirectoryWrites]
  cases s.directory with
  | none => simp [Records]
  | some dir => simp [Records]

theorem commitFrame_eq_some (e : s.commitFrame murmur3 none frame = (some offset, s')) :
    ∃ pos s₁ s₂ dir, s.writeFrame none (frame.updateHash murmur3) = (some pos, s₁) ∧
      s₁.prepareDirectory none = (some (), s₂) ∧ s₂.directory = some dir ∧
      s' = (s₂.setSlot dir
        ⟨(frame.updateHash murmur3).header, .ofNat 64 pos⟩).addFrameToStoreInformation
        (frame.updateHash murmur3).header (uncompressedBytes (frame.updateHash murmur3)) ∧
      s.commitFrameWrites murmur3 none frame =
        s.writeFrameWrites none (frame.updateHash murmur3) ++ (s₁.prepareDirectoryWrites none ++
          s₂.setSlotWrites dir ⟨(frame.updateHash murmur3).header, .ofNat 64 pos⟩ ++
          [.storeInformation (frame.updateHash murmur3).header
            (uncompressedBytes (frame.updateHash murmur3))]) := by
  rw [commitFrame] at e
  rw [commitFrameWrites]
  dsimp only at e ⊢
  split at e
  · cases (Prod.mk.inj e).1
  · rename_i hopen
    rw [if_neg hopen]
    cases hw : s.writeFrame none (frame.updateHash murmur3) with
    | mk r s₁ =>
      rw [hw] at e
      cases r with
      | none => cases (Prod.mk.inj e).1
      | some pos =>
        dsimp only at e ⊢
        rw [addFrameToDirectory] at e
        rw [addFrameToDirectoryWrites, addFrameToDirectory]
        cases hp : s₁.prepareDirectory none with
        | mk r s₂ =>
          rw [hp] at e
          cases r with
          | none => cases (Prod.mk.inj e).1
          | some _ =>
            dsimp only at e ⊢
            cases hd : s₂.directory with
            | none =>
              rw [hd] at e
              cases (Prod.mk.inj e).1
            | some dir =>
              rw [hd] at e
              exact ⟨pos, s₁, s₂, dir, rfl, hp, hd, (Prod.mk.inj e).2.symm, rfl⟩

/-- A store with the given number of frames. Its last directory has at least one of them. -/
structure Counted (s : Simtrace3Store) (n : ℕ) : Prop where
  capacity : s.file.header.directoryCapacity = directorySize
  empty : s.directory = none → n = 0 ∧ s.file.header.directoryCount = 0
  filled : s.directory ≠ none → 0 < s.nextFrameIndex ∧ s.nextFrameIndex ≤ directorySize - 1 ∧
    n + (directorySize - 1) =
      s.file.header.directoryCount * (directorySize - 1) + s.nextFrameIndex

theorem counted_createStore : createStore.Counted 0 :=
  ⟨rfl, fun _ => ⟨rfl, rfl⟩, fun h => (h rfl).elim⟩

theorem Counted.writeFrame {pos : ℕ} {s₁ : Simtrace3Store} (h : s.Counted n)
    (e : s.writeFrame none frame = (some pos, s₁)) : s₁.Counted n := by
  rw [Simtrace3Store.writeFrame] at e
  split at e
  · cases (Prod.mk.inj e).1
  · obtain ⟨-, rfl⟩ := Prod.mk.inj e
    exact ⟨h.capacity, h.empty, h.filled⟩

/-- A new directory is recorded exactly when all directories are full. -/
theorem Counted.prepareDirectory {s₂ : Simtrace3Store} (h : s.Counted n)
    (e : s.prepareDirectory none = (some (), s₂)) :
    s₂.file.header.directoryCapacity = directorySize ∧
      s₂.nextFrameIndex < directorySize - 1 ∧
      n + (directorySize - 1) =
        s₂.file.header.directoryCount * (directorySize - 1) + s₂.nextFrameIndex ∧
      ∀ index, Records (s.prepareDirectoryWrites none) index ↔
        n = (directorySize - 1) * index ∧ index < directorySize := by
  have hd : directorySize = 1024 := rfl
  rw [Simtrace3Store.prepareDirectory] at e
  rw [prepareDirectoryWrites]
  split at e
  · rename_i hfull
    have hcount : n = (directorySize - 1) * s.file.header.directoryCount := by
      rw [h.capacity] at hfull
      by_cases hnone : s.directory = none
      · obtain ⟨hn, hc⟩ := h.empty hnone
        rw [hn, hc, Nat.mul_zero]
      · have hlast := hfull.resolve_left hnone
        have hfilled := (h.filled hnone).2.2
        rw [hlast, Nat.mul_comm] at hfilled
        omega
    rw [if_pos hfull]
    rw [addDirectory] at e
    rw [addDirectoryWrites]
    dsimp only at e ⊢
    cases hr : s.reserveSpace (s.file.header.directoryCapacity * directoryEntrySize) with
    | none =>
      rw [hr] at e
      cases (Prod.mk.inj e).1
    | some r =>
      obtain ⟨offset, s₁⟩ := r
      obtain ⟨-, -, -, -, -, -, -, hn, hcap⟩ := reserveSpace_eq hr
      simp only [hr, reduceCtorEq, if_false] at e ⊢
      obtain ⟨-, rfl⟩ := Prod.mk.inj e
      simp only [header_linkDirectory]
      refine ⟨hcap.trans h.capacity, by decide, ?_, fun index => ?_⟩
      · rw [hcount, recordDirectory, hn, Nat.succ_mul, Nat.mul_comm]
        omega
      · rw [records_append, records_append, records_recordDirectoryWrites, hn, hcap, h.capacity,
          hcount]
        constructor
        · rintro (⟨_, hm⟩ | ⟨rfl, hlt⟩ | hl)
          · simp at hm
          · exact ⟨rfl, hlt⟩
          · exact (not_records_linkDirectoryWrites _ _ _ hl).elim
        · rintro ⟨he, hlt⟩
          exact Or.inr (Or.inl ⟨(Nat.eq_of_mul_eq_mul_left (by decide) he).symm, hlt⟩)
  · rename_i hfree
    obtain ⟨-, rfl⟩ := Prod.mk.inj e
    rw [not_or, h.capacity] at hfree
    obtain ⟨hpos, hle, hfilled⟩ := h.filled hfree.1
    rw [if_neg (by rwa [not_or, h.capacity])]
    refine ⟨h.capacity, by omega, hfilled, fun index => ?_⟩
    constructor
    · rintro ⟨_, hm⟩
      cases hm
    · rintro ⟨he, -⟩
      exfalso
      have hne := hfree.2
      rw [hd] at hle hne hfilled he
      omega

theorem Counted.commitFrame (h : s.Counted n)
    (e : s.commitFrame murmur3 none frame = (some offset, s')) :
    s'.Counted (n + 1) ∧ ∀ index, Records (s.commitFrameWrites murmur3 none frame) index ↔
      n = (directorySize - 1) * index ∧ index < directorySize := by
  obtain ⟨pos, s₁, s₂, dir, hw, hp, hdir, rfl, hws⟩ := commitFrame_eq_some e
  obtain ⟨hcap, hlt, hcount, hrec⟩ := (h.writeFrame hw).prepareDirectory hp
  constructor
  · refine ⟨hcap, fun hnone => ?_, fun _ => ⟨Nat.succ_pos _, hlt, ?_⟩⟩
    · cases hdir.symm.trans hnone
    · change n + 1 + _ = s₂.file.header.directoryCount * _ + (s₂.nextFrameIndex + 1)
      omega
  · rintro index
    rw [hws, records_append, records_append, records_append, hrec]
    refine ⟨fun hr => ?_, fun hr => Or.inr (Or.inl (Or.inl hr))⟩
    rcases hr with hr | (hr | ⟨_, hr⟩) | ⟨_, hr⟩
    · exact (not_records_writeFrameWrites _ _ _ hr).elim
    · exact hr
    · simp [setSlotWrites] at hr
    · simp at hr

/-- Over a run, an entry of the table is written when its directory is needed. -/
theorem Counted.commitFrames {fs : List Simtrace3Frame} {committed : List Committed}
    (h : s.Counted n) (e : s.commitFrames murmur3 fs = some (committed, s')) (index : ℕ) :
    Records (s.commitsWrites murmur3 (fs.map (none, ·))) index ↔
      n ≤ (directorySize - 1) * index ∧ (directorySize - 1) * index < n + fs.length ∧
        index < directorySize := by
  induction fs generalizing s n committed with
  | nil =>
    constructor
    · rintro ⟨_, hm⟩
      cases hm
    · rintro ⟨hge, hlt, -⟩
      exact absurd hge (Nat.not_le.mpr hlt)
  | cons frame fs ih =>
    rw [Simtrace3Store.commitFrames] at e
    split at e
    · cases e
    · rename_i offset s₁ he
      simp only [Option.bind_eq_bind, Option.bind_eq_some_iff] at e
      obtain ⟨⟨committed', s''⟩, hr, he'⟩ := e
      obtain ⟨rfl, rfl⟩ := Prod.mk.inj (Option.some.inj he')
      obtain ⟨h₁, hrec⟩ := h.commitFrame he
      rw [List.map_cons, commitsWrites, records_append, hrec, he, ih h₁ hr, List.length_cons]
      omega

theorem commitFrames_of_space {frames : List Committed} (murmur3 : List UInt8 → BitVec 32)
    (fs : List Simtrace3Frame) (h : s.Consistent frames) (hw : s.readMode = false)
    (hid : ∀ f ∈ fs, f.header.streamId ≠ -1)
    (hfit : s.file.storage.size +
      (fs.map fun f => f.header.totalSize.toNat + directoryBytes).sum ≤ fileSizeLimit) :
    ∃ committed s', s.commitFrames murmur3 fs = some (committed, s') := by
  induction fs generalizing s frames with
  | nil => exact ⟨[], s, rfl⟩
  | cons frame fs ih =>
    rw [List.map_cons, List.sum_cons] at hfit
    obtain ⟨offset, s₁, he, hw₁, hx⟩ := commitFrame_of_space murmur3 h hw
      (hid frame List.mem_cons_self) (by omega)
    obtain ⟨committed, s', hr⟩ := ih ((h.commitFrame he).2 offset rfl) hw₁
      (fun f hf => hid f (List.mem_cons_of_mem _ hf)) (by omega)
    exact ⟨(frame.updateHash murmur3, offset) :: committed, s',
      by simp [Simtrace3Store.commitFrames, he, hr]⟩

end Simtrace3Store

/-- The writes of a run of commits stay within the table as long as its frames fit into the
directories of the table, and only then. All directories are reachable by their links. -/
theorem withinTable_iff_length_le {murmur3 : List UInt8 → BitVec 32} {fs : List Simtrace3Frame}
    {committed : List Committed} {store : Simtrace3Store}
    (e : Simtrace3Store.createStore.commitFrames murmur3 fs = some (committed, store)) :
    (WithinTable (Simtrace3Store.createStore.commitsWrites murmur3 (fs.map (none, ·))) ∧
      ∀ assertions fuel, 2 * fs.length + 1 ≤ fuel →
        store.file.openStore assertions visit fuel [] =
          some (committed.map Committed.link)) ↔
      fs.length ≤ maxFrameCount := by
  have hd : directorySize = 1024 := rfl
  have ht : directoryTableSize = 448 := rfl
  have hopen : ∀ assertions fuel, 2 * fs.length + 1 ≤ fuel →
      store.file.openStore assertions visit fuel [] = some (committed.map Committed.link) := by
    obtain ⟨current, index, h, -⟩ := Simtrace3Store.consistent_createStore.commitFrames e
    rw [List.nil_append] at h
    intro assertions fuel hfuel
    rw [h.directories.openStore h.capacity, foldlM_visit, List.nil_append]
    rwa [List.length_map, Simtrace3Store.length_commitFrames e]
  rw [and_iff_left hopen, withinTable_iff]
  simp only [Simtrace3Store.counted_createStore.commitFrames e]
  rw [maxFrameCount]
  constructor
  · intro h
    by_contra hgt
    have hlt := h directoryTableSize ⟨Nat.zero_le _, by rw [hd, ht] at *; omega, by decide⟩
    exact lt_irrefl _ hlt
  · rintro h index ⟨-, hlt, -⟩
    rw [hd, ht] at *
    omega

theorem withinTable_two :
    ∃ committed store, Simtrace3Store.createStore.commitFrames (MurmurHash3.hash32 0)
        [.bare 1, .bare 2] = some (committed, store) ∧
      WithinTable (Simtrace3Store.createStore.commitsWrites (MurmurHash3.hash32 0)
        ([.bare 1, .bare 2].map (none, ·))) := by
  obtain ⟨committed, store, e⟩ := Simtrace3Store.commitFrames_of_space (MurmurHash3.hash32 0)
    [.bare 1, .bare 2] Simtrace3Store.consistent_createStore rfl
    (by simp [Simtrace3Frame.bare]) (by decide)
  exact ⟨committed, store, e, ((withinTable_iff_length_le e).mpr (by decide)).1⟩

theorem commitFrames_bare (murmur3 : List UInt8 → BitVec 32) (n : ℕ) (hn : n ≤ 2 ^ 20) :
    ∃ committed store, Simtrace3Store.createStore.commitFrames murmur3
      (List.replicate n (.bare 1)) = some (committed, store) := by
  apply Simtrace3Store.commitFrames_of_space _ _ Simtrace3Store.consistent_createStore rfl
  · intro f hf
    rw [List.eq_of_mem_replicate hf]
    decide
  · rw [List.map_replicate, List.sum_replicate_nat]
    have hsize : Simtrace3Store.createStore.file.storage.size = 4096 := rfl
    have hbare : (Simtrace3Frame.bare 1).header.totalSize.toNat + directoryBytes = 131192 := by
      decide
    rw [hsize, hbare, fileSizeLimit]
    omega

/-- The first frame behind the directories of the table overwrites the checksum. -/
theorem not_withinTable_of_full_directories :
    ∃ committed store, Simtrace3Store.createStore.commitFrames (MurmurHash3.hash32 0)
        (List.replicate (maxFrameCount + 1) (.bare 1)) = some (committed, store) ∧
      Records (Simtrace3Store.createStore.commitsWrites (MurmurHash3.hash32 0)
        ((List.replicate (maxFrameCount + 1) (.bare 1)).map (none, ·))) directoryTableSize ∧
      tableEntryOffset directoryTableSize = checksumOffset ∧
      ¬ WithinTable (Simtrace3Store.createStore.commitsWrites (MurmurHash3.hash32 0)
        ((List.replicate (maxFrameCount + 1) (.bare 1)).map (none, ·))) := by
  have hcount : 0 + maxFrameCount < 0 + (List.replicate (maxFrameCount + 1)
      (Simtrace3Frame.bare 1)).length := by
    rw [List.length_replicate]
    exact Nat.lt_succ_self _
  obtain ⟨committed, store, e⟩ := commitFrames_bare (MurmurHash3.hash32 0) (maxFrameCount + 1)
    (by decide)
  have hrec := (Simtrace3Store.counted_createStore.commitFrames e directoryTableSize).mpr
    ⟨Nat.zero_le _, hcount, by decide⟩
  exact ⟨committed, store, e, hrec, rfl, fun h => lt_irrefl _ (withinTable_iff.mp h _ hrec)⟩

end Simutrace.Simtrace3
