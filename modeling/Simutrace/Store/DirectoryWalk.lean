import Simutrace.Store.Directory

/-! # Completeness of the frame directories

The directories of a store file form a chain that starts at the first one. All
but the last are full and end with a link, and the last ends with free slots.
Every commit keeps this shape, and the walk over the directories follows it.
-/

namespace Simutrace.Simtrace3

variable {σ : Type} {st st' : Storage} {dir dir' cur : ℕ} {fs rest links : List FrameHeaderLink}

/-- The first slots of a directory hold the given frames. -/
def Frames (st : Storage) (dir : ℕ) (fs : List FrameHeaderLink) : Prop :=
  ∀ i (h : i < fs.length), slot st dir i = .framelink fs[i]

/-- Full directories lead from one directory to another; these hold the given frames. -/
inductive Linked (st : Storage) : ℕ → ℕ → List FrameHeaderLink → Prop
  | here (dir : ℕ) : Linked st dir dir []
  | next {dir cur : ℕ} {dir' : FileOffset} {fs rest : List FrameHeaderLink}
      (frames : Frames st dir fs) (full : fs.length = directorySize - 1)
      (link : slot st dir (directorySize - 1) = .directoryLink dir')
      (before : entryOffset dir directorySize ≤ dir'.toNat) (tail : Linked st dir'.toNat cur rest) :
      Linked st dir cur (fs ++ rest)

theorem entryOffset_mono {i j : ℕ} (h : i ≤ j) : entryOffset dir i ≤ entryOffset dir j :=
  Nat.add_le_add_left (Nat.mul_le_mul_right _ h) _

theorem slot_congr {pos i : ℕ} (h : st.AgreeBelow pos st') (hi : entryOffset dir (i + 1) ≤ pos) :
    slot st' dir i = slot st dir i := by
  have he : entryOffset dir (i + 1) = entryOffset dir i + directoryEntrySize := by
    rw [entryOffset, entryOffset, Nat.succ_mul, Nat.add_assoc]
  rw [slot, slot, h.read (by omega)]

theorem Frames.congr {pos : ℕ} (hf : Frames st dir fs) (h : st.AgreeBelow pos st')
    (hp : entryOffset dir fs.length ≤ pos) : Frames st' dir fs := fun i hi => by
  rw [slot_congr h ((entryOffset_mono hi).trans hp)]
  exact hf i hi

theorem Linked.le (h : Linked st dir cur fs) : dir ≤ cur := by
  induction h with
  | here => exact le_rfl
  | next _ _ _ before _ ih =>
    exact ((Nat.le_add_right _ _).trans before).trans ih

theorem Linked.congr (h : Linked st dir cur fs) (ha : st.AgreeBelow cur st') :
    Linked st' dir cur fs := by
  induction h with
  | here => exact .here _
  | next frames full link before tail ih =>
    have hle := before.trans tail.le
    refine .next (frames.congr ha (le_trans (entryOffset_mono ?_) hle)) full ?_ before (ih ha)
    · rw [full]; exact Nat.sub_le _ _
    · rw [slot_congr ha (le_trans (entryOffset_mono (by decide)) hle), link]

theorem Linked.snoc {next : FileOffset} (h : Linked st dir cur fs) (frames : Frames st cur rest)
    (full : rest.length = directorySize - 1)
    (link : slot st cur (directorySize - 1) = .directoryLink next)
    (before : entryOffset cur directorySize ≤ next.toNat) :
    Linked st dir next.toNat (fs ++ rest) := by
  induction h with
  | here =>
    rw [List.nil_append, ← List.append_nil rest]
    exact .next frames full link before (.here _)
  | next frames' full' link' before' _ ih =>
    rw [List.append_assoc]
    exact .next frames' full' link' before' (ih frames link before)

/-! ## The walk -/

variable {f : StoreFile} {assertions : Bool} {openFrame : σ → FrameHeaderLink → Option σ}

theorem walk_frames (hc : f.header.directoryCapacity = directorySize) {index : ℕ}
    (hf : ∀ i (h : i < fs.length), slot f.storage dir (index + i) = .framelink fs[i])
    (hl : index + fs.length ≤ directorySize) (fuel : ℕ) (s : σ) :
    f.walk assertions openFrame (fs.length + fuel) dir index s =
      (fs.foldlM openFrame s).bind (f.walk assertions openFrame fuel dir (index + fs.length)) := by
  induction fs generalizing index s with
  | nil => simp
  | cons l fs ih =>
    rw [List.length_cons] at hl
    have h0 : slot f.storage dir index = .framelink l := hf 0 (Nat.succ_pos _)
    have hs := fun i (h : i < fs.length) => hf (i + 1) (Nat.succ_lt_succ h)
    simp only [← Nat.add_assoc, Nat.add_right_comm index _ 1, List.getElem_cons_succ] at hs
    have hlt : ¬ f.header.directoryCapacity ≤ index := by omega
    rw [List.length_cons, Nat.succ_add, StoreFile.walk, if_neg hlt, h0, List.foldlM_cons]
    dsimp only
    cases openFrame s l with
    | none => rfl
    | some s' =>
      simp only [Option.bind_some, Option.bind_eq_bind]
      rw [ih hs (by omega), Nat.add_assoc index, Nat.add_comm 1]

/-- The walk reaches the last directory of a chain after opening all frames before it. -/
theorem walk_linked (assertions : Bool) (openFrame : σ → FrameHeaderLink → Option σ)
    (hc : f.header.directoryCapacity = directorySize)
    (h : Linked f.storage dir cur fs) : ∃ k ≤ 2 * fs.length, ∀ fuel s,
      f.walk assertions openFrame (k + fuel) dir 0 s =
        (fs.foldlM openFrame s).bind (f.walk assertions openFrame fuel cur 0) := by
  induction h with
  | here => exact ⟨0, le_rfl, fun fuel s => by simp⟩
  | @next dir cur dir' fs rest frames full link before tail ih =>
    obtain ⟨k, hk, hw⟩ := ih
    refine ⟨fs.length + (k + 1), ?_, fun fuel s => ?_⟩
    · have : directorySize - 1 = 1023 := rfl
      rw [List.length_append]; omega
    · have hd : directorySize = 1024 := rfl
      have hf : ∀ i (h : i < fs.length), slot f.storage dir (0 + i) = .framelink fs[i] :=
        fun i h => by rw [Nat.zero_add]; exact frames i h
      rw [Nat.add_assoc fs.length, walk_frames hc hf (by omega), List.foldlM_append]
      cases fs.foldlM openFrame s with
      | none => rfl
      | some s' =>
        have hlt : ¬ f.header.directoryCapacity ≤ 0 + fs.length := by omega
        simp only [Option.bind_some, Option.bind_eq_bind]
        rw [Nat.add_right_comm, StoreFile.walk, if_neg hlt, Nat.zero_add, full, link]
        exact hw fuel s'

/-! ## The invariant of the writer -/

/-- A frame lies in the file at its offset, apart from the directory that is written to. -/
structure Stored (st : Storage) (current : Option ℕ) (frame : Simtrace3Frame)
    (offset : FileOffset) : Prop where
  le_size : offset.toNat + frame.toBytes.length ≤ st.size
  read : st.read offset.toNat frame.toBytes.length = frame.toBytes
  apart : ∀ dir ∈ current, offset.toNat + frame.toBytes.length ≤ dir ∨
    entryOffset dir directorySize ≤ offset.toNat

abbrev Committed := Simtrace3Frame × FileOffset

def Committed.link (c : Committed) : FrameHeaderLink := ⟨c.1.header, c.2⟩

/-- The directories of a file that has the given frames, with the directory and the slot for the
next one. -/
inductive Directories (f : StoreFile) : Option ℕ → ℕ → List FrameHeaderLink → Prop
  | empty (count : f.header.directoryCount = 0) : Directories f none 0 []
  | chain {cur : ℕ} {pre fs : List FrameHeaderLink} (count : f.header.directoryCount ≠ 0)
      (first : headerReservedSpace ≤ (f.header.directories 0).toNat)
      (linked : Linked f.storage (f.header.directories 0).toNat cur pre)
      (frames : Frames f.storage cur fs) (length : fs.length ≤ directorySize - 1)
      (free : ∀ i, entryOffset cur fs.length ≤ i → i < entryOffset cur directorySize →
        f.storage.content i = 0)
      (bound : entryOffset cur directorySize ≤ f.storage.size)
      (total : pre.length + (directorySize - 1) =
        f.header.directoryCount * (directorySize - 1)) :
      Directories f (some cur) fs.length (pre ++ fs)

/-- A file whose directories have exactly the given links, with frames that were written to it. -/
structure Holds (f : StoreFile) (current : Option ℕ) (index : ℕ) (links : List FrameHeaderLink)
    (frames : List Committed) : Prop where
  capacity : f.header.directoryCapacity = directorySize
  fresh : f.storage.Fresh
  size_ge : headerReservedSpace ≤ f.storage.size
  size_le : f.storage.size ≤ fileSizeLimit
  directories : Directories f current index links
  stored : ∀ c ∈ frames, Stored f.storage current c.1 c.2

variable {current : Option ℕ} {index : ℕ} {frames : List Committed} {f' : StoreFile}

theorem Directories.congr (h : Directories f current index links)
    (hd : f'.header.directories = f.header.directories)
    (hn : f'.header.directoryCount = f.header.directoryCount)
    (ha : f.storage.AgreeBelow f.storage.size f'.storage)
    (hs : f.storage.size ≤ f'.storage.size) : Directories f' current index links := by
  cases h with
  | empty count => exact .empty (hn.trans count)
  | @chain cur pre fs count first linked frames length free bound total =>
    have hle : entryOffset cur fs.length ≤ f.storage.size :=
      (entryOffset_mono (length.trans (Nat.sub_le _ _))).trans bound
    rw [← hd] at first linked
    refine .chain (hn ▸ count) first (linked.congr (ha.mono ?_)) (frames.congr ha hle) length
      (fun i hi hi' => ?_) (bound.trans hs) (hn ▸ total)
    · exact (Nat.le_add_right _ _).trans hle
    · rw [ha i (by omega), free i hi hi']

/-- Bytes behind the end of a file do not matter to the frames it holds. -/
theorem Holds.congr (h : Holds f current index links frames)
    (hd : f'.header.directories = f.header.directories)
    (hn : f'.header.directoryCount = f.header.directoryCount)
    (hc : f'.header.directoryCapacity = f.header.directoryCapacity)
    (ha : f.storage.AgreeBelow f.storage.size f'.storage) (hf : f'.storage.Fresh)
    (hs : f.storage.size ≤ f'.storage.size) (hl : f'.storage.size ≤ fileSizeLimit) :
    Holds f' current index links frames where
  capacity := hc.trans h.capacity
  fresh := hf
  size_ge := h.size_ge.trans hs
  size_le := hl
  directories := h.directories.congr hd hn ha hs
  stored c hm := by
    obtain ⟨hle, hr, hap⟩ := h.stored c hm
    exact ⟨hle.trans hs, (ha.read hle).trans hr, hap⟩

theorem slot_free {i : ℕ} (h : ∀ j, entryOffset cur i ≤ j → j < entryOffset cur (i + 1) →
    st.content j = 0) : slot st cur i = .free := by
  have he : entryOffset cur (i + 1) = entryOffset cur i + directoryEntrySize := by
    rw [entryOffset, entryOffset, Nat.succ_mul, Nat.add_assoc]
  rw [slot, Storage.read_eq_zero fun j hj => h _ (Nat.le_add_right _ _) (by omega),
    FrameDirectoryEntry.ofBytes_zero]

theorem slotMarker_free {i : ℕ} (h : ∀ j, entryOffset cur i ≤ j → j < entryOffset cur (i + 1) →
    st.content j = 0) : slotMarker st cur i = 0 := by
  have he : entryOffset cur (i + 1) = entryOffset cur i + directoryEntrySize := by
    rw [entryOffset, entryOffset, Nat.succ_mul, Nat.add_assoc]
  rw [slotMarker, Storage.read_eq_zero fun j hj => h _ (Nat.le_add_right _ _) (by omega)]
  decide

/-- The walk opens the frames of a chain and then goes on behind the last of them. -/
theorem openStore_chain (assertions : Bool) (openFrame : σ → FrameHeaderLink → Option σ)
    {pre fs : List FrameHeaderLink}
    (hc : f.header.directoryCapacity = directorySize) (count : f.header.directoryCount ≠ 0)
    (first : headerReservedSpace ≤ (f.header.directories 0).toNat)
    (linked : Linked f.storage (f.header.directories 0).toNat cur pre)
    (frames : Frames f.storage cur fs) (length : fs.length ≤ directorySize - 1) :
    ∃ k ≤ 2 * pre.length + fs.length, ∀ fuel s, f.openStore assertions openFrame (k + fuel) s =
      ((pre ++ fs).foldlM openFrame s).bind (f.walk assertions openFrame fuel cur fs.length) := by
  have hd : directorySize = 1024 := rfl
  obtain ⟨k, hk, hw⟩ := walk_linked assertions openFrame hc linked
  have hf : ∀ i (h : i < fs.length), slot f.storage cur (0 + i) = .framelink fs[i] :=
    fun i h => by rw [Nat.zero_add]; exact frames i h
  have hne : f.header.directories 0 ≠ 0 := fun h0 => by
    rw [h0, headerReservedSpace] at first
    exact absurd first (by decide)
  refine ⟨k + fs.length, Nat.add_le_add_right hk _, fun fuel s => ?_⟩
  rw [StoreFile.openStore, if_neg count]
  dsimp only
  rw [if_neg hne, Nat.add_assoc, hw, List.foldlM_append]
  cases pre.foldlM openFrame s with
  | none => rfl
  | some s' =>
    simp only [Option.bind_some, Option.bind_eq_bind]
    rw [walk_frames hc hf (by omega), Nat.zero_add]

theorem walk_free {i fuel : ℕ} (hi : i < f.header.directoryCapacity)
    (hs : slot f.storage cur i = .free) (hfuel : 1 ≤ fuel) (s : σ) :
    f.walk assertions openFrame fuel cur i s =
      if assertions ∧ slotMarker f.storage cur i ≠ 0 then none else some s := by
  obtain ⟨m, rfl⟩ := Nat.exists_eq_add_of_le hfuel
  rw [Nat.add_comm, StoreFile.walk, if_neg (Nat.not_le.mpr hi), hs]

/-- Opening a file opens exactly the frames of its directories, in order, and then stops. -/
theorem Directories.openStore (h : Directories f current index links)
    (hc : f.header.directoryCapacity = directorySize) {fuel : ℕ}
    (hfuel : 2 * links.length + 1 ≤ fuel) (s : σ) :
    f.openStore assertions openFrame fuel s = links.foldlM openFrame s := by
  cases h with
  | empty count => rw [StoreFile.openStore, if_pos count]; rfl
  | @chain cur pre fs count first linked frames length free bound total =>
    have hd : directorySize = 1024 := rfl
    obtain ⟨k, hk, hw⟩ := openStore_chain assertions openFrame hc count first linked frames length
    rw [List.length_append] at hfuel
    obtain ⟨m, rfl⟩ := Nat.exists_eq_add_of_le (show k ≤ fuel by omega)
    have hzero : ∀ j, entryOffset cur fs.length ≤ j → j < entryOffset cur (fs.length + 1) →
        f.storage.content j = 0 :=
      fun j hj hj' => free j hj (hj'.trans_le (entryOffset_mono (by omega)))
    rw [hw]
    cases (pre ++ fs).foldlM openFrame s with
    | none => rfl
    | some s' =>
      refine (walk_free (by omega) (slot_free hzero) (by omega) s').trans (if_neg ?_)
      exact fun hmarker => hmarker.2 (slotMarker_free hzero)

end Simutrace.Simtrace3
