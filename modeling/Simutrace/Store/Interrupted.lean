import Simutrace.Library.MurmurHash3
import Simutrace.Store.Commit
import Simutrace.Store.Recording
import Simutrace.Store.Writes

/-! # The file of an interrupted store

The server may stop after any of the writes of a run of commits. Opening the
file then opens the frames whose directory entries are complete, unless the
last write was the header of an entry, the offset of which is still missing. A
link to a directory without its offset leads to the start of the file, which a
build with assertions does not accept as the end.
-/

namespace Simutrace.Simtrace3

variable {σ : Type} {st : Storage} {f f' : StoreFile} {current : Option ℕ} {cur index : ℕ}
  {links : List FrameHeaderLink} {frames : List Committed} {ws ws' : List FileWrite}

def completeEntries : List FileWrite → List FrameHeaderLink
  | [] => []
  | .entryHeader pos header :: .entryOffset pos' offset :: ws =>
    if pos = pos' then ⟨header, offset⟩ :: completeEntries ws else completeEntries ws
  | _ :: ws => completeEntries ws

def EndsInEntry (ws : List FileWrite) : Prop :=
  ∃ pos header, ws.getLast? = some (.entryHeader pos header)

def FileWrite.isLinkMarker : FileWrite → Bool
  | .linkMarker _ => true
  | _ => false

def endsInLink (ws : List FileWrite) : Bool := ws.getLast?.any FileWrite.isLinkMarker

/-! ## Files that can be walked -/

inductive Ends (st : Storage) (dir index : ℕ) : Bool → Prop
  | free (h : slot st dir index = .free) (zero : slotMarker st dir index = 0) :
      Ends st dir index false
  | link {next : FileOffset} (h : slot st dir index = .directoryLink next)
      (first : slot st next.toNat 0 = .free) (foreign : slotMarker st next.toNat 0 ≠ 0) :
      Ends st dir index true

/-- A file whose walk visits the given frames, also if the last directory is not setup yet. -/
inductive Walkable (f : StoreFile) (half : Bool) : List FrameHeaderLink → Prop
  | empty (count : f.header.directoryCount = 0) (whole : half = false) : Walkable f half []
  | chain {cur : ℕ} {pre fs : List FrameHeaderLink} (count : f.header.directoryCount ≠ 0)
      (first : headerReservedSpace ≤ (f.header.directories 0).toNat)
      (linked : Linked f.storage (f.header.directories 0).toNat cur pre)
      (frames : Frames f.storage cur fs) (length : fs.length ≤ directorySize - 1)
      (ends : Ends f.storage cur fs.length half) : Walkable f half (pre ++ fs)

theorem Walkable.openStore {half assertions : Bool} {openFrame : σ → FrameHeaderLink → Option σ}
    (h : Walkable f half links) (hc : f.header.directoryCapacity = directorySize) {fuel : ℕ}
    (hfuel : 2 * links.length + 2 ≤ fuel) (s : σ) :
    f.openStore assertions openFrame fuel s =
      (links.foldlM openFrame s).bind fun s' => if assertions ∧ half then none else some s' := by
  cases h with
  | empty count whole =>
    rw [StoreFile.openStore, if_pos count]
    simp [whole]
  | @chain cur pre fs count first linked frames length ends =>
    have hd : directorySize = 1024 := rfl
    obtain ⟨k, hk, hw⟩ := openStore_chain assertions openFrame hc count first linked frames length
    rw [List.length_append] at hfuel
    obtain ⟨m, rfl⟩ := Nat.exists_eq_add_of_le (show k + 1 ≤ fuel by omega)
    rw [Nat.add_assoc, hw]
    cases (pre ++ fs).foldlM openFrame s with
    | none => rfl
    | some s' =>
      rw [Option.bind_some, Option.bind_some]
      cases ends with
      | free h zero => simpa [zero] using walk_free (by omega) h (by omega) s'
      | link h first foreign =>
        rw [Nat.add_comm, StoreFile.walk, if_neg (by omega), h]
        simpa [foreign] using
          @walk_free _ _ _ assertions openFrame _ _ (by omega) first (by omega) s'

/-- The directories are still found if the file changes behind them. -/
theorem Directories.walkable (h : Directories f current index links)
    (hzero : f.header.directoryCount = 0 → f'.header.directoryCount = 0)
    (hne : f.header.directoryCount ≠ 0 → f'.header.directoryCount ≠ 0 ∧
      f'.header.directories 0 = f.header.directories 0)
    (ha : f.storage.AgreeBelow f.storage.size f'.storage) : Walkable f' false links := by
  cases h with
  | empty count => exact .empty (hzero count) rfl
  | @chain cur pre fs count first linked frames length free bound total =>
    obtain ⟨hcount, hd⟩ := hne count
    have hlt : fs.length + 1 ≤ directorySize := by
      have : directorySize = 1024 := rfl
      omega
    have hle : entryOffset cur (fs.length + 1) ≤ f.storage.size :=
      (entryOffset_mono hlt).trans bound
    rw [← hd] at first linked
    have hfree : ∀ j, entryOffset cur fs.length ≤ j → j < entryOffset cur (fs.length + 1) →
        f'.storage.content j = 0 := fun j hj hj' => by
      rw [ha j (hj'.trans_le hle)]
      exact free j hj (hj'.trans_le (entryOffset_mono hlt))
    refine .chain hcount first (linked.congr (ha.mono ?_)) (frames.congr ha ?_) length
      (.free (slot_free hfree) (slotMarker_free hfree))
    · exact (Nat.le_add_right _ _).trans hle
    · exact (entryOffset_mono (Nat.le_succ _)).trans hle

/-- The start of the file, taken for a directory entry, is none, but it is not zero either. -/
structure Signed (st : Storage) : Prop where
  free : slot st 0 0 = .free
  marker : slotMarker st 0 0 ≠ 0

/-- A file whose walk visits exactly the given frames, all of which lie at their offsets. -/
structure Intact (f : StoreFile) (half : Bool) (frames : List Committed) : Prop where
  capacity : f.header.directoryCapacity = directorySize
  start : Signed f.storage
  walkable : Walkable f half (frames.map Committed.link)
  stored : ∀ c ∈ frames, f.storage.read c.2.toNat c.1.toBytes.length = c.1.toBytes

theorem Intact.congr {half : Bool} (h : Intact f half frames) (hst : f'.storage = f.storage)
    (hd : f'.header.directories = f.header.directories)
    (hn : f'.header.directoryCount = f.header.directoryCount)
    (hc : f'.header.directoryCapacity = f.header.directoryCapacity) : Intact f' half frames := by
  obtain ⟨capacity, start, walkable, stored⟩ := h
  rw [← hst] at start stored
  refine ⟨hc.trans capacity, start, ?_, stored⟩
  generalize frames.map Committed.link = links at walkable ⊢
  cases walkable with
  | empty count whole => exact .empty (hn.trans count) whole
  | chain count first linked frames length ends =>
    rw [← hst] at linked frames ends
    rw [← hd] at first linked
    exact .chain (hn ▸ count) first linked frames length ends

theorem Signed.congr {st' : Storage} (h : Signed st) (ha : st.AgreeBelow headerReservedSpace st') :
    Signed st' := by
  have hmarker : slotMarker st' 0 0 = slotMarker st 0 0 := by
    rw [slotMarker, slotMarker, ha.read (by decide)]
  exact ⟨(slot_congr ha (by decide)).trans h.free, hmarker ▸ h.marker⟩

theorem Holds.intact (h : Holds f current index (frames.map Committed.link) frames)
    (hstart : Signed f.storage)
    (hc : f'.header.directoryCapacity = f.header.directoryCapacity)
    (hzero : f.header.directoryCount = 0 → f'.header.directoryCount = 0)
    (hne : f.header.directoryCount ≠ 0 → f'.header.directoryCount ≠ 0 ∧
      f'.header.directories 0 = f.header.directories 0)
    (ha : f.storage.AgreeBelow f.storage.size f'.storage) : Intact f' false frames where
  capacity := hc.trans h.capacity
  start := hstart.congr (ha.mono h.size_ge)
  walkable := h.directories.walkable hzero hne ha
  stored c hm := (ha.read (h.stored c hm).le_size).trans (h.stored c hm).read

/-! ## The effect of single writes -/

namespace FileWrite

/-- The write does not change the file below a position. -/
def Above (pos : ℕ) : FileWrite → Prop
  | frame p _ | linkMarker p | linkOffset p _ | entryHeader p _ | entryOffset p _ => pos ≤ p
  | _ => True

/-- The write does not belong to a directory entry. -/
def NoEntry : FileWrite → Prop
  | entryHeader .. | entryOffset .. => False
  | _ => True

theorem Above.mono {w : FileWrite} {pos pos' : ℕ} (h : w.Above pos) (hp : pos' ≤ pos) :
    w.Above pos' := by
  cases w <;> first | exact trivial | exact hp.trans h

end FileWrite

theorem not_endsInEntry (h : ∀ w ∈ ws, w.NoEntry) : ¬ EndsInEntry ws := by
  rintro ⟨pos, header, hl⟩
  exact h _ (List.mem_of_getLast? hl)

theorem not_endsInEntry_nil : ¬ EndsInEntry [] := not_endsInEntry fun _ hw => by cases hw

theorem EndsInEntry.cons (w : FileWrite) (h : EndsInEntry ws) : EndsInEntry (w :: ws) := by
  obtain ⟨pos, header, hl⟩ := h
  refine ⟨pos, header, ?_⟩
  rw [List.getLast?_cons, hl]
  rfl

theorem endsInEntry_append (h : ¬ EndsInEntry ws) :
    EndsInEntry (ws ++ ws') ↔ EndsInEntry ws' := by
  by_cases hn : ws' = []
  · rw [hn, List.append_nil]
    exact iff_of_false h not_endsInEntry_nil
  · rw [EndsInEntry, EndsInEntry, List.getLast?_append_of_ne_nil _ hn]

/-- An entry is complete or not by itself, unless the writes are split within it. -/
theorem completeEntries_append (h : ¬ EndsInEntry ws) :
    completeEntries (ws ++ ws') = completeEntries ws ++ completeEntries ws' := by
  fun_induction completeEntries ws with
  | case1 => rfl
  | case2 header pos offset ws ih =>
    have hws := ih fun hl => h ((hl.cons _).cons _)
    simp only [List.cons_append, completeEntries, if_true, hws]
  | case3 pos header pos' offset ws hpos ih =>
    have hws := ih fun hl => h ((hl.cons _).cons _)
    simp only [List.cons_append, completeEntries, if_neg hpos, hws]
  | case4 w ws hw ih =>
    have hws := ih fun hl => h (hl.cons _)
    rw [List.cons_append, completeEntries, hws]
    rintro pos header pos' offset rest rfl happ
    cases ws with
    | nil => exact h ⟨pos, header, rfl⟩
    | cons w' ws =>
      obtain ⟨rfl, -⟩ := List.cons.inj happ
      exact hw pos header pos' offset ws rfl rfl

theorem completeEntries_eq_nil (h : ∀ w ∈ ws, w.NoEntry) : completeEntries ws = [] := by
  induction ws with
  | nil => rfl
  | cons w ws ih =>
    have hw := h w List.mem_cons_self
    rw [completeEntries, ih fun w hw => h w (List.mem_cons_of_mem _ hw)]
    rintro pos header pos' offset ws' rfl
    cases hw

theorem endsInLink_append (h : endsInLink ws = false) :
    endsInLink (ws ++ ws') = endsInLink ws' := by
  by_cases hn : ws' = []
  · rw [hn, List.append_nil]
    exact h
  · rw [endsInLink, endsInLink, List.getLast?_append_of_ne_nil _ hn]

namespace Simtrace3Store

variable {s s₁ s' : Simtrace3Store} {fault : Option IoFault} {offset : ℕ}

end Simtrace3Store

/-- What is found after a sequence of writes to the file of a store with the given frames. The
frames added to them are the first of the candidates. -/
inductive Found (f : StoreFile) (frames : List Committed) (candidates : List Simtrace3Frame)
    (ws : List FileWrite) : Prop
  | intact (new : List Committed) (first : new.map Prod.fst <+: candidates)
      (entries : completeEntries ws = new.map Committed.link) (last : ¬ EndsInEntry ws)
      (h : Intact f (endsInLink ws) (frames ++ new))
  | halfEntry (new : List Committed) (header : FrameHeader)
      (first : new.map Prod.fst <+: candidates)
      (entries : completeEntries ws = new.map Committed.link) (last : EndsInEntry ws)
      (capacity : f.header.directoryCapacity = directorySize)
      (walkable : Walkable f false ((frames ++ new).map Committed.link ++ [⟨header, 0⟩]))

variable {candidates : List Simtrace3Frame}

theorem Found.append {new : List Committed} (h : Found f (frames ++ new) candidates ws')
    (he : completeEntries ws = new.map Committed.link) (hl : ¬ EndsInEntry ws)
    (hlink : endsInLink ws = false) :
    Found f frames (new.map Prod.fst ++ candidates) (ws ++ ws') := by
  have hentries : completeEntries (ws ++ ws') = completeEntries ws ++ completeEntries ws' :=
    completeEntries_append hl
  have hlast : EndsInEntry (ws ++ ws') ↔ EndsInEntry ws' := endsInEntry_append hl
  cases h with
  | intact new' first entries last h =>
    rw [List.append_assoc, ← endsInLink_append hlink] at h
    refine .intact (new ++ new') ?_ ?_ (hlast.not.mpr last) h
    · rw [List.map_append]
      exact (List.prefix_append_right_inj _).mpr first
    · rw [hentries, he, entries, List.map_append]
  | halfEntry new' header first entries last capacity walkable =>
    rw [List.append_assoc] at walkable
    refine .halfEntry (new ++ new') header ?_ ?_ (hlast.mpr last) capacity walkable
    · rw [List.map_append]
      exact (List.prefix_append_right_inj _).mpr first
    · rw [hentries, he, entries, List.map_append]

theorem Found.mono {candidates' : List Simtrace3Frame} (h : Found f frames candidates ws)
    (hpre : candidates <+: candidates') : Found f frames candidates' ws := by
  cases h with
  | intact new first entries last h => exact .intact new (first.trans hpre) entries last h
  | halfEntry new header first entries last capacity walkable =>
    exact .halfEntry new header (first.trans hpre) entries last capacity walkable

/-- The information about the store does not matter to its frames. -/
theorem Found.storeInformation (h : Found f frames candidates ws) (hl : ¬ EndsInEntry ws)
    (hlink : endsInLink ws = false) (header : FrameHeader) (size : BitVec 64) :
    Found (f.apply (.storeInformation header size)) frames candidates
      (ws ++ [.storeInformation header size]) := by
  cases h with
  | intact new first entries last h =>
    rw [hlink] at h
    refine .intact new first ?_ ?_ ?_
    · rw [completeEntries_append hl, entries]
      exact List.append_nil _
    · rw [endsInEntry_append hl]
      rintro ⟨_, _, h⟩
      cases h
    · rw [endsInLink_append hlink]
      exact h.congr rfl rfl rfl rfl
  | halfEntry _ _ _ _ last => exact (hl last).elim

theorem Intact.found (h : Intact f (endsInLink ws) frames) (hn : ∀ w ∈ ws, w.NoEntry) :
    Found f frames candidates ws :=
  .intact [] List.nil_prefix (completeEntries_eq_nil hn) (not_endsInEntry hn)
    (by rwa [List.append_nil])

namespace Simtrace3Store

variable {s s₁ s' : Simtrace3Store} {fault : Option IoFault} {frame : Simtrace3Frame}
  {murmur3 : List UInt8 → BitVec 32}

end Simtrace3Store

/-! ## Opening the file again -/

section

variable (totalStreamCount : List UInt8 → BitVec 32) (murmur3 : List UInt8 → BitVec 32)

def openVisited (storage : Storage) (opened : Streams × List FrameHeaderLink)
    (link : FrameHeaderLink) : Option (Streams × List FrameHeaderLink) :=
  (openFrame totalStreamCount murmur3 storage opened.1 link).map fun streams =>
    (streams, opened.2 ++ [link])

def StoreFile.reopen (f : StoreFile) (assertions : Bool) (fuel : ℕ) :
    Option (Streams × List FrameHeaderLink) :=
  f.openStore assertions (openVisited totalStreamCount murmur3 f.storage) fuel (fun _ => none, [])

variable {totalStreamCount murmur3} {storage : Storage}

theorem foldlM_openVisited (streams : Streams) (visited links : List FrameHeaderLink) :
    links.foldlM (openVisited totalStreamCount murmur3 storage) (streams, visited) =
      (links.foldlM (openFrame totalStreamCount murmur3 storage) streams).map
        fun streams => (streams, visited ++ links) := by
  induction links generalizing streams visited with
  | nil => simp
  | cons link links ih =>
    rw [List.foldlM_cons, List.foldlM_cons, openVisited]
    cases openFrame totalStreamCount murmur3 storage streams link with
    | none => rfl
    | some streams =>
      rw [Option.map_some, Option.bind_eq_bind, Option.bind_some, ih, List.append_assoc]
      rfl

theorem Walkable.reopen {half assertions : Bool} (h : Walkable f half links)
    (hc : f.header.directoryCapacity = directorySize) {fuel : ℕ}
    (hfuel : 2 * links.length + 2 ≤ fuel) :
    f.reopen totalStreamCount murmur3 assertions fuel =
      (links.foldlM (openFrame totalStreamCount murmur3 f.storage) fun _ => none).bind
        fun streams => if assertions ∧ half then none else some (streams, links) := by
  rw [StoreFile.reopen, h.openStore hc hfuel, foldlM_openVisited]
  cases links.foldlM (openFrame totalStreamCount murmur3 f.storage) fun _ => none with
  | none => rfl
  | some streams => rfl

end

def firstSegment : List (Option IoFault × Simtrace3Frame) :=
  [(none, .zero 1 0 ⟨satStreamDescription, 8, [8, 7, 6, 5, 4, 3, 2, 1], by simp⟩ (by decide)),
   (none, .bare 1)]

end Simutrace.Simtrace3
