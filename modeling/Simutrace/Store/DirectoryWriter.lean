import Simutrace.Store.DirectoryWalk

/-! # Commits keep the frame directories complete

Each step of the writer, also one that fails, leaves a file that holds exactly
the frames committed so far. A reader of the file then finds these frames.
-/

namespace Simutrace.Simtrace3

variable {σ : Type} {st : Storage} {cur index : ℕ} {links : List FrameHeaderLink} {f : StoreFile}
  {openFrame : σ → FrameHeaderLink → Option σ} {current : Option ℕ} {frames : List Committed}

theorem slot_framelink (st : Storage) (dir i : ℕ) (l : FrameHeaderLink) :
    slot (st.write (entryOffset dir i) l.toBytes) dir i = .framelink l := by
  rw [slot, ← FrameHeaderLink.length_toBytes l, Storage.read_write_same,
    FrameDirectoryEntry.ofBytes_framelink]

theorem slot_directoryLink (st : Storage) (dir i : ℕ) (next : FileOffset) :
    slot ((st.write (entryOffset dir i) (LittleEndian.bytes 4 directoryLinkMarker)).write
      (entryOffset dir i + 8) (LittleEndian.ofWord next)) dir i = .directoryLink next := by
  rw [slot]
  generalize entryOffset dir i = pos
  generalize hst : (st.write pos _).write (pos + 8) _ = st'
  have hmarker : st'.read pos 4 = LittleEndian.bytes 4 directoryLinkMarker := by
    rw [← hst, Storage.read_write_disjoint (by simp)]
    simpa using Storage.read_write_same st pos (LittleEndian.bytes 4 directoryLinkMarker)
  have hnext : st'.read (pos + 8) 8 = LittleEndian.ofWord next := by
    rw [← hst]
    simpa using Storage.read_write_same (st.write pos _) (pos + 8) (LittleEndian.ofWord next)
  have hsplit : st'.read pos directoryEntrySize =
      st'.read pos 4 ++ st'.read (pos + 4) 4 ++ st'.read (pos + 8) 8 ++
        st'.read (pos + 16) 112 := by
    rw [show directoryEntrySize = 4 + (4 + (8 + 112)) from rfl, Storage.read_add, Storage.read_add,
      Storage.read_add]
    simp only [List.append_assoc, Nat.add_assoc, Nat.reduceAdd]
  rw [hsplit, hmarker, hnext, FrameDirectoryEntry.ofBytes_directoryLink (Storage.length_read _ _ _)]

theorem Stored.write {frame : Simtrace3Frame} {offset : FileOffset} {pos : ℕ} {bs : List UInt8}
    (h : Stored st (some cur) frame offset) (hp : cur ≤ pos)
    (hq : pos + bs.length ≤ entryOffset cur directorySize) :
    Stored (st.write pos bs) (some cur) frame offset := by
  refine ⟨h.le_size, ?_, h.apart⟩
  rw [Storage.read_write_disjoint, h.read]
  rcases h.apart cur rfl with h | h <;> omega

theorem Directories.bound (h : Directories f current index links) (hm : cur ∈ current) :
    entryOffset cur directorySize ≤ f.storage.size := by
  cases h with
  | empty => cases hm
  | chain _ _ _ _ _ _ bound _ => obtain rfl := Option.some.inj hm; exact bound

theorem Directories.free {i : ℕ} (h : Directories f (some cur) index links)
    (hi : entryOffset cur index ≤ i) (hlt : i < entryOffset cur directorySize) :
    f.storage.content i = 0 := by
  cases h with
  | chain _ _ _ _ _ free => exact free i hi hlt

theorem Holds.mono {frames' : List Committed} (h : Holds f current index links frames)
    (hsub : ∀ c ∈ frames', c ∈ frames) : Holds f current index links frames' :=
  { h with stored := fun c hc => h.stored c (hsub c hc) }

theorem Directories.index_le (h : Directories f current index links) :
    index ≤ directorySize - 1 := by
  cases h with
  | empty => exact Nat.zero_le _
  | chain _ _ _ _ length => exact length

theorem entryOffset_succ (dir i : ℕ) :
    entryOffset dir (i + 1) = entryOffset dir i + directoryEntrySize := by
  rw [entryOffset, entryOffset, Nat.succ_mul, Nat.add_assoc]

/-- Writing an entry to the next slot of the last directory adds it to the end. -/
theorem Directories.setSlot {f' : StoreFile} {l : FrameHeaderLink}
    (h : Directories f (some cur) index links) (hi : index < directorySize - 1)
    (hd : f'.header.directories = f.header.directories)
    (hn : f'.header.directoryCount = f.header.directoryCount)
    (hst : f'.storage = f.storage.write (entryOffset cur index) l.toBytes) :
    Directories f' (some cur) (index + 1) (links ++ [l]) := by
  cases h with
  | @chain _ pre fs count first linked frames length free bound total =>
    have hlen := FrameHeaderLink.length_toBytes l
    have ha : f.storage.AgreeBelow (entryOffset cur fs.length) f'.storage :=
      hst ▸ Storage.agreeBelow_write _ le_rfl _
    have hslot : slot f'.storage cur fs.length = .framelink l := hst ▸ slot_framelink _ _ _ _
    rw [← hd] at first linked
    rw [List.append_assoc, show fs.length + 1 = (fs ++ [l]).length by simp]
    refine .chain (hn ▸ count) first (linked.congr (ha.mono (Nat.le_add_right _ _))) ?_ ?_ ?_
      (by rw [hst]; exact bound) (hn ▸ total)
    · intro i hil
      rw [List.length_append, List.length_singleton] at hil
      rcases Nat.lt_succ_iff_lt_or_eq.mp hil with hlt | rfl
      · rw [List.getElem_append_left hlt]
        exact frames.congr ha le_rfl i hlt
      · rw [hslot]; simp
    · simp only [List.length_append, List.length_singleton]; omega
    · intro i hge hlt
      rw [List.length_append, List.length_singleton, entryOffset_succ] at hge
      rw [hst, Storage.content_write_of_ge (by omega)]
      exact free i (by omega) hlt

namespace Simtrace3Store

variable {s s' s₁ : Simtrace3Store} {fault : Option IoFault} {offset length : ℕ}
  {frame : Simtrace3Frame}

theorem reserveSpace_eq (e : s.reserveSpace length = some (offset, s₁)) :
    offset = s.file.storage.size ∧ s₁.file.storage.content = s.file.storage.content ∧
      s₁.file.storage.size = offset + length ∧ offset + length ≤ fileSizeLimit ∧
      s₁.directory = s.directory ∧ s₁.readMode = s.readMode ∧
      s₁.file.header.directories = s.file.header.directories ∧
      s₁.file.header.directoryCount = s.file.header.directoryCount ∧
      s₁.file.header.directoryCapacity = s.file.header.directoryCapacity := by
  simp only [reserveSpace, Option.bind_eq_bind, Option.bind_eq_some_iff] at e
  obtain ⟨⟨o, st⟩, hr, he⟩ := e
  obtain ⟨rfl, rfl⟩ := Prod.mk.inj (Option.some.inj he)
  obtain ⟨hle, rfl, rfl⟩ := Storage.reserve_eq_some_iff.mp hr
  exact ⟨rfl, rfl, rfl, hle, rfl, rfl, rfl, rfl, rfl⟩

theorem holds_reserveSpace (h : Holds s.file current index links frames)
    (e : s.reserveSpace length = some (offset, s₁)) : Holds s₁.file current index links frames := by
  obtain ⟨rfl, hc, hs, hl, -, -, hd, hn, hcap⟩ := reserveSpace_eq e
  refine h.congr hd hn hcap (fun i _ => congrFun hc i) (fun i hi => ?_) (by omega) (by omega)
  rw [hc]
  exact h.fresh i (by omega)

theorem recordDirectory_first (hc : s.file.header.directoryCapacity = directorySize)
    (offset : ℕ) :
    (s.recordDirectory offset).file.header.directories 0 =
      if s.file.header.directoryCount = 0 then .ofNat 64 offset
      else s.file.header.directories 0 := by
  simp only [recordDirectory, hc]
  split
  · rw [Function.update_apply]
    simp only [eq_comm]
  · rename_i hlt
    rw [if_neg (by rw [directorySize] at hlt; omega)]

theorem toNat_ofNat_of_le (h : offset ≤ fileSizeLimit) :
    (BitVec.ofNat 64 offset).toNat = offset := by
  rw [BitVec.toNat_ofNat, Nat.mod_eq_of_lt (by rw [fileSizeLimit] at h; omega)]

theorem linkDirectory_agreeBelow (hd : s.directory = some cur)
    (hc : s.file.header.directoryCapacity = directorySize) (offset : ℕ) :
    s.file.storage.AgreeBelow (entryOffset cur (directorySize - 1))
      (s.linkDirectory offset).file.storage := by
  simp only [linkDirectory, hd, hc, setStorage]
  exact (Storage.agreeBelow_write _ le_rfl _).trans
    (Storage.agreeBelow_write _ (Nat.le_add_right _ _) _)

theorem slot_linkDirectory (hd : s.directory = some cur)
    (hc : s.file.header.directoryCapacity = directorySize) (offset : ℕ) :
    slot (s.linkDirectory offset).file.storage cur (directorySize - 1) =
      .directoryLink (.ofNat 64 offset) := by
  simp only [linkDirectory, hd, hc, setStorage]
  exact slot_directoryLink _ _ _ _

theorem content_linkDirectory {i : ℕ} (hc : s.file.header.directoryCapacity = directorySize)
    (hi : ∀ cur ∈ s.directory, entryOffset cur directorySize ≤ i) (offset : ℕ) :
    (s.linkDirectory offset).file.storage.content i = s.file.storage.content i := by
  unfold linkDirectory
  cases hd : s.directory with
  | none => rfl
  | some cur =>
    have hle := hi cur hd
    have he : entryOffset cur directorySize = entryOffset cur (directorySize - 1) + 128 := rfl
    simp only [setStorage, hc]
    rw [Storage.content_write_of_ge, Storage.content_write_of_ge]
    · simp; omega
    · simp; omega

@[simp] theorem header_linkDirectory (s : Simtrace3Store) (offset : ℕ) :
    (s.linkDirectory offset).file.header = s.file.header := by
  unfold linkDirectory; cases s.directory <;> rfl

@[simp] theorem readMode_linkDirectory (s : Simtrace3Store) (offset : ℕ) :
    (s.linkDirectory offset).readMode = s.readMode := by
  unfold linkDirectory; cases s.directory <;> rfl

@[simp] theorem size_linkDirectory (s : Simtrace3Store) (offset : ℕ) :
    (s.linkDirectory offset).file.storage.size = s.file.storage.size := by
  unfold linkDirectory; cases s.directory <;> rfl

theorem stored_linkDirectory {o : FileOffset} (h : Stored s.file.storage s.directory frame o)
    (hc : s.file.header.directoryCapacity = directorySize) (offset : ℕ) :
    Stored (s.linkDirectory offset).file.storage s.directory frame o := by
  unfold linkDirectory
  cases hd : s.directory with
  | none => rwa [hd] at h
  | some cur =>
    have he : entryOffset cur directorySize = entryOffset cur (directorySize - 1) + 128 := rfl
    have hle : cur ≤ entryOffset cur (directorySize - 1) := Nat.le_add_right _ _
    rw [hd] at h
    simp only [setStorage, hc]
    refine (h.write hle ?_).write (hle.trans (Nat.le_add_right _ _)) ?_
    · simp; omega
    · simp; omega

theorem directories_linkDirectory (h : Holds s.file current index links frames)
    (hd : s.directory = current) (hi : current ≠ none → index = directorySize - 1)
    (e : s.reserveSpace (s.file.header.directoryCapacity * directoryEntrySize) =
      some (offset, s₁)) :
    Directories ((s₁.recordDirectory offset).linkDirectory offset).file (some offset) 0
      links := by
  obtain ⟨ho, hcon, hs, hl, hdir, -, hds, hn, hcap⟩ := reserveSpace_eq e
  have hcapacity := h.capacity
  have hge := h.size_ge
  have hreserved : headerReservedSpace = 4096 := rfl
  have htoNat : (BitVec.ofNat 64 offset).toNat = offset := toNat_ofNat_of_le (by omega)
  have hfit : headerReservedSpace ≤ (BitVec.ofNat 64 offset).toNat := by
    rw [htoNat, ho]
    exact hge
  have hcount : ((s₁.recordDirectory offset).linkDirectory offset).file.header.directoryCount ≠ 0 :=
    by simp [recordDirectory]
  have hcap₁ : (s₁.recordDirectory offset).file.header.directoryCapacity = directorySize :=
    hcap.trans hcapacity
  have hfree : ∀ i, entryOffset offset 0 ≤ i → i < entryOffset offset directorySize →
      ((s₁.recordDirectory offset).linkDirectory offset).file.storage.content i = 0 := by
    intro i hi _
    rw [entryOffset, Nat.zero_mul] at hi
    rw [content_linkDirectory hcap₁]
    · exact (congrFun hcon i).trans (h.fresh i (by omega))
    · intro cur hcur
      have := h.directories.bound (show cur ∈ current by rw [← hd, ← hdir]; exact hcur)
      omega
  have hbound : entryOffset offset directorySize ≤
      ((s₁.recordDirectory offset).linkDirectory offset).file.storage.size := by
    rw [size_linkDirectory, entryOffset]
    exact (hs.trans (by rw [hcapacity])).ge
  have hfirst := recordDirectory_first (hcap.trans hcapacity) offset
  rw [← header_linkDirectory (s₁.recordDirectory offset) offset, hn, hds] at hfirst
  cases h.directories with
  | empty count =>
    rw [if_pos count] at hfirst
    refine @Directories.chain _ offset [] [] hcount (hfirst ▸ hfit) ?_ (fun i hi => by cases hi)
      (Nat.zero_le _) hfree hbound ?_
    · rw [hfirst, htoNat]
      exact .here _
    · simp only [header_linkDirectory, recordDirectory, hn, count, List.length_nil, Nat.zero_add,
        Nat.one_mul]
  | @chain cur pre fs count first linked frames length free bound total =>
    rw [if_neg count] at hfirst
    have hfull : fs.length = directorySize - 1 := hi (by simp)
    have hd₁ : (s₁.recordDirectory offset).directory = some cur := hdir.trans hd
    have ha : s.file.storage.AgreeBelow (entryOffset cur (directorySize - 1))
        ((s₁.recordDirectory offset).linkDirectory offset).file.storage := fun i hi =>
      (linkDirectory_agreeBelow hd₁ hcap₁ offset i hi).trans (congrFun hcon i)
    have hchain := (linked.congr (ha.mono (Nat.le_add_right _ _))).snoc
      (frames.congr ha (entryOffset_mono hfull.le)) hfull (slot_linkDirectory hd₁ hcap₁ offset)
      (by rw [htoNat, ho]; exact bound)
    rw [htoNat, ← hfirst] at hchain
    rw [← List.append_nil (pre ++ fs)]
    refine @Directories.chain _ offset (pre ++ fs) [] hcount (hfirst ▸ first) hchain
      (fun i hi => by cases hi) (Nat.zero_le _) hfree hbound ?_
    rw [header_linkDirectory, recordDirectory, hn, Nat.succ_mul, ← total, List.length_append, hfull]

/-- Adding a directory, as far as it gets, keeps the frames of the file. -/
theorem holds_linkDirectory (h : Holds s.file current index links frames)
    (hd : s.directory = current) (hi : current ≠ none → index = directorySize - 1)
    (e : s.reserveSpace (s.file.header.directoryCapacity * directoryEntrySize) =
      some (offset, s₁)) :
    Holds ((s₁.recordDirectory offset).linkDirectory offset).file (some offset) 0 links frames := by
  have h₁ := holds_reserveSpace h e
  have hD := directories_linkDirectory h hd hi e
  obtain ⟨ho, hcon, hs, hl, hdir, -, hds, hn, hcap⟩ := reserveSpace_eq e
  have hcap₁ : (s₁.recordDirectory offset).file.header.directoryCapacity = directorySize :=
    hcap.trans h.capacity
  have hcur : ∀ cur ∈ (s₁.recordDirectory offset).directory,
      entryOffset cur directorySize ≤ offset := fun cur hcur => by
    rw [ho]
    exact h.directories.bound (by rw [← hd, ← hdir]; exact hcur)
  refine ⟨?_, fun i hi => ?_, ?_, ?_, hD, fun c hm => ?_⟩
  · rw [header_linkDirectory]; exact hcap₁
  · rw [size_linkDirectory] at hi
    rw [content_linkDirectory hcap₁ fun cur hm => (hcur cur hm).trans ?_]
    · exact h₁.fresh i hi
    · exact (Nat.le_add_right _ _).trans (hs.ge.trans hi)
  · rw [size_linkDirectory]; exact h₁.size_ge
  · rw [size_linkDirectory]; exact h₁.size_le
  · have hst : Stored (s₁.recordDirectory offset).file.storage
        (s₁.recordDirectory offset).directory c.1 c.2 := by
      have := h₁.stored c hm
      rwa [← hd, ← hdir] at this
    obtain ⟨hle, hr, -⟩ := stored_linkDirectory hst hcap₁ offset
    refine ⟨hle, hr, fun dir hdir' => ?_⟩
    obtain rfl := Option.some.inj hdir'
    exact Or.inl (ho ▸ (h.stored c hm).le_size)

theorem holds_addDirectory {r : Option Unit} (h : Holds s.file current index links frames)
    (hd : s.directory = current) (hi : current ≠ none → index = directorySize - 1)
    (e : s.addDirectory fault = (r, s')) :
    ∃ current' index', Holds s'.file current' index' links frames ∧ s'.readMode = s.readMode ∧
      (r ≠ none → s'.directory = current' ∧ current' ≠ none ∧ s'.nextFrameIndex = index' ∧
        index' = 0) := by
  unfold addDirectory at e
  split at e
  · obtain ⟨rfl, rfl⟩ := Prod.mk.inj e
    exact ⟨current, index, h, rfl, fun hr => (hr rfl).elim⟩
  · rename_i offset s₁ hres
    have hread : ((s₁.recordDirectory offset).linkDirectory offset).readMode = s.readMode := by
      rw [readMode_linkDirectory]
      exact (reserveSpace_eq hres).2.2.2.2.2.1
    split at e
    · obtain ⟨rfl, rfl⟩ := Prod.mk.inj e
      exact ⟨current, index, holds_reserveSpace h hres, (reserveSpace_eq hres).2.2.2.2.2.1,
        fun hr => (hr rfl).elim⟩
    · dsimp only at e
      split at e
      · obtain ⟨rfl, rfl⟩ := Prod.mk.inj e
        exact ⟨some offset, 0, holds_linkDirectory h hd hi hres, hread, fun hr => (hr rfl).elim⟩
      · obtain ⟨rfl, rfl⟩ := Prod.mk.inj e
        exact ⟨some offset, 0, holds_linkDirectory h hd hi hres, hread,
          fun _ => ⟨rfl, by simp, rfl, rfl⟩⟩

theorem holds_setSlot {dir : ℕ} (h : Holds s.file (some dir) s.nextFrameIndex links frames)
    (hi : s.nextFrameIndex < directorySize - 1) (link : FrameHeaderLink) :
    Holds (s.setSlot dir link).file (some dir) (s.nextFrameIndex + 1) (links ++ [link])
      frames := by
  have hlen := FrameHeaderLink.length_toBytes link
  have hle : entryOffset dir (s.nextFrameIndex + 1) ≤ entryOffset dir directorySize :=
    entryOffset_mono (by omega)
  refine ⟨h.capacity, h.fresh.write ?_, h.size_ge, h.size_le,
    h.directories.setSlot hi rfl rfl rfl, fun c hm => (h.stored c hm).write ?_ ?_⟩
  · rw [hlen, ← entryOffset_succ]
    exact hle.trans (h.directories.bound rfl)
  · exact Nat.le_add_right _ _
  · rw [hlen, ← entryOffset_succ]
    exact hle

/-- The file of a store holds exactly the committed frames, and while the store can be written,
the mapped directory is the one that the next frame goes to. -/
def Consistent (s : Simtrace3Store) (frames : List Committed) : Prop :=
  ∃ current index, Holds s.file current index (frames.map Committed.link) frames ∧
    (s.readMode = false → s.directory = current ∧ s.nextFrameIndex = index)

theorem consistent_createStore : createStore.Consistent [] :=
  ⟨none, 0, ⟨rfl, Storage.Fresh.write (fun _ _ => rfl) (by simp [headerReservedSpace]), le_rfl,
    by decide, .empty rfl, fun _ h => by cases h⟩, fun _ => ⟨rfl, rfl⟩⟩

theorem holds_writeFrame {r : Option ℕ} (h : Holds s.file current index links frames)
    (e : s.writeFrame fault frame = (r, s')) :
    s'.directory = s.directory ∧ s'.nextFrameIndex = s.nextFrameIndex ∧
      s'.readMode = s.readMode ∧ Holds s'.file current index links frames ∧
      ∀ offset ∈ r, Holds s'.file current index links (frames ++ [(frame, .ofNat 64 offset)]) := by
  unfold writeFrame at e
  split at e
  · obtain ⟨rfl, rfl⟩ := Prod.mk.inj e
    exact ⟨rfl, rfl, rfl, h, fun _ h => by cases h⟩
  · rename_i offset st hres
    have ha := Storage.agreeBelow_reserve hres s.file.storage.size
    have hf := h.fresh.reserve hres
    obtain ⟨hle, ho, hst⟩ := Storage.reserve_eq_some_iff.mp hres
    have hsize : st.size = offset + frame.header.totalSize.toNat := by rw [hst, ho]
    have hlen := frame.length_toBytes
    -- whatever part of the frame was written lies behind the old end of the file
    have hwrite (bs : List UInt8) (hbs : bs.length ≤ frame.toBytes.length) :
        Holds (s.setStorage (st.write offset bs)).file current index links frames :=
      h.congr rfl rfl rfl (ha.trans (Storage.agreeBelow_write _ ho.ge _))
        (hf.write (by omega)) (by simp only [setStorage, Storage.size_write]; omega)
        (by simp only [setStorage, Storage.size_write]; omega)
    split at e <;> obtain ⟨rfl, rfl⟩ := Prod.mk.inj e
    · exact ⟨rfl, rfl, rfl, h.congr rfl rfl rfl ha hf (by simp only [setStorage]; omega)
        (by simp only [setStorage]; omega), fun _ h => by cases h⟩
    · exact ⟨rfl, rfl, rfl, hwrite _ (by simp), fun _ h => by cases h⟩
    · refine ⟨rfl, rfl, rfl, hwrite _ le_rfl, fun o hm => ?_⟩
      obtain rfl := Option.some.inj hm
      have htoNat : (BitVec.ofNat 64 offset).toNat = offset := toNat_ofNat_of_le (by omega)
      refine { hwrite _ le_rfl with stored := fun c hm => ?_ }
      rcases List.mem_append.mp hm with hm | hm
      · exact (hwrite _ le_rfl).stored c hm
      · obtain rfl := List.mem_singleton.mp hm
        refine ⟨?_, ?_, fun dir hdir => Or.inr ?_⟩
        · rw [htoNat, hlen]; exact hsize.ge
        · rw [htoNat]; exact Storage.read_write_same _ _ _
        · rw [htoNat, ho]; exact h.directories.bound hdir

theorem holds_prepareDirectory {r : Option Unit} (h : Holds s.file current index links frames)
    (hd : s.directory = current) (hi : s.nextFrameIndex = index)
    (e : s.prepareDirectory fault = (r, s')) :
    s'.readMode = s.readMode ∧ ∃ current' index', Holds s'.file current' index' links frames ∧
      (r ≠ none → s'.directory = current' ∧ s'.nextFrameIndex = index' ∧
        index' < directorySize - 1) := by
  have hle := h.directories.index_le
  unfold prepareDirectory at e
  split at e
  · rename_i hfull
    have hfull' : current ≠ none → index = directorySize - 1 := fun hc => by
      rw [h.capacity, hi, hd] at hfull
      exact hfull.resolve_left hc
    obtain ⟨current', index', h', hr, hs⟩ := holds_addDirectory h hd hfull' e
    refine ⟨hr, current', index', h', fun hne => ?_⟩
    obtain ⟨h₁, -, h₂, h₃⟩ := hs hne
    exact ⟨h₁, h₂, h₃ ▸ by decide⟩
  · rename_i hfree
    obtain ⟨rfl, rfl⟩ := Prod.mk.inj e
    refine ⟨rfl, current, index, h, fun _ => ⟨hd, hi, lt_of_le_of_ne hle fun hlast => hfree ?_⟩⟩
    rw [h.capacity, hi, hlast]
    exact Or.inr rfl

theorem holds_addFrameToDirectory {r : Option Unit} {link : FrameHeaderLink}
    (h : Holds s.file current index links frames) (hd : s.directory = current)
    (hi : s.nextFrameIndex = index) (e : s.addFrameToDirectory fault link = (r, s')) :
    s'.readMode = s.readMode ∧ ∃ current' index',
      (r = none → Holds s'.file current' index' links frames) ∧
      (r ≠ none → Holds s'.file current' index' (links ++ [link]) frames ∧
        s'.directory = current' ∧ s'.nextFrameIndex = index') := by
  unfold addFrameToDirectory at e
  cases hp : s.prepareDirectory fault with
  | mk r₀ s₀ =>
    obtain ⟨hr, current', index', h', hs⟩ := holds_prepareDirectory h hd hi hp
    rw [hp] at e
    cases r₀ with
    | none =>
      obtain ⟨rfl, rfl⟩ := Prod.mk.inj e
      exact ⟨hr, current', index', fun _ => h', fun hne => (hne rfl).elim⟩
    | some _ =>
      obtain ⟨rfl, rfl, hlt⟩ := hs (by simp)
      dsimp only at e
      split at e <;> obtain ⟨rfl, rfl⟩ := Prod.mk.inj e
      · exact ⟨hr, _, _, fun _ => h', fun hne => (hne rfl).elim⟩
      · rename_i dir hdir
        rw [hdir] at h'
        exact ⟨hr, some dir, _, fun hn => (by cases hn), fun _ =>
          ⟨holds_setSlot h' hlt link, hdir, rfl⟩⟩

/-- A commit adds its frame to those of the file; a failed one leaves them as they are. -/
theorem Consistent.commitFrame {murmur3 : List UInt8 → BitVec 32} {r : Option FileOffset}
    (h : s.Consistent frames) (e : s.commitFrame murmur3 fault frame = (r, s')) :
    (r = none → s'.Consistent frames) ∧
      ∀ offset ∈ r, s'.Consistent (frames ++ [(frame.updateHash murmur3, offset)]) := by
  obtain ⟨current, index, hh, hw⟩ := h
  unfold Simtrace3Store.commitFrame at e
  dsimp only at e
  split at e
  · obtain ⟨rfl, rfl⟩ := Prod.mk.inj e
    exact ⟨fun _ => ⟨current, index, hh, hw⟩, fun _ h => by cases h⟩
  · rename_i hopen
    obtain ⟨hd, hi⟩ := hw (by simpa using fun h => hopen (Or.inl h))
    split at e
    · rename_i s₁ he₁
      obtain ⟨rfl, rfl⟩ := Prod.mk.inj e
      obtain ⟨-, -, -, h₁, -⟩ := holds_writeFrame hh he₁
      exact ⟨fun _ => ⟨current, index, h₁, fun h => by cases h⟩, fun _ h => by cases h⟩
    · rename_i offset s₁ he₁
      obtain ⟨hd₁, hi₁, hr₁, -, h₁⟩ := holds_writeFrame hh he₁
      split at e
      · rename_i s₂ he₂
        obtain ⟨rfl, rfl⟩ := Prod.mk.inj e
        obtain ⟨-, current', index', h₂, -⟩ :=
          holds_addFrameToDirectory (h₁ offset rfl) (hd₁.trans hd) (hi₁.trans hi) he₂
        exact ⟨fun _ => ⟨current', index', (h₂ rfl).mono fun c hc => List.mem_append_left _ hc,
          fun h => by cases h⟩, fun _ h => by cases h⟩
      · rename_i s₂ he₂
        obtain ⟨rfl, rfl⟩ := Prod.mk.inj e
        obtain ⟨-, current', index', -, h₂⟩ :=
          holds_addFrameToDirectory (h₁ offset rfl) (hd₁.trans hd) (hi₁.trans hi) he₂
        obtain ⟨h₂, hd₂, hi₂⟩ := h₂ (by simp)
        refine ⟨fun h => (by cases h), fun o ho => ⟨current', index', ?_, fun _ => ⟨hd₂, hi₂⟩⟩⟩
        obtain rfl := Option.some.inj ho
        rw [List.map_append]
        exact h₂.congr rfl rfl rfl (.refl _ _) h₂.fresh le_rfl h₂.size_le

end Simtrace3Store

end Simutrace.Simtrace3
