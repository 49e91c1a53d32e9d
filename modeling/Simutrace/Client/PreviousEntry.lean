import Simutrace.Client.Enumeration

/-! # Reading backwards with pointers

A read handle holds three pointers into the buffer segment of the client. They
are null after a request has failed. A null pointer is not in front of a null
start, so that the next call decrements it.
-/

namespace Simutrace

/-- The part of a read handle that is used to read backwards. Pointers are addresses; null is
zero. -/
structure EntryHandle where
  dynamic : Bool
  accessFlags : StreamAccessFlags
  sequenceNumber : StreamSegmentId
  control : Bool
  entry : ℕ
  segmentStart : ℕ
  segmentEnd : ℕ
  deriving DecidableEq, Repr

/-- Where the client has the segments that are loaded with each call. In front of a segment there
is room for an entry. -/
structure ClientMemory (r : StreamReads) where
  start : ℕ → ℕ
  entrySize_lt : r.stype.entrySize < 2 ^ 32
  placed : ∀ call query n location offset, r.closeAndOpen call query = some (n, location, offset) →
    0 < location.rawEntryCount ∧ location.rawEntryCount * r.stype.entrySize < 2 ^ 32 ∧
      r.stype.entrySize ≤ start call ∧
      start call + location.rawEntryCount * r.stype.entrySize < 2 ^ 64

namespace EntryHandle

section

variable (handle : EntryHandle)

def invalidateStaticHandle : EntryHandle :=
  { handle with control := false, entry := 0, segmentStart := 0, segmentEnd := 0 }

def moveBack (entrySize : ℕ) : EntryHandle × ℕ :=
  ({ handle with entry := (handle.entry + (2 ^ 64 - entrySize)) % 2 ^ 64 }, handle.entry)

structure Loaded (entrySize : ℕ) (handle : EntryHandle) : Prop where
  static : handle.dynamic = false
  control : handle.control = true
  room : entrySize ≤ handle.segmentStart
  limit : handle.segmentEnd < 2 ^ 64
  position : ∃ i count, i ≤ count ∧ handle.segmentEnd = handle.segmentStart + count * entrySize ∧
    handle.entry + entrySize = handle.segmentStart + i * entrySize

/-- The handle of a dynamic stream, which is read through the handlers of its owner only. -/
def IsDynamic (handle : EntryHandle) : Prop :=
  handle.dynamic = true ∧ handle.entry < handle.segmentStart

def IsInvalid (handle : EntryHandle) : Prop :=
  handle.dynamic = false ∧ handle.control = false ∧ handle.segmentStart = 0 ∧
    handle.entry < 2 ^ 64

/-- The null pointer of an invalid handle has been decremented. -/
def Wrapped (handle : EntryHandle) : Prop :=
  handle.dynamic = false ∧ handle.control = false ∧ handle.entry ≠ 0

instance : Decidable handle.Wrapped := inferInstanceAs (Decidable (_ ∧ _ ∧ _))

def ReturnsInside (entrySize : ℕ) (handle : EntryHandle) (entry : ℕ) : Prop :=
  entry = 0 ∨ (handle.control = true ∧ handle.segmentStart ≤ entry ∧
    entry + entrySize ≤ handle.segmentEnd ∧ entrySize ∣ entry - handle.segmentStart)

end

section

variable {entrySize : ℕ} {handle : EntryHandle}

theorem Loaded.moveBack (h : handle.Loaded entrySize) (pos : 0 < entrySize)
    (entered : handle.segmentStart ≤ handle.entry) :
    (handle.moveBack entrySize).2 ≠ 0 ∧ (handle.moveBack entrySize).1.Loaded entrySize ∧
      (handle.moveBack entrySize).1.ReturnsInside entrySize (handle.moveBack entrySize).2 := by
  obtain ⟨i, count, hle, hend, hentry⟩ := h.position
  have hroom := h.room
  have hlimit := h.limit
  have hi : 0 < i := by
    by_contra hzero
    rw [Nat.eq_zero_of_not_pos hzero] at hentry
    omega
  obtain ⟨j, rfl⟩ := Nat.exists_eq_add_one.mpr hi
  have hmul := Nat.mul_le_mul_right entrySize hle
  rw [Nat.add_mul, Nat.one_mul] at hentry hmul
  have hmove : (handle.entry + (2 ^ 64 - entrySize)) % 2 ^ 64 = handle.entry - entrySize := by
    have hsum : handle.entry + (2 ^ 64 - entrySize) = handle.entry - entrySize + 2 ^ 64 := by omega
    rw [hsum, Nat.add_mod_right, Nat.mod_eq_of_lt (by omega)]
  have hoffset : handle.entry - handle.segmentStart = j * entrySize := by omega
  refine ⟨by unfold EntryHandle.moveBack; dsimp only; omega,
    ⟨h.static, h.control, hroom, hlimit, j, count, by omega, hend, ?_⟩,
    .inr ⟨h.control, entered, ?_, ?_⟩⟩
  · unfold EntryHandle.moveBack
    dsimp only
    omega
  · unfold EntryHandle.moveBack
    dsimp only
    omega
  · change entrySize ∣ handle.entry - handle.segmentStart
    rw [hoffset]
    exact Nat.dvd_mul_left _ _

theorem IsInvalid.moveBack (h : handle.IsInvalid) (pos : 0 < entrySize)
    (small : entrySize < 2 ^ 32) : (handle.moveBack entrySize).1.IsInvalid ∧
      (handle.entry = 0 → (handle.moveBack entrySize).1.Wrapped) := by
  obtain ⟨hstatic, hcontrol, hstart, -⟩ := h
  refine ⟨⟨hstatic, hcontrol, hstart, Nat.mod_lt _ (by decide)⟩, fun hzero => ?_⟩
  refine ⟨hstatic, hcontrol, ?_⟩
  unfold EntryHandle.moveBack
  dsimp only
  rw [hzero, Nat.mod_eq_of_lt (by omega)]
  omega

end

end EntryHandle

namespace ClientMemory

variable {r : StreamReads} (m : ClientMemory r)

def initializeStaticHandle (call : ℕ) (flags : StreamAccessFlags) :
    StreamSegmentId × StorageLocation × ℕ → EntryHandle
  | (n, location, offset) =>
    ⟨false, flags, n, true, m.start call + offset, m.start call,
      m.start call + location.rawEntryCount * r.stype.entrySize % 2 ^ 32⟩

/-- Move a handle to another segment. -/
def stStreamOpen (call : ℕ) (query : StreamOpenQuery) (handle : EntryHandle) : EntryHandle :=
  match r.closeAndOpen call query with
  | some answer => m.initializeStaticHandle call query.flags answer
  | none => { handle with accessFlags := query.flags }.invalidateStaticHandle

def stGetPreviousEntryFast : ℕ × EntryHandle → (ℕ × EntryHandle) × ℕ
  | (call, handle) =>
    if handle.entry < handle.segmentStart then
      if handle.dynamic then ((call + 1, handle), 0)
      else
        let flags := { handle.accessFlags with reverseRead := true }
        let handle := m.stStreamOpen call ⟨.qPreviousValidSequenceNumber, handle.sequenceNumber,
          flags⟩ handle
        if handle.control = false then ((call + 1, handle), 0)
        else
          let (handle, entry) := handle.moveBack r.stype.entrySize
          ((call + 1, handle), entry)
    else
      let (handle, entry) := handle.moveBack r.stype.entrySize
      ((call + 1, handle), entry)

def after (handle : EntryHandle) : ℕ → ℕ × EntryHandle
  | 0 => (0, handle)
  | i + 1 => (m.stGetPreviousEntryFast (after handle i)).1

def returned (handle : EntryHandle) (i : ℕ) : ℕ := (m.stGetPreviousEntryFast (m.after handle i)).2

/-- Calls return entries of the loaded segment or null, and only null once they have done so. -/
structure StableReads (handle : EntryHandle) (calls : ℕ) : Prop where
  inside : ∀ i < calls,
    (m.after handle (i + 1)).2.ReturnsInside r.stype.entrySize (m.returned handle i)
  null : ∀ i j, i < j → j < calls → m.returned handle i = 0 → m.returned handle j = 0

variable {m} {handle : EntryHandle} {call i : ℕ}

theorem offset_of_closeAndOpen {n v offset : ℕ} {flags : StreamAccessFlags}
    {location : StorageLocation}
    (h : r.closeAndOpen call ⟨.qPreviousValidSequenceNumber, v, flags⟩ =
      some (n, location, offset)) :
    offset = location.rawEntryCount * r.stype.entrySize - r.stype.entrySize := by
  unfold StreamReads.closeAndOpen at h
  cases hquery : (r.view call).openQuery r.stype r.cycleCounts
      ⟨.qPreviousValidSequenceNumber, v, flags⟩ with
  | error e =>
    rw [hquery] at h
    cases h
  | ok answer =>
    obtain ⟨n', location', offset'⟩ := answer
    rw [hquery] at h
    dsimp only at h
    split_ifs at h
    obtain ⟨rfl, rfl, rfl⟩ : n' = n ∧ location' = location ∧ offset' = offset := by
      simpa using h
    obtain ⟨-, value, hoffset⟩ := StreamReads.segment_of_openQuery hquery
    exact (Except.ok.inj hoffset).symm

/-- A handle that is moved to the previous segment is at its last entry, or invalid with null
pointers. -/
theorem stStreamOpen_previous (call v : ℕ) (flags : StreamAccessFlags)
    (static : handle.dynamic = false) :
    ((m.stStreamOpen call ⟨.qPreviousValidSequenceNumber, v, flags⟩ handle).Loaded
        r.stype.entrySize ∧
      (m.stStreamOpen call ⟨.qPreviousValidSequenceNumber, v, flags⟩ handle).segmentStart ≤
        (m.stStreamOpen call ⟨.qPreviousValidSequenceNumber, v, flags⟩ handle).entry) ∨
    ((m.stStreamOpen call ⟨.qPreviousValidSequenceNumber, v, flags⟩ handle).IsInvalid ∧
      (m.stStreamOpen call ⟨.qPreviousValidSequenceNumber, v, flags⟩ handle).entry = 0) := by
  unfold stStreamOpen
  cases hanswer : r.closeAndOpen call ⟨.qPreviousValidSequenceNumber, v, flags⟩ with
  | none => exact .inr ⟨⟨static, rfl, rfl, Nat.two_pow_pos 64⟩, rfl⟩
  | some answer =>
    obtain ⟨n, location, offset⟩ := answer
    obtain ⟨hpos, hproduct, hroom, hlimit⟩ := m.placed call _ n location offset hanswer
    have hoffset := offset_of_closeAndOpen hanswer
    have hle : r.stype.entrySize ≤ location.rawEntryCount * r.stype.entrySize :=
      Nat.le_mul_of_pos_left _ hpos
    have hend : location.rawEntryCount * r.stype.entrySize % 2 ^ 32 =
        location.rawEntryCount * r.stype.entrySize := Nat.mod_eq_of_lt hproduct
    refine .inl ⟨⟨rfl, rfl, hroom, ?_, location.rawEntryCount, location.rawEntryCount, le_rfl,
      ?_, ?_⟩, Nat.le_add_right _ _⟩
    · change m.start call + location.rawEntryCount * r.stype.entrySize % 2 ^ 32 < 2 ^ 64
      rwa [hend]
    · change m.start call + location.rawEntryCount * r.stype.entrySize % 2 ^ 32 = _
      rw [hend]
      rfl
    · change m.start call + offset + r.stype.entrySize = m.start call + _
      omega

theorem stGetPreviousEntryFast_loaded (m : ClientMemory r) (call : ℕ)
    (h : handle.Loaded r.stype.entrySize) :
    ((m.stGetPreviousEntryFast (call, handle)).2 ≠ 0 ∧
      (m.stGetPreviousEntryFast (call, handle)).1.2.Loaded r.stype.entrySize ∧
      (m.stGetPreviousEntryFast (call, handle)).1.2.ReturnsInside r.stype.entrySize
        (m.stGetPreviousEntryFast (call, handle)).2) ∨
    ((m.stGetPreviousEntryFast (call, handle)).2 = 0 ∧
      (m.stGetPreviousEntryFast (call, handle)).1.2.IsInvalid ∧
      (m.stGetPreviousEntryFast (call, handle)).1.2.entry = 0) := by
  unfold stGetPreviousEntryFast
  dsimp only
  by_cases hleft : handle.entry < handle.segmentStart
  · rw [if_pos hleft, h.static, if_neg Bool.false_ne_true]
    rcases m.stStreamOpen_previous call handle.sequenceNumber
        { handle.accessFlags with reverseRead := true } h.static with
      ⟨hloaded, hentered⟩ | ⟨hinvalid, hentry⟩
    · rw [if_neg (by rw [hloaded.control]; exact Bool.noConfusion)]
      exact .inl (hloaded.moveBack r.stype.pos hentered)
    · rw [if_pos hinvalid.2.1]
      exact .inr ⟨rfl, hinvalid, hentry⟩
  · rw [if_neg hleft]
    exact .inl (h.moveBack r.stype.pos (not_lt.mp hleft))

theorem stGetPreviousEntryFast_dynamic (h : handle.IsDynamic) :
    m.stGetPreviousEntryFast (call, handle) = ((call + 1, handle), 0) := by
  unfold stGetPreviousEntryFast
  dsimp only
  rw [if_pos h.2, if_pos h.1]

theorem stGetPreviousEntryFast_invalid (h : handle.IsInvalid) :
    m.stGetPreviousEntryFast (call, handle) =
      ((call + 1, (handle.moveBack r.stype.entrySize).1), handle.entry) := by
  unfold stGetPreviousEntryFast
  dsimp only
  rw [if_neg (by rw [h.2.2.1]; exact Nat.not_lt_zero _)]
  rfl

/-- What a handle can be in a sequence of calls. -/
def Reachable (r : StreamReads) (handle : EntryHandle) : Prop :=
  handle.Loaded r.stype.entrySize ∨ handle.IsDynamic ∨ handle.IsInvalid

theorem Reachable.after (h : Reachable r handle) (i : ℕ) : Reachable r (m.after handle i).2 := by
  induction i with
  | zero => exact h
  | succ i ih =>
    change Reachable r (m.stGetPreviousEntryFast (m.after handle i)).1.2
    rcases ih with hloaded | hdynamic | hinvalid
    · rcases m.stGetPreviousEntryFast_loaded (m.after handle i).1 hloaded with h | h
      · exact .inl h.2.1
      · exact .inr (.inr h.2.1)
    · rw [show m.after handle i = ((m.after handle i).1, (m.after handle i).2) from rfl,
        stGetPreviousEntryFast_dynamic hdynamic]
      exact .inr (.inl hdynamic)
    · rw [show m.after handle i = ((m.after handle i).1, (m.after handle i).2) from rfl,
        stGetPreviousEntryFast_invalid hinvalid]
      exact .inr (.inr (hinvalid.moveBack r.stype.pos m.entrySize_lt).1)

theorem Reachable.returnsInside_iff (h : Reachable r handle) :
    (m.stGetPreviousEntryFast (call, handle)).1.2.ReturnsInside r.stype.entrySize
      (m.stGetPreviousEntryFast (call, handle)).2 ↔ ¬ handle.Wrapped := by
  rcases h with hloaded | hdynamic | hinvalid
  · refine iff_of_true ?_ fun hwrapped => ?_
    · rcases m.stGetPreviousEntryFast_loaded call hloaded with h | h
      · exact h.2.2
      · exact .inl h.1
    · cases hloaded.control.symm.trans hwrapped.2.1
  · rw [stGetPreviousEntryFast_dynamic hdynamic]
    exact iff_of_true (.inl rfl) fun hwrapped => by cases hdynamic.1.symm.trans hwrapped.1
  · rw [stGetPreviousEntryFast_invalid hinvalid]
    constructor
    · rintro (hzero | ⟨hcontrol, -⟩) hwrapped
      · exact hwrapped.2.2 hzero
      · cases hcontrol.symm.trans hinvalid.2.1
    · intro hwrapped
      refine .inl ?_
      by_contra hentry
      exact hwrapped ⟨hinvalid.1, hinvalid.2.1, hentry⟩

/-- A call that returns null is followed by another one, unless the pointer has been decremented. -/
theorem Reachable.returned_succ (h : Reachable r handle)
    (null : (m.stGetPreviousEntryFast (call, handle)).2 = 0)
    (next : ¬ (m.stGetPreviousEntryFast (call, handle)).1.2.Wrapped) :
    (m.stGetPreviousEntryFast (m.stGetPreviousEntryFast (call, handle)).1).2 = 0 := by
  rcases h with hloaded | hdynamic | hinvalid
  · rcases m.stGetPreviousEntryFast_loaded call hloaded with h | h
    · exact absurd null h.1
    · rw [show (m.stGetPreviousEntryFast (call, handle)).1 =
          ((m.stGetPreviousEntryFast (call, handle)).1.1,
            (m.stGetPreviousEntryFast (call, handle)).1.2) from rfl,
        stGetPreviousEntryFast_invalid h.2.1]
      exact h.2.2
  · rw [stGetPreviousEntryFast_dynamic hdynamic, stGetPreviousEntryFast_dynamic hdynamic]
  · rw [stGetPreviousEntryFast_invalid hinvalid] at null next
    exact absurd ((hinvalid.moveBack r.stype.pos m.entrySize_lt).2 null) next

theorem Reachable.null_of_lt (h : Reachable r handle) {calls j : ℕ}
    (unwrapped : ∀ i < calls, ¬ (m.after handle i).2.Wrapped) (hij : i < j) (hj : j < calls)
    (null : m.returned handle i = 0) : m.returned handle j = 0 := by
  induction j with
  | zero => omega
  | succ j ih =>
    have hprevious : m.returned handle j = 0 := by
      rcases (Nat.le_of_lt_succ hij).eq_or_lt with rfl | hlt
      · exact null
      · exact ih hlt (by omega)
    exact (h.after j).returned_succ hprevious (unwrapped (j + 1) hj)

/-- The calls are stable if and only if none of them finds a null pointer that a call before has
decremented. -/
theorem stableReads_iff (h : handle.Loaded r.stype.entrySize ∨ handle.IsDynamic) (calls : ℕ) :
    m.StableReads handle calls ↔ ∀ i < calls, ¬ (m.after handle i).2.Wrapped := by
  have hreachable : Reachable r handle := h.imp_right .inl
  constructor
  · intro hstable i hi
    exact (hreachable.after i).returnsInside_iff.mp (hstable.inside i hi)
  · intro hunwrapped
    refine ⟨fun i hi => ?_, fun i j hij hj => hreachable.null_of_lt hunwrapped hij hj⟩
    exact (hreachable.after i).returnsInside_iff.mpr (hunwrapped i hi)

/-! ## A stream with one entry -/

/-- A stream of which the only segment has one entry. -/
def readsOneEntry : StreamReads where
  stype := ⟨16, false, by decide⟩
  view _ := ServerStream.new.addSegmentLocation (.stored ⟨0, fun _ => ⟨0, 0⟩, 32, 1⟩)
  cycleCounts _ := []
  loads _ := true

theorem rawEntryCount_readsOneEntry {query : StreamOpenQuery} {n offset : ℕ}
    {location : StorageLocation}
    (h : readsOneEntry.closeAndOpen call query = some (n, location, offset)) :
    location.rawEntryCount = 1 := by
  unfold StreamReads.closeAndOpen at h
  cases hquery : (readsOneEntry.view call).openQuery readsOneEntry.stype readsOneEntry.cycleCounts
      query with
  | error e =>
    rw [hquery] at h
    cases h
  | ok answer =>
    obtain ⟨n', location', offset'⟩ := answer
    rw [hquery] at h
    dsimp only at h
    split_ifs at h
    obtain ⟨rfl, rfl, rfl⟩ : n' = n ∧ location' = location ∧ offset' = offset := by
      simpa using h
    obtain ⟨⟨loc, hloc, hlocation⟩, -⟩ := StreamReads.segment_of_openQuery hquery
    by_cases hn : n' = 0
    · subst hn
      obtain rfl := Option.some.inj hloc
      obtain rfl := Option.some.inj hlocation
      rfl
    · have hnone : (readsOneEntry.view call).segments n' = none := Function.update_of_ne hn _ _
      cases hnone.symm.trans hloc

/-- The segment is loaded to the same address each time. -/
def memoryOneEntry : ClientMemory readsOneEntry where
  start _ := 65536
  entrySize_lt := by decide
  placed call query n location offset h := by
    rw [rawEntryCount_readsOneEntry h]
    decide

def handleOneEntry : EntryHandle := ⟨false, ⟨false, true⟩, 0, true, 65536, 65536, 65552⟩

theorem loaded_handleOneEntry : handleOneEntry.Loaded readsOneEntry.stype.entrySize :=
  ⟨rfl, rfl, by decide, by decide, 1, 1, le_rfl, rfl, rfl⟩

/-- The entry is returned, and then null two times. -/
theorem stableReads_oneEntry : memoryOneEntry.StableReads handleOneEntry 3 :=
  (stableReads_iff (.inl loaded_handleOneEntry) 3).mpr (by decide)

/-- The fourth call returns the decremented null pointer. -/
theorem not_stableReads_oneEntry : handleOneEntry.Loaded readsOneEntry.stype.entrySize ∧
    memoryOneEntry.returned handleOneEntry 1 = 0 ∧
      memoryOneEntry.returned handleOneEntry 3 = 2 ^ 64 - 16 ∧
      ¬ memoryOneEntry.StableReads handleOneEntry 4 := by
  have hnull : memoryOneEntry.returned handleOneEntry 1 = 0 := by decide
  have hwrapped : memoryOneEntry.returned handleOneEntry 3 = 2 ^ 64 - 16 := by decide
  refine ⟨loaded_handleOneEntry, hnull, hwrapped, fun hstable => ?_⟩
  have hthird := hstable.null 1 3 (by decide) (by decide) hnull
  rw [hwrapped] at hthird
  exact absurd hthird (by decide)

end ClientMemory

end Simutrace
