import Simutrace.Store.Format
import Simutrace.Library.MurmurHash3

/-! # Reading frames from a mapping

A frame is mapped into memory as its directory entry describes it. Its header is
copied from the mapping, and each attribute is found behind the one before it,
by the size that is stored in its header.
-/

namespace Simutrace.Simtrace3

/-- What the system does when a file is mapped: the granularity of a mapping's offset, and whether
a mapping of some length at some offset is made. -/
structure System where
  granularity : BitVec 64
  mmap : BitVec 64 → BitVec 64 → Bool

section

variable (sys : System)

def mappingOffset (start : BitVec 64) : BitVec 64 := start &&& ~~~(sys.granularity - 1)

def mappingSizeDiff (start : BitVec 64) : BitVec 64 := start - mappingOffset sys start

-- All sums are those of machine words. What the system maps begins at a multiple of the
-- granularity, and its length is what it was asked for, however the sum came about.
/-- Map a part of a file of the given size. The result tells how many bytes are mapped from the
start of the part on. -/
def mapSegment (fileSize : ℕ) (start size : BitVec 64) : Option ℕ :=
  let diff := mappingSizeDiff sys start
  if fileSize < (start + size).toNat then none
  else if sys.mmap (size + diff) (mappingOffset sys start) then
    some ((size + diff).toNat - diff.toNat)
  else none

variable {sys}

theorem mapped_eq {fileSize mapped : ℕ} {start size : BitVec 64}
    (h : mapSegment sys fileSize start size = some mapped) :
    mapped = if size.toNat + (mappingSizeDiff sys start).toNat < 2 ^ 64 then size.toNat
      else 0 := by
  have hsize := size.isLt
  have hdiff := (mappingSizeDiff sys start).isLt
  simp only [mapSegment] at h
  split_ifs at h
  obtain rfl := Option.some.inj h
  rw [BitVec.toNat_add]
  split_ifs with hwrap
  · rw [Nat.mod_eq_of_lt hwrap]
    omega
  · omega

end

/-! ## The attributes of a mapped frame -/

structure AttributeHeaderDescription where
  position : BitVec 64
  type : BitVec 8
  size : BitVec 64
  uncompressedSize : BitVec 64
  deriving DecidableEq, Repr

namespace AttributeHeaderDescription

variable (d : AttributeHeaderDescription)

/-- The start of the data, right behind the header. -/
def buffer : BitVec 64 := d.position + .ofNat 64 attributeHeaderSize

/-- The header and the data lie in the first `n` bytes. -/
def Inside (n : ℕ) : Prop :=
  d.position.toNat + attributeHeaderSize ≤ n ∧ d.buffer.toNat + d.size.toNat ≤ n

instance (n : ℕ) : Decidable (d.Inside n) := inferInstanceAs (Decidable (_ ∧ _))

end AttributeHeaderDescription

namespace Mapping

variable (murmur3 : List UInt8 → BitVec 32) (r : Storage)

def word (w pos : ℕ) : BitVec w := LittleEndian.toWord w (r.read pos (w / 8))

def description (position : BitVec 64) : AttributeHeaderDescription where
  position
  type := word r 8 (position.toNat + 4)
  size := word r 64 (position.toNat + 16)
  uncompressedSize := word r 64 (position.toNat + 24)

def descriptions : ℕ → BitVec 64 → List AttributeHeaderDescription
  | 0, _ => []
  | n + 1, position =>
    let d := description r position
    d :: descriptions n (d.buffer + d.size)

/-- The checksum of the header is that of the bytes in front of it. -/
def ValidateHash : Prop := murmur3 (r.read 0 116) = word r 32 116

instance : Decidable (ValidateHash murmur3 r) := inferInstanceAs (Decidable (_ = _))

def readFrame : Option (FrameHeader × List AttributeHeaderDescription) := do
  let header ← FrameHeader.ofBytes (r.read 0 frameHeaderSize)
  if ValidateHash murmur3 r then
    some (header, descriptions r header.attributeCount.toNat (.ofNat 64 frameHeaderSize))
  else none

/-- Everything that is read of a frame, and every attribute that is found, lies in the mapping. -/
def ReadsInside : Prop :=
  frameHeaderSize ≤ r.size ∧
    ∀ header ds, readFrame murmur3 r = some (header, ds) → ∀ d ∈ ds, d.Inside r.size

/-- The end of `n` attributes from a position on, by the sizes in their headers. -/
def extent : ℕ → ℕ → ℕ
  | 0, pos => pos
  | n + 1, pos => extent n (pos + attributeHeaderSize + (word r 64 (pos + 16)).toNat)

variable {murmur3 r} {r' : Storage} {n pos : ℕ}

theorem le_extent (r : Storage) (n pos : ℕ) : pos ≤ extent r n pos := by
  induction n generalizing pos with
  | zero => exact le_rfl
  | succ n ih => exact (Nat.le_add_right _ _).trans ((Nat.le_add_right _ _).trans (ih _))

theorem word_congr (h : r.AgreeBelow n r') {w : ℕ} (hp : pos + w / 8 ≤ n) :
    word r' w pos = word r w pos := by
  rw [word, word, h.read hp]

theorem header_congr (h : r.AgreeBelow n r') (hn : frameHeaderSize ≤ n) :
    r'.read 0 frameHeaderSize = r.read 0 frameHeaderSize :=
  h.read ((Nat.zero_add _).trans_le hn)

theorem validateHash_congr (h : r.AgreeBelow n r') (hn : frameHeaderSize ≤ n) :
    ValidateHash murmur3 r' ↔ ValidateHash murmur3 r := by
  simp only [frameHeaderSize] at hn
  rw [ValidateHash, ValidateHash, h.read (by omega), word_congr h (by omega)]

theorem extent_le_iff_of_agree {k : ℕ} (h : r.AgreeBelow n r') :
    extent r k pos ≤ n ↔ extent r' k pos ≤ n := by
  induction k generalizing pos with
  | zero => exact Iff.rfl
  | succ k ih =>
    rw [extent, extent]
    by_cases hp : pos + attributeHeaderSize ≤ n
    · have hsize : word r' 64 (pos + 16) = word r 64 (pos + 16) :=
        word_congr h (by simp only [attributeHeaderSize] at hp; omega)
      rw [hsize]
      exact ih
    · have hle := le_extent r k (pos + attributeHeaderSize + (word r 64 (pos + 16)).toNat)
      have hle' := le_extent r' k (pos + attributeHeaderSize + (word r' 64 (pos + 16)).toNat)
      exact iff_of_false (by omega) (by omega)

theorem buffer_toNat {d : AttributeHeaderDescription} (hn : n < 2 ^ 64)
    (h : d.position.toNat + attributeHeaderSize ≤ n) :
    d.buffer.toNat = d.position.toNat + attributeHeaderSize := by
  simp only [AttributeHeaderDescription.buffer, attributeHeaderSize, BitVec.toNat_add,
    BitVec.toNat_ofNat] at h ⊢
  omega

theorem next_toNat {d : AttributeHeaderDescription} (hn : n < 2 ^ 64) (h : d.Inside n) :
    (d.buffer + d.size).toNat = d.position.toNat + attributeHeaderSize + d.size.toNat := by
  have hbuffer := buffer_toNat hn h.1
  have hdata := h.2
  rw [BitVec.toNat_add, hbuffer, Nat.mod_eq_of_lt (by omega)]

theorem inside_descriptions_iff {k : ℕ} {position : BitVec 64} (hr : r.size < 2 ^ 64)
    (hp : position.toNat ≤ r.size) :
    (∀ d ∈ descriptions r k position, d.Inside r.size) ↔
      extent r k position.toNat ≤ r.size := by
  induction k generalizing position with
  | zero => exact iff_of_true (by simp [descriptions]) hp
  | succ k ih =>
    obtain ⟨d, hd⟩ : ∃ d, d = description r position := ⟨_, rfl⟩
    have hposition : d.position = position := by rw [hd]; rfl
    have hsize : word r 64 (position.toNat + 16) = d.size := by rw [hd]; rfl
    have hle := le_extent r k (position.toNat + attributeHeaderSize + d.size.toNat)
    rw [descriptions, List.forall_mem_cons, extent, hsize, ← hd]
    subst hposition
    by_cases hin : d.Inside r.size
    · have hnext := next_toNat hr hin
      have hle' : (d.buffer + d.size).toNat ≤ r.size := by
        rw [hnext, ← buffer_toNat hr hin.1]
        exact hin.2
      rw [← hnext, ← ih hle']
      exact and_iff_right hin
    · refine iff_of_false (fun h => hin h.1) fun h => hin ?_
      have hheader : d.position.toNat + attributeHeaderSize ≤ r.size :=
        (Nat.le_add_right _ _).trans (hle.trans h)
      refine ⟨hheader, ?_⟩
      rw [buffer_toNat hr hheader]
      exact hle.trans h

theorem readFrame_eq_some_iff {header : FrameHeader} {ds : List AttributeHeaderDescription} :
    readFrame murmur3 r = some (header, ds) ↔
      FrameHeader.ofBytes (r.read 0 frameHeaderSize) = some header ∧ ValidateHash murmur3 r ∧
        ds = descriptions r header.attributeCount.toNat (.ofNat 64 frameHeaderSize) := by
  simp only [readFrame, Option.bind_eq_bind, Option.bind_eq_some_iff]
  constructor
  · rintro ⟨header', hh, hif⟩
    split_ifs at hif with hv
    obtain ⟨rfl, rfl⟩ := Prod.mk.inj (Option.some.inj hif)
    exact ⟨hh, hv, rfl⟩
  · rintro ⟨hh, hv, rfl⟩
    exact ⟨header, hh, if_pos hv⟩

/-- A mapped frame is read safely if and only if its header lies in the mapping and, if the
checksum is the right one, the attributes end in it. -/
theorem readsInside_iff (hr : r.size < 2 ^ 64) :
    ReadsInside murmur3 r ↔ frameHeaderSize ≤ r.size ∧ (ValidateHash murmur3 r →
      ∀ header, FrameHeader.ofBytes (r.read 0 frameHeaderSize) = some header →
        extent r header.attributeCount.toNat frameHeaderSize ≤ r.size) := by
  rw [ReadsInside]
  apply and_congr_right
  intro hsize
  have hstart : (BitVec.ofNat 64 frameHeaderSize).toNat = frameHeaderSize := rfl
  constructor
  · intro h hv header hh
    have hin := h _ _ (readFrame_eq_some_iff.mpr ⟨hh, hv, rfl⟩)
    rw [inside_descriptions_iff hr (hstart ▸ hsize), hstart] at hin
    exact hin
  · intro h header ds hds
    obtain ⟨hh, hv, rfl⟩ := readFrame_eq_some_iff.mp hds
    rw [inside_descriptions_iff hr (hstart ▸ hsize), hstart]
    exact h hv header hh

end Mapping

/-! ## Frames of any file -/

section

variable (sys : System) (beyond : ℕ → UInt8) (murmur3 : List UInt8 → BitVec 32) (file : Storage)

def filePart (offset : FileOffset) (size : ℕ) : Storage :=
  ⟨fun i => file.content (offset.toNat + i), size⟩

/-- The memory from the start of a mapping on. What lies behind it is not part of the file. -/
def mapping (offset : FileOffset) (mapped : ℕ) : Storage :=
  ⟨fun i => if i < mapped then file.content (offset.toNat + i) else beyond i, mapped⟩

/-- Map a frame and read it, unless it cannot be mapped. -/
def readFrameAt (offset : FileOffset) (size : BitVec 64) :
    Option (FrameHeader × List AttributeHeaderDescription) :=
  (mapSegment sys file.size offset size).bind fun mapped =>
    Mapping.readFrame murmur3 (mapping beyond file offset mapped)

/-- Reading a frame throws an exception or does not leave its mapping. -/
def FrameReadSafe (offset : FileOffset) (size : BitVec 64) : Prop :=
  ∀ mapped, mapSegment sys file.size offset size = some mapped →
    Mapping.ReadsInside murmur3 (mapping beyond file offset mapped)

/-- The part of the file holds the header of a frame and, if the checksum is the right one, all
attributes that the header counts. -/
structure FrameFits (offset : FileOffset) (size : BitVec 64) : Prop where
  length : size.toNat + (mappingSizeDiff sys offset).toNat < 2 ^ 64
  header : frameHeaderSize ≤ size.toNat
  attributes : Mapping.ValidateHash murmur3 (filePart file offset size.toNat) →
    ∀ header, FrameHeader.ofBytes ((filePart file offset size.toNat).read 0 frameHeaderSize) =
      some header → Mapping.extent (filePart file offset size.toNat)
        header.attributeCount.toNat frameHeaderSize ≤ size.toNat

theorem frameHeaderSize_pos : 0 < frameHeaderSize := by decide

theorem agreeBelow_mapping (offset : FileOffset) (mapped : ℕ) :
    (filePart file offset mapped).AgreeBelow mapped (mapping beyond file offset mapped) :=
  fun _ hi => if_pos hi

variable {sys beyond murmur3 file}

theorem readsInside_mapping_iff {offset : FileOffset} {size : BitVec 64} {mapped : ℕ}
    (h : mapSegment sys file.size offset size = some mapped) :
    Mapping.ReadsInside murmur3 (mapping beyond file offset mapped) ↔
      FrameFits sys murmur3 file offset size := by
  have hlt := size.isLt
  have hmapped := mapped_eq h
  split_ifs at hmapped with hwrap
  · subst hmapped
    have ha := agreeBelow_mapping beyond file offset size.toNat
    have hsize : (mapping beyond file offset size.toNat).size = size.toNat := rfl
    rw [Mapping.readsInside_iff hlt, hsize]
    constructor
    · rintro ⟨hh, hattr⟩
      refine ⟨hwrap, hh, fun hv header hb => ?_⟩
      rw [Mapping.extent_le_iff_of_agree ha]
      exact hattr ((Mapping.validateHash_congr ha hh).mpr hv) header
        ((congrArg _ (Mapping.header_congr ha hh)).trans hb)
    · rintro ⟨-, hh, hattr⟩
      refine ⟨hh, fun hv header hb => ?_⟩
      rw [← Mapping.extent_le_iff_of_agree ha]
      exact hattr ((Mapping.validateHash_congr ha hh).mp hv) header
        ((congrArg _ (Mapping.header_congr ha hh).symm).trans hb)
  · subst hmapped
    refine iff_of_false (fun h => ?_) fun h => hwrap h.length
    exact absurd h.1 (Nat.not_le.mpr frameHeaderSize_pos)

/-- Reading a frame of any file is safe if and only if it cannot be mapped or fits. -/
theorem frameReadSafe_iff {offset : FileOffset} {size : BitVec 64} :
    FrameReadSafe sys beyond murmur3 file offset size ↔
      (mapSegment sys file.size offset size = none ∨
        FrameFits sys murmur3 file offset size) := by
  rw [FrameReadSafe]
  cases hm : mapSegment sys file.size offset size with
  | none => simp
  | some mapped =>
    simp only [Option.some.injEq, forall_eq', reduceCtorEq, false_or]
    exact readsInside_mapping_iff hm

end

end Simutrace.Simtrace3
