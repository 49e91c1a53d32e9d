import Simutrace.Store.Mapping
import Simutrace.Store.Reopen
import Mathlib.Tactic.IntervalCases

/-! # Writing and reading frames

The header of a frame adds up the sizes of its attributes while they are added.
The writer and the reader add them up again, and all three agree: a frame fills
exactly the space that was committed for it, and it is read back as it was
written.
-/

namespace Simutrace.Simtrace3

/-! ## Building a frame -/

/-- The number of attributes that the header of a frame has links to. -/
def attributeTableSize : ℕ := 2

/-- A link to an attribute: its type, a reserved byte and the position of its header in the frame,
which has 48 bits. -/
def attributeHeaderLink (type : BitVec 8) (relativeFileOffset : BitVec 64) : BitVec 64 :=
  type.setWidth 64 ||| relativeFileOffset <<< 16

def relativeFileOffset (link : BitVec 64) : ℕ := (link >>> 16).toNat

namespace FrameHeader

def attributeLink (h : FrameHeader) : ℕ → BitVec 64
  | 0 => h.attribute₀
  | _ => h.attribute₁

def setAttributeLink (h : FrameHeader) (link : BitVec 64) : ℕ → FrameHeader
  | 0 => { h with attribute₀ := link }
  | _ => { h with attribute₁ := link }

theorem attributeLink_setAttributeLink (h : FrameHeader) (link : BitVec 64) {i j : ℕ} (hj : j < 2)
    (hi : i < 2) : (h.setAttributeLink link j).attributeLink i =
      if i = j then link else h.attributeLink i := by
  interval_cases i <;> interval_cases j <;> rfl

end FrameHeader

/-- A frame that is put together. -/
structure FrameBuilder where
  header : FrameHeader
  attributes : List Attribute

namespace FrameBuilder

/-- A frame without attributes. What describes its segment is taken from the given header. -/
def new (header : FrameHeader) : FrameBuilder where
  header := { header with
    totalSize := .ofNat 64 frameHeaderSize, attribute₀ := 0, attribute₁ := 0, attributeCount := 0 }
  attributes := []

variable (f : FrameBuilder)

def addAttribute (a : Attribute) : Option FrameBuilder :=
  let index := f.header.attributeCount.toNat
  if attributeTableSize ≤ index then none
  else
    let link := attributeHeaderLink a.type f.header.totalSize
    some {
      header := { f.header.setAttributeLink link index with
        attributeCount := f.header.attributeCount + 1
        totalSize := f.header.totalSize +
          (.ofNat 64 attributeHeaderSize + .ofNat 64 a.buffer.length) }
      attributes := f.attributes ++ [a] }

def updateHash (murmur3 : List UInt8 → BitVec 32) : FrameBuilder :=
  { f with header := { f.header with checksum := murmur3 f.header.checksumData } }

/-- What is written of a frame, one part after the other. -/
def parts : List (List UInt8) :=
  f.header.toBytes :: f.attributes.flatMap fun a =>
    [a.toBytes.take attributeHeaderSize, a.buffer]

def toBytes : List UInt8 := f.header.toBytes ++ f.attributes.flatMap Attribute.toBytes

end FrameBuilder

/-! ## Writing a frame -/

/-- The number of bytes that the system transfers at most at once. -/
def transferMax : ℕ := 0x7ffff000

structure Writer where
  file : Storage
  writes : List (ℕ × List UInt8)

namespace Writer

variable (w : Writer)

/-- Write a buffer and return the position behind it. Writing only a part of it is a failure. -/
def write (buffer : List UInt8) (offset : ℕ) : Option ℕ × Writer :=
  if buffer = [] then (none, w)
  else
    let moved := buffer.take transferMax
    let w : Writer := ⟨w.file.write offset moved, w.writes ++ [(offset, moved)]⟩
    if moved.length = buffer.length then (some (offset + buffer.length), w) else (none, w)

def writeAll (w : Writer) : List (List UInt8) → ℕ → Option ℕ × Writer
  | [], offset => (some offset, w)
  | buffer :: buffers, offset =>
    match w.write buffer offset with
    | (none, w) => (none, w)
    | (some offset, w) => writeAll w buffers offset

def commitSpace (size : ℕ) : Option ℕ × Writer :=
  match w.file.reserve fileSizeLimit size with
  | none => (none, w)
  | some (offset, file) =>
    match { w with file }.write [0] (offset + size - 1) with
    | (none, w) => (none, w)
    | (some _, w) => (some offset, w)

end Writer

def FrameBuilder.writeFrame (f : FrameBuilder) (w : Writer) : Option ℕ × Writer :=
  match w.commitSpace f.header.totalSize.toNat with
  | (none, w) => (none, w)
  | (some offset, w) =>
    match w.writeAll f.parts offset with
    | (none, w) => (none, w)
    | (some _, w) => (some offset, w)

/-! ## The codec -/

def Attribute.stored (a : Attribute) : BitVec 8 × BitVec 64 × BitVec 64 × List UInt8 :=
  (a.type, .ofNat 64 a.buffer.length, a.uncompressedSize, a.buffer)

def AttributeHeaderDescription.found (r : Storage) (d : AttributeHeaderDescription) :
    BitVec 8 × BitVec 64 × BitVec 64 × List UInt8 :=
  (d.type, d.size, d.uncompressedSize, r.read d.buffer.toNat d.size.toNat)

structure FrameBuilder.WrittenTo (f : FrameBuilder) (file : Storage) (offset : ℕ) (w : Writer) :
    Prop where
  returns : f.writeFrame ⟨file, []⟩ = (some offset, w)
  exact : (w.writes.tail.map fun p => p.2.length).sum = f.header.totalSize.toNat
  inside : ∀ p ∈ w.writes, offset ≤ p.1 ∧ p.1 + p.2.length ≤ offset + f.header.totalSize.toNat
  reserved : offset = file.size ∧ w.file.size = offset + f.header.totalSize.toNat

/-- A frame is read back from its place, unless it cannot be mapped. -/
structure FrameBuilder.ReadFrom (sys : System) (beyond : ℕ → UInt8)
    (murmur3 : List UInt8 → BitVec 32) (f : FrameBuilder) (file : Storage) (offset : ℕ)
    (ds : List AttributeHeaderDescription) : Prop where
  readFrame : readFrameAt sys beyond murmur3 file (.ofNat 64 offset) f.header.totalSize =
    if sys.mmap (f.header.totalSize + mappingSizeDiff sys (.ofNat 64 offset))
      (mappingOffset sys (.ofNat 64 offset)) then some (f.header, ds) else none
  attributes : ds.map (·.found (mapping beyond file (.ofNat 64 offset) f.header.totalSize.toNat)) =
    f.attributes.map Attribute.stored
  links : ∀ i d, ds[i]? = some d → relativeFileOffset (f.header.attributeLink i) = d.position.toNat

def FrameBuilder.Codec (sys : System) (beyond : ℕ → UInt8) (murmur3 : List UInt8 → BitVec 32)
    (f : FrameBuilder) (file : Storage) : Prop :=
  ∃ offset w, f.WrittenTo file offset w ∧ ∃ ds, f.ReadFrom sys beyond murmur3 w.file offset ds

/-! ## The sizes agree -/

structure FrameBuilder.Accounted (f : FrameBuilder) : Prop where
  totalSize : f.header.totalSize.toNat = frameHeaderSize + (f.attributes.map Attribute.size).sum
  count : f.header.attributeCount.toNat = f.attributes.length
  length : f.attributes.length ≤ attributeTableSize
  links : ∀ i < f.attributes.length, relativeFileOffset (f.header.attributeLink i) =
    frameHeaderSize + ((f.attributes.take i).map Attribute.size).sum

variable {f f' : FrameBuilder} {a : Attribute} {as : List Attribute}

theorem relativeFileOffset_attributeHeaderLink (type : BitVec 8) {offset : BitVec 64}
    (h : offset.toNat < 2 ^ 48) :
    relativeFileOffset (attributeHeaderLink type offset) = offset.toNat := by
  have htype : type.toNat >>> 16 = 0 := by
    rw [Nat.shiftRight_eq_div_pow]
    exact Nat.div_eq_of_lt (type.isLt.trans (by decide))
  have hshift : (offset <<< 16).toNat = offset.toNat <<< 16 := by
    rw [BitVec.toNat_shiftLeft, Nat.shiftLeft_eq, Nat.mod_eq_of_lt (by omega)]
  have hsetWidth : (type.setWidth 64).toNat = type.toNat := by
    rw [BitVec.toNat_setWidth, Nat.mod_eq_of_lt (type.isLt.trans (by decide))]
  rw [relativeFileOffset, attributeHeaderLink, BitVec.toNat_ushiftRight, BitVec.toNat_or, hshift,
    hsetWidth, Nat.shiftRight_or_distrib, htype, Nat.zero_or, Nat.shiftLeft_shiftRight]

namespace FrameBuilder

theorem accounted_new (header : FrameHeader) : (new header).Accounted where
  totalSize := rfl
  count := rfl
  length := Nat.zero_le _
  links := by simp [new]

theorem addAttribute_eq_some_iff : f.addAttribute a = some f' ↔
    f.header.attributeCount.toNat < attributeTableSize ∧ f' = {
      header := { f.header.setAttributeLink (attributeHeaderLink a.type f.header.totalSize)
          f.header.attributeCount.toNat with
        attributeCount := f.header.attributeCount + 1
        totalSize := f.header.totalSize +
          (.ofNat 64 attributeHeaderSize + .ofNat 64 a.buffer.length) }
      attributes := f.attributes ++ [a] } := by
  simp only [addAttribute]
  split
  · exact iff_of_false (by simp) fun h => by omega
  · rw [Option.some.injEq, eq_comm]
    exact (and_iff_right (by omega)).symm

theorem Accounted.addAttribute (h : f.Accounted) (ha : f.addAttribute a = some f')
    (hlt : f.header.totalSize.toNat + a.size < 2 ^ 48) : f'.Accounted := by
  obtain ⟨hcount, rfl⟩ := addAttribute_eq_some_iff.mp ha
  rw [h.count] at hcount
  rw [Attribute.size] at hlt
  constructor
  · have htotal := h.totalSize
    simp only [List.map_append, List.sum_append, List.map_cons, List.map_nil, List.sum_cons,
      List.sum_nil, Attribute.size, BitVec.toNat_add, BitVec.toNat_ofNat]
    omega
  · simp only [BitVec.toNat_add, h.count, List.length_append, List.length_singleton]
    have hone : (1 : BitVec 8).toNat = 1 := rfl
    simp only [attributeTableSize] at hcount
    omega
  · rw [List.length_append, List.length_singleton]
    exact hcount
  · intro i hi
    rw [List.length_append, List.length_singleton] at hi
    have hlink : relativeFileOffset (attributeHeaderLink a.type f.header.totalSize) =
        frameHeaderSize + (f.attributes.map Attribute.size).sum := by
      rw [relativeFileOffset_attributeHeaderLink _ (by omega), h.totalSize]
    simp only [attributeTableSize] at hcount
    have hset := f.header.attributeLink_setAttributeLink
      (attributeHeaderLink a.type f.header.totalSize) hcount (by omega : i < 2)
    rw [h.count]
    change relativeFileOffset
      ((f.header.setAttributeLink _ f.attributes.length).attributeLink i) = _
    rw [hset]
    rcases Nat.lt_succ_iff_lt_or_eq.mp hi with hi | rfl
    · rw [if_neg hi.ne, h.links i hi, List.take_append_of_le_length hi.le]
    · rw [if_pos rfl, List.take_left, hlink]

theorem Accounted.totalSize_le (h : f.Accounted)
    (hsize : ∀ a ∈ f.attributes, a.buffer.length ≤ transferMax) :
    f.header.totalSize.toNat ≤ frameHeaderSize +
      attributeTableSize * (attributeHeaderSize + transferMax) := by
  have hsum : (f.attributes.map Attribute.size).sum ≤
      f.attributes.length * (attributeHeaderSize + transferMax) := by
    have hle := List.sum_le_card_nsmul (f.attributes.map Attribute.size)
      (attributeHeaderSize + transferMax) fun n hn => by
        obtain ⟨a, ha, rfl⟩ := List.mem_map.mp hn
        exact Nat.add_le_add_left (hsize a ha) _
    rwa [List.length_map, nsmul_eq_mul, Nat.cast_id] at hle
  rw [h.totalSize]
  exact Nat.add_le_add_left (hsum.trans (Nat.mul_le_mul_right _ h.length)) _

theorem attributes_addAttributes (has : as.foldlM addAttribute f = some f') :
    f'.attributes = f.attributes ++ as := by
  induction as generalizing f with
  | nil =>
    obtain rfl := Option.some.inj has
    exact (List.append_nil _).symm
  | cons a as ih =>
    obtain ⟨f₁, hadd, has⟩ := Option.bind_eq_some_iff.mp (List.foldlM_cons.symm.trans has)
    rw [ih has, (addAttribute_eq_some_iff.mp hadd).2, List.append_assoc, List.singleton_append]

/-- The header accounts for whatever attributes are added, as long as each can be written. -/
theorem Accounted.addAttributes (h : f.Accounted)
    (hf : ∀ a ∈ f.attributes, a.buffer.length ≤ transferMax)
    (has : as.foldlM FrameBuilder.addAttribute f = some f')
    (hsize : ∀ a ∈ as, a.buffer.length ≤ transferMax) : f'.Accounted := by
  induction as generalizing f with
  | nil =>
    obtain rfl := Option.some.inj has
    exact h
  | cons a as ih =>
    obtain ⟨f₁, hadd, has⟩ := Option.bind_eq_some_iff.mp (List.foldlM_cons.symm.trans has)
    have ha := hsize a List.mem_cons_self
    have hlt : f.header.totalSize.toNat + a.size < 2 ^ 48 := by
      have htotal := h.totalSize_le hf
      simp only [frameHeaderSize, attributeTableSize, attributeHeaderSize, transferMax] at htotal ha
      simp only [Attribute.size, attributeHeaderSize]
      omega
    have hf₁ : ∀ b ∈ f₁.attributes, b.buffer.length ≤ transferMax := by
      intro b hb
      rw [(addAttribute_eq_some_iff.mp hadd).2, List.mem_append, List.mem_singleton] at hb
      rcases hb with hb | rfl
      · exact hf b hb
      · exact ha
    exact ih (h.addAttribute hadd hlt) hf₁ has fun b hb => hsize b (List.mem_cons_of_mem _ hb)

theorem Accounted.updateHash (h : f.Accounted) (murmur3 : List UInt8 → BitVec 32) :
    (f.updateHash murmur3).Accounted where
  totalSize := h.totalSize
  count := h.count
  length := h.length
  links := h.links

theorem Accounted.length_toBytes (h : f.Accounted) :
    f.toBytes.length = f.header.totalSize.toNat := by
  rw [toBytes, List.length_append, FrameHeader.length_toBytes, List.length_flatMap, h.totalSize]
  simp only [Attribute.length_toBytes]

end FrameBuilder

/-! ## What is written -/

theorem Attribute.header_append_buffer (a : Attribute) :
    a.toBytes.take attributeHeaderSize ++ a.buffer = a.toBytes := by
  have hdrop : a.toBytes.drop attributeHeaderSize = a.buffer :=
    List.drop_left' (LittleEndian.length_pack rfl)
  rw [← hdrop, List.take_append_drop]

namespace Writer

variable {w : Writer} {buffer : List UInt8} {buffers : List (List UInt8)} {offset size : ℕ}

/-- The buffers with the positions they have one behind the other. -/
def placed : ℕ → List (List UInt8) → List (ℕ × List UInt8)
  | _, [] => []
  | offset, buffer :: buffers => (offset, buffer) :: placed (offset + buffer.length) buffers

theorem sum_placed (offset : ℕ) (buffers : List (List UInt8)) :
    ((placed offset buffers).map fun p => p.2.length).sum = buffers.flatten.length := by
  induction buffers generalizing offset with
  | nil => rfl
  | cons buffer buffers ih => simp [placed, ih]

theorem inside_placed {p : ℕ × List UInt8} (h : p ∈ placed offset buffers) :
    offset ≤ p.1 ∧ p.1 + p.2.length ≤ offset + buffers.flatten.length := by
  induction buffers generalizing offset with
  | nil => cases h
  | cons buffer buffers ih =>
    rw [List.flatten_cons, List.length_append]
    rcases List.mem_cons.mp h with rfl | h
    · exact ⟨le_rfl, Nat.add_le_add_left (Nat.le_add_right _ _) _⟩
    · have := ih h
      omega

theorem write_of_le (hne : buffer ≠ []) (h : buffer.length ≤ transferMax) :
    w.write buffer offset = (some (offset + buffer.length),
      ⟨w.file.write offset buffer, w.writes ++ [(offset, buffer)]⟩) := by
  simp only [write, if_neg hne, List.take_of_length_le h, if_pos]

theorem write_of_lt (h : transferMax < buffer.length) : (w.write buffer offset).1 = none := by
  have hmin : ¬ (buffer.take transferMax).length = buffer.length := by
    rw [List.length_take]
    omega
  by_cases hne : buffer = []
  · rw [write, if_pos hne]
  · rw [write, if_neg hne]
    exact congrArg Prod.fst (if_neg hmin)

theorem writeAll_of_le (h : ∀ b ∈ buffers, b ≠ [] ∧ b.length ≤ transferMax) :
    w.writeAll buffers offset = (some (offset + buffers.flatten.length),
      ⟨w.file.write offset buffers.flatten, w.writes ++ placed offset buffers⟩) := by
  induction buffers generalizing w offset with
  | nil => simp [writeAll, placed, Storage.write_nil]
  | cons buffer buffers ih =>
    obtain ⟨hne, hle⟩ := h buffer List.mem_cons_self
    rw [writeAll, write_of_le hne hle]
    dsimp only
    rw [ih fun b hb => h b (List.mem_cons_of_mem _ hb)]
    simp only [List.flatten_cons, List.length_append, Storage.write_append, placed,
      List.append_assoc, List.singleton_append, Nat.add_assoc]

theorem writeAll_of_lt (h : ∃ b ∈ buffers, transferMax < b.length) :
    (w.writeAll buffers offset).1 = none := by
  induction buffers generalizing w offset with
  | nil => simp at h
  | cons buffer buffers ih =>
    rw [writeAll]
    rcases hw : w.write buffer offset with ⟨_ | offset', w'⟩
    · rfl
    · obtain ⟨b, hb, hlt⟩ := h
      rcases List.mem_cons.mp hb with rfl | hb
      · have hnone : (w.write b offset).1 = none := write_of_lt hlt
        rw [hw] at hnone
        cases hnone
      · exact ih ⟨b, hb, hlt⟩

theorem commitSpace_eq (h : w.file.size + size ≤ fileSizeLimit) :
    w.commitSpace size = (some w.file.size,
      ⟨{ w.file with size := w.file.size + size }.write (w.file.size + size - 1) [0],
        w.writes ++ [(w.file.size + size - 1, [0])]⟩) := by
  have hreserve : w.file.reserve fileSizeLimit size =
      some (w.file.size, { w.file with size := w.file.size + size }) :=
    Storage.reserve_eq_some_iff.mpr ⟨h, rfl, rfl⟩
  have hone : [(0 : UInt8)].length ≤ transferMax := by decide
  simp only [commitSpace, hreserve, write_of_le (List.cons_ne_nil _ _) hone]

end Writer

namespace FrameBuilder

theorem flatten_parts (f : FrameBuilder) : f.parts.flatten = f.toBytes := by
  rw [parts, List.flatten_cons, toBytes]
  congr 1
  induction f.attributes with
  | nil => rfl
  | cons a as ih =>
    simp only [List.flatMap_cons, List.flatten_append, ih, List.flatten_cons, List.flatten_nil,
      List.append_nil, a.header_append_buffer]

theorem parts_le (hsize : ∀ a ∈ f.attributes, a.buffer.length ≤ transferMax) :
    ∀ b ∈ f.parts, b ≠ [] ∧ b.length ≤ transferMax := by
  intro b hb
  have hheader (n : ℕ) (hn : n ≤ frameHeaderSize) (hpos : 0 < n) (bytes : List UInt8)
      (hlen : bytes.length = n) : bytes ≠ [] ∧ bytes.length ≤ transferMax := by
    constructor
    · exact List.ne_nil_of_length_pos (hlen ▸ hpos)
    · exact hlen ▸ hn.trans (by decide)
  rcases List.mem_cons.mp hb with rfl | hb
  · exact hheader _ le_rfl (by decide) _ (FrameHeader.length_toBytes _)
  · obtain ⟨a, ha, hb⟩ := List.mem_flatMap.mp hb
    rcases List.mem_pair.mp hb with rfl | rfl
    · refine hheader attributeHeaderSize (by decide) (by decide) _ ?_
      rw [List.length_take, Attribute.length_toBytes, Attribute.size]
      omega
    · exact ⟨a.buffer_ne, hsize a ha⟩

def writtenFile (f : FrameBuilder) (file : Storage) : Storage :=
  ({ file with size := file.size + f.header.totalSize.toNat }.write
    (file.size + f.header.totalSize.toNat - 1) [0]).write file.size f.toBytes

theorem writeFrame_eq {file : Storage}
    (hsize : ∀ a ∈ f.attributes, a.buffer.length ≤ transferMax)
    (hspace : file.size + f.header.totalSize.toNat ≤ fileSizeLimit) :
    f.writeFrame ⟨file, []⟩ = (some file.size, ⟨f.writtenFile file,
      (file.size + f.header.totalSize.toNat - 1, [0]) :: Writer.placed file.size f.parts⟩) := by
  have hcommit := Writer.commitSpace_eq (w := ⟨file, []⟩) hspace
  simp only [writeFrame, hcommit, Writer.writeAll_of_le (parts_le hsize), flatten_parts,
    writtenFile, List.nil_append, List.singleton_append]

theorem Accounted.writtenTo (h : f.Accounted) {file : Storage}
    (hsize : ∀ a ∈ f.attributes, a.buffer.length ≤ transferMax)
    (hspace : file.size + f.header.totalSize.toNat ≤ fileSizeLimit) :
    ∃ w, f.WrittenTo file file.size w ∧ w.file = f.writtenFile file := by
  refine ⟨_, ⟨writeFrame_eq hsize hspace, ?_, ?_, rfl, rfl⟩, rfl⟩
  · rw [List.tail_cons, Writer.sum_placed, flatten_parts, h.length_toBytes]
  · intro p hp
    have hpos : 0 < f.header.totalSize.toNat := by
      rw [h.totalSize, frameHeaderSize]
      omega
    rcases List.mem_cons.mp hp with rfl | hp
    · simp only [List.length_singleton]
      omega
    · rw [← h.length_toBytes, ← flatten_parts]
      exact Writer.inside_placed hp

theorem writeFrame_of_lt {w : Writer} (h : ∃ a ∈ f.attributes, transferMax < a.buffer.length) :
    (f.writeFrame w).1 = none := by
  have hparts : ∃ b ∈ f.parts, transferMax < b.length := by
    obtain ⟨a, ha, hlt⟩ := h
    refine ⟨a.buffer, List.mem_cons_of_mem _ (List.mem_flatMap.mpr ⟨a, ha, ?_⟩), hlt⟩
    exact List.mem_cons_of_mem _ List.mem_cons_self
  rw [writeFrame]
  rcases w.commitSpace f.header.totalSize.toNat with ⟨_ | offset, w'⟩
  · rfl
  · have hnone : (w'.writeAll f.parts offset).1 = none := Writer.writeAll_of_lt hparts
    dsimp only
    rcases hw : w'.writeAll f.parts offset with ⟨_ | end', w''⟩
    · rfl
    · rw [hw] at hnone
      cases hnone

end FrameBuilder

/-! ## What is read -/

theorem Storage.read_part (r : Storage) {pos n k m : ℕ} (h : k + m ≤ n) :
    r.read (pos + k) m = ((r.read pos n).drop k).take m := by
  obtain ⟨j, rfl⟩ := Nat.exists_eq_add_of_le h
  rw [Nat.add_assoc, Storage.read_add, Storage.read_add,
    List.drop_left' (Storage.length_read _ _ _), List.take_left' (Storage.length_read _ _ _)]

namespace Mapping

variable {r : Storage} {pos : ℕ}

theorem word_eq {w n k : ℕ} {bytes : List UInt8} (hr : r.read pos n = bytes) (h : k + w / 8 ≤ n) :
    word r w (pos + k) = LittleEndian.toWord w ((bytes.drop k).take (w / 8)) := by
  rw [word, Storage.read_part r h, hr]

theorem description_eq (hr : r.read pos a.size = a.toBytes) (hlt : pos + a.size < 2 ^ 64) :
    description r (.ofNat 64 pos) = ⟨.ofNat 64 pos, a.type, .ofNat 64 a.buffer.length,
      a.uncompressedSize⟩ := by
  have hpos : (BitVec.ofNat 64 pos).toNat = pos := Nat.mod_eq_of_lt (by omega)
  have hle : attributeHeaderSize ≤ a.size := Nat.le_add_right _ _
  simp only [attributeHeaderSize] at hle
  have htype := word_eq (w := 8) (k := 4) hr (by omega)
  have hsize := word_eq (w := 64) (k := 16) hr (by omega)
  have huncompressed := word_eq (w := 64) (k := 24) hr (by omega)
  have hfields := a.unpack_toBytes [] (by rw [Attribute.size] at hlt; omega)
  simp only [List.append_nil, LittleEndian.unpack, List.drop_drop, List.cons.injEq] at hfields
  obtain ⟨-, ht, -, -, hs, hu, -⟩ := hfields
  rw [description, hpos, htype, hsize, huncompressed]
  simp only [LittleEndian.toWord, Nat.reduceDiv, ht, hs, hu, BitVec.ofNat_toNat,
    BitVec.setWidth_eq]

theorem found_description (hr : r.read pos a.size = a.toBytes) (hlt : pos + a.size < 2 ^ 64) :
    (description r (.ofNat 64 pos)).found r = a.stored := by
  have hlt' : pos + attributeHeaderSize + a.buffer.length < 2 ^ 64 := by
    rwa [Attribute.size, ← Nat.add_assoc] at hlt
  have hbuffer : (BitVec.ofNat 64 pos + BitVec.ofNat 64 attributeHeaderSize).toNat =
      pos + attributeHeaderSize := by
    rw [← BitVec.ofNat_add, BitVec.toNat_ofNat, Nat.mod_eq_of_lt (by omega)]
  have hsize : (BitVec.ofNat 64 a.buffer.length).toNat = a.buffer.length :=
    Nat.mod_eq_of_lt (by omega)
  have hdata : r.read (pos + attributeHeaderSize) a.buffer.length = a.buffer := by
    rw [Storage.read_part r (le_refl a.size), hr,
      show a.toBytes.drop attributeHeaderSize = a.buffer from
        List.drop_left' (LittleEndian.length_pack rfl), List.take_length]
  rw [description_eq hr hlt, AttributeHeaderDescription.found, AttributeHeaderDescription.buffer,
    hbuffer, hsize, hdata]
  rfl

theorem next_description (hr : r.read pos a.size = a.toBytes) (hlt : pos + a.size < 2 ^ 64) :
    (description r (.ofNat 64 pos)).buffer + (description r (.ofNat 64 pos)).size =
      .ofNat 64 (pos + a.size) := by
  rw [description_eq hr hlt, AttributeHeaderDescription.buffer, ← BitVec.ofNat_add,
    ← BitVec.ofNat_add, Attribute.size, Nat.add_assoc]

theorem descriptions_stored (hr : r.read pos (as.map Attribute.size).sum =
    as.flatMap Attribute.toBytes) (hlt : pos + (as.map Attribute.size).sum < 2 ^ 64) :
    (descriptions r as.length (.ofNat 64 pos)).map (·.found r) = as.map Attribute.stored ∧
      ∀ i d, (descriptions r as.length (.ofNat 64 pos))[i]? = some d →
        d.position.toNat = pos + ((as.take i).map Attribute.size).sum := by
  induction as generalizing pos with
  | nil => exact ⟨rfl, fun i d hd => by cases hd⟩
  | cons a as ih =>
    rw [List.map_cons, List.sum_cons] at hr hlt
    rw [Storage.read_add, List.flatMap_cons] at hr
    obtain ⟨hread, hrest⟩ := List.append_inj hr (by simp)
    have hlt' : pos + a.size < 2 ^ 64 := by omega
    obtain ⟨hfound, hposition⟩ := ih hrest (by omega)
    rw [List.length_cons, descriptions, next_description hread hlt']
    constructor
    · rw [List.map_cons, List.map_cons, hfound, found_description hread hlt']
    · intro i d hd
      cases i with
      | zero =>
        obtain rfl := Option.some.inj hd
        rw [description_eq hread hlt']
        exact Nat.mod_eq_of_lt (by omega)
      | succ i =>
        rw [hposition i d hd, List.take_succ_cons, List.map_cons, List.sum_cons, Nat.add_assoc]

/-- The checksum of a header that was written is found behind the data it was computed of. -/
theorem validateHash_iff {murmur3 : List UInt8 → BitVec 32} {header : FrameHeader}
    (hr : r.read 0 frameHeaderSize = header.toBytes) :
    ValidateHash murmur3 r ↔ header.validateHash murmur3 := by
  have hdata : r.read 0 116 = header.checksumData := by
    rw [FrameHeader.checksumData, ← hr]
    have hle : 0 + 116 ≤ frameHeaderSize := by decide
    have hpart : r.read (0 + 0) 116 = _ := Storage.read_part r hle
    rwa [List.drop_zero] at hpart
  have hlen : FrameHeader.fieldSizes.dropLast.length = header.fields.dropLast.length := rfl
  have hpack : header.toBytes = LittleEndian.pack FrameHeader.fieldSizes.dropLast
      header.fields.dropLast ++ LittleEndian.bytes 4 header.checksum.toNat := by
    rw [FrameHeader.toBytes]
    exact (LittleEndian.pack_append hlen [4] [header.checksum.toNat]).trans
      (congrArg _ (List.append_nil _))
  have hchecksum : word r 32 116 = header.checksum := by
    have hword : word r 32 (0 + 116) = _ := word_eq hr (by decide)
    rw [Nat.zero_add] at hword
    have hdrop : header.toBytes.drop 116 = LittleEndian.bytes 4 header.checksum.toNat := by
      rw [hpack]
      exact List.drop_left' (LittleEndian.length_pack hlen)
    rw [hword, hdrop, List.take_of_length_le (by simp)]
    exact LittleEndian.toWord_ofWord (by decide) header.checksum
  rw [ValidateHash, hdata, hchecksum]
  rfl

end Mapping

theorem mappingSizeDiff_le (sys : System) (start : BitVec 64) :
    (mappingSizeDiff sys start).toNat ≤ start.toNat := by
  have hle : (mappingOffset sys start).toNat ≤ start.toNat := by
    rw [mappingOffset, BitVec.toNat_and]
    exact Nat.and_le_left
  rw [mappingSizeDiff, BitVec.toNat_sub_of_le hle]
  exact Nat.sub_le _ _

theorem mapSegment_eq {sys : System} {fileSize : ℕ} {start size : BitVec 64}
    (h : start.toNat + size.toNat ≤ fileSize) (hlt : start.toNat + size.toNat < 2 ^ 64) :
    mapSegment sys fileSize start size =
      if sys.mmap (size + mappingSizeDiff sys start) (mappingOffset sys start) then some size.toNat
      else none := by
  have hdiff := mappingSizeDiff_le sys start
  have hsum : ¬ fileSize < (start + size).toNat := by
    rw [BitVec.toNat_add, Nat.mod_eq_of_lt hlt]
    omega
  have hmapped : (size + mappingSizeDiff sys start).toNat - (mappingSizeDiff sys start).toNat =
      size.toNat := by
    rw [BitVec.toNat_add, Nat.mod_eq_of_lt (by omega), Nat.add_sub_cancel]
  simp only [mapSegment, if_neg hsum, hmapped]

namespace FrameBuilder

variable {sys : System} {beyond : ℕ → UInt8} {murmur3 : List UInt8 → BitVec 32} {file : Storage}
  {offset : ℕ}

theorem Accounted.readFrom (h : f.Accounted) (hash : f.header.validateHash murmur3)
    (hread : file.read offset f.header.totalSize.toNat = f.toBytes)
    (hfile : offset + f.header.totalSize.toNat ≤ file.size)
    (hlt : offset + f.header.totalSize.toNat < 2 ^ 64) :
    ∃ ds, f.ReadFrom sys beyond murmur3 file offset ds := by
  obtain ⟨r, hr⟩ : ∃ r, r = mapping beyond file (.ofNat 64 offset) f.header.totalSize.toNat :=
    ⟨_, rfl⟩
  have hoffset : (BitVec.ofNat 64 offset).toNat = offset := Nat.mod_eq_of_lt (by omega)
  have hbytes : r.read 0 (frameHeaderSize + (f.attributes.map Attribute.size).sum) =
      f.header.toBytes ++ f.attributes.flatMap Attribute.toBytes := by
    rw [← h.totalSize, ← toBytes, ← hread, hr]
    refine List.map_congr_left fun i hi => ?_
    have hi' := List.mem_range.mp hi
    simp only [mapping, Nat.zero_add, if_pos hi', hoffset]
  rw [Storage.read_add, Nat.zero_add] at hbytes
  obtain ⟨hheader, hattributes⟩ := List.append_inj hbytes (by simp)
  have htotal := h.totalSize
  obtain ⟨hfound, hposition⟩ := Mapping.descriptions_stored hattributes (by omega)
  have hvalue : Mapping.readFrame murmur3 r = some (f.header,
      Mapping.descriptions r f.attributes.length (.ofNat 64 frameHeaderSize)) := by
    have hparse := f.header.ofBytes_toBytes []
    rw [List.append_nil] at hparse
    simp only [Mapping.readFrame, hheader, hparse, Option.bind_eq_bind, Option.bind_some,
      if_pos ((Mapping.validateHash_iff hheader).mpr hash), h.count]
  refine ⟨Mapping.descriptions r f.attributes.length (.ofNat 64 frameHeaderSize), ?_, ?_, ?_⟩
  · rw [readFrameAt, mapSegment_eq (hoffset.symm ▸ hfile) (hoffset.symm ▸ hlt)]
    split_ifs
    · rw [Option.bind_some, ← hr, hvalue]
    · rfl
  · rw [← hr, hfound]
  · intro i d hd
    have hi : i < f.attributes.length := by
      have hlen := congrArg List.length hfound
      rw [List.length_map, List.length_map] at hlen
      exact hlen ▸ (List.getElem?_eq_some_iff.mp hd).1
    rw [h.links i hi, hposition i d hd]

theorem validateHash_updateHash (f : FrameBuilder) (murmur3 : List UInt8 → BitVec 32) :
    (f.updateHash murmur3).header.validateHash murmur3 := by
  rw [FrameHeader.validateHash, FrameHeader.checksumData_eq]
  exact congrArg murmur3 (FrameHeader.checksumData_eq f.header).symm

theorem Accounted.codec (h : f.Accounted) (hash : f.header.validateHash murmur3)
    (hsize : ∀ a ∈ f.attributes, a.buffer.length ≤ transferMax)
    (hspace : file.size + f.header.totalSize.toNat ≤ fileSizeLimit) :
    f.Codec sys beyond murmur3 file := by
  obtain ⟨w, hwritten, hfile⟩ := h.writtenTo hsize hspace
  refine ⟨file.size, w, hwritten, h.readFrom hash ?_ ?_ ?_⟩
  · rw [hfile, writtenFile, ← h.length_toBytes]
    exact Storage.read_write_same _ _ _
  · rw [hwritten.reserved.2]
  · exact Nat.lt_of_le_of_lt hspace (by decide)

theorem Codec.length_le (h : f.Codec sys beyond murmur3 file) (ha : a ∈ f.attributes) :
    a.buffer.length ≤ transferMax := by
  obtain ⟨offset, w, hwritten, -⟩ := h
  by_contra hlt
  have hnone := writeFrame_of_lt (w := ⟨file, []⟩) ⟨a, ha, Nat.lt_of_not_le hlt⟩
  rw [hwritten.returns] at hnone
  cases hnone

/-- The attributes that `addAttribute` admits are written to the space that is committed for their
frame and read back as they were if and only if each of them can be transferred at once. -/
theorem codec_iff {header : FrameHeader} (has : as.foldlM addAttribute (new header) = some f)
    (hspace : file.size + f.header.totalSize.toNat ≤ fileSizeLimit) :
    (f.updateHash murmur3).Codec sys beyond murmur3 file ↔
      ∀ a ∈ as, a.buffer.length ≤ transferMax := by
  have hattributes : (f.updateHash murmur3).attributes = as := attributes_addAttributes has
  constructor
  · intro h a ha
    exact h.length_le (hattributes ▸ ha)
  · intro hsize
    have hacc := (accounted_new header).addAttributes (by simp [new]) has hsize
    exact (hacc.updateHash murmur3).codec (f.validateHash_updateHash murmur3)
      (hattributes ▸ hsize) hspace

/-- The header of a zero frame without attributes. -/
def zeroHeader : FrameHeader :=
  ⟨-1, 0, 0, 0, 0, -1, -1, -1, -1, -1, .ofNat 64 frameHeaderSize, 0, 0, 0, 0⟩

/-- An attribute with eight bytes of data. -/
def smallAttribute : Attribute := ⟨satStreamDescription, 8, [1, 2, 3, 4, 5, 6, 7, 8], by simp⟩

theorem codec_iff_small : ∃ f, [smallAttribute].foldlM addAttribute (new zeroHeader) = some f ∧
    ((f.updateHash (MurmurHash3.hash32 0)).Codec ⟨4096, fun _ _ => true⟩ (fun _ => 0)
      (MurmurHash3.hash32 0) Storage.empty ↔
        ∀ a ∈ [smallAttribute], a.buffer.length ≤ transferMax) := by
  have hadd : [smallAttribute].foldlM addAttribute (new zeroHeader) = some _ := rfl
  exact ⟨_, hadd, codec_iff hadd (by decide)⟩

def largeAttribute : Attribute where
  type := satStreamDescription
  uncompressedSize := 8
  buffer := List.replicate (transferMax + 1) 0
  buffer_ne := List.replicate_succ_ne_nil

theorem length_largeAttribute : transferMax < largeAttribute.buffer.length :=
  Nat.lt_of_lt_of_eq (Nat.lt_succ_self _) List.length_replicate.symm

theorem exists_addAttribute (header : FrameHeader) (a : Attribute) : ∃ f,
    [a].foldlM addAttribute (new header) = some f ∧ f.attributes = [a] := by
  obtain ⟨f, hf⟩ : ∃ f, (new header).addAttribute a = some f :=
    ⟨_, addAttribute_eq_some_iff.mpr ⟨Nat.zero_lt_two, rfl⟩⟩
  have hadd : [a].foldlM addAttribute (new header) = some f := by
    rw [List.foldlM_cons, hf]
    rfl
  exact ⟨f, hadd, attributes_addAttributes hadd⟩

theorem exists_not_codec_large : ∃ f, [largeAttribute].foldlM addAttribute (new zeroHeader) =
    some f ∧ ¬ (f.updateHash (MurmurHash3.hash32 0)).Codec ⟨4096, fun _ _ => true⟩ (fun _ => 0)
      (MurmurHash3.hash32 0) Storage.empty := by
  obtain ⟨f, hadd, hattributes⟩ := exists_addAttribute zeroHeader largeAttribute
  refine ⟨f, hadd, fun h => ?_⟩
  have hmem : largeAttribute ∈ (f.updateHash (MurmurHash3.hash32 0)).attributes := by
    rw [updateHash, hattributes]
    exact List.mem_singleton_self _
  exact Nat.not_lt.mpr (h.length_le hmem) length_largeAttribute

end FrameBuilder

end Simutrace.Simtrace3
