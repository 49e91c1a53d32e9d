import Mathlib.Algebra.Group.Nat.Defs
import Mathlib.Tactic.Ring
import Simutrace.Library.LittleEndian
import Simutrace.Library.Storage

/-! # Variable-sized data

An entry of variable size is stored in blocks of a fixed size. Each block begins
with a header that has the number of bytes in the block, and whether the entry
continues in the next block.
-/

namespace Simutrace

def vDataBlockHeaderSize : ℕ := 2

def variableEntryMaxSize : ℕ := 2 ^ 14 - 1 + vDataBlockHeaderSize

structure SizeHint where
  val : ℕ
  lower : vDataBlockHeaderSize < val
  upper : val ≤ variableEntryMaxSize

structure VDataBlockHeader where
  continuation : Bool
  size : ℕ
  deriving DecidableEq, Repr

namespace VDataBlockHeader

/-- The bit fields of the header: a reserved bit, the continuation and 14 bits for the size. -/
def word (header : VDataBlockHeader) : ℕ :=
  (if header.continuation then 2 else 0) + header.size % 2 ^ 14 * 4

def read (src : Storage) (pos : ℕ) : VDataBlockHeader :=
  let word := LittleEndian.value (src.read pos vDataBlockHeaderSize)
  ⟨word / 2 % 2 = 1, word / 4⟩

def write (header : VDataBlockHeader) (dest : Storage) (pos : ℕ) : Storage :=
  dest.write pos (LittleEndian.bytes vDataBlockHeaderSize header.word)

end VDataBlockHeader

/-- The number of bytes of an entry in one block. -/
def SizeHint.blockDataSize (hint : SizeHint) : ℕ := hint.val - vDataBlockHeaderSize

theorem SizeHint.blockDataSize_pos (hint : SizeHint) : 0 < hint.blockDataSize :=
  Nat.sub_pos_of_lt hint.lower

theorem SizeHint.val_eq (hint : SizeHint) :
    hint.val = vDataBlockHeaderSize + hint.blockDataSize := by
  have := hint.lower
  unfold blockDataSize
  omega

theorem SizeHint.val_pos (hint : SizeHint) : 0 < hint.val := by
  have := hint.lower
  unfold vDataBlockHeaderSize at this
  omega

theorem SizeHint.blockDataSize_lt (hint : SizeHint) : hint.blockDataSize < 2 ^ 14 := by
  have := hint.upper
  unfold variableEntryMaxSize at this
  unfold blockDataSize
  omega

structure WriteState where
  dest : Storage
  blockCount : ℕ
  data : List UInt8

/-- The loop of `writeVariableData`, which counts the blocks with 32 bits. -/
def writeBlocks (hint : SizeHint) (dest : Storage) (pos destSize : ℕ) (data : List UInt8)
    (blockCount : ℕ) : WriteState :=
  let chunkSize := if hint.blockDataSize ≤ data.length then hint.blockDataSize else data.length
  let rest := data.drop chunkSize
  let dest := VDataBlockHeader.write ⟨decide (rest ≠ []), chunkSize⟩ dest pos
  let dest := dest.write (pos + vDataBlockHeaderSize) (data.take chunkSize)
  let next := pos + vDataBlockHeaderSize + chunkSize
  if rest = [] then
    ⟨dest.write next (List.replicate (hint.blockDataSize - chunkSize) 0),
      (blockCount + 1) % 2 ^ 32, rest⟩
  else if hint.val ≤ destSize - hint.val then
    writeBlocks hint dest next (destSize - hint.val) rest ((blockCount + 1) % 2 ^ 32)
  else ⟨dest, (blockCount + 1) % 2 ^ 32, rest⟩
termination_by data.length
decreasing_by
  rename_i hrest _
  have hpos := hint.blockDataSize_pos
  have hdata : data ≠ [] := fun hnil => hrest (by simp [rest, hnil])
  have hlength := List.length_pos_iff.mpr hdata
  rw [List.length_drop]
  split_ifs <;> omega

/-- What `writeVariableData` leaves in the destination and in `outBlockCount`, and the number of
bytes it returns. -/
structure WriteResult where
  dest : Storage
  blockCount : ℕ
  written : ℕ

def writeVariableData (hint : SizeHint) (dest : Storage) (pos destSize : ℕ) (data : List UInt8)
    (blockCount : ℕ) : WriteResult :=
  if destSize < hint.val then ⟨dest, blockCount, 0⟩
  else
    let written := writeBlocks hint dest pos destSize data 0
    ⟨written.dest, written.blockCount, data.length - written.data.length⟩

/-- The destination, the size of the data and whether its last block has been read. -/
structure ReadResult where
  dest : Storage
  dataSize : ℕ
  finished : Bool

/-- The loop of `readVariableData`. No data is copied if the pointer is null. -/
def readBlocks (src : Storage) (pos srcSize : ℕ) (dest : Storage) (data size : ℕ) :
    Option ReadResult :=
  let header := VDataBlockHeader.read src pos
  let copied := if data = 0 then dest else
    dest.write data (src.read (pos + vDataBlockHeaderSize) header.size)
  let next := if data = 0 then data else data + header.size
  if header.continuation = false then some ⟨copied, size + header.size, true⟩
  else if srcSize < vDataBlockHeaderSize + header.size then none
  else if vDataBlockHeaderSize < srcSize - (vDataBlockHeaderSize + header.size) then
    readBlocks src (pos + (vDataBlockHeaderSize + header.size))
      (srcSize - (vDataBlockHeaderSize + header.size)) copied next (size + header.size)
  else some ⟨copied, size + header.size, false⟩
termination_by srcSize
decreasing_by
  unfold vDataBlockHeaderSize at *
  omega

def readVariableData (src : Storage) (pos srcSize : ℕ) (dest : Storage) (data : ℕ) :
    Option ReadResult :=
  if srcSize ≤ vDataBlockHeaderSize then none else readBlocks src pos srcSize dest data 0

/-- The loop of `findVariableEntry`, which returns an offset or the error value. -/
def findBlock (buffer : Storage) (pos size localIndex localSearchIndex : ℕ) : Option (Option ℕ) :=
  let header := VDataBlockHeader.read buffer pos
  let localIndex' := if header.continuation then localIndex else localIndex + 1
  if header.continuation = false ∧ localIndex' = localSearchIndex then some (some pos)
  else if size < vDataBlockHeaderSize + header.size then none
  else if vDataBlockHeaderSize < size - (vDataBlockHeaderSize + header.size) then
    findBlock buffer (pos + (vDataBlockHeaderSize + header.size))
      (size - (vDataBlockHeaderSize + header.size)) localIndex' localSearchIndex
  else some none
termination_by size
decreasing_by
  unfold vDataBlockHeaderSize at *
  omega

def findVariableEntry (buffer : Storage) (size localSearchIndex : ℕ) : Option (Option ℕ) :=
  if size ≤ vDataBlockHeaderSize then none else findBlock buffer 0 size 0 localSearchIndex

namespace VDataBlockHeader

variable {header : VDataBlockHeader} {dest dest' : Storage} {pos : ℕ}

theorem word_lt (header : VDataBlockHeader) : header.word < 2 ^ 16 := by
  unfold word
  have : header.size % 2 ^ 14 < 2 ^ 14 := Nat.mod_lt _ (by norm_num)
  split <;> omega

theorem length_bytes : (LittleEndian.bytes vDataBlockHeaderSize header.word).length =
    vDataBlockHeaderSize := LittleEndian.length_bytes _ _

theorem read_congr (h : ∀ i < vDataBlockHeaderSize,
    dest'.content (pos + i) = dest.content (pos + i)) : read dest' pos = read dest pos := by
  unfold read
  rw [Storage.read_congr h]

theorem read_write (h : header.size < 2 ^ 14) : read (header.write dest pos) pos = header := by
  have hbytes := Storage.read_write_same dest pos
    (LittleEndian.bytes vDataBlockHeaderSize header.word)
  rw [length_bytes] at hbytes
  have hword := word_lt header
  have hvalue : header.word % 256 ^ vDataBlockHeaderSize = header.word :=
    Nat.mod_eq_of_lt (hword.trans_le (by norm_num [vDataBlockHeaderSize]))
  unfold read write
  rw [hbytes]
  simp only [LittleEndian.value_bytes, hvalue]
  obtain ⟨continuation, size⟩ := header
  unfold word
  dsimp only at h ⊢
  rw [Nat.mod_eq_of_lt h]
  cases continuation
  · simp only [Bool.false_eq_true, if_false, mk.injEq, decide_eq_false_iff_not]
    omega
  · simp only [if_true, mk.injEq, decide_eq_true_eq]
    omega

end VDataBlockHeader

end Simutrace
