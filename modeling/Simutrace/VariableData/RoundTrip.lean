import Simutrace.VariableData.Block

/-! # Reading what was written

The blocks of an entry have its bytes in order, and all of them but the last one
are full and continue. Reading the blocks gives the bytes back.
-/

namespace Simutrace

variable {hint : SizeHint} {dest src : Storage} {pos destSize srcSize blockCount m : ℕ}
  {data : List UInt8}

def HoldsBlocks (hint : SizeHint) (src : Storage) : ℕ → List UInt8 → ℕ → Prop
  | _, _, 0 => True
  | pos, data, m + 1 =>
    VDataBlockHeader.read src pos =
        ⟨decide (hint.blockDataSize < data.length), min hint.blockDataSize data.length⟩ ∧
      src.read (pos + vDataBlockHeaderSize) (min hint.blockDataSize data.length) =
        data.take hint.blockDataSize ∧
      HoldsBlocks hint src (pos + hint.val) (data.drop hint.blockDataSize) m

theorem HoldsBlocks.congr {src' : Storage} (h : HoldsBlocks hint src pos data m)
    (agree : ∀ i, pos ≤ i → i < pos + m * hint.val → src'.content i = src.content i) :
    HoldsBlocks hint src' pos data m := by
  induction m generalizing pos data with
  | zero => trivial
  | succ m ih =>
    obtain ⟨hheader, hread, hrest⟩ := h
    have hval := hint.val_eq
    rw [Nat.add_mul, Nat.one_mul] at agree
    refine ⟨?_, ?_, ih hrest fun i hi hi' => agree i (by omega) (by omega)⟩
    · rw [← hheader]
      exact VDataBlockHeader.read_congr fun i hi => agree _ (by omega) (by omega)
    · rw [← hread]
      exact Storage.read_congr fun i hi => agree _ (by omega) (by omega)

/-- The bytes outside of a range are as before. -/
def KeepsOutside (pos n : ℕ) (dest dest' : Storage) : Prop :=
  dest'.size = dest.size ∧ ∀ i, i < pos ∨ pos + n ≤ i → dest'.content i = dest.content i

theorem keepsOutside_write {pos' n : ℕ} {bs : List UInt8} (h : pos ≤ pos')
    (h' : pos' + bs.length ≤ pos + n) : KeepsOutside pos n dest (dest.write pos' bs) := by
  refine ⟨rfl, fun i hi => ?_⟩
  rcases hi with hi | hi
  · exact Storage.content_write_of_lt (by omega)
  · exact Storage.content_write_of_ge (by omega)

theorem KeepsOutside.trans {pos' n n' : ℕ} {dest' dest'' : Storage}
    (h : KeepsOutside pos n dest dest') (h' : KeepsOutside pos' n' dest' dest'')
    (lower : pos ≤ pos') (upper : pos' + n' ≤ pos + n) : KeepsOutside pos n dest dest'' := by
  refine ⟨h'.1.trans h.1, fun i hi => ?_⟩
  rw [h'.2 i (by omega), h.2 i hi]

theorem KeepsOutside.mono {n n' : ℕ} {dest' : Storage} (h : KeepsOutside pos n dest dest')
    (hn : n ≤ n') : KeepsOutside pos n' dest dest' :=
  ⟨h.1, fun i hi => h.2 i (by omega)⟩

/-- Write one block, without the bytes that fill it. -/
def writeBlock (dest : Storage) (pos : ℕ) (continuation : Bool) (chunk : List UInt8) : Storage :=
  (VDataBlockHeader.write ⟨continuation, chunk.length⟩ dest pos).write
    (pos + vDataBlockHeaderSize) chunk

theorem keepsOutside_writeBlock {continuation : Bool} {chunk : List UInt8}
    (h : chunk.length ≤ hint.blockDataSize) :
    KeepsOutside pos hint.val dest (writeBlock dest pos continuation chunk) := by
  have hval := hint.val_eq
  have hheader : KeepsOutside pos hint.val dest
      (VDataBlockHeader.write ⟨continuation, chunk.length⟩ dest pos) :=
    keepsOutside_write le_rfl (by rw [VDataBlockHeader.length_bytes]; omega)
  exact hheader.trans (keepsOutside_write (n := hint.val - vDataBlockHeaderSize) le_rfl
    (by omega)) (by omega) (by omega)

theorem read_writeBlock (dest : Storage) (pos : ℕ) (continuation : Bool) {chunk : List UInt8}
    (h : chunk.length < 2 ^ 14) :
    VDataBlockHeader.read (writeBlock dest pos continuation chunk) pos =
        ⟨continuation, chunk.length⟩ ∧
      (writeBlock dest pos continuation chunk).read (pos + vDataBlockHeaderSize) chunk.length =
        chunk := by
  unfold writeBlock
  refine ⟨?_, Storage.read_write_same _ _ _⟩
  have hheader := @VDataBlockHeader.read_write ⟨continuation, chunk.length⟩ dest pos h
  refine (VDataBlockHeader.read_congr fun i hi => ?_).trans hheader
  exact Storage.content_write_of_lt (by omega)

theorem writeBlocks_of_le (h : data.length ≤ hint.blockDataSize) :
    writeBlocks hint dest pos destSize data blockCount =
      ⟨(writeBlock dest pos false data).write (pos + vDataBlockHeaderSize + data.length)
        (List.replicate (hint.blockDataSize - data.length) 0), (blockCount + 1) % 2 ^ 32, []⟩ := by
  have hchunk : (if hint.blockDataSize ≤ data.length then hint.blockDataSize else data.length) =
      data.length := by
    split <;> omega
  rw [writeBlocks]
  simp only [hchunk, List.drop_length, ne_eq, not_true, decide_false, List.take_length, if_true]
  rfl

theorem writeBlocks_of_lt (h : hint.blockDataSize < data.length) :
    writeBlocks hint dest pos destSize data blockCount =
      if hint.val ≤ destSize - hint.val then
        writeBlocks hint (writeBlock dest pos true (data.take hint.blockDataSize)) (pos + hint.val)
          (destSize - hint.val) (data.drop hint.blockDataSize) ((blockCount + 1) % 2 ^ 32)
      else ⟨writeBlock dest pos true (data.take hint.blockDataSize), (blockCount + 1) % 2 ^ 32,
        data.drop hint.blockDataSize⟩ := by
  have hrest : data.drop hint.blockDataSize ≠ [] := by
    rw [Ne, List.drop_eq_nil_iff]
    omega
  have hlength : (data.take hint.blockDataSize).length = hint.blockDataSize := by
    rw [List.length_take]
    omega
  rw [writeBlocks]
  simp only [if_pos h.le, ne_eq, hrest, not_false_eq_true, decide_true]
  unfold writeBlock
  rw [if_neg not_false, hlength, hint.val_eq, Nat.add_assoc]

/-- A number of blocks has been written to the destination. Either it is full, or all data is
written. -/
structure WritesBlocks (hint : SizeHint) (dest : Storage) (pos destSize : ℕ) (data : List UInt8)
    (written : WriteState) (m : ℕ) : Prop where
  fits : m * hint.val ≤ destSize
  needed : (m - 1) * hint.blockDataSize < data.length
  left : written.data = data.drop (m * hint.blockDataSize)
  keeps : KeepsOutside pos (m * hint.val) dest written.dest
  holds : HoldsBlocks hint written.dest pos data m
  full : m * hint.blockDataSize < data.length → destSize < (m + 1) * hint.val

theorem writesBlocks_last {filled : Storage} (nonempty : data ≠ []) (room : hint.val ≤ destSize)
    (h : data.length ≤ hint.blockDataSize)
    (fill : filled = (writeBlock dest pos false data).write
      (pos + vDataBlockHeaderSize + data.length)
      (List.replicate (hint.blockDataSize - data.length) 0)) (count : ℕ) :
    WritesBlocks hint dest pos destSize data ⟨filled, count, []⟩ 1 := by
  have hval := hint.val_eq
  have hblock := hint.blockDataSize_lt
  have hpos := List.length_pos_iff.mpr nonempty
  have hkeeps : KeepsOutside pos hint.val dest (writeBlock dest pos false data) :=
    keepsOutside_writeBlock h
  obtain ⟨hheader, hread⟩ := read_writeBlock dest pos false (hblock.trans_le' h)
  have hfill {i : ℕ} (hi : i < pos + vDataBlockHeaderSize + data.length) :
      filled.content i = (writeBlock dest pos false data).content i := by
    rw [fill]
    exact Storage.content_write_of_lt hi
  refine ⟨by omega, by omega, ?_, ?_, ⟨?_, ?_, trivial⟩, by omega⟩
  · rw [Nat.one_mul, List.drop_eq_nil_of_le h]
  · rw [Nat.one_mul, fill]
    refine hkeeps.trans (keepsOutside_write (n := hint.blockDataSize - data.length) le_rfl ?_)
      (by omega) (by omega)
    rw [List.length_replicate]
  · rw [decide_eq_false (by omega), min_eq_right h, ← hheader]
    exact VDataBlockHeader.read_congr fun i hi => hfill (by omega)
  · rw [min_eq_right h, List.take_of_length_le h]
    exact (Storage.read_congr fun i hi => hfill (by omega)).trans hread

theorem WritesBlocks.cons {written : WriteState} (room : hint.val ≤ destSize)
    (h : hint.blockDataSize < data.length)
    (rest : WritesBlocks hint (writeBlock dest pos true (data.take hint.blockDataSize))
      (pos + hint.val) (destSize - hint.val) (data.drop hint.blockDataSize) written m) :
    WritesBlocks hint dest pos destSize data written (m + 1) := by
  have hval := hint.val_eq
  have hblock := hint.blockDataSize_lt
  have hchunk : (data.take hint.blockDataSize).length = hint.blockDataSize := by
    rw [List.length_take]
    omega
  obtain ⟨hheader, hread⟩ := read_writeBlock dest pos true (hchunk.trans_lt hblock)
  have hkeep {i : ℕ} (hi : i < pos + hint.val) : written.dest.content i =
      (writeBlock dest pos true (data.take hint.blockDataSize)).content i :=
    rest.keeps.2 i (.inl hi)
  have hfits := rest.fits
  have hneeded := rest.needed
  have hfull := rest.full
  rw [List.length_drop] at hneeded hfull
  refine ⟨?_, ?_, ?_, ?_, ⟨?_, ?_, rest.holds⟩, ?_⟩
  · rw [Nat.add_mul]
    omega
  · rcases m with _ | m
    · omega
    · simp only [Nat.add_sub_cancel, Nat.add_mul] at hneeded ⊢
      omega
  · rw [rest.left, List.drop_drop, Nat.add_mul, Nat.one_mul, Nat.add_comm]
  · rw [Nat.add_mul, Nat.one_mul]
    exact ((keepsOutside_writeBlock hchunk.le).mono (Nat.le_add_left _ _)).trans rest.keeps
      (by omega) (by omega)
  · rw [decide_eq_true h, min_eq_left h.le]
    rw [hchunk] at hheader
    rw [← hheader]
    exact VDataBlockHeader.read_congr fun i hi => hkeep (by omega)
  · rw [min_eq_left h.le]
    rw [hchunk] at hread
    exact (Storage.read_congr fun i hi => hkeep (by omega)).trans hread
  · intro hlt
    rw [Nat.add_mul, Nat.one_mul] at hlt
    have := hfull (by omega)
    rw [Nat.add_mul (m + 1), Nat.one_mul]
    omega

theorem writeBlocks_spec (nonempty : data ≠ []) (room : hint.val ≤ destSize) :
    ∃ m, 0 < m ∧
      (writeBlocks hint dest pos destSize data blockCount).blockCount = (blockCount + m) % 2 ^ 32 ∧
      WritesBlocks hint dest pos destSize data
        (writeBlocks hint dest pos destSize data blockCount) m := by
  induction hlength : data.length using Nat.strong_induction_on
    generalizing dest pos destSize data blockCount with
  | _ length ih =>
    subst hlength
    have hpos := hint.blockDataSize_pos
    rcases Nat.lt_or_ge hint.blockDataSize data.length with hlt | hle
    · have hdrop : (data.drop hint.blockDataSize).length < data.length := by
        rw [List.length_drop]
        omega
      have hnonempty : data.drop hint.blockDataSize ≠ [] := by
        rw [Ne, List.drop_eq_nil_iff]
        omega
      rw [writeBlocks_of_lt hlt]
      split
      · rename_i hroom
        obtain ⟨m, -, hcount, hrest⟩ := ih _ hdrop hnonempty hroom rfl
        refine ⟨m + 1, by omega, ?_, hrest.cons room hlt⟩
        rw [hcount, Nat.mod_add_mod, Nat.add_assoc, Nat.add_comm 1 m]
      · rename_i hroom
        refine ⟨1, by omega, rfl, WritesBlocks.cons (m := 0) room hlt ?_⟩
        refine ⟨by omega, ?_, by rw [Nat.zero_mul, List.drop_zero], ⟨rfl, fun _ _ => rfl⟩, trivial,
          fun _ => by omega⟩
        rw [Nat.zero_sub, Nat.zero_mul]
        exact List.length_pos_iff.mpr hnonempty
    · rw [writeBlocks_of_le hle]
      exact ⟨1, by omega, rfl, writesBlocks_last nonempty room hle rfl _⟩

/-! ## Reading -/

def copyTo (dest : Storage) (data : ℕ) (bytes : List UInt8) : Storage :=
  if data = 0 then dest else dest.write data bytes

theorem copyTo_append (dest : Storage) (pointer : ℕ) (bs bs' : List UInt8) :
    copyTo (copyTo dest pointer bs) (if pointer = 0 then pointer else pointer + bs.length) bs' =
      copyTo dest pointer (bs ++ bs') := by
  unfold copyTo
  by_cases h : pointer = 0
  · simp only [if_pos h]
  · rw [if_neg h, if_neg h, if_neg (by omega), if_neg h, Storage.write_append]

theorem readBlocks_of_le {pointer size : ℕ} (holds : HoldsBlocks hint src pos data (m + 1))
    (h : data.length ≤ hint.blockDataSize) : readBlocks src pos srcSize dest pointer size =
      some ⟨copyTo dest pointer data, size + data.length, true⟩ := by
  obtain ⟨hheader, hread, -⟩ := holds
  rw [decide_eq_false (by omega), min_eq_right h] at hheader
  rw [min_eq_right h, List.take_of_length_le h] at hread
  rw [readBlocks]
  simp only [hheader, hread, if_true]
  rfl

theorem readBlocks_of_lt {pointer size : ℕ} (holds : HoldsBlocks hint src pos data (m + 1))
    (h : hint.blockDataSize < data.length) (room : hint.val ≤ srcSize) :
    readBlocks src pos srcSize dest pointer size =
      if vDataBlockHeaderSize < srcSize - hint.val then
        readBlocks src (pos + hint.val) (srcSize - hint.val)
          (copyTo dest pointer (data.take hint.blockDataSize))
          (if pointer = 0 then pointer else pointer + (data.take hint.blockDataSize).length)
          (size + hint.blockDataSize)
      else some ⟨copyTo dest pointer (data.take hint.blockDataSize), size + hint.blockDataSize,
        false⟩ := by
  obtain ⟨hheader, hread, -⟩ := holds
  have hlength : (data.take hint.blockDataSize).length = hint.blockDataSize := by
    rw [List.length_take]
    omega
  rw [decide_eq_true h, min_eq_left h.le] at hheader
  rw [min_eq_left h.le] at hread
  rw [readBlocks]
  simp only [hheader, hread, Bool.true_eq_false, if_false, ← hint.val_eq, hlength]
  rw [if_neg (by omega)]
  rfl

theorem readBlocks_spec (holds : HoldsBlocks hint src pos data (m + 1))
    (needed : m * hint.blockDataSize < data.length) (room : (m + 1) * hint.val ≤ srcSize)
    (last : data.length ≤ (m + 1) * hint.blockDataSize ∨ srcSize = (m + 1) * hint.val)
    (dest : Storage) (pointer size : ℕ) :
    readBlocks src pos srcSize dest pointer size =
      some ⟨copyTo dest pointer (data.take ((m + 1) * hint.blockDataSize)),
        size + min data.length ((m + 1) * hint.blockDataSize),
        decide (data.length ≤ (m + 1) * hint.blockDataSize)⟩ := by
  have hval := hint.val_eq
  have hpos := hint.blockDataSize_pos
  induction m generalizing pos srcSize dest data pointer size with
  | zero =>
    rw [Nat.zero_add, Nat.one_mul] at *
    rcases Nat.lt_or_ge hint.blockDataSize data.length with hlt | hle
    · rw [readBlocks_of_lt holds hlt room, if_neg (by omega), min_eq_right hlt.le,
        decide_eq_false (by omega)]
    · rw [readBlocks_of_le holds hle, List.take_of_length_le hle, min_eq_left hle,
        decide_eq_true hle]
  | succ m ih =>
    have hmul (k : ℕ) : (m + 1 + 1) * k = (m + 1) * k + k := by ring
    have hmul' (k : ℕ) : (m + 1) * k = m * k + k := by ring
    rw [hmul] at room last ⊢
    rw [hmul hint.val] at last
    have hlt : hint.blockDataSize < data.length := by
      rw [hmul'] at needed
      omega
    have hlength : (data.drop hint.blockDataSize).length = data.length - hint.blockDataSize :=
      List.length_drop
    rw [readBlocks_of_lt holds hlt (by omega), if_pos (by rw [hmul'] at room; omega),
      ih holds.2.2 (by rw [hlength]; rw [hmul'] at needed; omega) (by omega) (by omega),
      copyTo_append, hlength, Nat.add_comm ((m + 1) * _) hint.blockDataSize, ← List.take_add]
    have hmin : size + hint.blockDataSize +
        min (data.length - hint.blockDataSize) ((m + 1) * hint.blockDataSize) =
        size + min data.length (hint.blockDataSize + (m + 1) * hint.blockDataSize) := by
      omega
    have hiff : data.length - hint.blockDataSize ≤ (m + 1) * hint.blockDataSize ↔
        data.length ≤ hint.blockDataSize + (m + 1) * hint.blockDataSize := by
      omega
    rw [hmin, decide_eq_decide.mpr hiff]

theorem writeVariableData_spec (nonempty : data ≠ []) (room : hint.val ≤ destSize) :
    ∃ m, 0 < m ∧
      (writeVariableData hint dest pos destSize data blockCount).blockCount = m % 2 ^ 32 ∧
      (writeVariableData hint dest pos destSize data blockCount).written =
        min data.length (m * hint.blockDataSize) ∧
      (writeVariableData hint dest pos destSize data blockCount).dest =
        (writeBlocks hint dest pos destSize data 0).dest ∧
      WritesBlocks hint dest pos destSize data (writeBlocks hint dest pos destSize data 0) m := by
  obtain ⟨m, hm, hcount, hwrites⟩ := @writeBlocks_spec hint dest pos destSize 0 data nonempty room
  unfold writeVariableData
  rw [if_neg (by omega)]
  refine ⟨m, hm, ?_, ?_, rfl, hwrites⟩
  · rw [Nat.zero_add] at hcount
    exact hcount
  · change data.length - (writeBlocks hint dest pos destSize data 0).data.length = _
    rw [hwrites.left, List.length_drop]
    omega

/-- What was written to the blocks of a destination is read back. Nothing else of the destination is
changed, and the data has been read completely if it was written completely. -/
theorem readVariableData_writeVariableData (nonempty : data ≠ []) (room : hint.val ≤ destSize) :
    ∃ blocks, 0 < blocks ∧ blocks * hint.val ≤ destSize ∧
      (writeVariableData hint dest pos destSize data blockCount).blockCount = blocks % 2 ^ 32 ∧
      (destSize < 2 ^ 32 →
        (writeVariableData hint dest pos destSize data blockCount).blockCount = blocks) ∧
      (writeVariableData hint dest pos destSize data blockCount).written =
        min data.length (blocks * hint.blockDataSize) ∧
      KeepsOutside pos (blocks * hint.val) dest
        (writeVariableData hint dest pos destSize data blockCount).dest ∧
      ∀ target pointer, readVariableData
          (writeVariableData hint dest pos destSize data blockCount).dest pos (blocks * hint.val)
          target pointer =
        let written := (writeVariableData hint dest pos destSize data blockCount).written
        some ⟨copyTo target pointer (data.take written), written,
          decide (written = data.length)⟩ := by
  have hpos := hint.val_pos
  have hlower := hint.lower
  obtain ⟨m, hm, hcount, hwritten, hdest, hwrites⟩ :=
    @writeVariableData_spec hint dest pos destSize blockCount data nonempty room
  have hfits := hwrites.fits
  have hle := Nat.le_mul_of_pos_right m hpos
  refine ⟨m, hm, hfits, hcount, fun hsize => ?_, hwritten, hdest ▸ hwrites.keeps,
    fun target pointer => ?_⟩
  · rw [hcount, Nat.mod_eq_of_lt (by omega)]
  · obtain ⟨blocks, rfl⟩ := Nat.exists_eq_add_one.mpr hm
    have hmul := Nat.le_mul_of_pos_left hint.val hm
    have hread := readBlocks_spec hwrites.holds hwrites.needed le_rfl (.inr rfl) target pointer 0
    have htake (n : ℕ) : data.take (min data.length n) = data.take n := by
      rw [min_comm, ← List.take_take, List.take_length]
    dsimp only
    unfold readVariableData
    rw [if_neg (by omega), hdest, hwritten, hread, htake, Nat.zero_add]
    exact congrArg (fun finished => some (ReadResult.mk _ _ finished))
      (decide_eq_decide.mpr (by omega))

/-- Blocks with two bytes of data each. -/
def smallHint : SizeHint := ⟨4, by decide, by decide⟩

theorem readVariableData_smallHint : ∃ blocks, 0 < blocks ∧ blocks * smallHint.val ≤ 9 ∧
    (writeVariableData smallHint .empty 3 9 [1, 2, 3, 4, 5] 0).blockCount = blocks % 2 ^ 32 ∧
    (9 < 2 ^ 32 →
      (writeVariableData smallHint .empty 3 9 [1, 2, 3, 4, 5] 0).blockCount = blocks) ∧
    (writeVariableData smallHint .empty 3 9 [1, 2, 3, 4, 5] 0).written =
      min 5 (blocks * smallHint.blockDataSize) ∧
    KeepsOutside 3 (blocks * smallHint.val) .empty
      (writeVariableData smallHint .empty 3 9 [1, 2, 3, 4, 5] 0).dest ∧
    ∀ target pointer, readVariableData
        (writeVariableData smallHint .empty 3 9 [1, 2, 3, 4, 5] 0).dest 3
        (blocks * smallHint.val) target pointer =
      let written := (writeVariableData smallHint .empty 3 9 [1, 2, 3, 4, 5] 0).written
      some ⟨copyTo target pointer ([1, 2, 3, 4, 5].take written), written,
        decide (written = 5)⟩ :=
  readVariableData_writeVariableData (by decide) (by decide)

end Simutrace
