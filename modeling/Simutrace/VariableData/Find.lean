import Simutrace.VariableData.RoundTrip

/-! # Finding an entry

The search for an entry counts the blocks in which an entry ends, beginning with
one for the first of them. The position of the first entry is therefore never
found.
-/

namespace Simutrace

/-- A buffer with the bytes that are used of it and the offsets of the first blocks of its
entries. -/
structure FilledBuffer where
  buffer : Storage
  used : ℕ
  offsets : List ℕ

/-- Write entries one behind the other, as far as there is room. -/
def fillBuffer (hint : SizeHint) (size : ℕ) : List (List UInt8) → FilledBuffer → FilledBuffer
  | [], filled => filled
  | payload :: payloads, filled =>
    let written :=
      writeVariableData hint filled.buffer filled.used (size - filled.used) payload 0
    fillBuffer hint size payloads ⟨written.dest, filled.used + written.blockCount * hint.val,
      if written.blockCount = 0 then filled.offsets else filled.offsets ++ [filled.used]⟩

variable {hint : SizeHint} {size : ℕ} {payloads : List (List UInt8)} {filled : FilledBuffer}

theorem used_fillBuffer (h : filled.offsets = [] → filled.used = 0) :
    (fillBuffer hint size payloads filled).offsets = [] →
      (fillBuffer hint size payloads filled).used = 0 := by
  induction payloads generalizing filled with
  | nil => exact h
  | cons payload payloads ih =>
    refine ih ?_
    split
    · rename_i hcount
      rw [hcount, Nat.zero_mul, Nat.add_zero]
      exact h
    · intro hnil
      simp at hnil

/-- The count of ended entries is at least one when it is compared. -/
theorem findBlock_zero {buffer : Storage} {pos size localIndex offset : ℕ} :
    findBlock buffer pos size localIndex 0 ≠ some (some offset) := by
  induction hsize : size using Nat.strong_induction_on generalizing pos size localIndex with
  | _ n ih =>
    subst hsize
    have hne : ¬ ((VDataBlockHeader.read buffer pos).continuation = false ∧
        (if (VDataBlockHeader.read buffer pos).continuation = true then localIndex
          else localIndex + 1) = 0) := by
      rintro ⟨hlast, hzero⟩
      rw [if_neg (by simpa using hlast)] at hzero
      omega
    rw [findBlock, if_neg hne]
    split
    · simp
    · split
      · refine ih _ ?_ rfl
        unfold vDataBlockHeaderSize at *
        omega
      · simp

theorem findVariableEntry_zero {buffer : Storage} {offset : ℕ} :
    findVariableEntry buffer size 0 ≠ some (some offset) := by
  unfold findVariableEntry
  split
  · simp
  · exact findBlock_zero

/-! ## Full blocks

Without bytes that fill up a block, the search visits each block. It then returns the last block of
the entry before the one that is searched.
-/

/-- All blocks of the entry are full. -/
def FillsBlocks (hint : SizeHint) (payload : List UInt8) (blocks : ℕ) : Prop :=
  payload.length = (blocks + 1) * hint.blockDataSize

/-- Entries of full blocks one behind the other, each with the number of its blocks but the last. -/
def HoldsEntries (hint : SizeHint) (src : Storage) : ℕ → List (List UInt8 × ℕ) → Prop
  | _, [] => True
  | pos, (payload, blocks) :: entries =>
    HoldsBlocks hint src pos payload (blocks + 1) ∧
      HoldsEntries hint src (pos + (blocks + 1) * hint.val) entries

def lastBlocks (hint : SizeHint) : ℕ → List (List UInt8 × ℕ) → List ℕ
  | _, [] => []
  | pos, (_, blocks) :: entries =>
    (pos + blocks * hint.val) :: lastBlocks hint (pos + (blocks + 1) * hint.val) entries

def entriesSize (hint : SizeHint) : List (List UInt8 × ℕ) → ℕ
  | [] => 0
  | (_, blocks) :: entries => (blocks + 1) * hint.val + entriesSize hint entries

variable {src : Storage} {pos localIndex index blocks : ℕ} {payload : List UInt8}
  {entries : List (List UInt8 × ℕ)}

/-- The blocks of one entry are visited up to the last of them. -/
theorem findBlock_entry (holds : HoldsBlocks hint src pos payload (blocks + 1))
    (fills : FillsBlocks hint payload blocks) (room : (blocks + 1) * hint.val ≤ size) :
    findBlock src pos size localIndex index =
      if localIndex + 1 = index then some (some (pos + blocks * hint.val))
      else if vDataBlockHeaderSize < size - (blocks + 1) * hint.val then
        findBlock src (pos + (blocks + 1) * hint.val) (size - (blocks + 1) * hint.val)
          (localIndex + 1) index
      else some none := by
  have hval := hint.val_eq
  have hpos := hint.blockDataSize_pos
  unfold FillsBlocks at fills
  induction blocks generalizing pos payload size with
  | zero =>
    obtain ⟨hheader, -, -⟩ := holds
    rw [Nat.zero_add, Nat.one_mul] at *
    rw [fills, decide_eq_false (lt_irrefl _), min_self] at hheader
    rw [findBlock]
    simp only [hheader, Bool.false_eq_true, if_false, true_and, ← hval, Nat.zero_mul, Nat.add_zero]
    split
    · rfl
    · rw [if_neg (by omega)]
  | succ blocks ih =>
    have hmul (k : ℕ) : (blocks + 1 + 1) * k = k + (blocks + 1) * k := by ring
    have hmul' (k : ℕ) : (blocks + 1) * k = k + blocks * k := by ring
    obtain ⟨hheader, -, hrest⟩ := holds
    rw [hmul] at fills room ⊢
    have hlt : hint.blockDataSize < payload.length := by
      rw [hmul'] at fills
      omega
    have hrest' := @ih (size - hint.val) (pos + hint.val) (payload.drop hint.blockDataSize) hrest
      (by rw [List.length_drop]; omega) (by omega)
    rw [decide_eq_true hlt, min_eq_left hlt.le] at hheader
    rw [findBlock]
    simp only [hheader, if_true, Bool.true_eq_false, false_and, if_false, ← hval]
    rw [if_neg (by omega), if_pos (by rw [hmul'] at room; omega), hrest', Nat.sub_sub,
      Nat.add_assoc, Nat.add_assoc, ← hmul']

/-- The entry with a number is looked up among the last blocks, and one too late. -/
theorem findBlock_entries (holds : HoldsEntries hint src pos entries)
    (fills : ∀ e ∈ entries, FillsBlocks hint e.1 e.2) (nonempty : entries ≠ [])
    (total : size = entriesSize hint entries) :
    findBlock src pos size localIndex (localIndex + 1 + index) =
      some (lastBlocks hint pos entries)[index]? := by
  induction entries generalizing pos size localIndex index with
  | nil => exact absurd rfl nonempty
  | cons e entries ih =>
    obtain ⟨payload, blocks⟩ := e
    obtain ⟨hblocks, hrest⟩ := holds
    have hfills := fills _ List.mem_cons_self
    have hsize : size = (blocks + 1) * hint.val + entriesSize hint entries := total
    rw [findBlock_entry hblocks hfills (by omega)]
    cases index with
    | zero =>
      rw [if_pos rfl]
      rfl
    | succ index =>
      rw [if_neg (by omega), hsize, Nat.add_sub_cancel_left]
      have hlist : (lastBlocks hint pos ((payload, blocks) :: entries))[index + 1]? =
          (lastBlocks hint (pos + (blocks + 1) * hint.val) entries)[index]? := rfl
      rw [hlist]
      rcases entries with _ | ⟨e, entries⟩
      · rfl
      · have hpos : vDataBlockHeaderSize < entriesSize hint (e :: entries) := by
          have := hint.lower
          have hle : hint.val ≤ (e.2 + 1) * hint.val := Nat.le_mul_of_pos_left _ (Nat.succ_pos _)
          change _ < (e.2 + 1) * hint.val + entriesSize hint entries
          omega
        rw [if_pos hpos, show localIndex + 1 + (index + 1) = localIndex + 1 + 1 + index by omega]
        exact ih hrest (fun e he => fills e (List.mem_cons_of_mem _ he)) (by simp) rfl

theorem HoldsEntries.congr {src' : Storage} (h : HoldsEntries hint src pos entries)
    (agree : ∀ i, pos ≤ i → i < pos + entriesSize hint entries →
      src'.content i = src.content i) : HoldsEntries hint src' pos entries := by
  induction entries generalizing pos with
  | nil => trivial
  | cons e entries ih =>
    obtain ⟨hblocks, hrest⟩ := h
    have hsize : entriesSize hint (e :: entries) =
        (e.2 + 1) * hint.val + entriesSize hint entries := rfl
    rw [hsize] at agree
    exact ⟨hblocks.congr fun i hi hi' => agree i hi (by omega),
      ih hrest fun i hi hi' => agree i (by omega) (by omega)⟩

/-- An entry of full blocks is written to as many blocks, if there is room for them. -/
theorem writeVariableData_of_fills {dest : Storage} {destSize : ℕ}
    (fills : FillsBlocks hint payload blocks) (room : (blocks + 1) * hint.val ≤ destSize)
    (small : destSize < 2 ^ 32) :
    (writeVariableData hint dest pos destSize payload 0).blockCount = blocks + 1 ∧
      KeepsOutside pos ((blocks + 1) * hint.val) dest
        (writeVariableData hint dest pos destSize payload 0).dest ∧
      HoldsBlocks hint (writeVariableData hint dest pos destSize payload 0).dest pos payload
        (blocks + 1) := by
  have hpos := hint.blockDataSize_pos
  have hlength : 0 < payload.length := by
    rw [fills]
    exact Nat.mul_pos (Nat.succ_pos _) hpos
  have hroom : hint.val ≤ destSize :=
    (Nat.le_mul_of_pos_left _ (Nat.succ_pos blocks)).trans room
  obtain ⟨m, hm, hcount, -, hdest, hwrites⟩ := @writeVariableData_spec hint dest pos destSize 0
    payload (List.length_pos_iff.mp hlength) hroom
  have hneeded := hwrites.needed
  have hfull := hwrites.full
  rw [fills] at hneeded hfull
  have hle : m - 1 < blocks + 1 := Nat.lt_of_mul_lt_mul_right hneeded
  have hge : blocks + 1 ≤ m := by
    by_contra hlt
    have hlt' : m < blocks + 1 := by omega
    have := hfull (Nat.mul_lt_mul_of_pos_right hlt' hpos)
    have := Nat.mul_le_mul_right hint.val (show m + 1 ≤ blocks + 1 by omega)
    omega
  obtain rfl : m = blocks + 1 := by omega
  have hcount' := Nat.le_mul_of_pos_right (blocks + 1) hint.val_pos
  rw [hcount, hdest, Nat.mod_eq_of_lt (by omega)]
  exact ⟨rfl, hwrites.keeps, hwrites.holds⟩

theorem holdsEntries_fillBuffer (fills : ∀ e ∈ entries, FillsBlocks hint e.1 e.2)
    (room : filled.used + entriesSize hint entries ≤ size) (small : size < 2 ^ 32) :
    (fillBuffer hint size (entries.map Prod.fst) filled).used =
        filled.used + entriesSize hint entries ∧
      (∀ i < filled.used, (fillBuffer hint size (entries.map Prod.fst) filled).buffer.content i =
        filled.buffer.content i) ∧
      HoldsEntries hint (fillBuffer hint size (entries.map Prod.fst) filled).buffer filled.used
        entries := by
  induction entries generalizing filled with
  | nil => exact ⟨rfl, fun _ _ => rfl, trivial⟩
  | cons e entries ih =>
    obtain ⟨payload, blocks⟩ := e
    have hsize : entriesSize hint ((payload, blocks) :: entries) =
        (blocks + 1) * hint.val + entriesSize hint entries := rfl
    rw [hsize] at room
    obtain ⟨hcount, hkeeps, hholds⟩ := @writeVariableData_of_fills hint filled.used blocks payload
      filled.buffer (size - filled.used) (fills _ List.mem_cons_self) (by omega) (by omega)
    obtain ⟨next, hnext, hfill⟩ : ∃ next : FilledBuffer,
        (next.used = filled.used + (blocks + 1) * hint.val ∧ next.buffer = (writeVariableData hint
          filled.buffer filled.used (size - filled.used) payload 0).dest) ∧
        fillBuffer hint size (((payload, blocks) :: entries).map Prod.fst) filled =
          fillBuffer hint size (entries.map Prod.fst) next :=
      ⟨_, ⟨by rw [← hcount], rfl⟩, rfl⟩
    obtain ⟨hused, hbuffer⟩ := hnext
    rw [← hbuffer] at hkeeps hholds
    obtain ⟨hused', hcontent, hentries⟩ := @ih next
      (fun e he => fills e (List.mem_cons_of_mem _ he)) (by omega)
    rw [hused] at hused' hcontent hentries
    rw [hfill]
    refine ⟨by omega, fun i hi => ?_, hholds.congr fun i _ hi => hcontent i hi, hentries⟩
    rw [hcontent i (by omega), hkeeps.2 i (.inl hi)]

/-- In a buffer with full blocks, the entry with a number is looked up one too late, and the offset
is the one of its last block. -/
theorem findVariableEntry_fillBuffer (buffer : Storage)
    (fills : ∀ e ∈ entries, FillsBlocks hint e.1 e.2) (nonempty : entries ≠ [])
    (room : entriesSize hint entries ≤ size) (small : size < 2 ^ 32) (n : ℕ) :
    findVariableEntry (fillBuffer hint size (entries.map Prod.fst) ⟨buffer, 0, []⟩).buffer
        (fillBuffer hint size (entries.map Prod.fst) ⟨buffer, 0, []⟩).used (n + 1) =
      some (lastBlocks hint 0 entries)[n]? := by
  obtain ⟨hused, -, hholds⟩ := @holdsEntries_fillBuffer hint size ⟨buffer, 0, []⟩ entries fills
    (by simpa using room) small
  rw [Nat.zero_add] at hused
  obtain ⟨e, rest, rfl⟩ := List.exists_cons_of_ne_nil nonempty
  have hlower := hint.lower
  have hsize : hint.val ≤ entriesSize hint (e :: rest) := by
    have hle : hint.val ≤ (e.2 + 1) * hint.val := Nat.le_mul_of_pos_left _ (Nat.succ_pos _)
    change _ ≤ (e.2 + 1) * hint.val + entriesSize hint rest
    omega
  have hfind := @findBlock_entries hint _ _ 0 0 n _ hholds fills nonempty hused
  unfold findVariableEntry
  rw [if_neg (by omega), Nat.add_comm n 1, ← Nat.zero_add 1]
  exact hfind

/-- In no buffer all entries are found. -/
theorem not_findVariableEntry_offsets (hint : SizeHint) (buffer : Storage) (size : ℕ)
    (payloads : List (List UInt8)) :
    ¬ ∀ n, findVariableEntry (fillBuffer hint size payloads ⟨buffer, 0, []⟩).buffer
        (fillBuffer hint size payloads ⟨buffer, 0, []⟩).used n =
      some (fillBuffer hint size payloads ⟨buffer, 0, []⟩).offsets[n]? := by
  intro h
  have hzero := h 0
  rcases hoffsets : (fillBuffer hint size payloads ⟨buffer, 0, []⟩).offsets with _ | ⟨offset, _⟩
  · rw [used_fillBuffer (fun _ => rfl) hoffsets] at hzero
    unfold findVariableEntry at hzero
    rw [if_pos (Nat.zero_le _)] at hzero
    cases hzero
  · rw [hoffsets] at hzero
    exact findVariableEntry_zero hzero

/-- The entry of one block at the start of a buffer is not found. -/
theorem not_findVariableEntry_oneBlock :
    (fillBuffer smallHint 8 [[7]] ⟨.empty, 0, []⟩).offsets = [0] ∧
      findVariableEntry (fillBuffer smallHint 8 [[7]] ⟨.empty, 0, []⟩).buffer
        (fillBuffer smallHint 8 [[7]] ⟨.empty, 0, []⟩).used 0 ≠ some (some 0) := by
  refine ⟨?_, findVariableEntry_zero⟩
  have hblocks : (writeVariableData smallHint .empty 0 8 [7] 0).blockCount = 1 := by
    unfold writeVariableData
    rw [if_neg (by decide), writeBlocks_of_le (by decide)]
    rfl
  have hoffsets : (fillBuffer smallHint 8 [[7]] ⟨.empty, 0, []⟩).offsets =
      if (writeVariableData smallHint .empty 0 8 [7] 0).blockCount = 0 then [] else [0] := rfl
  rw [hoffsets, hblocks]
  rfl

end Simutrace
