import Simutrace.VariableData.Stored

/-! # References and length queries

A reference is taken for the number of a block in a sequence without gaps, when
the segment is computed from it. A query with a null pointer for the length of an
entry does not write as long as the entry ends in its first segment.
-/

namespace Simutrace

namespace VariableLayout

variable (layout : VariableLayout)

/-- The bytes at the end of a segment, which are too few for a block. -/
def gap : ℕ := layout.segmentSize % layout.sizeHint.val

/-- The gaps of the segments before the one of the entry are not larger than the blocks in front of
the entry. -/
def Resolves (q i : ℕ) : Prop := q * layout.gap ≤ i * layout.sizeHint.val

variable {layout} {q i : ℕ}

theorem segmentSize_eq (layout : VariableLayout) :
    layout.segmentSize = layout.blocks * layout.sizeHint.val + layout.gap := by
  rw [Nat.mul_comm]
  exact (Nat.div_add_mod _ _).symm

theorem reference_mul (layout : VariableLayout) (q i : ℕ) :
    (layout.blocks * q + i) * layout.sizeHint.val + q * layout.gap =
      q * layout.segmentSize + i * layout.sizeHint.val := by
  rw [layout.segmentSize_eq]
  ring

theorem offset_lt (hi : i < layout.blocks) : i * layout.sizeHint.val < layout.segmentSize := by
  have hle := layout.blocks_mul_le
  have hmul := Nat.mul_lt_mul_of_pos_right hi layout.sizeHint.val_pos
  omega

theorem rsqn_eq (hi : i < layout.blocks) (hq : q < 2 ^ 32) :
    (layout.blocks * q + i) * layout.sizeHint.val % 2 ^ 64 / layout.segmentSize % 2 ^ 32 =
      (layout.blocks * q + i) * layout.sizeHint.val / layout.segmentSize := by
  have hmul := layout.reference_mul q i
  have hoffset := offset_lt hi
  have hsmall := layout.small
  have hpos : 0 < layout.segmentSize := by omega
  have hle : (q + 1) * layout.segmentSize ≤ 2 ^ 32 * layout.segmentSize :=
    Nat.mul_le_mul_right _ hq
  rw [Nat.add_mul, Nat.one_mul] at hle
  have hlt : (layout.blocks * q + i) * layout.sizeHint.val < 2 ^ 32 * layout.segmentSize := by
    omega
  have hlt' : (layout.blocks * q + i) * layout.sizeHint.val < 2 ^ 64 :=
    hlt.trans (by omega)
  rw [Nat.mod_eq_of_lt hlt', Nat.mod_eq_of_lt]
  exact (Nat.div_lt_iff_lt_mul hpos).mpr hlt

/-- The segment that is computed from a reference is the one of the entry, or one before it. -/
theorem rsqn_cases (hi : i < layout.blocks) :
    (layout.Resolves q i ∧
        (layout.blocks * q + i) * layout.sizeHint.val / layout.segmentSize = q) ∨
      (¬ layout.Resolves q i ∧
        (layout.blocks * q + i) * layout.sizeHint.val / layout.segmentSize < q) := by
  have hmul := layout.reference_mul q i
  have hoffset := offset_lt hi
  have hpos : 0 < layout.segmentSize := by omega
  unfold Resolves
  rcases Nat.lt_or_ge (i * layout.sizeHint.val) (q * layout.gap) with h | h
  · refine .inr ⟨by omega, (Nat.div_lt_iff_lt_mul hpos).mpr ?_⟩
    omega
  · refine .inl ⟨h, Nat.div_eq_of_lt_le ?_ ?_⟩
    · omega
    · have hsucc : (q + 1) * layout.segmentSize = q * layout.segmentSize + layout.segmentSize := by
        ring
      omega

theorem reference_ne_emptyIndex (hi : i < layout.blocks) (hq : q < 2 ^ 32) :
    layout.blocks * q + i ≠ variableEntryEmptyIndex := by
  have hlt := layout.blocks_lt
  have hmul : layout.blocks * (q + 1) ≤ 2 ^ 32 * layout.blocks := by
    rw [Nat.mul_comm]
    exact Nat.mul_le_mul_right _ hq
  rw [Nat.mul_add, Nat.mul_one] at hmul
  unfold variableEntryEmptyIndex
  omega

end VariableLayout

namespace VariableStream

variable {layout : VariableLayout} {stream : VariableStream layout} {q i k : ℕ}
  {data : List UInt8} {handle : Option ℕ} {dest : Storage} {pointer : ℕ}

theorem Holds.lt_length (h : stream.Holds q i data k) : q < 2 ^ 32 := by
  have hlt : q < stream.segments.length := by
    cases h with
    | last stored => exact (List.getElem?_eq_some_iff.mp stored).1
    | next stored => exact (List.getElem?_eq_some_iff.mp stored).1
  exact hlt.trans stream.length

theorem stReadVariableData_eq (hq : q < 2 ^ 32) (hi : i < layout.blocks)
    (resolves : layout.Resolves q i) :
    stream.stReadVariableData handle (layout.blocks * q + i) dest pointer =
      stream.readSegments q i dest pointer 0 := by
  unfold stReadVariableData
  rw [if_neg (VariableLayout.reference_ne_emptyIndex hi hq), VariableLayout.rsqn_eq hi hq]
  obtain ⟨-, hrsqn⟩ | ⟨hnot, -⟩ := VariableLayout.rsqn_cases (q := q) hi
  · have hlocal : layout.blocks * q + i - q * layout.blocks = i := by
      rw [Nat.mul_comm, Nat.add_sub_cancel_left]
    dsimp only
    rw [hrsqn, hlocal]
  · exact absurd resolves hnot

/-- Otherwise it is looked for behind the end of a segment before. -/
theorem stReadVariableData_of_not (hq : q < 2 ^ 32) (hi : i < layout.blocks)
    (not_resolves : ¬ layout.Resolves q i) :
    stream.stReadVariableData handle (layout.blocks * q + i) dest pointer = none ∨
      stream.stReadVariableData handle (layout.blocks * q + i) dest pointer =
        some ⟨none, dest, none⟩ := by
  unfold stReadVariableData
  rw [if_neg (VariableLayout.reference_ne_emptyIndex hi hq), VariableLayout.rsqn_eq hi hq]
  obtain ⟨hresolves, -⟩ | ⟨-, hlt⟩ := VariableLayout.rsqn_cases (q := q) hi
  · exact absurd hresolves not_resolves
  generalize (layout.blocks * q + i) * layout.sizeHint.val / layout.segmentSize = rsqn at hlt
  have hlocal : layout.blocks ≤ layout.blocks * q + i - rsqn * layout.blocks := by
    have hmul := Nat.mul_le_mul_left layout.blocks (show rsqn + 1 ≤ q from hlt)
    rw [Nat.mul_add, Nat.mul_one, Nat.mul_comm layout.blocks rsqn] at hmul
    omega
  dsimp only
  by_cases hstored : ∃ segment, stream.segments[rsqn]? = some (some segment)
  · obtain ⟨segment, hstored⟩ := hstored
    have hfits := (stream.fits segment (List.mem_of_getElem? hstored)).trans_lt
      layout.lt_blocks_add
    have hraw : segment.rawEntryCount < layout.blocks + 1 := Nat.lt_of_mul_lt_mul_right hfits
    rw [readSegments_of_some hstored, if_pos (Nat.mul_le_mul_right _ (by omega))]
    exact .inl rfl
  · exact .inr (readSegments_of_ne fun segment heq => hstored ⟨segment, heq⟩)

/-- A query for the length writes nothing and returns what a call with a buffer returns as well. -/
def AnswersLength (stream : VariableStream layout) (handle : Option ℕ) (reference length : ℕ) :
    Prop :=
  ∀ dest, (∃ handle', stream.stReadVariableData handle reference dest 0 =
      some ⟨handle', dest, some length⟩) ∧
    ∀ pointer, pointer ≠ 0 → ∃ handle' dest', stream.stReadVariableData handle reference dest
      pointer = some ⟨handle', dest', some length⟩

theorem exists_write_ne {n : ℕ} {bs : List UInt8} (nonempty : bs ≠ []) :
    ∃ dest : Storage, dest.write n bs ≠ dest := by
  obtain ⟨b, bs, rfl⟩ := List.exists_cons_of_ne_nil nonempty
  refine ⟨⟨fun _ => if b = 0 then 1 else 0, 0⟩, fun h => ?_⟩
  have hpos : 0 < (b :: bs).length := Nat.succ_pos _
  have hcontent := congrArg (fun s => s.content (n + 0)) h
  dsimp only at hcontent
  rw [Storage.content_write_of_mem hpos, List.getElem_cons_zero] at hcontent
  split at hcontent
  · rename_i hb
    rw [hb] at hcontent
    exact absurd hcontent (by decide)
  · rename_i hb
    exact hb hcontent

/-- The length of an entry is returned without writing if and only if its reference leads to it and
it ends in its first segment. -/
theorem Holds.answersLength_iff (h : stream.Holds q i data k) (hi : i < layout.blocks) :
    stream.AnswersLength handle (layout.blocks * q + i) data.length ↔
      layout.Resolves q i ∧ k = 1 := by
  by_cases hresolves : layout.Resolves q i
  · have hread {dest : Storage} {pointer : ℕ} :
        stream.stReadVariableData handle (layout.blocks * q + i) dest pointer =
          stream.readSegments q i dest pointer 0 := stReadVariableData_eq h.lt_length hi hresolves
    have hbuffer (dest : Storage) (pointer : ℕ) (hpointer : pointer ≠ 0) : ∃ handle' dest',
        stream.stReadVariableData handle (layout.blocks * q + i) dest pointer =
          some ⟨handle', dest', some data.length⟩ := by
      obtain ⟨handle', hsegments⟩ := @Holds.readSegments _ _ _ _ _ _ dest _ 0 h hpointer
      rw [Nat.zero_add] at hsegments
      exact ⟨handle', _, hread.trans hsegments⟩
    constructor
    · intro hanswers
      refine ⟨hresolves, ?_⟩
      by_contra hk
      rcases h.readSegments_null with ⟨hone, -⟩ | ⟨-, n, -, hn, hwrites⟩
      · exact hk hone
      obtain ⟨dest, hdest⟩ := @exists_write_ne n (data.drop n) (by
        rw [Ne, List.drop_eq_nil_iff]
        omega)
      obtain ⟨⟨handle', hanswer⟩, -⟩ := hanswers dest
      obtain ⟨handle'', hsegments⟩ := hwrites dest 0
      rw [hread, hsegments] at hanswer
      exact hdest (congrArg ReadOutcome.dest (Option.some.inj hanswer))
    · rintro ⟨-, rfl⟩ dest
      refine ⟨?_, hbuffer dest⟩
      rcases h.readSegments_null with ⟨-, hsegments⟩ | ⟨hk, -⟩
      · obtain ⟨handle', hsegments⟩ := hsegments dest 0
        rw [Nat.zero_add] at hsegments
        exact ⟨handle', hread.trans hsegments⟩
      · exact absurd hk (lt_irrefl 1)
  · refine iff_of_false (fun hanswers => ?_) fun h => hresolves h.1
    obtain ⟨⟨handle', hread⟩, -⟩ := hanswers .empty
    rcases @stReadVariableData_of_not _ _ _ _ handle .empty 0 h.lt_length hi hresolves with
      heq | heq
    · rw [heq] at hread
      cases hread
    · rw [heq] at hread
      cases hread

theorem reference_writeSegments {appended : List Storage} {handle : WriteHandle}
    {source : List UInt8} {submitted : List (ℕ × DataSegment)} (reference saved : ℕ) :
    (layout.writeSegments reference saved appended handle source submitted).reference =
      reference := by
  induction appended generalizing handle source submitted with
  | nil =>
    rw [VariableLayout.writeSegments]
    split
    all_goals split <;> rfl
  | cons content appended ih =>
    rw [VariableLayout.writeSegments]
    split
    all_goals
      split
      · rfl
      · exact ih

/-- For an entry that was written and stored, a query for its length writes nothing if and only if
the entry is empty, or its reference leads to it and its first segment has room for all of it. -/
theorem answersLength_stWriteVariableData_iff {appended : List Storage} {handle : WriteHandle}
    {source : List UInt8} (valid : handle.Valid layout)
    (complete : (layout.stWriteVariableData appended handle source).sourceLength = 0)
    (stores : stream.Stores (layout.stWriteVariableData appended handle source))
    (reader : Option ℕ) :
    stream.AnswersLength reader (layout.stWriteVariableData appended handle source).reference
        source.length ↔
      source = [] ∨ (layout.Resolves (layout.start handle).1 (layout.start handle).2 ∧
        source.length ≤
          (layout.blocks - (layout.start handle).2) * layout.sizeHint.blockDataSize) := by
  unfold VariableLayout.stWriteVariableData at *
  rcases source with _ | ⟨b, source⟩
  · refine iff_of_true
      (fun dest => ⟨⟨reader, rfl⟩, fun pointer _ => ⟨reader, dest, rfl⟩⟩) (.inl rfl)
  · rw [if_neg (by simp)] at *
    have hholds := holds_of_writeSegments valid (by simp) complete stores
    rw [reference_writeSegments, VariableLayout.reference_eq valid,
      Holds.answersLength_iff hholds (layout.start_lt handle),
      segmentCount_eq_one_iff (List.cons_ne_nil b source)]
    simp

/-! ## An entry in two segments -/

theorem segmentSize_small : 2 ^ 26 < 2 ^ 32 := by decide

/-- Blocks of four bytes in segments of 64 MiB. -/
def smallBlocks : VariableLayout := ⟨smallHint, 2 ^ 26, by decide, segmentSize_small⟩

/-- The first segment of a stream. -/
def firstHandle : WriteHandle := ⟨0, ⟨.empty, 0, 0⟩, 0⟩

theorem valid_firstHandle : firstHandle.Valid smallBlocks := ⟨rfl, Nat.zero_le _⟩

/-- The last byte is behind the blocks of the first segment. -/
@[irreducible] def longSource : List UInt8 := List.replicate (2 ^ 25 + 1) 7

theorem length_longSource : longSource.length = 2 ^ 25 + 1 := by
  rw [longSource, List.length_replicate]

theorem longSource_ne_nil : longSource ≠ [] :=
  List.ne_nil_of_length_pos (length_longSource ▸ Nat.succ_pos _)

theorem stWriteVariableData_longSource : ∃ segment segment' : DataSegment,
    (segment.rawEntryCount = 2 ^ 24 ∧ segment.entryCount = 1) ∧
      (segment'.rawEntryCount = 1 ∧ segment'.entryCount = 0) ∧
      smallBlocks.stWriteVariableData [.empty] firstHandle longSource =
        ⟨0, 0, some ⟨1, segment', 4⟩, [(0, segment)]⟩ := by
  have hlength := length_longSource
  have hrest : (longSource.drop ((2 ^ 24 - 1 + 1) * 2)).length = 1 := by
    rw [List.length_drop, hlength]
    rfl
  obtain ⟨m, dest, hwritten, hle, -, hfull, -⟩ := VariableLayout.writeVariableData_of_room
    valid_firstHandle longSource_ne_nil (by decide)
  obtain ⟨m', dest', hwritten', -, hneeded, -⟩ := @VariableLayout.writeVariableData_of_room
    smallBlocks (VariableLayout.nextHandle firstHandle .empty)
    (longSource.drop ((2 ^ 24 - 1 + 1) * 2)) (VariableLayout.valid_nextHandle _ _)
    (List.ne_nil_of_length_pos (hrest ▸ Nat.one_pos)) (by decide)
  obtain rfl : m = 2 ^ 24 - 1 := by
    change 0 + (m + 1) ≤ 2 ^ 24 at hle
    change (m + 1) * 2 < longSource.length → 0 + (m + 1) = 2 ^ 24 at hfull
    omega
  obtain rfl : m' = 0 := by
    change m' * 2 < _ at hneeded
    omega
  have hnext : (longSource.drop ((2 ^ 24 - 1 + 1) * 2)).length ≠ longSource.length := by omega
  refine ⟨VariableLayout.writtenSegment longSource.length firstHandle longSource dest
      (2 ^ 24 - 1 + 1),
    VariableLayout.writtenSegment longSource.length
      (VariableLayout.nextHandle firstHandle .empty) (longSource.drop ((2 ^ 24 - 1 + 1) * 2))
      dest' 1, ⟨?_, ?_⟩, ⟨?_, ?_⟩, ?_⟩
  · rw [VariableLayout.rawEntryCount_writtenSegment]
    decide
  · rw [VariableLayout.entryCount_writtenSegment, if_pos rfl]
    rfl
  · rw [VariableLayout.rawEntryCount_writtenSegment]
    decide
  · rw [VariableLayout.entryCount_writtenSegment, if_neg hnext]
    rfl
  have hends : ¬ longSource.length ≤ (2 ^ 24 - 1 + 1) * smallBlocks.sizeHint.blockDataSize := by
    change ¬ longSource.length ≤ (2 ^ 24 - 1 + 1) * 2
    omega
  have hnil : ¬ longSource.length = 0 := by omega
  unfold VariableLayout.stWriteVariableData
  rw [if_neg hnil, VariableLayout.writeSegments_of_room (Nat.succ_pos _) hwritten, if_neg hends]
  refine (VariableLayout.writeSegments_of_room Nat.one_pos hwritten').trans (if_pos ?_)
  exact hrest.le.trans (by decide)

theorem exists_stores_longSource : ∃ stream : VariableStream smallBlocks,
    (smallBlocks.stWriteVariableData [.empty] firstHandle longSource).sourceLength = 0 ∧
      stream.Stores (smallBlocks.stWriteVariableData [.empty] firstHandle longSource) := by
  obtain ⟨segment, segment', ⟨hraw, -⟩, ⟨hraw', -⟩, houtcome⟩ := stWriteVariableData_longSource
  have hcontinues (s : DataSegment) : s.Continues smallBlocks s := ⟨le_rfl, fun _ _ => rfl⟩
  have hfits (s : DataSegment) (hs : some s ∈ [some segment, some segment']) :
      s.rawEntryCount * smallBlocks.sizeHint.val ≤ smallBlocks.segmentSize := by
    rcases List.mem_cons.mp hs with hs | hs
    · rw [Option.some.inj hs, hraw]
      decide
    · rw [Option.some.inj (List.mem_singleton.mp hs), hraw']
      decide
  rw [houtcome]
  refine ⟨⟨[some segment, some segment'], (by decide : 2 < 2 ^ 32), hfits⟩, rfl,
    fun s hs => ?_, fun handle hhandle => ?_⟩
  · obtain rfl := List.mem_singleton.mp hs
    exact ⟨segment, rfl, hcontinues segment, rfl⟩
  · obtain rfl := Option.some.inj hhandle
    exact ⟨segment', rfl, hcontinues segment'⟩

theorem answersLength_iff_longSource : ∃ stream : VariableStream smallBlocks,
    stream.AnswersLength none
        (smallBlocks.stWriteVariableData [.empty] firstHandle longSource).reference
        longSource.length ↔
      longSource = [] ∨
        (smallBlocks.Resolves (smallBlocks.start firstHandle).1
            (smallBlocks.start firstHandle).2 ∧
          longSource.length ≤ (smallBlocks.blocks - (smallBlocks.start firstHandle).2) *
            smallBlocks.sizeHint.blockDataSize) := by
  obtain ⟨stream, hcomplete, hstores⟩ := exists_stores_longSource
  exact ⟨stream, answersLength_stWriteVariableData_iff valid_firstHandle hcomplete hstores none⟩

/-- The query for the length writes the last byte. -/
theorem not_answersLength_longSource : ∃ stream : VariableStream smallBlocks,
    stream.Stores (smallBlocks.stWriteVariableData [.empty] firstHandle longSource) ∧
      ¬ stream.AnswersLength none
        (smallBlocks.stWriteVariableData [.empty] firstHandle longSource).reference
        longSource.length := by
  obtain ⟨stream, hcomplete, hstores⟩ := exists_stores_longSource
  refine ⟨stream, hstores, ?_⟩
  have hlength := length_longSource
  have hnil : ¬ longSource.length = 0 := by omega
  unfold VariableLayout.stWriteVariableData at *
  rw [if_neg hnil] at *
  have hholds := holds_of_writeSegments valid_firstHandle longSource_ne_nil hcomplete hstores
  have hreference : smallBlocks.reference firstHandle = smallBlocks.blocks * 0 + 0 := rfl
  rw [reference_writeSegments, hreference]
  intro hanswers
  have hk := (Holds.answersLength_iff hholds (by decide)).mp hanswers
  have hle := (segmentCount_eq_one_iff longSource_ne_nil).mp hk.2
  change longSource.length ≤ (2 ^ 24 - 0) * 2 at hle
  omega

end VariableStream

end Simutrace
