import Simutrace.VariableData.Chain

/-! # Reading entries back

Payloads that were written one after the other are read with the references that
were returned for them. A later payload does not change the blocks of the ones
before, so that each is read back exactly if its reference leads to it.
-/

namespace Simutrace

namespace VariableLayout

variable {layout : VariableLayout} {handle : WriteHandle} {source : List UInt8}
  {appended : List Storage} {submitted : List (ℕ × DataSegment)} {reference saved : ℕ}

def written (layout : VariableLayout) : List VariableWrite → WriteHandle →
    List (WriteHandle × VariableWrite)
  | [], _ => []
  | write :: writes, handle =>
    (handle, write) ::
      match (layout.stWriteVariableData write.appended handle write.source).handle with
      | none => []
      | some handle => written layout writes handle

end VariableLayout

theorem DataSegment.Continues.refl {layout : VariableLayout} (segment : DataSegment) :
    segment.Continues layout segment :=
  ⟨le_rfl, fun _ _ => rfl⟩

theorem DataSegment.Continues.trans {layout : VariableLayout} {s s' s'' : DataSegment}
    (h : s.Continues layout s') (h' : s'.Continues layout s'') : s.Continues layout s'' := by
  refine ⟨h.1.trans h'.1, fun i hi => (h'.2 i (hi.trans_le ?_)).trans (h.2 i hi)⟩
  exact Nat.mul_le_mul_right _ h.1

namespace VariableLayout

variable {layout : VariableLayout} {handle : WriteHandle} {source : List UInt8}
  {appended : List Storage} {submitted : List (ℕ × DataSegment)} {reference saved : ℕ}

def KeepsSegment (layout : VariableLayout) (handle : WriteHandle) (outcome : WriteOutcome) : Prop :=
  (∃ s ∈ outcome.submitted, s.1 = handle.sequenceNumber ∧ handle.segment.Continues layout s.2) ∨
    ∃ next ∈ outcome.handle, next.sequenceNumber = handle.sequenceNumber ∧
      handle.segment.Continues layout next.segment

theorem continues_writtenSegment {dest : Storage} {m : ℕ} (valid : handle.Valid layout)
    (room : handle.segment.rawEntryCount + (m + 1) ≤ layout.blocks)
    (keeps : KeepsOutside handle.entry ((m + 1) * layout.sizeHint.val) handle.segment.content
      dest) :
    handle.segment.Continues layout (writtenSegment saved handle source dest (m + 1)) := by
  have hlt := layout.blocks_lt
  have hraw : (writtenSegment saved handle source dest (m + 1)).rawEntryCount =
      handle.segment.rawEntryCount + (m + 1) := Nat.mod_eq_of_lt (by omega)
  refine ⟨hraw ▸ Nat.le_add_right _ _, fun i hi => keeps.2 i (.inl ?_)⟩
  rw [valid.entry]
  exact hi

theorem keepsSegment_writeSegments (valid : handle.Valid layout) (nonempty : source ≠ [])
    (complete : (layout.writeSegments reference saved appended handle source
      submitted).sourceLength = 0) :
    layout.KeepsSegment handle
      (layout.writeSegments reference saved appended handle source submitted) := by
  have hpos := List.length_pos_iff.mpr nonempty
  by_cases hroom : handle.segment.rawEntryCount < layout.blocks
  · obtain ⟨m, dest, hwritten, hle, -, -, hkeeps, -⟩ :=
      writeVariableData_of_room valid nonempty hroom
    have hcontinues : handle.segment.Continues layout
        (writtenSegment saved handle source dest (m + 1)) :=
      continues_writtenSegment valid hle hkeeps
    rw [writeSegments_of_room (by omega : 0 < m + 1) hwritten] at complete ⊢
    split at complete
    · rename_i hends
      rw [if_pos hends]
      exact .inr ⟨_, rfl, rfl, hcontinues⟩
    · rename_i hends
      rw [if_neg hends]
      cases appended with
      | nil =>
        dsimp only at complete
        omega
      | cons content appended =>
        exact .inl ⟨_, submitted_subset (List.mem_append_right _ List.mem_cons_self), rfl,
          hcontinues⟩
  · rw [writeSegments_of_full (writeVariableData_of_full valid hroom)] at complete ⊢
    cases appended with
    | nil =>
      dsimp only at complete
      omega
    | cons content appended =>
      exact .inl ⟨_, submitted_subset (List.mem_append_right _ List.mem_cons_self), rfl,
        .refl _⟩

theorem keepsSegment_stWriteVariableData (valid : handle.Valid layout)
    (complete : (layout.stWriteVariableData appended handle source).sourceLength = 0) :
    layout.KeepsSegment handle (layout.stWriteVariableData appended handle source) := by
  unfold stWriteVariableData at *
  by_cases hsource : source = []
  · rw [if_pos (by rw [hsource]; rfl)]
    exact .inr ⟨handle, rfl, rfl, .refl _⟩
  · have hlength : source.length ≠ 0 := mt List.length_eq_zero_iff.mp hsource
    rw [if_neg hlength] at *
    exact keepsSegment_writeSegments valid hsource complete

/-! ## Chains -/

variable {write : VariableWrite} {writes : List VariableWrite} {next : WriteHandle}

theorem written_cons (h : (layout.outcome (handle, write)).handle = some next) :
    layout.written (write :: writes) handle = (handle, write) :: layout.written writes next := by
  unfold outcome at h
  rw [written, h]

theorem head_mem_written : (handle, write) ∈ layout.written (write :: writes) handle :=
  List.mem_cons_self

theorem valid_outcome (valid : handle.Valid layout)
    (counted : handle.segment.entryCount ≤ handle.segment.rawEntryCount)
    (h : (layout.outcome (handle, write)).handle = some next) :
    next.Valid layout ∧ next.segment.entryCount ≤ next.segment.rawEntryCount := by
  obtain ⟨hvalid, hcounts, -⟩ := (continued_stWriteVariableData valid counted).handle next h
  exact ⟨hvalid, hcounts.2.1⟩

theorem snd_mem_of_mem_written {w : WriteHandle × VariableWrite}
    (h : w ∈ layout.written writes handle) : w.2 ∈ writes := by
  induction writes generalizing handle with
  | nil => cases h
  | cons write writes ih =>
    rcases List.mem_cons.mp h with rfl | h
    · exact List.mem_cons_self
    · split at h
      · cases h
      · exact List.mem_cons_of_mem _ (ih h)

theorem keepsSegment_submittedChain (valid : handle.Valid layout)
    (counted : handle.segment.entryCount ≤ handle.segment.rawEntryCount)
    (complete : ∀ w ∈ layout.written writes handle, (layout.outcome w).sourceLength = 0) :
    ∃ s ∈ layout.submittedChain writes handle, s.1 = handle.sequenceNumber ∧
      handle.segment.Continues layout s.2 := by
  induction writes generalizing handle with
  | nil => exact ⟨_, List.mem_cons_self, rfl, .refl _⟩
  | cons write writes ih =>
    rcases keepsSegment_stWriteVariableData valid (complete _ head_mem_written) with
      ⟨s, hs, hnumber, hcontinues⟩ | ⟨next, hnext, hnumber, hcontinues⟩
    · exact ⟨s, List.mem_append_left _ hs, hnumber, hcontinues⟩
    · obtain ⟨hvalid, hcounted⟩ := valid_outcome valid counted hnext
      rw [written_cons hnext] at complete
      obtain ⟨s, hs, hnumber', hcontinues'⟩ := ih hvalid hcounted fun w hw =>
        complete w (List.mem_cons_of_mem _ hw)
      rw [submittedChain_cons hnext]
      exact ⟨s, List.mem_append_right _ hs, hnumber'.trans hnumber,
        hcontinues.trans hcontinues'⟩

end VariableLayout

namespace VariableStream

variable {layout : VariableLayout} {stream : VariableStream layout} {handle : WriteHandle}
  {At At' : ℕ → DataSegment → Prop} {writes : List VariableWrite} {q i m k : ℕ}
  {data : List UInt8}

def HasSlots (stream : VariableStream layout) (submitted : List (ℕ × DataSegment)) : Prop :=
  ∀ s ∈ submitted, ∃ slot, stream.segments[s.1]? = some slot ∧ ∀ segment ∈ slot,
    s.2.Continues layout segment ∧ segment.rawEntryCount = s.2.rawEntryCount

/-- The segments of a chain are those of its payloads. -/
theorem stores_of_submittedChain (valid : handle.Valid layout)
    (counted : handle.segment.entryCount ≤ handle.segment.rawEntryCount)
    (complete : ∀ w ∈ layout.written writes handle, (layout.outcome w).sourceLength = 0)
    (stored : ∀ s ∈ layout.submittedChain writes handle, At s.1 s.2) :
    ∀ w ∈ layout.written writes handle,
      w.1.Valid layout ∧ layout.Stores At (layout.outcome w) := by
  induction writes generalizing handle with
  | nil => exact fun w hw => by cases hw
  | cons write writes ih =>
    have hsubmitted : ∀ s ∈ (layout.outcome (handle, write)).submitted, ∃ segment,
        At s.1 segment ∧ s.2.Continues layout segment ∧
          segment.rawEntryCount = s.2.rawEntryCount :=
      fun s hs => ⟨s.2, stored s (List.mem_append_left _ hs), .refl _, rfl⟩
    cases hnext : (layout.outcome (handle, write)).handle with
    | none =>
      intro w hw
      have hone : layout.written (write :: writes) handle = [(handle, write)] := by
        unfold VariableLayout.outcome at hnext
        rw [VariableLayout.written, hnext]
      obtain rfl := List.mem_singleton.mp (hone ▸ hw)
      exact ⟨valid, hsubmitted, fun next hn => by cases hnext.symm.trans hn⟩
    | some next =>
      obtain ⟨hvalid, hcounted⟩ := VariableLayout.valid_outcome valid counted hnext
      rw [VariableLayout.submittedChain_cons hnext] at stored
      rw [VariableLayout.written_cons hnext] at complete ⊢
      have hrest : ∀ w ∈ layout.written writes next, (layout.outcome w).sourceLength = 0 :=
        fun w hw => complete w (List.mem_cons_of_mem _ hw)
      have hstored : ∀ s ∈ layout.submittedChain writes next, At s.1 s.2 :=
        fun s hs => stored s (List.mem_append_right _ hs)
      intro w hw
      rcases List.mem_cons.mp hw with rfl | hw
      · refine ⟨valid, hsubmitted, fun next' hn => ?_⟩
        obtain rfl := Option.some.inj (hnext.symm.trans hn)
        obtain ⟨s, hs, hnumber, hcontinues⟩ :=
          VariableLayout.keepsSegment_submittedChain hvalid hcounted hrest
        exact ⟨s.2, hnumber ▸ hstored s hs, hcontinues⟩
      · exact ih hvalid hcounted hrest hstored w hw

/-- Any reader gets the payload and its length into its buffer. -/
def ReadsBack (stream : VariableStream layout) (reference : ℕ) (data : List UInt8) : Prop :=
  ∀ reader dest pointer, pointer ≠ 0 → ∃ reader',
    stream.stReadVariableData reader reference dest pointer =
      some ⟨reader', dest.write pointer data, some data.length⟩

theorem holdsBlocks_continued {segment segment' : DataSegment}
    (h : segment.Continues layout segment')
    (holds : HoldsBlocks layout.sizeHint segment.content (i * layout.sizeHint.val) data (m + 1))
    (room : i + (m + 1) ≤ segment.rawEntryCount) :
    HoldsBlocks layout.sizeHint segment'.content (i * layout.sizeHint.val) data (m + 1) := by
  refine holds.congr fun j _ hj => h.2 j (hj.trans_le ?_)
  rw [← Nat.add_mul]
  exact Nat.mul_le_mul_right _ room

theorem holds_mono (h : layout.Holds At q i data k)
    (mono : ∀ n, q ≤ n → n < q + k → ∀ segment, At n segment → ∃ segment', At' n segment' ∧
      segment.Continues layout segment' ∧ segment'.rawEntryCount = segment.rawEntryCount) :
    layout.Holds At' q i data k := by
  induction h with
  | @last q i m data segment stored holds needed ends room =>
    obtain ⟨segment', hstored, hcontinues, hraw⟩ := mono q le_rfl (by omega) segment stored
    exact .last hstored (holdsBlocks_continued hcontinues holds room) needed ends (hraw ▸ room)
  | @next q i m k data segment stored holds continued full rest ih =>
    obtain ⟨segment', hstored, hcontinues, hraw⟩ := mono q le_rfl (by omega) segment stored
    exact .next hstored (holdsBlocks_continued hcontinues holds full.le) continued
      (full.trans hraw.symm) (ih fun n hn hn' => mono n (by omega) (by omega))

theorem readSegments_of_missing {n : ℕ} (h : layout.Holds At q i data k)
    (kept : ∀ n segment, At n segment → ∀ segment', stream.HasSegment n segment' →
      segment.Continues layout segment' ∧ segment'.rawEntryCount = segment.rawEntryCount)
    (hn : q ≤ n) (hn' : n < q + k) (missing : ∀ segment, ¬ stream.HasSegment n segment)
    (dest : Storage) (pointer len : ℕ) :
    ∃ dest', stream.readSegments q i dest pointer len = some ⟨none, dest', none⟩ := by
  induction h generalizing dest pointer len with
  | @last q i m data segment stored holds needed ends room =>
    obtain rfl : n = q := by omega
    exact ⟨dest, readSegments_of_ne missing⟩
  | @next q i m k data segment stored holds continued full rest ih =>
    by_cases hsegment : ∃ segment', stream.HasSegment q segment'
    · obtain ⟨segment', hstored⟩ := hsegment
      obtain ⟨hcontinues, hraw⟩ := kept q segment stored segment' hstored
      have hne : n ≠ q := fun heq => missing segment' (heq ▸ hstored)
      rw [readSegments_of_next hstored (holdsBlocks_continued hcontinues holds full.le) continued
        (full.trans hraw.symm)]
      exact ih (by omega) (by omega) _ _ _
    · exact ⟨dest, readSegments_of_ne fun segment' hstored => hsegment ⟨segment', hstored⟩⟩

/-- An entry of the submitted segments is read back if its reference leads to it and none of its
segments was discarded. -/
theorem readsBack_iff {submitted : List (ℕ × DataSegment)}
    (h : layout.Holds (fun n segment => (n, segment) ∈ submitted) q i data k)
    (slots : stream.HasSlots submitted) (hi : i < layout.blocks) :
    stream.ReadsBack (layout.blocks * q + i) data ↔ layout.Resolves q i ∧
      ∀ n, q ≤ n → n < q + k → ∃ segment, stream.HasSegment n segment := by
  have hq : q < 2 ^ 32 := by
    obtain ⟨segment, hsegment⟩ : ∃ segment, (q, segment) ∈ submitted := by
      cases h with
      | last stored => exact ⟨_, stored⟩
      | next stored => exact ⟨_, stored⟩
    obtain ⟨slot, hslot, -⟩ := slots _ hsegment
    exact (List.getElem?_eq_some_iff.mp hslot).1.trans stream.length
  have hkept (n : ℕ) (segment : DataSegment) (hsegment : (n, segment) ∈ submitted)
      (segment' : DataSegment) (hstored : stream.HasSegment n segment') :
      segment.Continues layout segment' ∧ segment'.rawEntryCount = segment.rawEntryCount := by
    obtain ⟨slot, hslot, hall⟩ := slots _ hsegment
    obtain rfl := Option.some.inj (hslot.symm.trans hstored)
    exact hall segment' rfl
  constructor
  · intro hreads
    obtain ⟨reader', hread⟩ := hreads none .empty 1 Nat.one_ne_zero
    have hresolves : layout.Resolves q i := by
      by_contra hnot
      rcases stReadVariableData_of_not hq hi hnot with heq | heq
      · cases heq.symm.trans hread
      · cases congrArg ReadOutcome.length (Option.some.inj (heq.symm.trans hread))
    refine ⟨hresolves, fun n hn hn' => ?_⟩
    by_contra hmissing
    obtain ⟨dest', hfails⟩ := readSegments_of_missing h hkept hn hn'
      (fun segment hstored => hmissing ⟨segment, hstored⟩) .empty 1 0
    rw [stReadVariableData_eq hq hi hresolves, hfails] at hread
    cases congrArg ReadOutcome.length (Option.some.inj hread)
  · rintro ⟨hresolves, hstored⟩ reader dest pointer hpointer
    have hholds : stream.Holds q i data k := holds_mono h fun n hn hn' segment hsegment => by
      obtain ⟨segment', hstored'⟩ := hstored n hn hn'
      exact ⟨segment', hstored', hkept n segment hsegment segment' hstored'⟩
    obtain ⟨reader', hread⟩ := @Holds.readSegments _ _ _ _ _ _ dest _ 0 hholds hpointer
    rw [Nat.zero_add] at hread
    exact ⟨reader', (stReadVariableData_eq hq hi hresolves).trans hread⟩

theorem readsBack_outcome_iff {w : WriteHandle × VariableWrite}
    {submitted : List (ℕ × DataSegment)} (valid : w.1.Valid layout)
    (nonempty : w.2.source ≠ []) (complete : (layout.outcome w).sourceLength = 0)
    (stores : layout.Stores (fun n segment => (n, segment) ∈ submitted) (layout.outcome w))
    (slots : stream.HasSlots submitted) :
    stream.ReadsBack (layout.outcome w).reference w.2.source ↔
      layout.Resolves (layout.start w.1).1 (layout.start w.1).2 ∧
        ∀ n, (layout.start w.1).1 ≤ n →
          n < (layout.start w.1).1 + layout.segmentCount w.1 w.2.source.length →
          ∃ segment, stream.HasSegment n segment := by
  have hlength : w.2.source.length ≠ 0 := mt List.length_eq_zero_iff.mp nonempty
  unfold VariableLayout.outcome VariableLayout.stWriteVariableData at *
  rw [if_neg hlength] at *
  have hholds := holds_of_writeSegments valid nonempty complete stores
  rw [reference_writeSegments, VariableLayout.reference_eq valid]
  exact readsBack_iff hholds slots (layout.start_lt w.1)

/-- All payloads of a chain are read back exactly if the references of all of them lead to their
first blocks and no segment with blocks of theirs was discarded. -/
theorem readsBack_written_iff (valid : handle.Valid layout)
    (counted : handle.segment.entryCount ≤ handle.segment.rawEntryCount)
    (nonempty : ∀ write ∈ writes, write.source ≠ [])
    (complete : ∀ w ∈ layout.written writes handle, (layout.outcome w).sourceLength = 0)
    (slots : stream.HasSlots (layout.submittedChain writes handle)) :
    (∀ w ∈ layout.written writes handle,
        stream.ReadsBack (layout.outcome w).reference w.2.source) ↔
      ∀ w ∈ layout.written writes handle,
        layout.Resolves (layout.start w.1).1 (layout.start w.1).2 ∧
          ∀ n, (layout.start w.1).1 ≤ n →
            n < (layout.start w.1).1 + layout.segmentCount w.1 w.2.source.length →
            ∃ segment, stream.HasSegment n segment := by
  have hstores := @stores_of_submittedChain _ _ (fun n segment => (n, segment) ∈
    layout.submittedChain writes handle) _ valid counted complete fun s hs => hs
  refine forall₂_congr fun w hw => ?_
  exact readsBack_outcome_iff (hstores w hw).1
    (nonempty w.2 (VariableLayout.snd_mem_of_mem_written hw)) (complete w hw) (hstores w hw).2
    slots

/-! ## A payload in two segments and one behind it -/

/-- The byte is behind the last block of the long payload, in the second segment. -/
def longWrites : List VariableWrite := [⟨[.empty], longSource⟩, ⟨[], [7]⟩]

theorem submittedChain_longWrites : ∃ segment segment' : DataSegment,
    segment.rawEntryCount = 2 ^ 24 ∧ segment'.rawEntryCount = 2 ∧
      smallBlocks.submittedChain longWrites firstHandle = [(0, segment), (1, segment')] ∧
      ∀ w ∈ smallBlocks.written longWrites firstHandle,
        (smallBlocks.outcome w).sourceLength = 0 ∧
          (w = (firstHandle, ⟨[.empty], longSource⟩) ∨
            ∃ segment, w = (⟨1, segment, 4⟩, ⟨[], [7]⟩) ∧ segment.rawEntryCount = 1) := by
  obtain ⟨segment, segment', ⟨hraw, -⟩, ⟨hraw', -⟩, houtcome⟩ := stWriteVariableData_longSource
  have hvalid : (⟨1, segment', 4⟩ : WriteHandle).Valid smallBlocks := by
    refine ⟨?_, ?_⟩
    · rw [hraw']
      rfl
    · rw [hraw']
      decide
  obtain ⟨m, dest, hwritten, -, hneeded, -⟩ := VariableLayout.writeVariableData_of_room hvalid
    (List.cons_ne_nil 7 []) (show segment'.rawEntryCount < _ by rw [hraw']; decide)
  obtain rfl : m = 0 := by
    change m * 2 < 1 at hneeded
    omega
  have hfirst : smallBlocks.outcome (firstHandle, ⟨[.empty], longSource⟩) =
      ⟨0, 0, some ⟨1, segment', 4⟩, [(0, segment)]⟩ := houtcome
  have hsecond : smallBlocks.outcome (⟨1, segment', 4⟩, ⟨[], [7]⟩) =
      ⟨smallBlocks.reference ⟨1, segment', 4⟩, 0, some ⟨1, VariableLayout.writtenSegment 1
        ⟨1, segment', 4⟩ [7] dest 1, 8⟩, []⟩ := by
    unfold VariableLayout.outcome VariableLayout.stWriteVariableData
    rw [if_neg (show ¬ ([7] : List UInt8).length = 0 by decide)]
    exact VariableLayout.writeSegments_of_room Nat.one_pos hwritten
  have hnext : (smallBlocks.outcome (firstHandle, ⟨[.empty], longSource⟩)).handle =
      some ⟨1, segment', 4⟩ := by rw [hfirst]
  have hnext' := congrArg WriteOutcome.handle hsecond
  refine ⟨segment, VariableLayout.writtenSegment 1 ⟨1, segment', 4⟩ [7] dest 1, hraw, ?_, ?_,
    fun w hw => ?_⟩
  · rw [VariableLayout.rawEntryCount_writtenSegment]
    dsimp only
    rw [hraw']
    decide
  · rw [longWrites, VariableLayout.submittedChain_cons hnext,
      VariableLayout.submittedChain_cons hnext', hfirst, hsecond]
    rfl
  · rw [longWrites, VariableLayout.written_cons hnext, VariableLayout.written_cons hnext'] at hw
    rcases List.mem_cons.mp hw with rfl | hw
    · exact ⟨by rw [hfirst], .inl rfl⟩
    · obtain rfl := List.mem_singleton.mp hw
      exact ⟨by rw [hsecond], .inr ⟨segment', rfl, hraw'⟩⟩

theorem end_longSource : (smallBlocks.start firstHandle).1 +
    smallBlocks.segmentCount firstHandle longSource.length = 2 := by
  have hblocks : smallBlocks.blocks = 16777216 := by decide
  have hdata : smallBlocks.sizeHint.blockDataSize = 2 := rfl
  have hstart : smallBlocks.start firstHandle = (0, 0) := start_of_room smallBlocks.blocks_pos
  rw [VariableLayout.segmentCount, hblocks, hdata, hstart, length_longSource]
  decide

theorem end_oneByte {segment : DataSegment} (hraw : segment.rawEntryCount = 1) :
    (smallBlocks.start ⟨1, segment, 4⟩).1 + smallBlocks.segmentCount ⟨1, segment, 4⟩ 1 = 2 := by
  have hblocks : smallBlocks.blocks = 16777216 := by decide
  have hstart : smallBlocks.start ⟨1, segment, 4⟩ = (1, 1) := by
    rw [start_of_room (by rw [hraw, hblocks]; omega), hraw]
  rw [VariableLayout.segmentCount, hblocks, hstart, Nat.sub_self, Nat.zero_div]
  decide

theorem end_longWrites {w : WriteHandle × VariableWrite}
    (h : w = (firstHandle, ⟨[.empty], longSource⟩) ∨
      ∃ segment, w = (⟨1, segment, 4⟩, ⟨[], [7]⟩) ∧ segment.rawEntryCount = 1) :
    (smallBlocks.start w.1).1 + smallBlocks.segmentCount w.1 w.2.source.length = 2 := by
  rcases h with hw | ⟨segment, hw, hraw⟩
  · have hhandle : w.1 = firstHandle := congrArg Prod.fst hw
    have hsource : w.2.source = longSource := congrArg (fun w => w.2.source) hw
    rw [hhandle, hsource, end_longSource]
  · have hhandle : w.1 = ⟨1, segment, 4⟩ := congrArg Prod.fst hw
    have hlength : w.2.source.length = 1 := congrArg (fun w => w.2.source.length) hw
    rw [hhandle, hlength, end_oneByte hraw]

theorem readsBack_longWrites : ∃ stream : VariableStream smallBlocks,
    ∀ w ∈ smallBlocks.written longWrites firstHandle,
      stream.ReadsBack (smallBlocks.outcome w).reference w.2.source := by
  obtain ⟨segment, segment', hraw, hraw', hchain, hwritten⟩ := submittedChain_longWrites
  have hfits (s : DataSegment) (hs : some s ∈ [some segment, some segment']) :
      s.rawEntryCount * smallBlocks.sizeHint.val ≤ smallBlocks.segmentSize := by
    rcases List.mem_cons.mp hs with hs | hs
    · rw [Option.some.inj hs, hraw]
      decide
    · rw [Option.some.inj (List.mem_singleton.mp hs), hraw']
      decide
  obtain ⟨stream, hzero, hone⟩ : ∃ stream : VariableStream smallBlocks,
      stream.HasSegment 0 segment ∧ stream.HasSegment 1 segment' :=
    ⟨⟨[some segment, some segment'], (by decide : 2 < 2 ^ 32), hfits⟩, rfl, rfl⟩
  have hnonempty : ∀ write ∈ longWrites, write.source ≠ [] := by
    refine List.forall_mem_cons.mpr ⟨longSource_ne_nil, List.forall_mem_singleton.mpr ?_⟩
    exact List.cons_ne_nil _ _
  have hslots : stream.HasSlots (smallBlocks.submittedChain longWrites firstHandle) := by
    rw [hchain]
    refine List.forall_mem_cons.mpr ⟨⟨_, hzero, ?_⟩, List.forall_mem_singleton.mpr ⟨_, hone, ?_⟩⟩
    · rintro _ ⟨⟩
      exact ⟨.refl _, rfl⟩
    · rintro _ ⟨⟩
      exact ⟨.refl _, rfl⟩
  have hgap : smallBlocks.gap = 0 := by decide
  refine ⟨stream, (readsBack_written_iff valid_firstHandle le_rfl hnonempty
    (fun w hw => (hwritten w hw).1) hslots).mpr fun w hw => ⟨?_, fun n _ hn => ?_⟩⟩
  · rw [VariableLayout.Resolves, hgap, Nat.mul_zero]
    exact Nat.zero_le _
  · rw [end_longWrites (hwritten w hw).2] at hn
    obtain rfl | rfl : n = 0 ∨ n = 1 := by omega
    · exact ⟨segment, hzero⟩
    · exact ⟨segment', hone⟩

/-! ## A size hint that does not divide the segment size -/

/-- Blocks of six bytes in segments of 64 MiB. -/
def sixBytes : VariableLayout := ⟨⟨6, by decide, by decide⟩, 2 ^ 26, by decide, segmentSize_small⟩

def oneByte : VariableWrite := ⟨[], [7]⟩

def secondHandle : WriteHandle := .appended 1 .empty

theorem outcome_oneByte : ∃ segment : DataSegment, segment.rawEntryCount = 1 ∧
    sixBytes.outcome (secondHandle, oneByte) =
      ⟨sixBytes.blocks, 0, some ⟨1, segment, 6⟩, []⟩ := by
  have hvalid : secondHandle.Valid sixBytes := ⟨rfl, Nat.zero_le _⟩
  obtain ⟨m, dest, hwritten, -, hneeded, -⟩ := VariableLayout.writeVariableData_of_room hvalid
    (List.cons_ne_nil 7 []) sixBytes.blocks_pos
  obtain rfl : m = 0 := by
    change m * 4 < 1 at hneeded
    omega
  refine ⟨VariableLayout.writtenSegment 1 secondHandle [7] dest 1, rfl, ?_⟩
  unfold VariableLayout.outcome VariableLayout.stWriteVariableData
  rw [if_neg (show ¬ oneByte.source.length = 0 by decide)]
  exact VariableLayout.writeSegments_of_room Nat.one_pos hwritten

/-- The first segment was discarded because it was empty. The payload at the start of the second
one, which is stored, is not found. -/
theorem not_readsBack_oneByte : ∃ stream : VariableStream sixBytes,
    (∀ w ∈ sixBytes.written [oneByte] secondHandle, (sixBytes.outcome w).sourceLength = 0) ∧
    (∀ s ∈ sixBytes.submittedChain [oneByte] secondHandle, stream.HasSegment s.1 s.2) ∧
    ¬ ∀ w ∈ sixBytes.written [oneByte] secondHandle,
      stream.ReadsBack (sixBytes.outcome w).reference w.2.source := by
  obtain ⟨segment, hraw, houtcome⟩ := outcome_oneByte
  have hnext := congrArg WriteOutcome.handle houtcome
  have hchain : sixBytes.submittedChain [oneByte] secondHandle = [(1, segment)] := by
    rw [VariableLayout.submittedChain_cons hnext, houtcome]
    rfl
  have hwritten : sixBytes.written [oneByte] secondHandle = [(secondHandle, oneByte)] := by
    rw [VariableLayout.written_cons hnext]
    rfl
  have hfits (s : DataSegment) (hs : some s ∈ [none, some segment]) :
      s.rawEntryCount * sixBytes.sizeHint.val ≤ sixBytes.segmentSize := by
    rcases List.mem_cons.mp hs with hs | hs
    · cases hs
    · rw [Option.some.inj (List.mem_singleton.mp hs), hraw]
      decide
  refine ⟨⟨[none, some segment], (by decide : 2 < 2 ^ 32), hfits⟩, ?_, ?_, fun hreads => ?_⟩
  · rw [hwritten, List.forall_mem_singleton, houtcome]
  · rw [hchain, List.forall_mem_singleton]
    rfl
  · rw [hwritten, List.forall_mem_singleton, houtcome] at hreads
    obtain ⟨reader', hread⟩ := hreads none .empty 1 Nat.one_ne_zero
    rcases @stReadVariableData_of_not _ _ 1 0 none .empty 1 (by decide) sixBytes.blocks_pos
      (show ¬ 1 * sixBytes.gap ≤ 0 * 6 by decide) with heq | heq
    · rw [Nat.mul_one, Nat.add_zero] at heq
      cases heq.symm.trans hread
    · rw [Nat.mul_one, Nat.add_zero] at heq
      cases congrArg ReadOutcome.length (Option.some.inj (heq.symm.trans hread))

end VariableStream

end Simutrace
