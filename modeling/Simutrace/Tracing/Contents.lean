import Simutrace.Tracing.Perform

/-! # The entries of a stream

Whatever order the encodings end in, the entries of the segments are those that
the sessions submitted, in the order in which they were submitted. An entry moves
from the memory of the session to the one of the server, and from there to the
store.
-/

namespace Simutrace.Tracing

open ServerStream

variable {d : TracedStream} {t t' : Tracing d} {n m : StreamSegmentId} {id : SegmentId}
  {handle : TraceHandle} {memory : Option SessionId → SegmentId → BufferSegment}

/-- The handle has the segment that its session was given, and is behind the entries that were
submitted. -/
structure HandleValid (t : Tracing d) (handle : TraceHandle) : Prop where
  owner : ∃ loc, t.stream.segments handle.sequenceNumber = some loc ∧
    loc.New handle.sequenceNumber handle.session ∧ loc.id = some handle.segment
  count : (t.memory (d.side handle.session) handle.segment).rawEntryCount * d.stype.entrySize =
    handle.requested.getD handle.entry
  next : ∀ offset ∈ handle.requested, handle.entry = offset + d.stype.entrySize
  inside : handle.entry ≤ d.segmentSize

/-- No segment is lost, and the entries of all segments are those that were written. One handle is
open at most. -/
structure Inv (t : Tracing d) : Prop where
  tiled : t.writing.Tiled
  mapped : t.writing.server.Mapped
  present : ∀ n, t.stream.place n ≠ some .lost
  single : t.handles.length ≤ 1
  handle : ∀ handle ∈ t.handles, t.HandleValid handle
  encoding : ∀ n id, t.stream.place n = some (.encoding id) →
    t.writing.entryCount n * d.stype.entrySize ≤ d.segmentSize
  stored : ∀ n location, t.stream.place n = some (.stored location) →
    location.rawEntryCount = t.writing.entryCount n ∧
      (t.load n).length = t.writing.entryCount n * d.stype.entrySize
  written : t.entries = t.written

@[simp] theorem setMemory_self (t : Tracing d) (side : Option SessionId) (id : SegmentId)
    (segment : BufferSegment) : t.setMemory side id segment side id = segment := by
  simp [setMemory]

theorem setMemory_of_ne {side side' : Option SessionId} {id id' : SegmentId}
    (h : side' ≠ side ∨ id' ≠ id) (t : Tracing d) (segment : BufferSegment) :
    t.setMemory side id segment side' id' = t.memory side' id' := by
  unfold setMemory
  by_cases hside : side' = side
  · subst hside
    simp [Function.update_of_ne (h.resolve_left (not_not.mpr rfl))]
  · simp [Function.update_of_ne hside]

theorem HandleValid.place (h : t.HandleValid handle) :
    t.stream.place handle.sequenceNumber = some (.writing handle.segment) := by
  obtain ⟨loc, hloc, hnew, hid⟩ := h.owner
  rw [place_of_segment hloc, SegmentLocation.place_of_id hnew.new hid]

theorem Inv.eq_singleton (h : t.Inv) (hopened : handle ∈ t.handles) : t.handles = [handle] := by
  have hsingle := h.single
  cases hhandles : t.handles with
  | nil =>
    rw [hhandles] at hopened
    cases hopened
  | cons other rest =>
    rw [hhandles] at hopened hsingle
    obtain rfl := List.eq_nil_of_length_eq_zero (Nat.le_zero.mp (Nat.le_of_succ_le_succ hsingle))
    rw [List.mem_singleton.mp hopened]

theorem Inv.erase_eq_nil (h : t.Inv) (hopened : handle ∈ t.handles) :
    t.handles.erase handle = [] := by
  rw [h.eq_singleton hopened, List.erase_cons_head]

theorem Inv.eq_handle (h : t.Inv) (hopened : handle ∈ t.handles)
    (hplace : t.stream.place n = some (.writing id)) :
    n = handle.sequenceNumber ∧ id = handle.segment := by
  have hown := (h.handle handle hopened).place
  have hlast := (h.tiled.stream.last n (writable_iff_place.mpr ⟨id, hplace⟩)).1
  have hlast' := (h.tiled.stream.last _ (writable_iff_place.mpr ⟨_, hown⟩)).1
  obtain rfl := Option.some.inj (hlast.symm.trans hlast')
  rw [hplace] at hown
  simpa using hown

theorem Inv.ne_segment (h : t.Inv) (hopened : handle ∈ t.handles)
    (hplace : t.stream.place n = some (.encoding id)) : id ≠ handle.segment := by
  rintro rfl
  have hown := (h.handle handle hopened).place
  have hn := h.mapped.buffer_of_place (.inr hplace)
  have hn' := h.mapped.buffer_of_place (.inl hown)
  obtain rfl := Option.some.inj (hn.symm.trans hn')
  cases hplace.symm.trans hown

theorem writer_of_nil (h : t.handles = []) (n : StreamSegmentId) : t.writer n = none := by
  simp [writer, h]

theorem writer_of_singleton (h : t.handles = [handle]) :
    t.writer handle.sequenceNumber = d.side handle.session := by
  simp [writer, h]

theorem writer_of_ne (h : ∀ handle ∈ t.handles, handle.sequenceNumber ≠ n) :
    t.writer n = none := by
  have hnone : t.handles.find? (·.sequenceNumber = n) = none := by
    simpa [List.find?_eq_none] using h
  rw [writer, hnone]

theorem load_congr (h : t'.stored = t.stored) : t'.load n = t.load n := by
  simp [load, h]

theorem segmentEntries_congr (hplace : t'.stream.place n = t.stream.place n)
    (hcount : t'.writing.entryCount n = t.writing.entryCount n) (hload : t'.load n = t.load n)
    (hwriting : ∀ id, t.stream.place n = some (.writing id) →
      t'.memory (t'.writer n) id = t.memory (t.writer n) id)
    (hencoding : ∀ id, t.stream.place n = some (.encoding id) →
      t'.memory none id = t.memory none id) :
    t'.segmentEntries n = t.segmentEntries n := by
  unfold segmentEntries
  rw [hplace, hcount, hload]
  cases hp : t.stream.place n with
  | none => rfl
  | some p =>
    cases p with
    | writing id => dsimp only; rw [hwriting id hp]
    | encoding id => dsimp only; rw [hencoding id hp]
    | stored location => rfl
    | lost => rfl

theorem entries_congr (hsize : t'.stream.size = t.stream.size)
    (h : ∀ n, t'.segmentEntries n = t.segmentEntries n) : t'.entries = t.entries := by
  simp [entries, hsize, funext h]

theorem HandleValid.congr (h : t.HandleValid handle)
    (hsegment : t'.stream.segments handle.sequenceNumber = t.stream.segments handle.sequenceNumber)
    (hmemory : t'.memory (d.side handle.session) handle.segment =
      t.memory (d.side handle.session) handle.segment) : t'.HandleValid handle where
  owner := by
    rw [hsegment]
    exact h.owner
  count := by
    rw [hmemory]
    exact h.count
  next := h.next
  inside := h.inside

/-! ## Receiving the payload of a call -/

/-- The server has the data of the segment that is written, which the session keeps as well. -/
structure Received (t : Tracing d) (memory : Option SessionId → SegmentId → BufferSegment) :
    Prop where
  writing : ∀ n id, t.stream.place n = some (.writing id) →
    memory none id = t.memory (t.writer n) id ∧ memory (t.writer n) id = t.memory (t.writer n) id
  encoding : ∀ n id, t.stream.place n = some (.encoding id) → memory none id = t.memory none id

theorem HandleValid.getBufferMapping (h : t.HandleValid handle) (hw : t.stream.Written) :
    t.stream.getBufferMapping handle.sequenceNumber = some handle.segment := by
  obtain ⟨loc, hloc, -, hid⟩ := h.owner
  have hallocated : t.stream.SegmentIsAllocated handle.sequenceNumber :=
    ⟨hw.lt_size hloc, by simp [hloc]⟩
  simp [ServerStream.getBufferMapping, hallocated, hloc, hid]

theorem Inv.receive_eq (h : t.Inv) (hopened : handle ∈ t.handles) :
    t.receive (some handle) handle.sequenceNumber = some (if d.shared handle.session then t.memory
      else t.setMemory none handle.segment (t.memory (some handle.session) handle.segment)) := by
  unfold receive
  dsimp only
  split
  · rfl
  · rw [(h.handle handle hopened).getBufferMapping h.tiled.stream.written]
    rfl

theorem Inv.received_handle (h : t.Inv) (hopened : handle ∈ t.handles)
    (hr : t.receive (some handle) handle.sequenceNumber = some memory) : t.Received memory := by
  obtain rfl := Option.some.inj ((h.receive_eq hopened).symm.trans hr)
  constructor
  · intro n id hplace
    obtain ⟨rfl, rfl⟩ := h.eq_handle hopened hplace
    rw [writer_of_singleton (h.eq_singleton hopened)]
    unfold TracedStream.side
    cases d.shared handle.session with
    | true => simp
    | false => simp [setMemory_of_ne]
  · intro n id hplace
    split
    · rfl
    · exact setMemory_of_ne (.inr (h.ne_segment hopened hplace)) _ _

theorem received_none (hhandles : t.handles = []) (hr : t.receive none n = some memory) :
    t.Received memory := by
  obtain rfl := Option.some.inj hr
  exact ⟨fun _ _ _ => ⟨by rw [writer_of_nil hhandles], rfl⟩, fun _ _ _ => rfl⟩

/-! ## Closing segments -/

/-- A step that may close segments. Their data stays where it is, in the memory of the server if
they are not written any more. -/
structure Closes (t : Tracing d) (ignoreErrors : Bool) (submits : StreamSegmentId → SubmitOutcome)
    (t' : Tracing d) : Prop where
  closing : ∀ n, t.stream.Closing ignoreErrors (submits n) n t'.stream
  counts : t'.writing.entryCount =
    t.stream.recordCounts t'.stream submits t.writing.entryCount
  size : t'.stream.size = t.stream.size
  stored : t'.stored = t.stored
  written : t'.written = t.written
  encoding : ∀ n id, t.stream.place n = some (.encoding id) → t'.memory none id = t.memory none id
  kept : ∀ n id, t.stream.place n = some (.writing id) → t'.stream.place n = some (.writing id) →
    t'.memory (t'.writer n) id = t.memory (t.writer n) id
  ended : ∀ n id, t.stream.place n = some (.writing id) →
    t'.stream.place n ≠ some (.writing id) →
    t'.memory none id = t.memory (t.writer n) id ∧
      d.Submits (t.memory (t.writer n) id) (submits n) ∧
      (ignoreErrors = true → submits n = .failed → (t.memory (t.writer n) id).rawEntryCount = 0)

section

variable {ignoreErrors : Bool} {submits : StreamSegmentId → SubmitOutcome}

theorem Closes.entryCount (h : t.Closes ignoreErrors submits t')
    (hn : ∀ id, t.stream.place n ≠ some (.writing id)) :
    t'.writing.entryCount n = t.writing.entryCount n := by
  rw [h.counts]
  rcases (h.closing n).recordCounts t.writing.entryCount with
    heq | ⟨id, -, hwriting, -⟩
  · exact heq
  · exact absurd hwriting (hn id)

/-- A segment that was handed to the encoder has all the entries of the session. -/
theorem Closes.handed (h : t.Closes ignoreErrors submits t')
    (hwriting : t.stream.place n = some (.writing id))
    (hplace : t'.stream.place n = some (.encoding id)) :
    t'.memory none id = t.memory (t.writer n) id ∧
      t'.writing.entryCount n = (t.memory (t.writer n) id).rawEntryCount ∧
      t'.writing.entryCount n * d.stype.entrySize ≤ d.segmentSize := by
  obtain ⟨hdata, hsubmits, -⟩ := h.ended n id hwriting (by simp [hplace])
  refine ⟨hdata, ?_⟩
  cases h.closing n with
  | kept hkept => simp [hwriting, hplace] at hkept
  | dropped _ hdropped => cases hplace.symm.trans hdropped
  | @handed id' count _ _ submitted =>
    rw [submitted] at hsubmits
    obtain ⟨rfl, hfits⟩ := hsubmits
    have hcount : t'.writing.entryCount n = (t.memory (t.writer n) id).rawEntryCount := by
      have hw : t.stream.writable n = true := writable_iff_place.mpr ⟨id, hwriting⟩
      have hc : t'.stream.closed n = true := closed_iff_place.mpr ⟨_, hplace, by simp⟩
      simp [h.counts, ServerStream.recordCounts, hw, hc, submitted, SubmitOutcome.entryCount]
    refine ⟨hcount, ?_⟩
    rw [hcount, Nat.mul_comm]
    exact hfits

theorem Closes.segmentEntries (h : t.Closes ignoreErrors submits t') (n : StreamSegmentId) :
    t'.segmentEntries n = t.segmentEntries n := by
  cases h.closing n with
  | kept hplace =>
    by_cases hw : ∃ id, t.stream.place n = some (.writing id)
    · obtain ⟨id, hid⟩ := hw
      have hkept := h.kept n id hid (hplace.trans hid)
      simp [Tracing.segmentEntries, hplace, hid, hkept]
    · have hcount := h.entryCount fun id hid => hw ⟨id, hid⟩
      apply segmentEntries_congr hplace hcount (load_congr h.stored)
      · exact fun id hid => absurd ⟨id, hid⟩ hw
      · exact fun id hid => h.encoding n id hid
  | @dropped id hwriting hplace submitted =>
    obtain ⟨-, hsubmits, hfailed⟩ := h.ended n id hwriting (by simp [hplace])
    have hzero : (t.memory (t.writer n) id).rawEntryCount = 0 := by
      rcases submitted with heq | ⟨heq, hignore⟩
      · rw [heq] at hsubmits
        exact hsubmits
      · exact hfailed hignore heq
    simp [Tracing.segmentEntries, hwriting, hplace, hzero]
  | @handed id count hwriting hplace submitted =>
    obtain ⟨hdata, hcount, -⟩ := h.handed hwriting hplace
    simp [Tracing.segmentEntries, hwriting, hplace, hdata, hcount]

theorem Inv.closes (h : t.Inv) (ignoreErrors : Bool)
    (submits : StreamSegmentId → SubmitOutcome) (hc : t.Closes ignoreErrors submits t')
    (htiled : t'.writing.Tiled) (hmapped : t'.writing.server.Mapped)
    (hsingle : t'.handles.length ≤ 1)
    (hhandle : ∀ handle ∈ t'.handles, t'.HandleValid handle) : t'.Inv where
  tiled := htiled
  mapped := hmapped
  present n := (hc.closing n).ne_lost (h.present n)
  single := hsingle
  handle := hhandle
  encoding n id hplace := by
    cases hc.closing n with
    | kept hkept =>
      have hold := hkept.symm.trans hplace
      rw [hc.entryCount (by simp [hold])]
      exact h.encoding n id hold
    | dropped _ hdropped => cases hplace.symm.trans hdropped
    | handed hwriting hencoding =>
      obtain rfl : _ = id := by simpa using hencoding.symm.trans hplace
      exact (hc.handed hwriting hencoding).2.2
  stored n location hplace := by
    cases hc.closing n with
    | kept hkept =>
      have hold := hkept.symm.trans hplace
      rw [hc.entryCount (by simp [hold]), load_congr hc.stored]
      exact h.stored n location hold
    | dropped _ hdropped => cases hplace.symm.trans hdropped
    | handed _ hencoding => cases hplace.symm.trans hencoding
  written := by
    rw [entries_congr hc.size hc.segmentEntries, h.written, hc.written]

end

/-! ## The steps of the session -/

theorem Inv.getNextEntry (h : t.Inv) (hopened : handle ∈ t.handles)
    (hsubmitted : handle.requested = none)
    (hroom : handle.entry + d.stype.entrySize ≤ d.segmentSize) : (t.getNextEntry handle).Inv := by
  have hvalid := h.handle handle hopened
  have hhandles : (t.getNextEntry handle).handles = [{ handle with
      entry := handle.entry + d.stype.entrySize
      requested := some handle.entry }] := by
    rw [Tracing.getNextEntry, h.erase_eq_nil hopened]
  have hentries : (t.getNextEntry handle).entries = t.entries := by
    refine entries_congr rfl fun n => segmentEntries_congr rfl rfl rfl ?_ fun _ _ => rfl
    intro id hplace
    obtain ⟨rfl, rfl⟩ := h.eq_handle hopened hplace
    have hwriter : (t.getNextEntry handle).writer handle.sequenceNumber =
        d.side handle.session := by simp [writer, hhandles]
    rw [writer_of_singleton (h.eq_singleton hopened), hwriter]
    rfl
  refine ⟨h.tiled, h.mapped, h.present, by rw [hhandles]; exact le_rfl, ?_, h.encoding, h.stored,
    hentries.trans h.written⟩
  intro next hnext
  rw [hhandles, List.mem_singleton] at hnext
  subst hnext
  constructor
  · exact hvalid.owner
  · have hcount := hvalid.count
    rw [hsubmitted] at hcount
    exact hcount
  · rintro _ ⟨⟩
    rfl
  · exact hroom

theorem Inv.releaseHandle (h : t.Inv) (hopened : handle ∈ t.handles)
    (hshared : d.shared handle.session = true) : (t.releaseHandle handle).Inv := by
  have hhandles : (t.releaseHandle handle).handles = [] := h.erase_eq_nil hopened
  have hentries : (t.releaseHandle handle).entries = t.entries := by
    refine entries_congr rfl fun n => segmentEntries_congr rfl rfl rfl ?_ fun _ _ => rfl
    intro id hplace
    obtain ⟨rfl, -⟩ := h.eq_handle hopened hplace
    rw [writer_of_nil hhandles, writer_of_singleton (h.eq_singleton hopened), TracedStream.side,
      if_pos hshared]
    rfl
  exact ⟨h.tiled, h.mapped, h.present, by simp [hhandles], by simp [hhandles], h.encoding, h.stored,
    hentries.trans h.written⟩

theorem HandleValid.submitEntry {offset : ℕ} (h : t.HandleValid handle)
    (hrequested : handle.requested = some offset) (entry : List UInt8) :
    offset = (t.memory (d.side handle.session) handle.segment).rawEntryCount * d.stype.entrySize ∧
      (t.memory (d.side handle.session) handle.segment).submitEntry offset entry =
        ⟨(t.memory (d.side handle.session) handle.segment).data.write offset entry,
          (t.memory (d.side handle.session) handle.segment).rawEntryCount + 1⟩ := by
  have hcount := h.count
  have hnext := h.next offset hrequested
  have hinside := h.inside
  have hsmall := d.small
  rw [hrequested, Option.getD_some] at hcount
  refine ⟨hcount.symm, ?_⟩
  have hle : (t.memory (d.side handle.session) handle.segment).rawEntryCount + 1 ≤
      ((t.memory (d.side handle.session) handle.segment).rawEntryCount + 1) * d.stype.entrySize :=
    Nat.le_mul_of_pos_right _ d.stype.pos
  rw [Nat.succ_mul] at hle
  rw [BufferSegment.submitEntry, Nat.mod_eq_of_lt (by omega)]

theorem Inv.submitEntry {offset : ℕ} {entry : List UInt8} (h : t.Inv)
    (hopened : handle ∈ t.handles) (hrequested : handle.requested = some offset)
    (hsize : entry.length = d.stype.entrySize) : (t.submitEntry handle offset entry).Inv := by
  have hvalid := h.handle handle hopened
  have hhandles : (t.submitEntry handle offset entry).handles =
      [{ handle with requested := none }] := by
    rw [Tracing.submitEntry, h.erase_eq_nil hopened]
  obtain ⟨hoffset, hsubmitted⟩ := hvalid.submitEntry hrequested entry
  have hnext := hvalid.next offset hrequested
  have hplace := hvalid.place
  have hself : (t.submitEntry handle offset entry).memory (d.side handle.session) handle.segment =
      ⟨(t.memory (d.side handle.session) handle.segment).data.write offset entry,
        (t.memory (d.side handle.session) handle.segment).rawEntryCount + 1⟩ := by
    rw [← hsubmitted]
    exact setMemory_self ..
  have hlast : (t.submitEntry handle offset entry).segmentEntries handle.sequenceNumber =
      t.segmentEntries handle.sequenceNumber ++ [entry] := by
    have hplace' : (t.submitEntry handle offset entry).stream.place handle.sequenceNumber =
        some (.writing handle.segment) := hplace
    have hwriter : (t.submitEntry handle offset entry).writer handle.sequenceNumber =
        d.side handle.session := by simp [writer, hhandles]
    simp only [segmentEntries, hplace, hplace', hwriter,
      writer_of_singleton (h.eq_singleton hopened), hself]
    rw [hoffset]
    exact Storage.records_write _ hsize
  have hothers (n : StreamSegmentId) (hn : n ≠ handle.sequenceNumber) :
      (t.submitEntry handle offset entry).segmentEntries n = t.segmentEntries n := by
    refine segmentEntries_congr rfl rfl rfl (fun id hid => ?_) fun id hid => ?_
    · exact absurd (h.eq_handle hopened hid).1 hn
    · exact setMemory_of_ne (.inr (h.ne_segment hopened hid)) _ _
  have hentries : (t.submitEntry handle offset entry).entries = t.entries ++ [entry] := by
    obtain ⟨-, hsize, -⟩ := h.tiled.stream.last _ (writable_iff_place.mpr ⟨_, hplace⟩)
    have hsize' : (t.submitEntry handle offset entry).stream.size = handle.sequenceNumber + 1 :=
      hsize.symm
    unfold entries
    rw [hsize', ← hsize, List.range_succ, List.flatMap_append, List.flatMap_append,
      List.append_assoc]
    congr 1
    · exact List.flatMap_congr fun n hn => hothers n (List.mem_range.mp hn).ne
    · simp [hlast]
  refine ⟨h.tiled, h.mapped, h.present, by rw [hhandles]; exact le_rfl, ?_, h.encoding, h.stored,
    ?_⟩
  · intro next hnext
    rw [hhandles, List.mem_singleton] at hnext
    subst hnext
    constructor
    · exact hvalid.owner
    · simp only [hself, Option.getD_none]
      rw [Nat.succ_mul, ← hoffset, hnext]
    · rintro _ ⟨⟩
    · exact hvalid.inside
  · rw [hentries, h.written]
    rfl

/-! ## The steps of the server -/

theorem Inv.getCurrentSegmentId (h : t.Inv) (hopened : handle ∈ t.handles) :
    handle.sequenceNumber = t.stream.getCurrentSegmentId := by
  have hplace := (h.handle handle hopened).place
  obtain ⟨hlast, -⟩ := h.tiled.stream.last _ (writable_iff_place.mpr ⟨_, hplace⟩)
  simp [ServerStream.getCurrentSegmentId, hlast]

theorem Inv.otherHandles_eq_nil {passed : Option TraceHandle} (h : t.Inv)
    (opened : ∀ handle ∈ passed, handle ∈ t.handles)
    (only : ∀ handle ∈ t.handles, passed = some handle) : t.otherHandles passed = [] := by
  cases passed with
  | none =>
    refine List.eq_nil_iff_forall_not_mem.mpr fun handle hopened => ?_
    cases only handle hopened
  | some handle => exact h.erase_eq_nil (opened handle rfl)

theorem Inv.received {passed : Option TraceHandle} (h : t.Inv)
    (hr : t.receive passed t.stream.getCurrentSegmentId = some memory)
    (opened : ∀ handle ∈ passed, handle ∈ t.handles)
    (only : ∀ handle ∈ t.handles, passed = some handle) : t.Received memory := by
  cases passed with
  | none => exact received_none (h.otherHandles_eq_nil opened only) hr
  | some handle =>
    have hopened := opened handle rfl
    rw [← h.getCurrentSegmentId hopened] at hr
    exact h.received_handle hopened hr

theorem Inv.closes_received {submit : SubmitOutcome} {w : Writing} {handles : List TraceHandle}
    (h : t.Inv) (hr : t.Received memory) (submits : t.SubmitsAll memory fun _ => submit)
    (htiled : w.Tiled) (hmapped : w.server.Mapped)
    (hclosing : ∀ n, t.stream.Closing false submit n w.server.stream)
    (hcounts : w.entryCount =
      t.stream.recordCounts w.server.stream (fun _ => submit) t.writing.entryCount)
    (hsize : w.server.stream.size = t.stream.size) (hhandles : handles = [] ∨ handles = t.handles)
    (hvalid : ∀ handle ∈ handles,
      HandleValid { t with writing := w, memory := memory, handles := handles } handle) :
    Inv { t with writing := w, memory := memory, handles := handles } := by
  have hsingle : handles.length ≤ 1 := by
    rcases hhandles with rfl | rfl
    · exact Nat.zero_le 1
    · exact h.single
  refine h.closes false (fun _ => submit) ?_ htiled hmapped hsingle hvalid
  constructor
  · exact hclosing
  · exact hcounts
  · exact hsize
  · rfl
  · rfl
  · exact hr.encoding
  · intro n id hplace _
    rcases hhandles with rfl | rfl
    · exact (hr.writing n id hplace).1
    · exact (hr.writing n id hplace).2
  · intro n id hplace _
    have hdata := (hr.writing n id hplace).1
    exact ⟨hdata, hdata ▸ submits n id hplace, by rintro ⟨⟩⟩

theorem Inv.closes_others {ignoreErrors : Bool} {submits : StreamSegmentId → SubmitOutcome}
    {s : ServerState} (h : t.Inv) (htiled : (t.writing.record s submits).Tiled)
    (hmapped : s.Mapped) (hclosing : ∀ n, t.stream.Closing ignoreErrors (submits n) n s.stream)
    (hsize : s.stream.size = t.stream.size)
    (hown : ∀ handle ∈ t.handles,
      s.stream.segments handle.sequenceNumber = t.stream.segments handle.sequenceNumber)
    (hended : ∀ n, s.stream.place n ≠ t.stream.place n → t.Keeps ignoreErrors (submits n) n)
    (hsubmits : t.SubmitsAll t.memory submits) :
    Inv { t with writing := t.writing.record s submits } := by
  refine h.closes ignoreErrors submits ?_ htiled hmapped h.single
    fun handle hhandle => (h.handle handle hhandle).congr (hown handle hhandle) rfl
  constructor
  · exact hclosing
  · rfl
  · exact hsize
  · rfl
  · rfl
  · exact fun _ _ _ => rfl
  · exact fun _ _ _ _ => rfl
  · intro n id hplace hne
    have hchanged : s.stream.place n ≠ t.stream.place n := hplace ▸ hne
    have hwriter : t.writer n = none := by
      apply writer_of_ne
      rintro handle hhandle rfl
      exact hchanged (place_congr (hown handle hhandle))
    rw [hwriter]
    exact ⟨rfl, hsubmits n id hplace,
      fun hignore hfailed => hended n hchanged hignore hfailed id hplace⟩

theorem Inv.append {passed : Option TraceHandle} {session : SessionId} {submit : SubmitOutcome}
    {w : Writing} (h : t.Inv) (opened : ∀ handle ∈ passed, handle ∈ t.handles)
    (only : ∀ handle ∈ t.handles, passed = some handle)
    (received : t.receive passed t.stream.getCurrentSegmentId = some memory)
    (submits : t.SubmitsAll memory fun _ => submit)
    (step : t.writing.Step (.submitLast session none submit) w) :
    Inv { t with writing := w, memory := memory, handles := t.otherHandles passed } := by
  have htiled := Writing.tiled_step h.tiled ⟨step, trivial⟩
  have hmapped := Writing.mapped_step h.mapped step
  have hr := h.received received opened only
  have hnil := h.otherHandles_eq_nil opened only
  have hwritten := h.tiled.stream.written
  cases step with
  | @submitLast _ _ _ s _ unlocked possible submitted =>
    have hsize : s.stream.size = t.stream.size := by
      rcases ServerState.closings_submitLast hwritten possible submitted with
        ⟨rfl, -⟩ | ⟨n, loc, owner, -, -, -, -, hc⟩
      · rfl
      · exact hc.size_eq
    have hclosing := ServerState.closing_submitLast hwritten possible submitted
    exact h.closes_received hr submits htiled hmapped hclosing rfl hsize (.inl hnil)
      (by simp [hnil])

theorem Inv.closeHandle {submit : SubmitOutcome} {s : ServerState} {throws : Bool} (h : t.Inv)
    (opened : handle ∈ t.handles)
    (received : t.receive (some handle) handle.sequenceNumber = some memory)
    (submits : t.SubmitsAll memory fun _ => submit)
    (possible : ∀ loc, t.stream.segments handle.sequenceNumber = some loc → submit.Possible loc)
    (closed : t.writing.server.close handle.session handle.sequenceNumber none false submit =
      some (s, throws)) :
    Inv { t with
      writing := t.writing.record s fun _ => submit
      memory := memory
      handles := if throws then t.handles else t.handles.erase handle } := by
  have hstep : t.writing.Step
      (.close handle.session handle.sequenceNumber none false submit)
      (t.writing.record s fun _ => submit) := .close possible closed
  have htiled := Writing.tiled_step h.tiled ⟨hstep, trivial⟩
  have hmapped := Writing.mapped_step h.mapped hstep
  have hwritten := h.tiled.stream.written
  have hvalid := h.handle handle opened
  have hr := h.received_handle opened received
  have hclosing := (ServerState.closing_close hwritten possible closed).1
  have hsize := (ServerState.closings_close hwritten possible closed).size_eq
  cases throws with
  | false =>
    have hnil := h.erase_eq_nil opened
    exact h.closes_received hr submits htiled hmapped hclosing rfl hsize (.inl hnil)
      (by simp [hnil])
  | true =>
    refine h.closes_received hr submits htiled hmapped hclosing rfl hsize (.inr rfl)
      fun other hother => ?_
    obtain rfl := List.mem_singleton.mp (h.eq_singleton opened ▸ hother)
    obtain rfl := ServerState.close_of_throws hwritten possible hvalid.place closed
    refine hvalid.congr rfl ?_
    have hwriting := (hr.writing _ _ hvalid.place).2
    rw [writer_of_singleton (h.eq_singleton opened)] at hwriting
    exact hwriting

theorem Inv.close {session : SessionId} {wait : Option WaitId} {ignoreErrors : Bool}
    {submit : SubmitOutcome} {w : Writing} (h : t.Inv)
    (other : ∀ handle ∈ t.handles, handle.sequenceNumber ≠ n)
    (submits : t.SubmitsAll t.memory fun _ => submit)
    (keeps : t.Keeps ignoreErrors submit n)
    (step : t.writing.Step (.close session n wait ignoreErrors submit) w) :
    Inv { t with writing := w } := by
  have htiled := Writing.tiled_step h.tiled ⟨step, trivial⟩
  have hmapped := Writing.mapped_step h.mapped step
  have hwritten := h.tiled.stream.written
  cases step with
  | close possible closed =>
    obtain ⟨hclosing, hothers⟩ := ServerState.closing_close hwritten possible closed
    have hsize := (ServerState.closings_close hwritten possible closed).size_eq
    refine h.closes_others htiled hmapped hclosing hsize ?_ (fun m hm => ?_) submits
    · exact fun handle hhandle => hothers _ (other handle hhandle)
    · by_cases hmn : m = n
      · rwa [hmn]
      · exact absurd (place_congr (hothers m hmn)) hm

theorem Inv.closeSession {session : SessionId} {wait : Option WaitId} {ignoreErrors : Bool}
    {submit : StreamSegmentId → SubmitOutcome} {w : Writing} (h : t.Inv)
    (other : ∀ handle ∈ t.handles, handle.session ≠ session)
    (submits : t.SubmitsAll t.memory submit)
    (keeps : ∀ n, t.Keeps ignoreErrors (submit n) n)
    (step : t.writing.Step (.closeSession session wait ignoreErrors submit) w) :
    Inv { t with writing := w } := by
  have htiled := Writing.tiled_step h.tiled ⟨step, trivial⟩
  have hmapped := Writing.mapped_step h.mapped step
  have hwritten := h.tiled.stream.written
  cases step with
  | closeSession possible closed =>
    have hclosing := ServerState.closing_closeSession hwritten possible closed
    have hclosings := ServerState.closings_closeSession hwritten possible closed
    refine h.closes_others htiled hmapped hclosing hclosings.size_eq ?_ (fun n _ => keeps n) submits
    intro handle hhandle
    apply hclosings.segment_eq
    intro loc hloc hmem
    obtain ⟨loc', hloc', hnew, -⟩ := (h.handle handle hhandle).owner
    obtain rfl := Option.some.inj (hloc.symm.trans hloc')
    exact other handle hhandle ((Writing.mem_of_new hnew).mp hmem).symm

theorem Inv.handles_eq_nil (h : t.Inv) (happending : t.writing.appending ≠ none) :
    t.handles = [] := by
  by_contra hne
  obtain ⟨handle, hhandle⟩ := List.exists_mem_of_ne_nil _ hne
  have hplace := (h.handle handle hhandle).place
  obtain ⟨hlast, -⟩ := h.tiled.stream.last _ (writable_iff_place.mpr ⟨_, hplace⟩)
  cases hlast.symm.trans (h.tiled.idle happending)

theorem prepareSegment_of_ne {session : SessionId} {answered : Bool} {new : Option SegmentId}
    {side : Option SessionId} (hne : new ≠ some id) :
    t.prepareSegment session answered new side id = t.memory side id := by
  unfold prepareSegment
  cases new with
  | none => rfl
  | some i =>
    have hid : id ≠ i := fun heq => hne (congrArg some heq.symm)
    cases answered with
    | false => exact setMemory_of_ne (.inr hid) _ _
    | true => exact (setMemory_of_ne (.inr hid) _ _).trans (setMemory_of_ne (.inr hid) _ _)

theorem rawEntryCount_prepareSegment (t : Tracing d) (session : SessionId) (answered : Bool)
    (id : SegmentId) : (t.prepareSegment session answered (some id) none id).rawEntryCount = 0 ∧
      (answered = true →
        (t.prepareSegment session answered (some id) (d.side session) id).rawEntryCount = 0) := by
  unfold prepareSegment
  cases answered with
  | false => simp [BufferSegment.clear]
  | true =>
    refine ⟨?_, fun _ => by simp [BufferSegment.clear]⟩
    by_cases hside : d.side session = none
    · simp [hside, BufferSegment.clear]
    · simp [setMemory_of_ne (.inl (Ne.symm hside)), BufferSegment.clear]

theorem allocateNext_cases {w : Writing} (h : w.server.stream.Written) (session : SessionId)
    (id : Option SegmentId) :
    (w.allocateNext session id = { w with appending := none } ∧
      (id = none ∨ w.server.stream.nextSequenceNumber = invalidStreamSegmentId)) ∨
    ∃ i, id = some i ∧ w.server.stream.nextSequenceNumber ≠ invalidStreamSegmentId ∧
      (w.allocateNext session id).server.stream = w.server.stream.append session i ∧
      (w.allocateNext session id).entryCount =
        Function.update w.entryCount w.server.stream.size 0 := by
  unfold Writing.allocateNext
  cases id with
  | none => exact .inl ⟨rfl, .inl rfl⟩
  | some i =>
    dsimp only
    by_cases hn : w.server.stream.nextSequenceNumber = invalidStreamSegmentId
    · rw [if_pos hn]
      exact .inl ⟨rfl, .inr hn⟩
    · refine .inr ⟨i, rfl, hn, ?_⟩
      rw [if_neg hn, h.slots.nextSequenceNumber]
      exact ⟨rfl, rfl⟩

/-- The entries are not changed by a step without a handle that leaves the stream alone. -/
theorem Inv.of_stream (h : t.Inv) (htiled : t'.writing.Tiled)
    (hmapped : t'.writing.server.Mapped) (hhandles : t.handles = []) (hhandles' : t'.handles = [])
    (hstream : t'.stream = t.stream) (hcount : t'.writing.entryCount = t.writing.entryCount)
    (hstored : t'.stored = t.stored) (hwritten : t'.written = t.written)
    (hmemory : ∀ n id, t.stream.place n = some (.writing id) ∨
      t.stream.place n = some (.encoding id) → t'.memory none id = t.memory none id) :
    t'.Inv := by
  have hentries : t'.entries = t.entries := by
    refine entries_congr (by rw [hstream]) fun n => ?_
    apply segmentEntries_congr (by rw [hstream]) (by rw [hcount]) (load_congr hstored)
    · intro id hid
      rw [writer_of_nil hhandles, writer_of_nil hhandles']
      exact hmemory n id (.inl hid)
    · exact fun id hid => hmemory n id (.inr hid)
  refine ⟨htiled, hmapped, ?_, by simp [hhandles'], by simp [hhandles'], ?_, ?_, ?_⟩
  · simpa only [hstream] using h.present
  · simpa only [hstream, hcount] using h.encoding
  · intro n location hplace
    rw [load_congr hstored, hcount]
    exact h.stored n location (hstream ▸ hplace)
  · rw [hentries, h.written, hwritten]

theorem place_append {session : SessionId} {i : SegmentId} (s : ServerStream)
    (n : StreamSegmentId) :
    (s.append session i).place n = if n = s.size then some (.writing i) else s.place n := by
  by_cases hn : n = s.size
  · simp [ServerStream.place, segments_append, hn, SegmentLocation.place, SegmentLocation.allocated]
  · simp [ServerStream.place, segments_append, hn]

theorem entries_of_append {session : SessionId} {i : SegmentId}
    (hhandles : t.handles = [])
    (hnew : ∀ handle ∈ t'.handles, handle = ⟨session, i, t.stream.size, 0, none⟩ ∧
      (t'.memory (d.side session) i).rawEntryCount = 0)
    (hstream : t'.stream = t.stream.append session i)
    (hcount : t'.writing.entryCount = Function.update t.writing.entryCount t.stream.size 0)
    (hstored : t'.stored = t.stored)
    (hmemory : ∀ n id, t.stream.place n = some (.writing id) ∨
      t.stream.place n = some (.encoding id) → t'.memory none id = t.memory none id)
    (hzero : (t'.memory none i).rawEntryCount = 0) : t'.entries = t.entries := by
  have hplace (n : StreamSegmentId) : t'.stream.place n =
      if n = t.stream.size then some (.writing i) else t.stream.place n := by
    rw [hstream, place_append]
  have hself : t'.stream.place t.stream.size = some (.writing i) := by rw [hplace, if_pos rfl]
  have hwriter (n : StreamSegmentId) (hn : n ≠ t.stream.size) : t'.writer n = none := by
    refine writer_of_ne fun handle hh => ?_
    obtain ⟨rfl, -⟩ := hnew handle hh
    exact Ne.symm hn
  have hothers (n : StreamSegmentId) (hn : n ≠ t.stream.size) :
      t'.segmentEntries n = t.segmentEntries n := by
    apply segmentEntries_congr
    · rw [hplace, if_neg hn]
    · rw [hcount, Function.update_of_ne hn]
    · exact load_congr hstored
    · intro id hid
      rw [writer_of_nil hhandles, hwriter n hn]
      exact hmemory n id (.inl hid)
    · exact fun id hid => hmemory n id (.inr hid)
  have hempty : t'.segmentEntries t.stream.size = [] := by
    have hcleared : (t'.memory (t'.writer t.stream.size) i).rawEntryCount = 0 := by
      unfold writer
      cases hh : t'.handles.find? (·.sequenceNumber = t.stream.size) with
      | none => exact hzero
      | some handle =>
        obtain ⟨rfl, hside⟩ := hnew handle (List.mem_of_find?_eq_some hh)
        exact hside
    simp [segmentEntries, hself, hcleared]
  unfold entries
  rw [hstream, size_append, List.range_succ, List.flatMap_append, List.flatMap_singleton, hempty,
    List.append_nil]
  exact List.flatMap_congr fun n hn => hothers n (List.mem_range.mp hn).ne

theorem Inv.of_append {session : SessionId} {i : SegmentId} (h : t.Inv)
    (htiled : t'.writing.Tiled) (hmapped : t'.writing.server.Mapped) (hhandles : t.handles = [])
    (hsingle : t'.handles.length ≤ 1)
    (hnew : ∀ handle ∈ t'.handles, handle = ⟨session, i, t.stream.size, 0, none⟩ ∧
      (t'.memory (d.side session) i).rawEntryCount = 0)
    (hstream : t'.stream = t.stream.append session i)
    (hcount : t'.writing.entryCount = Function.update t.writing.entryCount t.stream.size 0)
    (hstored : t'.stored = t.stored) (hwritten : t'.written = t.written)
    (hmemory : ∀ n id, t.stream.place n = some (.writing id) ∨
      t.stream.place n = some (.encoding id) → t'.memory none id = t.memory none id)
    (hzero : (t'.memory none i).rawEntryCount = 0) : t'.Inv := by
  have hplace (n : StreamSegmentId) : t'.stream.place n =
      if n = t.stream.size then some (.writing i) else t.stream.place n := by
    rw [hstream, place_append]
  have hself : t'.stream.place t.stream.size = some (.writing i) := by rw [hplace, if_pos rfl]
  have hentries := entries_of_append hhandles hnew hstream hcount hstored hmemory hzero
  refine ⟨htiled, hmapped, fun n => ?_, hsingle, ?_, ?_, ?_, ?_⟩
  · rw [hplace]
    split
    · simp
    · exact h.present n
  · intro handle hh
    obtain ⟨rfl, hside⟩ := hnew handle hh
    constructor
    · refine ⟨.allocated t.stream.size session i, ?_, ⟨rfl, rfl, rfl, rfl, rfl⟩, rfl⟩
      rw [hstream, segments_append, Function.update_self]
    · simp [hside]
    · rintro _ ⟨⟩
    · exact Nat.zero_le _
  · intro n id hid
    have hn : n ≠ t.stream.size := by
      rintro rfl
      cases hself.symm.trans hid
    rw [hplace, if_neg hn] at hid
    rw [hcount, Function.update_of_ne hn]
    exact h.encoding n id hid
  · intro n location hl
    have hn : n ≠ t.stream.size := by
      rintro rfl
      cases hself.symm.trans hl
    rw [hplace, if_neg hn] at hl
    rw [hcount, Function.update_of_ne hn, load_congr hstored]
    exact h.stored n location hl
  · rw [hentries, h.written, hwritten]

theorem Inv.allocateNext {session : SessionId} {id : Option SegmentId} {answered : Bool}
    {w : Writing} (h : t.Inv) (appending : t.writing.appending = some session)
    (step : t.writing.Step (.allocateNext id) w) :
    Inv { t with
      writing := w
      memory := t.prepareSegment session answered id
      handles := (t.initializeHandle session answered id).toList ++ t.handles } := by
  have htiled := Writing.tiled_step h.tiled ⟨step, trivial⟩
  have hmapped := Writing.mapped_step h.mapped step
  have hwritten := h.tiled.stream.written
  have hhandles := h.handles_eq_nil (by simp [appending])
  cases step with
  | @allocateNext session' id appending' free =>
    obtain rfl := Option.some.inj (appending.symm.trans appending')
    have hfree (n : StreamSegmentId) (i : SegmentId)
        (hplace : t.stream.place n = some (.writing i) ∨ t.stream.place n = some (.encoding i)) :
        t.prepareSegment session answered id none i = t.memory none i := by
      apply prepareSegment_of_ne
      rintro rfl
      cases (free i rfl).symm.trans (h.mapped.buffer_of_place hplace)
    rcases allocateNext_cases hwritten session id with ⟨heq, hid⟩ | ⟨i, rfl, hn, hstream, hcount⟩
    · have hnone : t.initializeHandle session answered id = none := by
        unfold initializeHandle
        rcases hid with rfl | hn
        · rfl
        · cases id <;> simp [hn]
      refine h.of_stream htiled hmapped hhandles ?_ (by simp [heq]) (by simp [heq]) rfl rfl hfree
      rw [hnone, hhandles]
      rfl
    · obtain ⟨hzero, hside⟩ := t.rawEntryCount_prepareSegment session answered i
      refine h.of_append htiled hmapped hhandles ?_ ?_ hstream hcount rfl rfl hfree hzero
      · rw [hhandles, List.append_nil]
        exact Option.length_toList_le
      intro handle hh
      rw [hhandles, List.append_nil, Option.mem_toList] at hh
      unfold initializeHandle at hh
      dsimp only at hh
      rw [hwritten.slots.nextSequenceNumber] at hn hh
      cases answered with
      | false => simp at hh
      | true =>
        rw [if_neg (by simp [hn])] at hh
        exact ⟨(Option.some.inj hh).symm, hside rfl⟩

/-! ## The end of an encoding -/

theorem content_of_encoding (hplace : t.stream.place n = some (.encoding id)) :
    t.content n =
      (t.memory none id).data.read 0 (t.writing.entryCount n * d.stype.entrySize) := by
  simp [content, hplace]

theorem Inv.exists_encoding {loc : SegmentLocation} (h : t.Inv)
    (segment : t.stream.segments n = some loc) (encoding : loc.location = none ∧ loc.id = none) :
    ∃ id, t.stream.place n = some (.encoding id) := by
  have hpresent := h.present n
  rw [place_of_segment segment] at hpresent ⊢
  cases hside : loc.sideId with
  | none => simp [SegmentLocation.place, encoding, hside] at hpresent
  | some id => exact ⟨id, by rw [SegmentLocation.place_of_side encoding.1 encoding.2 hside]⟩

theorem Inv.decode_eq {stored : d.codec.Stored} (h : t.Inv)
    (hplace : t.stream.place n = some (.encoding id))
    (hencoded : d.codec.encode (t.content n) = some stored) :
    d.codec.decode stored = some (t.content n) := by
  apply d.codec.lossless _ _ _ hencoded
  rw [content_of_encoding hplace, Storage.length_read]
  exact h.encoding n id hplace

theorem Inv.of_stores {location : StorageLocation} (h : t.Inv) (htiled : t'.writing.Tiled)
    (hmapped : t'.writing.server.Mapped) (hplace : t.stream.place n = some (.encoding id))
    (hstores : t.stream.Stores n location t'.stream)
    (hraw : location.rawEntryCount = t.writing.entryCount n)
    (hcount : t'.writing.entryCount = t.writing.entryCount) (hself : t'.load n = t.content n)
    (hothers : ∀ m ≠ n, t'.load m = t.load m) (hmemory : t'.memory = t.memory)
    (hhandles : t'.handles = t.handles) (hwritten : t'.written = t.written) : t'.Inv := by
  have hplace' := hstores.place_eq
  have hcontent := hself.trans (content_of_encoding hplace)
  have hentries : t'.entries = t.entries := by
    refine entries_congr hstores.size fun m => ?_
    by_cases hm : m = n
    · subst hm
      have hnormal : location.normalize.rawEntryCount = t.writing.entryCount m := hraw
      simp only [segmentEntries, hplace', if_true, hplace, hcontent, hnormal]
      exact Storage.recordsOf_read _ _ _
    · apply segmentEntries_congr
      · rw [hplace', if_neg hm]
      · rw [hcount]
      · exact hothers m hm
      · intro id' _
        rw [hmemory, writer, writer, hhandles]
      · exact fun id' _ => by rw [hmemory]
  refine ⟨htiled, hmapped, fun m => ?_, hhandles ▸ h.single, ?_, ?_, ?_, ?_⟩
  · rw [hplace']
    split_ifs
    · simp
    · exact h.present m
  · intro handle hh
    have hvalid := h.handle handle (hhandles ▸ hh)
    refine hvalid.congr ?_ (by rw [hmemory])
    obtain ⟨loc, -, -, hsegments⟩ := hstores.segments
    rw [hsegments, Function.update_of_ne]
    intro heq
    cases hplace.symm.trans (heq ▸ hvalid.place)
  · intro m id' hid
    rw [hplace'] at hid
    rw [hcount]
    split_ifs at hid
    · cases hid
    · exact h.encoding m id' hid
  · intro m location' hl
    rw [hplace'] at hl
    rw [hcount]
    split_ifs at hl with hm
    · obtain rfl : _ = location' := by simpa using hl
      rw [hm, hcontent, Storage.length_read]
      exact ⟨hraw, rfl⟩
    · rw [hothers m hm]
      exact h.stored m location' hl
  · rw [hentries, h.written, hwritten]

/-- The encoder reads all the data of a segment, which stays there until the encoding ends. -/
theorem Inv.encoded {frame : Frame} {stored : d.codec.Stored} {w : Writing} (h : t.Inv)
    (hencoded : d.codec.encode (t.content n) = some stored)
    (count : frame.rawEntryCount = t.writing.entryCount n)
    (step : t.writing.Step (.encoded n (some frame)) w)
    (succeeds : t.writing.Succeeds (.encoded n (some frame))) :
    Inv { t with writing := w, stored := Function.update t.stored n (some stored) } := by
  have htiled := Writing.tiled_step h.tiled ⟨step, succeeds⟩
  have hmapped := Writing.mapped_step h.mapped step
  cases step with
  | @encoded _ _ loc s segment encoding completed =>
    obtain ⟨f, hf, haccepted⟩ := succeeds
    obtain rfl := Option.some.inj hf
    obtain ⟨id, hplace⟩ := h.exists_encoding segment encoding
    rcases Writing.encoded_cases h.tiled.stream.written segment encoding completed with
      ⟨f, hf, hstores⟩ | ⟨hrejected, -⟩
    · obtain rfl := Option.some.inj hf
      refine h.of_stores htiled hmapped hplace hstores count rfl ?_ (fun m hm => ?_) rfl rfl rfl
      · simp [load, h.decode_eq hplace hencoded]
      · simp [load, Function.update_of_ne hm]
    · exact absurd haccepted (hrejected frame rfl)

/-! ## Runs -/

theorem inv_step {a : TraceAction} (h : t.Inv) (step : LosslessStep t a t') : t'.Inv := by
  obtain ⟨step, hlossless⟩ := step
  cases step with
  | getNextEntry opened submitted room => exact h.getNextEntry opened submitted room
  | submitEntry opened requested size => exact h.submitEntry opened requested size
  | release opened => exact h.releaseHandle opened hlossless
  | append opened received submits step =>
    exact h.append (fun handle hm => (opened handle hm).1) hlossless received submits step
  | allocateNext appending step => exact h.allocateNext appending step
  | closeHandle opened received submits possible closed =>
    exact h.closeHandle opened received submits possible closed
  | close submits step => exact h.close hlossless.1 submits hlossless.2 step
  | closeSession submits step => exact h.closeSession hlossless.1 submits hlossless.2 step
  | encoded encoded count step => exact h.encoded encoded count step hlossless
  | discarded =>
    obtain ⟨f, hf, -⟩ := hlossless
    cases hf

theorem Initial.inv (h : t.Initial) : t.Inv := by
  have hnone (n : StreamSegmentId) : t.stream.place n = none := by
    rw [stream, h.writing]
    rfl
  refine ⟨h.writing ▸ Writing.tiled_fresh, ?_, by simp [hnone], by simp [h.handles],
    by simp [h.handles], ?_, ?_, ?_⟩
  · rw [h.writing]
    rintro n loc ⟨⟩
  · intro n id hid
    cases (hnone n).symm.trans hid
  · intro n location hl
    cases (hnone n).symm.trans hl
  · rw [h.written, entries, stream, h.writing]
    rfl

theorem invariant_inv : Transition.Invariant (Initial (d := d)) LosslessStep Inv :=
  ⟨fun _ h => h.inv, fun _ _ _ h step => inv_step h step⟩

theorem inv_run {l : List (Transition.Taken (Tracing d) TraceAction)}
    (run : Transition.Run Initial LosslessStep l t) : t.Inv :=
  invariant_inv.run run

/-- In any run in which the sessions take turns and no segment is given up, the entries of all
segments are those that were submitted, in their order. The server finds the buffer segment of the
session that writes, whose segment is the current one of the stream. -/
theorem entries_written {l : List (Transition.Taken (Tracing d) TraceAction)}
    (run : Transition.Run Initial LosslessStep l t) :
    t.entries = t.written ∧ ∀ handle ∈ t.handles,
      handle.sequenceNumber = t.stream.getCurrentSegmentId ∧
        (t.receive (some handle) handle.sequenceNumber).isSome := by
  have h := inv_run run
  refine ⟨h.written, fun handle hopened => ⟨h.getCurrentSegmentId hopened, ?_⟩⟩
  simp [h.receive_eq hopened]

def writeEntry (handle : TraceHandle) (entry : List UInt8) : List TraceAction :=
  [.getNextEntry handle, .submitEntry { handle with
    entry := handle.entry + entry.length
    requested := some handle.entry } entry]

/-- Entries of two bytes in segments of 40 bytes, of which the second session has copies. -/
def twoSessions : TracedStream where
  stype := ⟨2, false, Nat.two_pos⟩
  segmentSize := 40
  fits := by decide
  small := by decide
  codec := GenericEncoder.segmentCodec GenericEncoder.zeroRun (by decide) fun source _ =>
    GenericEncoder.compress_zeroRun_ne_nil source
  shared session := session = 1

namespace twoSessions

def initial : Tracing twoSessions where
  writing := .fresh
  memory _ _ := ⟨⟨fun _ => 0, 40⟩, 0⟩
  handles := []
  stored _ := none
  written := []

/-- The first session submits a segment with two entries and leaves the next one empty. The other
session then writes two entries. -/
def writes : List TraceAction :=
  [.append none 1 .failed, .server (.allocateNext (some 0))] ++
    writeEntry ⟨1, 0, 0, 0, none⟩ [0, 0] ++ writeEntry ⟨1, 0, 0, 2, none⟩ [0, 0] ++
    [.append (some ⟨1, 0, 0, 4, none⟩) 1 (.pending 2), .server (.allocateNext (some 1)),
      .closeHandle ⟨1, 1, 1, 0, none⟩ (.complete none), .append none 2 .failed,
      .server (.allocateNext (some 2))] ++
    writeEntry ⟨2, 2, 2, 0, none⟩ [5, 7] ++ writeEntry ⟨2, 2, 2, 2, none⟩ [8, 9]

def written : Tracing twoSessions := (Transition.replay perform initial writes).2

theorem run_written : Transition.Run Initial LosslessStep
    (Transition.replay perform initial writes).1 written :=
  invariant_inv.replay
    (fun _ _ _ h hperform => losslessStep_perform h.tiled.stream.written.slots hperform)
    ⟨rfl, rfl, rfl⟩ (by decide +kernel)

end twoSessions

theorem entries_written_twoSessions :
    twoSessions.written.entries = [[0, 0], [0, 0], [5, 7], [8, 9]] ∧
      ∀ handle ∈ twoSessions.written.handles,
        handle.sequenceNumber = twoSessions.written.stream.getCurrentSegmentId ∧
          (twoSessions.written.receive (some handle) handle.sequenceNumber).isSome := by
  obtain ⟨hentries, hhandles⟩ := entries_written twoSessions.run_written
  exact ⟨hentries.trans (by decide +kernel), hhandles⟩

end Simutrace.Tracing
