import Simutrace.Library.MurmurHash3
import Simutrace.Store.Commit
import Simutrace.Store.Recovery

/-! # Reopening a recorded store

A file that was recorded can be opened and has the streams of the recording if
and only if the ranges of all segments are accepted, both when they are
completed and in the order of their frames in the file.
-/

namespace Simutrace.Simtrace3.Recording

variable {totalStreamCount : List UInt8 → BitVec 32} {murmur3 : List UInt8 → BitVec 32}
  {r r' : Recording} {id : StreamId} {loaded : Streams}

theorem Inv.perm_dataLocations (h : r.Inv totalStreamCount murmur3) (hp : r.pending = [])
    (id : StreamId) : (dataLocations id r.committed).Perm
      (dataLocations id r.located ++ dataLocations id r.rejected) := by
  rw [← dataLocations_append, ← dataLocations_filter]
  have := h.perm
  rw [hp, List.append_nil] at this
  exact dataLocations_perm id this

/-- The segment of a rejected frame would be loaded besides those that have a location. -/
theorem Inv.rejected_eq_nil (h : r.Inv totalStreamCount murmur3) (hp : r.pending = [])
    (hr : r.reload totalStreamCount = some loaded)
    (hsame : ∀ id, Option.Rel StoreStream.Same (r.streams id) (loaded id)) :
    r.rejected = [] := by
  rw [List.eq_nil_iff_forall_not_mem]
  rintro c hc
  obtain ⟨hcom, hdata⟩ := h.data_of_mem (List.mem_append_left _ (List.mem_append_right _ hc))
  have hm := h.mirrors loaded hr
  obtain ⟨stream, hs⟩ := Option.ne_none_iff_exists'.mp (h.known c hcom)
  obtain ⟨st, hst⟩ := hm.exists_stream (h.known c hcom)
  have hloaded := hm.segments _ st hst
  have hs' := hsame c.streamId
  rw [hs, hst, Option.rel_some_some] at hs'
  have hlocated : c.location.normalize ∈ dataLocations c.streamId r.located := by
    rw [← (h.live _ stream hs).locations, hs'.locations, hloaded.located.hasLocation_iff]
    exact mem_dataLocations.mpr ⟨c, hcom, hdata, rfl, rfl⟩
  have hnd := (h.perm_dataLocations hp c.streamId).nodup (List.Nodup.of_map _ hloaded.nodup)
  exact List.disjoint_of_nodup_append hnd hlocated
    (mem_dataLocations.mpr ⟨c, hc, hdata, rfl, rfl⟩)

theorem Inv.same (h : r.Inv totalStreamCount murmur3) (hp : r.pending = [])
    (hrej : r.rejected = []) (hr : r.reload totalStreamCount = some loaded) (id : StreamId) :
    Option.Rel StoreStream.Same (r.streams id) (loaded id) := by
  have hm := h.mirrors loaded hr
  have hmeta := hm.metadata id
  cases hs : r.streams id with
  | none =>
    rw [hs, Option.map_none, Option.map_eq_none_iff] at hmeta
    rw [hmeta]
    exact .none
  | some stream =>
    obtain ⟨st, hst⟩ := hm.exists_stream (hs ▸ Option.some_ne_none stream)
    rw [hs, hst, Option.map_some, Option.map_some] at hmeta
    obtain ⟨hdesc, hassoc⟩ := Prod.mk.inj (Option.some.inj hmeta)
    have hperm := h.perm_dataLocations hp id
    rw [hrej] at hperm
    have hlive := h.live id stream hs
    have hloaded := hm.segments id st hst
    rw [hst]
    refine .some ⟨hdesc.symm, hassoc.symm, fun location => ?_, ?_⟩
    · rw [hlive.locations, hloaded.located.hasLocation_iff, hperm.mem_iff]
      exact (List.append_nil _).symm ▸ Iff.rfl
    · rw [hlive.stats, hloaded.located.stats, hperm.foldl_eq]
      exact (List.append_nil _).symm ▸ rfl

theorem Inv.reopens_iff (h : r.Inv totalStreamCount murmur3) (hp : r.pending = []) :
    r.Reopens totalStreamCount murmur3 ↔ r.Recoverable totalStreamCount := by
  constructor
  · rintro ⟨loaded, ho, hsame⟩
    have hr := h.opens_iff.mp ho
    exact ⟨h.rejected_eq_nil hp hr hsame, loaded, hr⟩
  · rintro ⟨hrej, loaded, hr⟩
    exact ⟨loaded, h.opens_iff.mpr hr, h.same hp hrej hr⟩

/-- Opening the file of a run gives back the streams with their located segments and statistics
if and only if no step of the run was one whose ranges are rejected. -/
theorem reopens_iff_accepted {trace : List (Recording × Action)}
    (run : Run totalStreamCount murmur3 trace r) (closed : r.pending = []) :
    r.Reopens totalStreamCount murmur3 ↔
      ∀ p ∈ trace, p.1.Accepted totalStreamCount murmur3 p.2 := by
  obtain ⟨h, hr⟩ := run.recoverable_iff
  rw [h.reopens_iff closed, hr]

/-! ## A run of two segments -/

def cycleFrame (sequenceNumber startCycle endCycle : ℕ) : Simtrace3Frame where
  header :=
    { sequenceNumber := .ofNat 32 sequenceNumber
      streamId := 0
      typeId := 0
      entryCount := 10
      rawEntryCount := 10
      startTime := .ofNat 64 (10 * sequenceNumber)
      endTime := .ofNat 64 (10 * sequenceNumber + 9)
      startCycle := .ofNat 64 startCycle
      endCycle := .ofNat 64 endCycle
      startIndex := .ofNat 64 (10 * sequenceNumber)
      totalSize := .ofNat 64 (frameHeaderSize + attributeHeaderSize + 1)
      attribute₀ := .ofNat 64 (frameHeaderSize * 2 ^ 16)
      attribute₁ := 0
      attributeCount := 1
      checksum := 0 }
  attributes := [⟨0, 40, [0], List.cons_ne_nil 0 []⟩]
  totalSize_eq := rfl

/-- The store accepts a number of small frames. -/
structure Writable (r : Recording) (n : ℕ) : Prop where
  readMode : r.store.readMode = false
  count : r.committed.length + n ≤ maxFrameCount
  fits : r.store.extent + n * 1024 ≤ fileSizeLimit

theorem Writable.commitFrame {n : ℕ} (hw : r.Writable (n + 1))
    (h : r.Inv totalStreamCount murmur3) (frame : Simtrace3Frame)
    (hid : frame.header.streamId ≠ -1) (hsize : frame.header.totalSize.toNat ≤ 1024) :
    ∃ offset store, r.store.commitFrame murmur3 none frame = (some offset, store) ∧
      store.readMode = false ∧ store.extent + n * 1024 ≤ fileSizeLimit := by
  have hcount := hw.count
  have hfits := hw.fits
  obtain ⟨offset, store, he, hr, hx⟩ := Simtrace3Store.commitFrame_of_fits murmur3 h.consistent
    hw.readMode hid (by omega) (by omega)
  exact ⟨offset, store, he, hr, by omega⟩

/-- A run to a state in which a number of frames can be written. Its first stream is as given, the
given segments of that are pending, and none was rejected. -/
def Reaches (totalStreamCount : List UInt8 → BitVec 32) (murmur3 : List UInt8 → BitVec 32) (n : ℕ)
    (s : ServerStream) (frames : List Simtrace3Frame) (pending : List StorageLocation) : Prop :=
  ∃ trace r, Run totalStreamCount murmur3 trace r ∧ r.Writable n ∧
    r.streams 0 = some ⟨[1], none, s⟩ ∧ (∀ c ∈ r.pending, c.streamId = 0) ∧
    r.pending.map Committed.location = pending ∧ r.rejected = [] ∧
    r.committed.map Prod.fst = frames.map (Simtrace3Frame.updateHash murmur3)

def descriptorAttribute : Attribute := ⟨satStreamDescription, 1, [1], List.cons_ne_nil 1 []⟩

theorem descriptorAttribute_fits : frameHeaderSize + descriptorAttribute.size < 2 ^ 64 := by decide

def descriptorFrame : Simtrace3Frame := .zero 0 0 descriptorAttribute descriptorAttribute_fits

theorem reaches_register (totalStreamCount : List UInt8 → BitVec 32)
    (murmur3 : List UInt8 → BitVec 32) {n : ℕ} (hn : n < 1024) :
    Reaches totalStreamCount murmur3 n .new [descriptorFrame] [] := by
  have hx : new.store.extent = 58724352 := rfl
  have hw : new.Writable (n + 1) := by
    refine ⟨rfl, ?_, by rw [hx, fileSizeLimit]; omega⟩
    rw [maxFrameCount, directoryTableSize, directorySize]
    simp only [new, List.length_nil]
    omega
  have hi : Inv totalStreamCount murmur3 new := .new
  obtain ⟨offset, store, he, hr, hfit⟩ := hw.commitFrame hi
    (.zero 0 0 descriptorAttribute descriptorAttribute_fits) (by decide) (by decide)
  have hstep : Step totalStreamCount murmur3 new (.register 0 [1]) (new.commitZeroFrame murmur3 none
      (.zero 0 0 descriptorAttribute descriptorAttribute_fits) (.new [1])) :=
    .register rfl rfl descriptorAttribute_fits
  rw [commitZeroFrame, he] at hstep
  have hs : (new.setStream 0 (.new [1])).streams 0 = some (.new [1]) := streams_setStream_self
  refine ⟨_, _, Run.new.step hstep, ⟨hr, ?_, hfit⟩, hs, ?_, rfl, rfl, rfl⟩
  · rw [maxFrameCount, directoryTableSize, directorySize]
    simp only [new, List.nil_append, List.length_singleton]
    omega
  · rintro c ⟨⟩

def submitted (s : ServerStream) (n : StreamSegmentId) : ServerStream :=
  (s.addSegmentLocation (.allocated n 0 n)).setSegment n
    (some { SegmentLocation.allocated n 0 n with sideId := some n, id := none })

theorem Reaches.submitted {k n : ℕ} {s : ServerStream} {frames : List Simtrace3Frame}
    {pending : List StorageLocation} (h : Reaches totalStreamCount murmur3 k s frames pending)
    (hfree : ¬ s.SegmentIsAllocated n) (hn : n < invalidStreamSegmentId) :
    Reaches totalStreamCount murmur3 k (submitted s n) frames pending := by
  obtain ⟨trace, r, run, hw, hs, hids, hp, hrej, hcom⟩ := h
  let stream : StoreStream := ⟨[1], none, s.addSegmentLocation (.allocated n 0 n)⟩
  have happend : Step totalStreamCount murmur3 r (.append 0 n) (r.setStream 0 stream) :=
    .append hs hfree hn
  have hself : (r.setStream 0 stream).streams 0 = some stream := streams_setStream_self
  have hseg : stream.stream.segments n = some (.allocated n 0 n) := Function.update_self ..
  have hsubmit : Step totalStreamCount murmur3 _ (.submit 0 n) _ := .submit hself hseg rfl rfl
  exact ⟨_, _, (run.step happend).step hsubmit, ⟨hw.readMode, hw.count, hw.fits⟩,
    streams_setStream_self, hids, hp, hrej, hcom⟩

theorem Reaches.commit {k : ℕ} {s : ServerStream} {frames : List Simtrace3Frame}
    {pending : List StorageLocation} {loc : SegmentLocation}
    (h : Reaches totalStreamCount murmur3 (k + 1) s frames pending)
    (frame : Simtrace3Frame) (hdata : frame.header.sequenceNumber ≠ -1)
    (hid : frame.header.streamId = 0) (hsize : frame.header.totalSize.toNat ≤ 1024)
    (hseg : s.segments frame.header.sequenceNumber.toNat = some loc) (hloc : loc.location = none)
    (hnone : loc.id = none)
    (hnot : ∀ l ∈ pending, l.sequenceNumber ≠ frame.header.sequenceNumber.toNat) :
    Reaches totalStreamCount murmur3 k s (frames ++ [frame])
      (pending ++ [storageLocation frame.header]) := by
  obtain ⟨trace, r, run, hw, hs, hids, rfl, hrej, hcom⟩ := h
  obtain ⟨offset, store, he, hr, hfit⟩ := hw.commitFrame run.recoverable_iff.1 frame
    (by rw [hid]; decide) hsize
  have hsub : r.Submitted frame.header.streamId frame.header.sequenceNumber.toNat := by
    refine ⟨⟨loc, ?_, hloc, hnone⟩, ?_⟩
    · rw [hid, Streams.segment_eq hs, hseg]
    · rintro c hc ⟨-, hn⟩
      exact hnot _ (List.mem_map_of_mem hc) hn
  refine ⟨_, _, run.step (.commit hdata hsub he), ⟨hr, ?_, hfit⟩, hs, ?_, ?_, hrej, ?_⟩
  · have := hw.count
    rw [List.length_append, List.length_singleton]
    omega
  · rintro c hc
    rcases List.mem_append.mp hc with hc | hc
    · exact hids c hc
    · obtain rfl := List.mem_singleton.mp hc
      exact hid
  · rw [List.map_append]
    rfl
  · rw [List.map_append, List.map_append, hcom]
    rfl

theorem Reaches.complete {k : ℕ} {s s' : ServerStream} {frames : List Simtrace3Frame}
    {location : StorageLocation} {pending : List StorageLocation} {loc : SegmentLocation}
    (h : Reaches totalStreamCount murmur3 k s frames (location :: pending))
    (hseg : s.segments location.sequenceNumber = some loc)
    (hs' : s.completeEncoding loc (some location) false = some s') :
    Reaches totalStreamCount murmur3 k s' frames pending := by
  obtain ⟨trace, r, run, hw, hs, hids, hp, hrej, hcom⟩ := h
  obtain ⟨c, cs, hpc, rfl, rfl⟩ := List.map_eq_cons_iff.mp hp
  have hid : c.streamId = 0 := hids c (by rw [hpc]; exact List.mem_cons_self)
  have hstep : r.completeSegment c cs = some { r with
      streams := Function.update r.streams 0 (some ⟨[1], none, s'⟩)
      pending := cs
      located := r.located ++ [c] } := by
    change s.segments c.sequenceNumber = some loc at hseg
    rw [Recording.completeSegment, hid, Streams.completeSegment_eq hs hseg, hs']
    rfl
  have hself : Function.update r.streams 0 (some ⟨[1], none, s'⟩) 0 = some ⟨[1], none, s'⟩ :=
    Function.update_self ..
  have hfirst : r.pending = [] ++ c :: cs := hpc
  refine ⟨_, _, run.step (.complete hfirst hstep), ⟨hw.readMode, hw.count, hw.fits⟩, hself, ?_,
    rfl, hrej, hcom⟩
  rintro d hd
  exact hids d (by rw [hpc]; exact List.mem_cons_of_mem c hd)

theorem reaches_pair (murmur3 : List UInt8 → BitVec 32) (start₀ stop₀ start₁ stop₁ : ℕ) :
    Reaches (fun _ => 0) murmur3 0 (submitted (submitted .new 0) 1)
      [descriptorFrame, cycleFrame 0 start₀ stop₀, cycleFrame 1 start₁ stop₁]
      [storageLocation (cycleFrame 0 start₀ stop₀).header,
        storageLocation (cycleFrame 1 start₁ stop₁).header] := by
  have hnew := reaches_register (fun _ => 0) murmur3 (n := 2) (by decide)
  have hsub := (hnew.submitted (n := 0) (by decide) (by decide)).submitted (n := 1) (by decide)
    (by decide)
  have hzero := hsub.commit (cycleFrame 0 start₀ stop₀)
    (show (.ofNat 32 0 : BitVec 32) ≠ -1 by decide) rfl (show 153 ≤ 1024 by decide) rfl rfl rfl
    (fun _ h => by cases h)
  refine hzero.commit (cycleFrame 1 start₁ stop₁) (show (.ofNat 32 1 : BitVec 32) ≠ -1 by decide)
    rfl (show 153 ≤ 1024 by decide) rfl rfl rfl ?_
  rintro l hl
  obtain rfl := List.mem_singleton.mp hl
  exact show (0 : ℕ) ≠ 1 by decide

/-- What is loaded does not depend on where the frames are and on their checksums. -/
theorem reload_eq_foldlM {frames : List Simtrace3Frame}
    (h : r.committed.map Prod.fst = frames.map (Simtrace3Frame.updateHash murmur3)) :
    r.reload totalStreamCount =
      frames.foldlM (fun streams frame => openCommitted totalStreamCount streams (frame, 0))
        fun _ => none := by
  have hreload : r.reload totalStreamCount = (r.committed.map Prod.fst).foldlM
      (fun streams frame => openCommitted totalStreamCount streams (frame, 0)) fun _ => none := by
    rw [List.foldlM_map]
    rfl
  rw [hreload, h, List.foldlM_map]
  rfl

/-- The second segment has the cycle count of the first one, which is discarded. Its frame stays in
the file. -/
theorem not_reopens_of_rejected : ∃ trace r, Run (fun _ => 0) (MurmurHash3.hash32 0) trace r ∧
    r.pending = [] ∧ ¬ r.Reopens (fun _ => 0) (MurmurHash3.hash32 0) := by
  obtain ⟨s', hs', hacc⟩ : ∃ s', (submitted (submitted .new 0) 1).completeEncoding
      { SegmentLocation.allocated 0 0 0 with sideId := some 0, id := none }
      (some (storageLocation (cycleFrame 0 5 5).header)) false = some s' ∧
      ¬ s'.LocationAccepted (storageLocation (cycleFrame 1 5 7).header) := by
    rw [ServerStream.completeEncoding, ServerStream.addSegment, if_pos (by decide)]
    exact ⟨_, rfl, by decide⟩
  obtain ⟨trace, r, run, -, hs, hids, hp, -⟩ :=
    (reaches_pair (MurmurHash3.hash32 0) 5 5 5 7).complete rfl hs'
  obtain ⟨c, hpc, hc⟩ := List.map_eq_singleton_iff.mp hp
  have hfirst : r.pending = [] ++ c :: [] := hpc
  obtain ⟨r', hr', hp'⟩ := run.recoverable_iff.1.exists_complete hfirst
  have run' := run.step (.complete hfirst hr')
  refine ⟨_, r', run', hp', fun hr => ?_⟩
  have hall := run'.recoverable_iff.2.mp ((run'.recoverable_iff.1.reopens_iff hp').mp hr)
  have hid : c.streamId = 0 := hids c (by rw [hpc]; exact List.mem_cons_self)
  exact hacc (hc ▸ hall _ (List.mem_append_right _ List.mem_cons_self) _ (hid ▸ hs))

/-- The cycle counts of the two segments increase. All steps are accepted. -/
theorem reopens_iff_accepted_pair : ∃ trace r,
    Run (fun _ => 0) (MurmurHash3.hash32 0) trace r ∧ r.pending = [] ∧ r.committed.length = 3 ∧
      r.Reopens (fun _ => 0) (MurmurHash3.hash32 0) ∧
        ∀ p ∈ trace, p.1.Accepted (fun _ => 0) (MurmurHash3.hash32 0) p.2 := by
  have hsome : (((submitted (submitted .new 0) 1).completeEncoding
      { SegmentLocation.allocated 0 0 0 with sideId := some 0, id := none }
      (some (storageLocation (cycleFrame 0 0 4).header)) false).bind fun s =>
        (s.segments 1).bind fun loc => s.completeEncoding loc
          (some (storageLocation (cycleFrame 1 5 7).header)) false).isSome := by decide
  obtain ⟨s₁, hsome⟩ := Option.isSome_iff_exists.mp hsome
  obtain ⟨s₀, h₀, hsome⟩ := Option.bind_eq_some_iff.mp hsome
  obtain ⟨loc₁, hloc₁, h₁⟩ := Option.bind_eq_some_iff.mp hsome
  obtain ⟨trace, r, run, -, -, -, hp, hrej, hcom⟩ :=
    ((reaches_pair (MurmurHash3.hash32 0) 0 4 5 7).complete rfl h₀).complete hloc₁ h₁
  have hpending : r.pending = [] := List.map_eq_nil_iff.mp hp
  have hload : ∃ loaded, r.reload (fun _ => 0) = some loaded := by
    rw [reload_eq_foldlM hcom, ← Option.isSome_iff_exists]
    decide
  have hreopens := (run.recoverable_iff.1.reopens_iff hpending).mpr ⟨hrej, hload⟩
  have hlength := congrArg List.length hcom
  rw [List.length_map] at hlength
  exact ⟨trace, r, run, hpending, hlength, hreopens,
    (reopens_iff_accepted run hpending).mp hreopens⟩

end Simutrace.Simtrace3.Recording
