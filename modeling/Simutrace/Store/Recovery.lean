import Simutrace.Store.Recorded

/-! # Recoverable stores

A file is recoverable as long as no segment was rejected and the segments can be
loaded in the order in which their frames were committed. Each step of a
recording keeps it recoverable if and only if the step is accepted.
-/

namespace Simutrace.Simtrace3.Recording

variable {totalStreamCount : List UInt8 → BitVec 32} {murmur3 : List UInt8 → BitVec 32}
  {r r' : Recording} {id : StreamId} {n : StreamSegmentId} {stream : StoreStream}
  {loaded loaded' : Streams} {streams : Streams} {frame : Simtrace3Frame}
  {fault : Option IoFault} {store : Simtrace3Store} {offset : FileOffset} {a : Action}

/-- The file can be opened, and no segment was rejected. -/
def Recoverable (totalStreamCount : List UInt8 → BitVec 32) (r : Recording) : Prop :=
  r.rejected = [] ∧ ∃ loaded, r.reload totalStreamCount = some loaded

/-! ## Steps that commit nothing -/

theorem Inv.pending_ne_of_segment (h : r.Inv totalStreamCount murmur3)
    (hs : r.streams id = some stream)
    (hn : ∀ loc ∈ stream.stream.segments n, loc.id ≠ none) :
    ∀ c ∈ r.pending, c.key ≠ (id, n) := by
  rintro c hc he
  obtain ⟨rfl, rfl⟩ := Prod.mk.inj he
  obtain ⟨loc, hloc, -, hid⟩ := h.pending c hc
  rw [Streams.segment_eq hs] at hloc
  exact hn loc hloc hid

theorem Inv.append (h : r.Inv totalStreamCount murmur3) (hs : r.streams id = some stream)
    (hfree : ¬ stream.stream.SegmentIsAllocated n) (session : SessionId) (buffer : SegmentId) :
    (r.setStream id { stream with
      stream := stream.stream.addSegmentLocation (.allocated n session buffer) }).Inv
        totalStreamCount murmur3 := by
  have hlive := h.live id stream hs
  refine h.setSegment hs (hlive.addSegmentLocation hfree session buffer) rfl
    (h.pending_ne_of_segment hs fun loc hloc => ?_)
  cases (hlive.eq_none_of_not_allocated hfree).symm.trans hloc

theorem Inv.submit (h : r.Inv totalStreamCount murmur3) {loc : SegmentLocation}
    {buffer : SegmentId} (hs : r.streams id = some stream)
    (hseg : stream.stream.segments n = some loc) (hloc : loc.location = none)
    (hid : loc.id = some buffer) :
    (r.setStream id { stream with
      stream := stream.stream.setSegment n
        (some { loc with sideId := some buffer, id := none }) }).Inv
        totalStreamCount murmur3 := by
  refine h.setSegment hs ((h.live id stream hs).submit hseg hloc (some buffer) none) rfl
    (h.pending_ne_of_segment hs fun loc' hloc' => ?_)
  obtain rfl := Option.some.inj (hseg.symm.trans hloc')
  rw [hid]
  exact Option.some_ne_none _

theorem Inv.discard (h : r.Inv totalStreamCount murmur3) (hsub : r.Submitted id n)
    (hc : r.streams.completeSegment id n none = some streams) :
    Inv totalStreamCount murmur3 { r with streams := streams } := by
  obtain ⟨loc, hseg, hloc, -⟩ := hsub.segment
  obtain ⟨stream, hs, hseg⟩ := Streams.exists_of_segment hseg
  obtain ⟨s, he, hlive, hsegs⟩ := (h.live id stream hs).deleteSegment hseg hloc false
  rw [Streams.completeSegment_eq hs hseg, he] at hc
  obtain rfl := Option.some.inj hc
  exact h.setSegment hs hlive hsegs fun c hm he => hsub.notPending c hm (Prod.mk.inj he)

theorem Inv.setStore (h : r.Inv totalStreamCount murmur3) (hc : store.Consistent r.committed) :
    Inv totalStreamCount murmur3 { r with store := store } :=
  { h with consistent := hc }

/-! ## Zero frames -/

theorem reload_append (totalStreamCount : List UInt8 → BitVec 32) {c : Committed}
    (hc : r'.committed = r.committed ++ [c]) :
    r'.reload totalStreamCount =
      (r.reload totalStreamCount).bind fun loaded => openCommitted totalStreamCount loaded c := by
  simp [reload, hc, List.foldlM_append]

theorem Mirrors.update {committed : List Committed} {c : Committed} {stream' : StoreStream}
    (h : Mirrors streams committed loaded) (hz : c.1.header.sequenceNumber = -1)
    (hmeta : stream'.metadata = stream.metadata)
    (hloaded : stream'.stream.Loaded (dataLocations id committed)) :
    Mirrors (Function.update streams id (some stream)) (committed ++ [c])
      (Function.update loaded id (some stream')) where
  metadata i := by
    by_cases hi : i = id
    · rw [hi, Function.update_self, Function.update_self, Option.map_some, Option.map_some, hmeta]
    · rw [Function.update_of_ne hi, Function.update_of_ne hi, h.metadata]
  segments i st hst := by
    rw [dataLocations_append, dataLocations_singleton, if_neg fun hd => hd.1 hz, List.append_nil]
    by_cases hi : i = id
    · subst hi
      rw [Function.update_self] at hst
      obtain rfl := Option.some.inj hst
      exact hloaded
    · rw [Function.update_of_ne hi] at hst
      exact h.segments i st hst

theorem Inv.zeroFrame {c : Committed} (h : r.Inv totalStreamCount murmur3)
    (hcons : store.Consistent (r.committed ++ [c])) (hread : c.Readable murmur3)
    (hz : c.1.header.sequenceNumber = -1) (hid : c.streamId = id)
    (hlive : stream.stream.Live (dataLocations id r.located))
    (hseg : ∀ n, stream.stream.segments n = r.streams.segment id n)
    (hopen : ∀ loaded, Mirrors r.streams r.committed loaded → ∃ stream',
      openCommitted totalStreamCount loaded c = some (Function.update loaded id (some stream')) ∧
      stream'.metadata = stream.metadata ∧
      stream'.stream.Loaded (dataLocations id r.committed)) :
    Inv totalStreamCount murmur3
      { r.setStream id stream with store := store, committed := r.committed ++ [c] } ∧
    (Recoverable totalStreamCount
      { r.setStream id stream with store := store, committed := r.committed ++ [c] } ↔
        r.Recoverable totalStreamCount) := by
  let r' := { r.setStream id stream with store := store, committed := r.committed ++ [c] }
  have hc : r'.committed = r.committed ++ [c] := rfl
  have hreload := reload_append totalStreamCount hc
  refine ⟨⟨hcons, ?_, ?_, ?_, ?_, ?_, h.distinct, ?_⟩, ?_⟩
  · rintro d hd
    rcases List.mem_append.mp hd with hd | hd
    · exact h.readable d hd
    · obtain rfl := List.mem_singleton.mp hd
      exact hread
  · rintro d hd
    rcases List.mem_append.mp hd with hd | hd
    · exact setStream_ne_none (h.known d hd)
    · obtain rfl := List.mem_singleton.mp hd
      rw [hid]
      exact (congrArg (· ≠ none) streams_setStream_self).mpr (Option.some_ne_none _)
  · have hf : (r.committed ++ [c]).filter (fun c => c.1.header.sequenceNumber ≠ -1) =
        r.committed.filter fun c => c.1.header.sequenceNumber ≠ -1 := by simp [hz]
    exact hf ▸ h.perm
  · rintro i st hst
    by_cases hi : i = id
    · subst hi
      obtain rfl := Option.some.inj (streams_setStream_self.symm.trans hst)
      exact hlive
    · exact h.live i st ((streams_setStream_of_ne hi).symm.trans hst)
  · rintro d hd
    obtain ⟨loc, hloc, hnew⟩ := h.pending d hd
    refine ⟨loc, ?_, hnew⟩
    by_cases hi : d.streamId = id
    · rw [hi] at hloc ⊢
      exact (Streams.segment_eq streams_setStream_self _).trans ((hseg _).trans hloc)
    · change (r.setStream id stream).streams.segment d.streamId d.sequenceNumber = some loc
      rwa [Streams.segment, streams_setStream_of_ne hi]
  · rintro loaded hl
    rw [hreload, Option.bind_eq_some_iff] at hl
    obtain ⟨loaded₀, hl₀, hl⟩ := hl
    have hm := h.mirrors loaded₀ hl₀
    obtain ⟨stream', ho, hmeta, hloaded⟩ := hopen loaded₀ hm
    obtain rfl := Option.some.inj (ho.symm.trans hl)
    exact hm.update hz hmeta hloaded
  · refine and_congr_right fun _ => ?_
    rw [hreload]
    constructor
    · rintro ⟨loaded, hl⟩
      obtain ⟨loaded₀, hl₀, -⟩ := Option.bind_eq_some_iff.mp hl
      exact ⟨loaded₀, hl₀⟩
    · rintro ⟨loaded, hl⟩
      obtain ⟨stream', ho, -⟩ := hopen loaded (h.mirrors loaded hl)
      exact ⟨_, Option.bind_eq_some_iff.mpr ⟨loaded, hl, ho⟩⟩

theorem Inv.commitZeroFrame {typeId : BitVec 128} {a : Attribute}
    {fits : frameHeaderSize + a.size < 2 ^ 64} (h : r.Inv totalStreamCount murmur3)
    (hlive : stream.stream.Live (dataLocations id r.located))
    (hseg : ∀ n, stream.stream.segments n = r.streams.segment id n)
    (hopen : ∀ loaded, Mirrors r.streams r.committed loaded → ∃ stream',
      openZeroFrame totalStreamCount loaded id (FrameHeader.zero id typeId a) [a.entry] =
        some (Function.update loaded id (some stream')) ∧
      stream'.metadata = stream.metadata ∧
      stream'.stream.Loaded (dataLocations id r.committed)) :
    (r.commitZeroFrame murmur3 fault (.zero id typeId a fits) stream).Inv totalStreamCount murmur3 ∧
    ((r.commitZeroFrame murmur3 fault (.zero id typeId a fits) stream).Recoverable
      totalStreamCount ↔ r.Recoverable totalStreamCount) := by
  unfold Recording.commitZeroFrame
  split
  · rename_i store he
    exact ⟨h.setStore ((h.consistent.commitFrame he).1 rfl), Iff.rfl⟩
  · rename_i offset store he
    have hcons := (h.consistent.commitFrame he).2 offset rfl
    exact h.zeroFrame hcons ⟨Simtrace3Frame.validateHash_updateHash _, fun _ => rfl⟩ rfl rfl hlive
      hseg hopen

theorem Inv.register {typeId : BitVec 128} {a : Attribute}
    {fits : frameHeaderSize + a.size < 2 ^ 64} (h : r.Inv totalStreamCount murmur3)
    (hnew : r.streams id = none) (htype : a.type = satStreamDescription) :
    (r.commitZeroFrame murmur3 fault (.zero id typeId a fits) (.new a.buffer)).Inv
      totalStreamCount murmur3 ∧
    ((r.commitZeroFrame murmur3 fault (.zero id typeId a fits) (.new a.buffer)).Recoverable
      totalStreamCount ↔ r.Recoverable totalStreamCount) := by
  have hnone : ∀ cs : List Committed, (∀ c ∈ cs, c ∈ r.committed) → dataLocations id cs = [] := by
    rintro cs hcs
    rw [List.eq_nil_iff_forall_not_mem]
    rintro location hl
    obtain ⟨c, hc, -, rfl, -⟩ := mem_dataLocations.mp hl
    exact h.known c (hcs c hc) hnew
  have hlocated := hnone r.located fun c hc => (h.data_of_mem (by simp [hc])).1
  refine h.commitZeroFrame (hlocated ▸ .new) (fun n => ?_) fun loaded hm => ?_
  · rw [Streams.segment, hnew]
    rfl
  · have hl : loaded id = none := by simpa [hnew] using hm.metadata id
    exact ⟨.new a.buffer, @openZeroFrame_register _ _ (.zero id typeId a) a hl htype, rfl,
      hnone r.committed (fun _ hc => hc) ▸ .new⟩

theorem Inv.associate {typeId : BitVec 128} {a : Attribute} {ids : List StreamId}
    {fits : frameHeaderSize + a.size < 2 ^ 64} (h : r.Inv totalStreamCount murmur3)
    (hs : r.streams id = some stream) (hnew : stream.associated = none)
    (hcount : (totalStreamCount stream.descriptor).toNat = ids.length) (hne : ids ≠ [])
    (hids : ∀ i ∈ ids, r.streams i ≠ none) (htype : a.type = satAssociatedStreams)
    (hbuf : a.buffer = packAssociatedStreams ids) :
    (r.commitZeroFrame murmur3 fault (.zero id typeId a fits)
      { stream with associated := some ids }).Inv totalStreamCount murmur3 ∧
    ((r.commitZeroFrame murmur3 fault (.zero id typeId a fits)
      { stream with associated := some ids }).Recoverable totalStreamCount ↔
        r.Recoverable totalStreamCount) := by
  refine h.commitZeroFrame (h.live id stream hs) (fun n => (Streams.segment_eq hs n).symm)
    fun loaded hm => ?_
  obtain ⟨stream', hl, hmeta⟩ : ∃ stream', loaded id = some stream' ∧
      stream'.metadata = stream.metadata := by
    simpa [hs, Option.map_eq_some_iff] using hm.metadata id
  obtain ⟨hdesc, hassoc⟩ := Prod.mk.inj hmeta
  have hreg : ∀ i ∈ ids, loaded i ≠ none := fun i hi hnone => by
    have := hm.metadata i
    rw [hnone, Option.map_none, eq_comm, Option.map_eq_none_iff] at this
    exact hids i hi this
  refine ⟨{ stream' with associated := some ids },
    @openZeroFrame_associate _ _ (.zero id typeId a) a _ _ hl (hassoc.trans hnew) (hdesc ▸ hcount)
      hne hreg htype hbuf, ?_,
    hm.segments id stream' hl⟩
  simp [StoreStream.metadata, hdesc]

/-! ## Data frames -/

theorem Mirrors.openDataFrame {committed : List Committed} {c : Committed}
    (h : Mirrors streams committed loaded) (hdata : c.1.header.sequenceNumber ≠ -1)
    (ho : openDataFrame loaded c.1.header = some loaded') :
    Mirrors streams (committed ++ [c]) loaded' := by
  simp only [Simtrace3.openDataFrame, Option.bind_eq_bind, Option.bind_eq_some_iff,
    Option.some.injEq] at ho
  obtain ⟨stream, hl, s, hs, rfl⟩ := ho
  have hid : c.streamId = c.1.header.streamId := rfl
  constructor
  · rintro i
    rw [← h.metadata i]
    by_cases hi : i = c.1.header.streamId
    · subst hi
      rw [Function.update_self, hl]
      rfl
    · rw [Function.update_of_ne hi]
  · rintro i st hst
    rw [dataLocations_append, dataLocations_singleton]
    by_cases hi : i = c.1.header.streamId
    · subst hi
      rw [Function.update_self] at hst
      obtain rfl := Option.some.inj hst
      rw [if_pos ⟨hdata, hid⟩]
      exact (h.segments _ stream hl).loadSegment hs
    · rw [Function.update_of_ne hi] at hst
      rw [if_neg fun hd => hi (hd.2.symm.trans hid), List.append_nil]
      exact h.segments i st hst

theorem exists_openDataFrame_iff {header : FrameHeader}
    (hl : loaded header.streamId = some stream) :
    (∃ loaded', openDataFrame loaded header = some loaded') ↔
      ∃ s, loadSegment stream.stream (storageLocation header) = some s := by
  simp only [Simtrace3.openDataFrame, hl, Option.bind_eq_bind, Option.bind_some,
    Option.bind_eq_some_iff, Option.some.injEq]
  exact ⟨fun ⟨_, s, hs, _⟩ => ⟨s, hs⟩, fun ⟨s, hs⟩ => ⟨_, s, hs, rfl⟩⟩

theorem Mirrors.exists_stream {committed : List Committed}
    (h : Mirrors streams committed loaded) (hs : streams id ≠ none) :
    ∃ stream, loaded id = some stream := by
  rw [← Option.ne_none_iff_exists']
  rintro hl
  have := h.metadata id
  rw [hl, Option.map_none, eq_comm, Option.map_eq_none_iff] at this
  exact hs this

/-- As long as no segment was rejected, a submitted segment is not in the file. -/
theorem Inv.not_mem_file (h : r.Inv totalStreamCount murmur3) (hrej : r.rejected = [])
    (hsub : r.Submitted id n) :
    n ∉ (dataLocations id r.committed).map (·.sequenceNumber) := by
  rintro hn
  obtain ⟨location, hm, hln⟩ := List.mem_map.mp hn
  obtain ⟨c, hc, hdata, hid, rfl⟩ := mem_dataLocations.mp hm
  have hc' : c ∈ r.located ++ r.rejected ++ r.pending :=
    h.perm.mem_iff.mp (List.mem_filter.mpr ⟨hc, decide_eq_true hdata⟩)
  rw [hrej, List.append_nil, List.mem_append] at hc'
  rcases hc' with hc' | hc'
  · obtain ⟨loc, hseg, hnew, -⟩ := hsub.segment
    obtain ⟨stream, hs, hseg⟩ := Streams.exists_of_segment hseg
    obtain ⟨loc', hseg', hloc'⟩ := ((h.live id stream hs).locations c.location.normalize).mpr
      (mem_dataLocations.mpr ⟨c, hc', hdata, hid, rfl⟩)
    rw [hln] at hseg'
    obtain rfl := Option.some.inj (hseg.symm.trans hseg')
    cases hnew.symm.trans hloc'
  · exact hsub.notPending c hc' ⟨hid, hln⟩

theorem Inv.exists_openCommitted_iff (h : r.Inv totalStreamCount murmur3) (hrej : r.rejected = [])
    (hdata : frame.header.sequenceNumber ≠ -1)
    (hsub : r.Submitted frame.header.streamId frame.header.sequenceNumber.toNat)
    {loaded : Streams} (hl : r.reload totalStreamCount = some loaded) :
    (∃ loaded', openCommitted totalStreamCount loaded (frame.updateHash murmur3, offset) =
      some loaded') ↔ ∀ stream ∈ loaded frame.header.streamId,
        stream.stream.LocationAccepted (storageLocation frame.header) := by
  obtain ⟨loc, hseg, -⟩ := hsub.segment
  obtain ⟨stream, hs, -⟩ := Streams.exists_of_segment hseg
  have hopen : openCommitted totalStreamCount loaded (frame.updateHash murmur3, offset) =
      openDataFrame loaded (frame.updateHash murmur3).header := if_neg hdata
  have hm := h.mirrors loaded hl
  obtain ⟨st, hst⟩ := hm.exists_stream (hs ▸ Option.some_ne_none stream)
  have hloaded := hm.segments _ st hst
  have hiff : (∃ loaded', openDataFrame loaded (frame.updateHash murmur3).header =
      some loaded') ↔ ∃ s, loadSegment st.stream (storageLocation frame.header) = some s :=
    exists_openDataFrame_iff hst
  rw [hopen, hiff, hloaded.loadSegment_isSome_iff]
  constructor
  · rintro ⟨-, hacc⟩ st' hst'
    obtain rfl := Option.some.inj (hst.symm.trans hst')
    exact hacc
  · exact fun hacc => ⟨h.not_mem_file hrej hsub, hacc st hst⟩

/-- The frame of a submitted segment is accepted again, or the store does not open any more. -/
theorem Inv.recoverable_commit_iff (h : r.Inv totalStreamCount murmur3)
    (hdata : frame.header.sequenceNumber ≠ -1)
    (hsub : r.Submitted frame.header.streamId frame.header.sequenceNumber.toNat) :
    Recoverable totalStreamCount { r with
      store := store
      committed := r.committed ++ [(frame.updateHash murmur3, offset)]
      pending := r.pending ++ [(frame.updateHash murmur3, offset)] } ↔
        r.Recoverable totalStreamCount ∧ r.Accepted totalStreamCount murmur3 (.commit frame) := by
  let r' := { r with
    store := store
    committed := r.committed ++ [(frame.updateHash murmur3, offset)]
    pending := r.pending ++ [(frame.updateHash murmur3, offset)] }
  have hc : r'.committed = r.committed ++ [(frame.updateHash murmur3, offset)] := rfl
  rw [Recoverable, Recoverable, and_assoc]
  refine and_congr_right fun hrej => ?_
  rw [reload_append totalStreamCount hc]
  constructor
  · rintro ⟨loaded', hl⟩
    obtain ⟨loaded, hl, ho⟩ := Option.bind_eq_some_iff.mp hl
    refine ⟨⟨loaded, hl⟩, fun loaded₁ hl₁ => ?_⟩
    obtain rfl := Option.some.inj (hl.symm.trans (h.opens_iff.mp hl₁))
    exact (h.exists_openCommitted_iff hrej hdata hsub hl).mp ⟨loaded', ho⟩
  · rintro ⟨⟨loaded, hl⟩, hacc⟩
    obtain ⟨loaded', ho⟩ := (h.exists_openCommitted_iff hrej hdata hsub hl).mpr
      (hacc loaded (h.opens_iff.mpr hl))
    exact ⟨loaded', Option.bind_eq_some_iff.mpr ⟨loaded, hl, ho⟩⟩

theorem Inv.commit (h : r.Inv totalStreamCount murmur3) (hdata : frame.header.sequenceNumber ≠ -1)
    (hsub : r.Submitted frame.header.streamId frame.header.sequenceNumber.toNat)
    (he : r.store.commitFrame murmur3 fault frame = (some offset, store)) :
    Inv totalStreamCount murmur3 { r with
      store := store
      committed := r.committed ++ [(frame.updateHash murmur3, offset)]
      pending := r.pending ++ [(frame.updateHash murmur3, offset)] } ∧
    (Recoverable totalStreamCount { r with
      store := store
      committed := r.committed ++ [(frame.updateHash murmur3, offset)]
      pending := r.pending ++ [(frame.updateHash murmur3, offset)] } ↔
        r.Recoverable totalStreamCount ∧ r.Accepted totalStreamCount murmur3 (.commit frame)) := by
  obtain ⟨loc, hseg, hnew, hid⟩ := hsub.segment
  obtain ⟨stream, hs, -⟩ := Streams.exists_of_segment hseg
  let r' := { r with
    store := store
    committed := r.committed ++ [(frame.updateHash murmur3, offset)]
    pending := r.pending ++ [(frame.updateHash murmur3, offset)] }
  have hc : r'.committed = r.committed ++ [(frame.updateHash murmur3, offset)] := rfl
  have hreload := reload_append totalStreamCount hc
  have hopen : ∀ loaded, openCommitted totalStreamCount loaded (frame.updateHash murmur3, offset) =
      openDataFrame loaded (frame.updateHash murmur3).header := fun loaded => if_neg hdata
  refine ⟨⟨(h.consistent.commitFrame he).2 offset rfl, ?_, ?_, ?_, h.live, ?_, ?_, ?_⟩,
    h.recoverable_commit_iff hdata hsub⟩
  · rintro d hd
    rcases List.mem_append.mp hd with hd | hd
    · exact h.readable d hd
    · obtain rfl := List.mem_singleton.mp hd
      exact ⟨Simtrace3Frame.validateHash_updateHash _, fun hz => (hdata hz).elim⟩
  · rintro d hd
    rcases List.mem_append.mp hd with hd | hd
    · exact h.known d hd
    · obtain rfl := List.mem_singleton.mp hd
      exact (congrArg (· ≠ none) hs).mpr (Option.some_ne_none _)
  · have hf : (r.committed ++ [(frame.updateHash murmur3, offset)]).filter
        (fun c => c.1.header.sequenceNumber ≠ -1) =
          (r.committed.filter fun c => c.1.header.sequenceNumber ≠ -1) ++
            [(frame.updateHash murmur3, offset)] := by
      rw [List.filter_append]
      exact congrArg _ (List.filter_cons_of_pos (decide_eq_true hdata))
    exact hf ▸ (List.append_assoc .. ▸ h.perm.append_right _)
  · rintro d hd
    rcases List.mem_append.mp hd with hd | hd
    · exact h.pending d hd
    · obtain rfl := List.mem_singleton.mp hd
      exact ⟨loc, hseg, hnew, hid⟩
  · rw [List.map_append, List.map_singleton, ← List.concat_eq_append]
    refine List.Nodup.concat (fun hk => ?_) h.distinct
    obtain ⟨d, hd, hk⟩ := List.mem_map.mp hk
    exact hsub.notPending d hd (Prod.mk.inj hk)
  · rintro loaded hl
    rw [hreload, Option.bind_eq_some_iff] at hl
    obtain ⟨loaded₀, hl₀, hl⟩ := hl
    exact (h.mirrors loaded₀ hl₀).openDataFrame hdata ((hopen loaded₀).symm.trans hl)

theorem Inv.finish {c : Committed} {before after located rejected : List Committed}
    {s : ServerStream} {o : Option SegmentLocation} (h : r.Inv totalStreamCount murmur3)
    (hp : r.pending = before ++ c :: after) (hs : r.streams c.streamId = some stream)
    (hlive : s.Live (dataLocations c.streamId located))
    (hother : ∀ i, i ≠ c.streamId → dataLocations i located = dataLocations i r.located)
    (hseg : s.segments = Function.update stream.stream.segments c.sequenceNumber o)
    (hperm : (located ++ rejected).Perm (r.located ++ r.rejected ++ [c])) :
    Inv totalStreamCount murmur3 { r.setStream c.streamId { stream with stream := s } with
      pending := before ++ after, located := located, rejected := rejected } where
  consistent := h.consistent
  readable := h.readable
  known d hd := setStream_ne_none (h.known d hd)
  perm := by
    refine h.perm.trans ?_
    rw [hp]
    calc (r.located ++ r.rejected ++ (before ++ c :: after)).Perm
          (r.located ++ r.rejected ++ ([c] ++ (before ++ after))) :=
        List.perm_middle.append_left _
      _ = r.located ++ r.rejected ++ [c] ++ (before ++ after) := (List.append_assoc ..).symm
      List.Perm _ (located ++ rejected ++ (before ++ after)) := hperm.symm.append_right _
  live i st hst := by
    by_cases hi : i = c.streamId
    · subst hi
      obtain rfl := Option.some.inj (streams_setStream_self.symm.trans hst)
      exact hlive
    · exact hother i hi ▸ h.live i st ((streams_setStream_of_ne hi).symm.trans hst)
  pending d hd := by
    have hne : d.key ≠ c.key := fun hk => by
      have hnd := h.distinct
      rw [hp, List.map_append, List.map_cons, List.nodup_middle, List.nodup_cons,
        ← List.map_append] at hnd
      exact hnd.1 (hk ▸ List.mem_map_of_mem hd)
    have hmem : d ∈ r.pending := by
      rw [hp]
      exact List.mem_append.mpr ((List.mem_append.mp hd).imp id (List.mem_cons_of_mem _))
    obtain ⟨loc, hloc, hnew⟩ := h.pending d hmem
    exact ⟨loc, (segment_setStream hs hseg hne).trans hloc, hnew⟩
  distinct := by
    have hnd := h.distinct
    rw [hp, List.map_append, List.map_cons, List.nodup_middle, List.nodup_cons,
      ← List.map_append] at hnd
    exact hnd.2
  mirrors loaded hl :=
    ⟨fun i => ((h.mirrors loaded hl).metadata i).trans (metadata_setStream hs i).symm,
      (h.mirrors loaded hl).segments⟩

theorem Inv.complete {c : Committed} {before after : List Committed}
    (h : r.Inv totalStreamCount murmur3) (hp : r.pending = before ++ c :: after)
    (hc : r.completeSegment c (before ++ after) = some r') :
    r'.Inv totalStreamCount murmur3 ∧ (r'.Recoverable totalStreamCount ↔
      r.Recoverable totalStreamCount ∧ r.Accepted totalStreamCount murmur3 (.complete c)) := by
  have hmem : c ∈ r.pending := by rw [hp]; exact List.mem_append_right _ List.mem_cons_self
  have hdata := (h.data_of_mem (List.mem_append_right _ hmem)).2
  obtain ⟨loc, hseg, hnew, -⟩ := h.pending c hmem
  obtain ⟨stream, hs, hseg⟩ := Streams.exists_of_segment hseg
  have hlive := h.live c.streamId stream hs
  have hiff : r.Accepted totalStreamCount murmur3 (.complete c) ↔
      stream.stream.LocationAccepted c.location := by
    constructor
    · exact fun ha => ha stream hs
    · rintro ha st hst
      obtain rfl := Option.some.inj (hs.symm.trans hst)
      exact ha
  rw [Recording.completeSegment, Streams.completeSegment_eq hs hseg,
    Streams.completeSegment_eq hs hseg] at hc
  rw [hiff]
  by_cases hacc : stream.stream.LocationAccepted c.location
  · obtain ⟨s, o, he, hlive', hsegs⟩ := hlive.locateSegment hseg hnew hacc false
    rw [he] at hc
    obtain rfl := Option.some.inj hc
    refine ⟨h.finish hp hs ?_ (fun i hi => ?_) hsegs ?_, (and_iff_left hacc).symm⟩
    · rw [dataLocations_append, dataLocations_singleton, if_pos ⟨hdata, rfl⟩]
      exact hlive'
    · rw [dataLocations_append, dataLocations_singleton, if_neg fun hd => hi hd.2.symm,
        List.append_nil]
    · rw [List.append_assoc, List.append_assoc]
      exact List.perm_append_comm.append_left _
  · obtain ⟨s, he, hlive', hsegs⟩ := hlive.deleteSegment hseg hnew false
    rw [ServerStream.completeEncoding_eq_none hacc, he] at hc
    obtain rfl := Option.some.inj hc
    refine ⟨h.finish hp hs hlive' (fun _ _ => rfl) hsegs ?_, ?_⟩
    · rw [List.append_assoc]
    · refine iff_of_false (fun hr => ?_) fun hr => hacc hr.2
      exact List.append_ne_nil_of_right_ne_nil _ (List.cons_ne_nil c []) hr.1

theorem Inv.exists_complete {c : Committed} {before after : List Committed}
    (h : r.Inv totalStreamCount murmur3) (hp : r.pending = before ++ c :: after) :
    ∃ r', r.completeSegment c (before ++ after) = some r' ∧ r'.pending = before ++ after := by
  have hmem : c ∈ r.pending := by rw [hp]; exact List.mem_append_right _ List.mem_cons_self
  obtain ⟨loc, hseg, hnew, -⟩ := h.pending c hmem
  obtain ⟨stream, hs, hseg⟩ := Streams.exists_of_segment hseg
  rw [Recording.completeSegment, Streams.completeSegment_eq hs hseg,
    Streams.completeSegment_eq hs hseg]
  cases stream.stream.completeEncoding loc (some c.location) false with
  | some s => exact ⟨_, rfl, rfl⟩
  | none =>
    obtain ⟨s, he, -⟩ := (h.live c.streamId stream hs).deleteSegment hseg hnew false
    rw [he]
    exact ⟨_, rfl, rfl⟩

/-- A step keeps the invariant. The file stays recoverable if and only if the step is accepted. -/
theorem Inv.step (h : r.Inv totalStreamCount murmur3)
    (hs : Step totalStreamCount murmur3 r a r') :
    r'.Inv totalStreamCount murmur3 ∧ (r'.Recoverable totalStreamCount ↔
      r.Recoverable totalStreamCount ∧ r.Accepted totalStreamCount murmur3 a) := by
  cases hs with
  | register new type fits =>
    obtain ⟨hi, hr⟩ := h.register new type
    exact ⟨hi, hr.trans (and_iff_left trivial).symm⟩
  | associate registered new count nonempty hidden type buffer fits =>
    obtain ⟨hi, hr⟩ := h.associate registered new count nonempty hidden type buffer
    exact ⟨hi, hr.trans (and_iff_left trivial).symm⟩
  | append registered free valid =>
    exact ⟨h.append registered free _ _, (and_iff_left trivial).symm⟩
  | submit registered segment notLocated writable =>
    exact ⟨h.submit registered segment notLocated writable, (and_iff_left trivial).symm⟩
  | discard submitted completed =>
    exact ⟨h.discard submitted completed, (and_iff_left trivial).symm⟩
  | commit data submitted committed => exact h.commit data submitted committed
  | commitFailed data submitted failed completed =>
    have hstore := h.setStore ((h.consistent.commitFrame failed).1 rfl)
    exact ⟨hstore.discard ⟨submitted.segment, submitted.notPending⟩ completed,
      (and_iff_left trivial).symm⟩
  | complete pending completed => exact h.complete pending completed

/-- Along a run, the file is recoverable if and only if all steps were accepted. -/
theorem Run.recoverable_iff {trace : List (Recording × Action)}
    (h : Run totalStreamCount murmur3 trace r) :
    r.Inv totalStreamCount murmur3 ∧ (r.Recoverable totalStreamCount ↔
      ∀ p ∈ trace, p.1.Accepted totalStreamCount murmur3 p.2) := by
  induction h with
  | new => exact ⟨.new, fun _ _ h => (by cases h), fun _ => ⟨rfl, _, rfl⟩⟩
  | step run step ih =>
    obtain ⟨hi, hr⟩ := ih.1.step step
    refine ⟨hi, hr.trans ?_⟩
    rw [ih.2, List.forall_mem_append, List.forall_mem_singleton]

end Simutrace.Simtrace3.Recording
