import Simutrace.Store.Recording
import Mathlib.Data.List.Nodup
import Mathlib.Data.List.Perm.Basic

/-! # What opening a store loads

Opening a file loads the frames in the order in which they were committed. Each
stream gets the segments of its data frames, and its statistics do not depend
on their order.
-/

namespace Simutrace

def StreamStatistics.account (stats : StreamStatistics) (location : StorageLocation) :
    StreamStatistics where
  compressedSize := stats.compressedSize + location.compressedSize
  entryCount := stats.entryCount + location.getEntryCount
  rawEntryCount := stats.rawEntryCount + location.rawEntryCount
  ranges i := ServerStream.extendRange (stats.ranges i) (location.ranges i)

theorem ServerStream.extendRange_comm (stat a b : Range) :
    extendRange (extendRange stat a) b = extendRange (extendRange stat b) a := by
  unfold extendRange
  by_cases ha : a.Valid <;> by_cases hb : b.Valid <;> simp only [ha, hb, if_true, if_false]
  obtain ⟨-, ha⟩ := ha
  obtain ⟨-, hb⟩ := hb
  rw [Range.mk.injEq]
  constructor
  · split_ifs <;> omega
  · split_ifs <;> omega

instance : RightCommutative StreamStatistics.account where
  right_comm stats a b := by
    simp only [StreamStatistics.account, ServerStream.extendRange_comm _ (a.ranges _),
      Nat.add_right_comm _ a.compressedSize, Nat.add_right_comm _ a.getEntryCount,
      Nat.add_right_comm _ a.rawEntryCount]

namespace ServerStream

variable {acc : List StorageLocation} {s s' : ServerStream}

theorem Located.stats (h : Located acc s) :
    s.stats = acc.foldl StreamStatistics.account ServerStream.new.stats := by
  induction h with
  | new => rfl
  | allocate h sqn session buffer free ih => exact ih
  | discard h sqn new ih => exact ih
  | add h location new accepted ih =>
    obtain ⟨-, -, hstats, -⟩ := addSegment_spec accepted
    rw [hstats, List.foldl_append, ← ih]
    rfl

structure Loaded (acc : List StorageLocation) (s : ServerStream) : Prop where
  located : Located acc s
  segments : ∀ n, s.segments n ≠ none → n ∈ acc.map (·.sequenceNumber)
  nodup : (acc.map (·.sequenceNumber)).Nodup

theorem Loaded.new : Loaded [] .new := ⟨.new, fun _ h => (h rfl).elim, List.nodup_nil⟩

theorem Loaded.segmentIsAllocated_iff (h : Loaded acc s) (n : StreamSegmentId) :
    s.SegmentIsAllocated n ↔ n ∈ acc.map (·.sequenceNumber) := by
  constructor
  · exact fun hn => h.segments n hn.2
  · rintro hn
    obtain ⟨location, hm, rfl⟩ := List.mem_map.mp hn
    obtain ⟨loc, hs, -⟩ := (h.located.hasLocation_iff location).mpr hm
    have hne : s.segments location.sequenceNumber ≠ none := by rw [hs]; exact Option.some_ne_none _
    exact ⟨h.located.lt_size hne, hne⟩

theorem Loaded.loadSegment_isSome_iff (h : Loaded acc s) (location : StorageLocation) :
    (∃ s', Simtrace3.loadSegment s location = some s') ↔
      location.sequenceNumber ∉ acc.map (·.sequenceNumber) ∧ s.LocationAccepted location := by
  rw [← h.segmentIsAllocated_iff, Simtrace3.loadSegment]
  split
  · rename_i ha
    exact iff_of_false (by rintro ⟨_, ⟨⟩⟩) fun hn => hn.1 ha
  · rename_i ha
    exact ⟨fun ⟨s', hs⟩ => ⟨ha, (addSegment_spec hs).1⟩, fun hn => exists_addSegment hn.2⟩

theorem Loaded.loadSegment {location : StorageLocation} (h : Loaded acc s)
    (hs : Simtrace3.loadSegment s location = some s') :
    Loaded (acc ++ [location.normalize]) s' := by
  have hnot := ((h.loadSegment_isSome_iff location).mp ⟨s', hs⟩).1
  have hfree : s.segments location.sequenceNumber = none := by
    by_contra hne
    exact hnot (h.segments _ hne)
  rw [Simtrace3.loadSegment] at hs
  split at hs
  · cases hs
  · refine ⟨h.located.add location (by rw [hfree]; rintro _ ⟨⟩) hs, fun n hn => ?_, ?_⟩
    · obtain ⟨-, -, -, -, -, loc, -, hseg⟩ := addSegment_spec hs
      rw [List.map_append, List.mem_append]
      by_cases he : n = location.sequenceNumber
      · exact Or.inr (List.mem_singleton.mpr he)
      · rw [hseg, Function.update_of_ne he] at hn
        exact Or.inl (h.segments n hn)
    · rw [List.map_append, List.map_singleton, ← List.concat_eq_append]
      exact List.Nodup.concat hnot h.nodup

end ServerStream

namespace Simtrace3

variable {totalStreamCount : List UInt8 → BitVec 32} {murmur3 : List UInt8 → BitVec 32}

def openCommitted (totalStreamCount : List UInt8 → BitVec 32) (streams : Streams) (c : Committed) :
    Option Streams :=
  if c.1.header.sequenceNumber = -1 then
    openZeroFrame totalStreamCount streams c.1.header.streamId c.1.header
      (c.1.attributes.map Attribute.entry)
  else openDataFrame streams c.1.header

/-- A zero frame can be read back. -/
structure Committed.Readable (murmur3 : List UInt8 → BitVec 32) (c : Committed) : Prop where
  hash : c.1.header.validateHash murmur3
  count : c.1.header.sequenceNumber = -1 →
    c.1.header.attributeCount.toNat = c.1.attributes.length

theorem openFrame_of_stored {storage : Storage} {current : Option ℕ} {c : Committed}
    (h : Stored storage current c.1 c.2) (hr : c.Readable murmur3) (streams : Streams) :
    openFrame totalStreamCount murmur3 storage streams c.link =
      openCommitted totalStreamCount streams c := by
  have hlink : c.link.frameHeader = c.1.header := rfl
  rw [openFrame, openCommitted, hlink]
  split
  · rename_i hz
    rw [readFrame_of_stored h hr.hash (hr.count hz), Option.bind_some]
  · rfl

theorem foldlM_openFrame {storage : Storage} {current : Option ℕ} {cs : List Committed}
    (h : ∀ c ∈ cs, Stored storage current c.1 c.2) (hr : ∀ c ∈ cs, c.Readable murmur3)
    (streams : Streams) :
    (cs.map Committed.link).foldlM (openFrame totalStreamCount murmur3 storage) streams =
      cs.foldlM (openCommitted totalStreamCount) streams := by
  induction cs generalizing streams with
  | nil => rfl
  | cons c cs ih =>
    rw [List.map_cons, List.foldlM_cons, List.foldlM_cons,
      openFrame_of_stored (h c List.mem_cons_self) (hr c List.mem_cons_self)]
    refine congrArg _ (funext fun streams => ih (fun c hc => ?_) (fun c hc => ?_) streams)
    · exact h c (List.mem_cons_of_mem _ hc)
    · exact hr c (List.mem_cons_of_mem _ hc)

def dataLocations (id : StreamId) (cs : List Committed) : List StorageLocation :=
  (cs.filter fun c => c.1.header.sequenceNumber ≠ -1 ∧ c.streamId = id).map
    fun c => c.location.normalize

theorem dataLocations_append (id : StreamId) (cs cs' : List Committed) :
    dataLocations id (cs ++ cs') = dataLocations id cs ++ dataLocations id cs' := by
  rw [dataLocations, List.filter_append, List.map_append]
  rfl

theorem dataLocations_singleton (id : StreamId) (c : Committed) : dataLocations id [c] =
    if c.1.header.sequenceNumber ≠ -1 ∧ c.streamId = id then [c.location.normalize] else [] := by
  unfold dataLocations
  split <;> simp_all

theorem mem_dataLocations {id : StreamId} {cs : List Committed} {location : StorageLocation} :
    location ∈ dataLocations id cs ↔ ∃ c ∈ cs, c.1.header.sequenceNumber ≠ -1 ∧
      c.streamId = id ∧ c.location.normalize = location := by
  simp [dataLocations, and_assoc]

theorem dataLocations_perm {cs ds : List Committed} (id : StreamId) (h : cs.Perm ds) :
    (dataLocations id cs).Perm (dataLocations id ds) :=
  (h.filter _).map _

theorem dataLocations_filter (id : StreamId) (cs : List Committed) :
    dataLocations id (cs.filter fun c => c.1.header.sequenceNumber ≠ -1) = dataLocations id cs := by
  rw [dataLocations, List.filter_filter, dataLocations]
  congr 2
  ext c
  simp only [Bool.decide_and, Bool.and_right_comm, Bool.and_self]

end Simtrace3

end Simutrace
