import Simutrace.MemoryEncoder.RoundTrip
import Simutrace.Vpc4.Selection

/-! # Reproducible encoding of memory segments

Of all correct predictions, the encoder is to write the id of the one that it
selected most often before, and its output is to depend on the entries and the
start cycle only. The constructor of the predictors clears the first usage
counter of each table, the others keep what the memory held. They never decide
if and only if the segment is settled.
-/

namespace Simutrace

open Vpc4 SubSegments

namespace MemoryEntry

variable {t : AccessType}

def field (i : Fin t.dataFieldCount) (entry : MemoryEntry t) : BitVec t.width × BitVec t.width :=
  (entry.dataFields i, entry.ip)

/-- What the cycle predictor encodes. -/
def cycle (entry : MemoryEntry t) : BitVec 64 × BitVec t.width :=
  (MetaData.cycleCount entry.metadata, entry.ip)

end MemoryEntry

namespace Coder

variable {t : AccessType} {e e' d d' : Coder t} {entries : List (MemoryEntry t)}

structure Encodes (e : Coder t) (entries : List (MemoryEntry t)) (e' : Coder t) : Prop where
  ip : (entries.map MemoryEntry.ip).foldlM IpPredictor.coding.encode e.ip = some e'.ip
  values : ∀ i, (entries.map (MemoryEntry.field i)).foldlM ValuePredictor.coding.encode
    (e.values i) = some (e'.values i)
  cycle : (entries.map MemoryEntry.cycle).foldlM CyclePredictor.coding.encode e.cycle =
    some e'.cycle
  metaDataBuffer : entries.foldlM (fun c entry => c.putWord (MetaData.toBits entry.metadata))
    e.metaDataBuffer = some e'.metaDataBuffer

theorem encodes_of_foldlM (h : entries.foldlM encodeEntry e = some e') : Encodes e entries e' := by
  induction entries generalizing e with
  | nil =>
    obtain rfl := Option.some.inj h
    exact ⟨rfl, fun _ => rfl, rfl, rfl⟩
  | cons entry entries ih =>
    rw [List.foldlM_cons, Option.bind_eq_bind, Option.bind_eq_some_iff] at h
    obtain ⟨e₁, h₁, h₂⟩ := h
    obtain ⟨hip, hvalues, hcycle, hm⟩ := encodeEntry_eq_some h₁
    have hrest := ih h₂
    constructor
    · simp only [List.map_cons, List.foldlM_cons, Option.bind_eq_bind, IpPredictor.encode_coding,
        hip, Option.bind_some]
      exact hrest.ip
    · intro i
      simp only [List.map_cons, List.foldlM_cons, Option.bind_eq_bind,
        ValuePredictor.encode_coding, MemoryEntry.field, hvalues i, Option.bind_some]
      exact hrest.values i
    · simp only [List.map_cons, List.foldlM_cons, Option.bind_eq_bind,
        CyclePredictor.encode_coding, MemoryEntry.cycle, hcycle, Option.bind_some]
      exact hrest.cycle
    · simp only [List.foldlM_cons, Option.bind_eq_bind, hm, Option.bind_some]
      exact hrest.metaDataBuffer

structure BestFor (c : Coder t) (entry : MemoryEntry t) (out : SubSegments t) (position : ℕ) :
    Prop where
  ip : Coding.BestAt (c.ip.predictor.predicts entry.ip) (out.ids ipId) position
  values : ∀ i, Coding.BestAt ((c.values i).predictor.predictsFor (entry.field i))
    (out.ids (fieldId i)) position
  cycle : Coding.BestAt (c.cycle.predictor.predicts entry.cycle) (out.ids cycleId) position

end Coder

open Coder MemoryLayout

variable {t : AccessType} {cfg : BuildConfig} {memory memory' : PredictorMemory t}
  {startCycle : BitVec 64} {entries : List (MemoryEntry t)} {b out out' : SubSegments t}
  {e e' : Coder t}

def SelectsBest (memory : PredictorMemory t) (startCycle : BitVec 64)
    (entries : List (MemoryEntry t)) (b out : SubSegments t) : Prop :=
  ∀ before entry after c, entries = before ++ entry :: after →
    before.foldlM encodeEntry (start memory startCycle b) = some c →
      BestFor c entry out before.length

/-- Whatever the memory of the predictors held, the encoder selects the best predictions and its
output is the same. -/
structure Reproducible (startCycle : BitVec 64) (entries : List (MemoryEntry t))
    (b : SubSegments t) : Prop where
  best : ∀ memory, ∃ out, encode memory startCycle entries b = some out ∧
    SelectsBest memory startCycle entries b out
  same : ∀ memory memory', encode memory startCycle entries b = encode memory' startCycle entries b

/-- Where a correct prediction has a counter that is not cleared, it is the last correct one of its
compound predictor, the others are cleared, and none of them was selected before. -/
structure SelectionsSettled (startCycle : BitVec 64) (entries : List (MemoryEntry t)) : Prop where
  ip : UsageSelection.Settled (2 ^ 64) FcmPair.cleared
    (IpPredictor.coding.predictions (.new fun _ _ => 0) (entries.map MemoryEntry.ip))
  values : ∀ i, UsageSelection.Settled (2 ^ 64) ValuePredictor.cleared
    (ValuePredictor.coding.predictions (.new fun _ _ => 0) (entries.map (MemoryEntry.field i)))
  cycle : UsageSelection.Settled (2 ^ 64) FcmPair.cleared
    (CyclePredictor.coding.predictions (.new (fun _ _ => 0) startCycle)
      (entries.map MemoryEntry.cycle))

theorem encode_eq_some_iff : encode memory startCycle entries b = some out ↔
    ∃ e, entries.foldlM encodeEntry (start memory startCycle b) = some e ∧ e.finish = out := by
  simp [encode, Option.bind_eq_some_iff]

theorem length_lt_of_le (hn : entries.length ≤ maxEntryCount cfg t) :
    entries.length < 2 ^ 64 := by
  have h := cfg.segmentSize_lt
  have hdiv := Nat.div_le_self cfg.segmentSize t.entrySize
  rw [maxEntryCount] at hn
  omega

theorem SelectionsSettled.finish_eq (h : SelectionsSettled startCycle entries)
    (he : Encodes (start memory startCycle b) entries e)
    (he' : Encodes (start memory' startCycle b) entries e') : e.finish = e'.finish := by
  have hip : e.ip.codeBuffer = e'.ip.codeBuffer ∧ e.ip.dataBuffer = e'.ip.dataBuffer := by
    apply Coding.buffers_eq_of_settled _ _ _ _ _ _ h.ip he.ip he'.ip
    · exact FcmPair.sameTables_new _ _
    · exact FcmPair.sameTables_new _ _
    · rfl
    · rfl
    · exact IpPredictor.start_coding memory.ip
    · exact IpPredictor.start_coding memory'.ip
  have hvalues (i : Fin t.dataFieldCount) : (e.values i).codeBuffer = (e'.values i).codeBuffer ∧
      (e.values i).dataBuffer = (e'.values i).dataBuffer := by
    apply Coding.buffers_eq_of_settled _ _ _ _ _ _ (h.values i) (he.values i) (he'.values i)
    · exact ValuePredictor.sameTables_new _ _
    · exact ValuePredictor.sameTables_new _ _
    · rfl
    · rfl
    · exact ValuePredictor.start_coding (memory.values i)
    · exact ValuePredictor.start_coding (memory'.values i)
  have hcycle : e.cycle.codeBuffer = e'.cycle.codeBuffer ∧
      e.cycle.dataBuffer = e'.cycle.dataBuffer := by
    apply Coding.buffers_eq_of_settled _ _ _ _ _ _ h.cycle he.cycle he'.cycle
    · exact CyclePredictor.sameTables_new _ _ _
    · exact CyclePredictor.sameTables_new _ _ _
    · rfl
    · rfl
    · exact CyclePredictor.start_coding memory.cycle startCycle
    · exact CyclePredictor.start_coding memory'.cycle startCycle
  have hmeta : e.metaDataBuffer = e'.metaDataBuffer :=
    Option.some.inj (he.metaDataBuffer.symm.trans he'.metaDataBuffer)
  simp only [finish, hip, hvalues, hcycle, hmeta]

theorem SelectionsSettled.selectsBest (h : SelectionsSettled startCycle entries)
    (length : entries.length < 2 ^ 64)
    (he : entries.foldlM encodeEntry (start memory startCycle b) = some e) :
    SelectsBest memory startCycle entries b e.finish := by
  rintro before entry after c rfl hc
  have hlen : before.length < 2 ^ 64 := by
    simp only [List.length_append, List.length_cons] at length
    omega
  have hbefore := encodes_of_foldlM hc
  have hall := encodes_of_foldlM he
  have hw := writtenTo_finish e
  constructor
  · have hs := h.ip
    have hip := hall.ip
    rw [List.map_append, List.map_cons] at hs hip
    have hbest := Coding.bestAt_of_settled (by decide) (FcmPair.sameTables_new _ _)
      (IpPredictor.start_coding memory.ip) hs (by rwa [List.length_map]) rfl hbefore.ip hip
      hw.ip.codeBuffer
    rwa [List.length_map] at hbest
  · intro i
    have hs := h.values i
    have hvalues := hall.values i
    rw [List.map_append, List.map_cons] at hs hvalues
    have hbest := Coding.bestAt_of_settled (by decide) (ValuePredictor.sameTables_new _ _)
      (ValuePredictor.start_coding (memory.values i)) hs (by rwa [List.length_map]) rfl
      (hbefore.values i) hvalues (hw.values i).codeBuffer
    rwa [List.length_map] at hbest
  · have hs := h.cycle
    have hcycle := hall.cycle
    rw [List.map_append, List.map_cons] at hs hcycle
    have hbest := Coding.bestAt_of_settled (by decide) (CyclePredictor.sameTables_new _ _ _)
      (CyclePredictor.start_coding memory.cycle startCycle) hs (by rwa [List.length_map]) rfl
      hbefore.cycle hcycle hw.cycle.codeBuffer
    rwa [List.length_map] at hbest

theorem selectionsSettled_of_same (hb : b.Sized cfg) (hn : entries.length ≤ maxEntryCount cfg t)
    (same : ∀ memory memory', encode memory startCycle entries b =
      encode memory' startCycle entries b) : SelectionsSettled startCycle entries := by
  have hlen := length_lt_of_le hn
  have hruns (memory memory' : PredictorMemory t) : ∃ e e',
      Encodes (start memory startCycle b) entries e ∧
        Encodes (start memory' startCycle b) entries e' ∧ e.finish.ids = e'.finish.ids := by
    obtain ⟨out, hout⟩ : ∃ out, encode memory startCycle entries b = some out :=
        encode_of_le hb hn
    obtain ⟨e, he, rfl⟩ := encode_eq_some_iff.mp hout
    obtain ⟨e', he', heq⟩ := encode_eq_some_iff.mp ((same memory' memory).trans hout)
    exact ⟨e, e', encodes_of_foldlM he, encodes_of_foldlM he', by rw [heq]⟩
  constructor
  · apply Coding.settled_of_same (fun memory => (start memory startCycle b).ip) (by decide)
      (by rwa [List.length_map]) (fun memory => FcmPair.sameTables_new memory.ip _)
      fun _ _ => rfl
    · intro base hbase
      obtain ⟨memory, hmemory⟩ := FcmPair.exists_memory hbase
      exact ⟨⟨memory, fun _ _ => 0, fun _ _ _ => 0⟩, hmemory⟩
    · intro memory memory'
      obtain ⟨e, e', he, he', hids⟩ := hruns memory memory'
      exact ⟨e.ip, e'.ip, he.ip, he'.ip, congrFun hids ipId⟩
  · intro i
    apply Coding.settled_of_same (fun memory => (start memory startCycle b).values i) (by decide)
      (by rwa [List.length_map]) (fun memory => ValuePredictor.sameTables_new (memory.values i) _)
      fun _ _ => rfl
    · intro base hbase
      obtain ⟨memory, hmemory⟩ := ValuePredictor.exists_memory hbase
      exact ⟨⟨fun _ _ => 0, fun _ _ => 0, fun _ => memory⟩, hmemory⟩
    · intro memory memory'
      obtain ⟨e, e', he, he', hids⟩ := hruns memory memory'
      have hid := congrFun hids (fieldId i)
      rw [ids_finish_fieldId, ids_finish_fieldId] at hid
      exact ⟨e.values i, e'.values i, he.values i, he'.values i, hid⟩
  · apply Coding.settled_of_same (fun memory => (start memory startCycle b).cycle) (by decide)
      (by rwa [List.length_map]) (fun memory => CyclePredictor.sameTables_new memory.cycle _ _)
      fun _ _ => rfl
    · intro base hbase
      obtain ⟨memory, hmemory⟩ := FcmPair.exists_memory hbase
      exact ⟨⟨fun _ _ => 0, memory, fun _ _ _ => 0⟩, hmemory⟩
    · intro memory memory'
      obtain ⟨e, e', he, he', hids⟩ := hruns memory memory'
      have hid := congrFun hids cycleId
      rw [ids_finish_cycleId, ids_finish_cycleId] at hid
      exact ⟨e.cycle, e'.cycle, he.cycle, he'.cycle, hid⟩

/-- For every entry list and start cycle, the encoder selects the best predictions and its output
does not depend on what the memory held if and only if no counter that is not cleared decides. -/
theorem reproducible_iff (cfg : BuildConfig) (t : AccessType) (startCycle : BitVec 64)
    (entries : List (MemoryEntry t)) (b : SubSegments t) (hb : b.Sized cfg)
    (hn : entries.length ≤ maxEntryCount cfg t) :
    Reproducible startCycle entries b ↔ SelectionsSettled startCycle entries := by
  constructor
  · intro h
    exact selectionsSettled_of_same hb hn h.same
  · intro h
    constructor
    · intro memory
      obtain ⟨out, hout⟩ : ∃ out, encode memory startCycle entries b = some out :=
        encode_of_le hb hn
      obtain ⟨e, he, rfl⟩ := encode_eq_some_iff.mp hout
      exact ⟨e.finish, hout, h.selectsBest (length_lt_of_le hn) he⟩
    · intro memory memory'
      obtain ⟨out, hout⟩ : ∃ out, encode memory startCycle entries b = some out :=
        encode_of_le hb hn
      obtain ⟨out', hout'⟩ : ∃ out, encode memory' startCycle entries b = some out :=
        encode_of_le hb hn
      obtain ⟨e, he, rfl⟩ := encode_eq_some_iff.mp hout
      obtain ⟨e', he', rfl⟩ := encode_eq_some_iff.mp hout'
      rw [hout, hout', h.finish_eq (encodes_of_foldlM he) (encodes_of_foldlM he')]

theorem reproducible_strided :
    Reproducible 40 (strided .memoryAccess32 4) (SubSegments.cleared .default .memoryAccess32) := by
  apply (reproducible_iff .default .memoryAccess32 40 (strided .memoryAccess32 4) _
    (SubSegments.sized_cleared _ _) (by decide)).mpr
  constructor
  · apply UsageSelection.settled_of_cleared
    decide +kernel
  · intro i
    apply UsageSelection.settled_of_cleared
    fin_cases i
    decide +kernel
  · apply UsageSelection.settled_of_cleared
    decide +kernel

/-- Both tables predict the instruction pointer 1 with a counter that is not cleared. -/
theorem not_reproducible_one :
    ¬ Reproducible 0 [⟨0, 1, fun _ => 0⟩] (SubSegments.cleared .default .memoryAccess32) := by
  intro h
  have hs : SelectionsSettled 0 [(⟨0, 1, fun _ => 0⟩ : MemoryEntry .memoryAccess32)] :=
    selectionsSettled_of_same (SubSegments.sized_cleared _ _) MemoryLayout.maxEntryCount_pos h.same
  have hip := UsageSelection.settled_singleton_iff.mp hs.ip
  have hcleared : ¬ FcmPair.cleared 1 := by simp [FcmPair.cleared]
  have hthree := hip 1 (by decide) hcleared 3 (by decide) (by decide)
  exact absurd hthree.2.1 (by decide)

end Simutrace
