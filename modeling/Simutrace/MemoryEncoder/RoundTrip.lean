import Simutrace.MemoryEncoder.Codec

/-! # Lossless encoding of memory segments

The decoder follows the encoder entry by entry: all of its predictors agree
with those of the encoder, and each of its pointers stands where the encoder
wrote next.
-/

namespace Simutrace

open Vpc4 SubSegments

namespace Coder

variable {t : AccessType} {cfg : BuildConfig} {e e' e'' d : Coder t} {b : SubSegments t}
  {entry : MemoryEntry t} {entries : List (MemoryEntry t)} {n : ℕ}

/-- The decoder stands where the encoder stands, over buffers that hold the final contents. -/
structure Follows (b : SubSegments t) (e d : Coder t) : Prop where
  ip : Channel.Follows FcmPair.SameTables (b.ids ipId) (b.data ipData) e.ip d.ip
  values : ∀ i, Channel.Follows ValuePredictor.SameTables (b.ids (fieldId i)) (b.data (fieldData i))
    (e.values i) (d.values i)
  cycle : Channel.Follows CyclePredictor.SameTables (b.ids cycleId) b.cycle e.cycle d.cycle
  metaDataBuffer : d.metaDataBuffer = ⟨b.metaData, e.metaDataBuffer.pos⟩

/-- What the encoder has written is found in the final buffers. -/
structure WrittenTo (b : SubSegments t) (e : Coder t) : Prop where
  ip : e.ip.WrittenTo (b.ids ipId) (b.data ipData)
  values : ∀ i, (e.values i).WrittenTo (b.ids (fieldId i)) (b.data (fieldData i))
  cycle : e.cycle.WrittenTo (b.ids cycleId) b.cycle
  metaDataBuffer : e.metaDataBuffer.written <+: b.metaData

/-- There is room for `n` more entries in all buffers. -/
structure Room (n : ℕ) (e : Coder t) : Prop where
  ip : e.ip.Room t.width n
  values : ∀ i, (e.values i).Room t.width n
  cycle : e.cycle.Room 64 n
  metaDataBuffer : e.metaDataBuffer.pos + 2 * n ≤ e.metaDataBuffer.bytes.length

structure Extends (e e' : Coder t) : Prop where
  ip : e.ip.Extends e'.ip
  values : ∀ i, (e.values i).Extends (e'.values i)
  cycle : e.cycle.Extends e'.cycle
  metaDataLength : e'.metaDataBuffer.bytes.length = e.metaDataBuffer.bytes.length
  metaDataBuffer : e.metaDataBuffer.written <+: e'.metaDataBuffer.written

theorem Extends.refl (e : Coder t) : Extends e e :=
  ⟨.refl _, fun _ => .refl _, .refl _, rfl, List.prefix_rfl⟩

theorem Extends.trans (h : Extends e e') (h' : Extends e' e'') : Extends e e'' :=
  ⟨h.ip.trans h'.ip, fun i => (h.values i).trans (h'.values i), h.cycle.trans h'.cycle,
    h'.metaDataLength.trans h.metaDataLength, h.metaDataBuffer.trans h'.metaDataBuffer⟩

theorem WrittenTo.of_extends (h : Extends e e') (hw : WrittenTo b e') : WrittenTo b e :=
  ⟨hw.ip.of_extends h.ip, fun i => (hw.values i).of_extends (h.values i),
    hw.cycle.of_extends h.cycle, h.metaDataBuffer.trans hw.metaDataBuffer⟩

theorem encodeEntry_eq_some (h : encodeEntry e entry = some e') :
    IpPredictor.encodeIp e.ip entry.ip = some e'.ip ∧
    (∀ i, ValuePredictor.encodeValue (e.values i) (entry.dataFields i) entry.ip =
      some (e'.values i)) ∧
    CyclePredictor.encodeCycle e.cycle (MetaData.cycleCount entry.metadata) entry.ip =
      some e'.cycle ∧
    e.metaDataBuffer.putWord (MetaData.toBits entry.metadata) = some e'.metaDataBuffer := by
  simp only [encodeEntry, Option.bind_eq_bind, Option.bind_eq_some_iff] at h
  obtain ⟨ip, hip, values, hvalues, cycle, hcycle, m, hm, he⟩ := h
  obtain rfl := Option.some.inj he
  exact ⟨hip, allSome_eq_some_iff.mp hvalues, hcycle, hm⟩

theorem extends_encodeEntry (h : encodeEntry e entry = some e') : Extends e e' := by
  obtain ⟨hip, hvalues, hcycle, hm⟩ := encodeEntry_eq_some h
  exact ⟨IpPredictor.extends_encodeIp hip, fun i => ValuePredictor.extends_encodeValue (hvalues i),
    CyclePredictor.extends_encodeCycle hcycle, Cursor.length_put hm,
    ⟨_, (Cursor.written_put hm).symm⟩⟩

theorem extends_foldlM (h : entries.foldlM encodeEntry e = some e') : Extends e e' := by
  induction entries generalizing e with
  | nil => obtain rfl := Option.some.inj h; exact .refl _
  | cons entry entries ih =>
    rw [List.foldlM_cons, Option.bind_eq_bind, Option.bind_eq_some_iff] at h
    obtain ⟨e₁, h₁, h₂⟩ := h
    exact (extends_encodeEntry h₁).trans (ih h₂)

theorem encodeEntry_of_room (hr : Room (n + 1) e) (entry : MemoryEntry t) :
    ∃ e', encodeEntry e entry = some e' ∧ Room n e' := by
  obtain ⟨ip, hip, hrip⟩ := IpPredictor.encodeIp_of_room hr.ip entry.ip
  have hv := fun i => ValuePredictor.encodeValue_of_room (hr.values i) (entry.dataFields i) entry.ip
  choose values hvalues hrvalues using hv
  obtain ⟨cycle, hcycle, hrcycle⟩ := CyclePredictor.encodeCycle_of_room hr.cycle
    (MetaData.cycleCount entry.metadata) entry.ip
  have hroom := hr.metaDataBuffer
  obtain ⟨m, hm, hpos, hlen⟩ := Cursor.putWord_of_fits (c := e.metaDataBuffer)
    (MetaData.toBits entry.metadata) (by omega)
  refine ⟨⟨ip, values, cycle, m⟩, ?_, hrip, hrvalues, hrcycle, by simp only; omega⟩
  simp [encodeEntry, hip, allSome_eq_some_iff.mpr hvalues, hcycle, hm]

theorem foldlM_of_room (hr : Room (entries.length + n) e) :
    ∃ e', entries.foldlM encodeEntry e = some e' ∧ Room n e' := by
  induction entries generalizing e with
  | nil => exact ⟨e, rfl, by rwa [List.length_nil, Nat.zero_add] at hr⟩
  | cons entry entries ih =>
    rw [List.length_cons, Nat.add_right_comm] at hr
    obtain ⟨e₁, h₁, hr₁⟩ := encodeEntry_of_room hr entry
    obtain ⟨e', h', hr'⟩ := ih hr₁
    exact ⟨e', by simp [h₁, h'], hr'⟩

theorem decodeEntry_of_room (hr : Room (n + 1) d) :
    ∃ entry d', decodeEntry d = some (entry, d') ∧ Room n d' := by
  obtain ⟨ip, dip, hip, hrip⟩ := IpPredictor.decodeIp_of_room hr.ip
  have hv := fun i => ValuePredictor.decodeValue_of_room (hr.values i) ip
  choose values hvalues hrvalues using hv
  obtain ⟨cycle, dcycle, hcycle, hrcycle⟩ := CyclePredictor.decodeCycle_of_room hr.cycle ip
  have hroom := hr.metaDataBuffer
  obtain ⟨bits, hbits⟩ := Cursor.getWord_of_fits (c := d.metaDataBuffer) (w := 16) (by omega)
  refine ⟨⟨MetaData.setCycleCount (MetaData.ofBits bits) cycle, ip, fun i => (values i).1⟩,
    ⟨dip, fun i => (values i).2, dcycle, ⟨d.metaDataBuffer.bytes, d.metaDataBuffer.pos + 2⟩⟩, ?_,
    hrip, hrvalues, hrcycle, by simp only; omega⟩
  simp [decodeEntry, hip, allSome_eq_some_iff.mpr hvalues, hcycle, hbits]

theorem decodeEntry_of_encodeEntry (h : encodeEntry e entry = some e') (hf : Follows b e d)
    (hw : WrittenTo b e') : ∃ d', decodeEntry d = some (entry, d') ∧ Follows b e' d' := by
  obtain ⟨hip, hvalues, hcycle, hm⟩ := encodeEntry_eq_some h
  obtain ⟨dip, hdip, hfip⟩ :=
    IpPredictor.decodeIp_of_encodeIp t.eight_dvd_width hip hf.ip hw.ip
  have hv := fun i => ValuePredictor.decodeValue_of_encodeValue t.eight_dvd_width (hvalues i)
    (hf.values i) (hw.values i)
  choose dvalues hdvalues hfvalues using hv
  obtain ⟨dcycle, hdcycle, hfcycle⟩ :=
    CyclePredictor.decodeCycle_of_encodeCycle hcycle hf.cycle hw.cycle
  have hdm := Cursor.getWord_of_putWord (by decide) hm hw.metaDataBuffer
  refine ⟨⟨dip, dvalues, dcycle, ⟨b.metaData, e'.metaDataBuffer.pos⟩⟩, ?_,
    hfip, hfvalues, hfcycle, rfl⟩
  simp [decodeEntry, hdip, allSome_eq_some_iff.mpr hdvalues, hf.metaDataBuffer, hdm, hdcycle,
    MetaData.setCycleCount_ofBits]

theorem decodeEntries_of_foldlM (h : entries.foldlM encodeEntry e = some e') (hf : Follows b e d)
    (hw : WrittenTo b e') : decodeEntries entries.length d = some entries := by
  induction entries generalizing e d with
  | nil => rfl
  | cons entry entries ih =>
    rw [List.foldlM_cons, Option.bind_eq_bind, Option.bind_eq_some_iff] at h
    obtain ⟨e₁, h₁, h₂⟩ := h
    obtain ⟨d₁, hd, hf₁⟩ :=
      decodeEntry_of_encodeEntry h₁ hf (hw.of_extends (extends_foldlM h₂))
    simp [decodeEntries, hd, ih h₂ hf₁]

theorem ids_finish_fieldId (i : Fin t.dataFieldCount) :
    e.finish.ids (fieldId i) = (e.values i).codeBuffer.bytes := by
  have h : 0 < i.val + 1 ∧ i.val + 1 < 1 + t.dataFieldCount := by omega
  simp only [finish, fieldId, dif_pos h, Nat.add_sub_cancel]

theorem ids_finish_cycleId : e.finish.ids cycleId = e.cycle.codeBuffer.bytes := by
  simp [finish, cycleId]

theorem data_finish_fieldData (i : Fin t.dataFieldCount) :
    e.finish.data (fieldData i) =
      ((e.values i).dataBuffer.fillRest MemoryLayout.fillChar).bytes := by
  simp [finish, fieldData]

theorem writtenTo_finish (e : Coder t) : WrittenTo e.finish e := by
  have hfill : ∀ c : Cursor, c.written <+: (c.fillRest MemoryLayout.fillChar).bytes := fun c => by
    rw [← Cursor.written_fillRest (c := c) MemoryLayout.fillChar]
    exact Cursor.written_prefix _
  refine ⟨⟨Cursor.written_prefix _, hfill _⟩, fun i => ⟨?_, ?_⟩, ⟨?_, hfill _⟩,
    Cursor.written_prefix _⟩
  · rw [ids_finish_fieldId]; exact Cursor.written_prefix _
  · rw [data_finish_fieldData]; exact hfill _
  · rw [ids_finish_cycleId]; exact Cursor.written_prefix _

theorem follows_start (memory memory' : PredictorMemory t) (startCycle : BitVec 64)
    (b b' : SubSegments t) :
    Follows b (start memory startCycle b') (start memory' startCycle b) :=
  ⟨⟨FcmPair.sameTables_new _ _, rfl, rfl⟩, fun _ => ⟨ValuePredictor.sameTables_new _ _, rfl, rfl⟩,
    ⟨CyclePredictor.sameTables_new _ _ _, rfl, rfl⟩, rfl⟩

theorem room_start_of_le {memory : PredictorMemory t} {startCycle : BitVec 64}
    (hids : ∀ i, n ≤ (b.ids i).length) (hdata : ∀ i, n * (t.width / 8) ≤ (b.data i).length)
    (hcycle : n * 8 ≤ b.cycle.length) (hmeta : n * 2 ≤ b.metaData.length) :
    Room n (start memory startCycle b) := by
  have hid (i : Fin t.idStreamCount) : 0 + n ≤ (b.ids i).length := by
    rw [Nat.zero_add]
    exact hids i
  have hword (i : Fin t.dataStreamCount) : 0 + n * (t.width / 8) ≤ (b.data i).length := by
    rw [Nat.zero_add]
    exact hdata i
  have hcycle : 0 + n * (64 / 8) ≤ b.cycle.length := by rwa [Nat.zero_add]
  have hmeta : 0 + 2 * n ≤ b.metaData.length := by rwa [Nat.zero_add, Nat.mul_comm]
  exact ⟨⟨hid _, hword _⟩, fun _ => ⟨hid _, hword _⟩, ⟨hid _, hcycle⟩, hmeta⟩

theorem room_start {memory : PredictorMemory t} {startCycle : BitVec 64} (hb : b.Sized cfg)
    (hn : n ≤ MemoryLayout.maxEntryCount cfg t) : Room n (start memory startCycle b) := by
  have hsub (size : ℕ) (hs : 0 < size) (h : size ≤ t.entrySize) :
      n * size ≤ MemoryLayout.subSegmentSize cfg t size :=
    (Nat.mul_le_mul_right size hn).trans
      (MemoryLayout.maxEntryCount_mul_le_subSegmentSize hs h)
  have h₈ := t.eight_le_entrySize
  apply room_start_of_le
  · intro i
    have hone := hsub 1 (by omega) (by omega)
    rw [Nat.mul_one] at hone
    rw [hb.ids]
    exact hone
  · intro i
    rw [hb.data]
    exact hsub _ (by cases t <;> decide) t.width_le_entrySize
  · rw [hb.cycle]
    exact hsub 8 (by omega) h₈
  · rw [hb.metaData]
    exact hsub 2 (by omega) (by omega)

end Coder

variable {t : AccessType} {cfg : BuildConfig}

/-- Decoding the sub segments that encoding produced returns the entries, bit for bit. -/
theorem decode_of_encode {memory memory' : PredictorMemory t} {startCycle : BitVec 64}
    {entries : List (MemoryEntry t)} {b out : SubSegments t}
    (h : encode memory startCycle entries b = some out) :
    decode memory' startCycle entries.length out = some entries := by
  simp only [encode, Option.bind_eq_bind, Option.bind_eq_some_iff] at h
  obtain ⟨e, he, ho⟩ := h
  obtain rfl := Option.some.inj ho
  exact Coder.decodeEntries_of_foldlM he (Coder.follows_start _ _ _ _ _) (Coder.writtenTo_finish e)

theorem encode_of_le {memory : PredictorMemory t} {startCycle : BitVec 64}
    {entries : List (MemoryEntry t)} {b : SubSegments t} (hb : b.Sized cfg)
    (hn : entries.length ≤ MemoryLayout.maxEntryCount cfg t) :
    ∃ out, encode memory startCycle entries b = some out := by
  have hr : (Coder.start memory startCycle b).Room (entries.length + 0) := Coder.room_start hb hn
  obtain ⟨e, he, -⟩ := Coder.foldlM_of_room hr
  exact ⟨e.finish, by simp [encode, he]⟩

/-- For every entry type, start cycle and memory segment, over whatever the sub segments and the
usage counters held before, the encoder succeeds and the decoder returns the entries. -/
theorem encode_decode_roundTrip (cfg : BuildConfig) (t : AccessType)
    (memory memory' : PredictorMemory t) (startCycle : BitVec 64) (entries : List (MemoryEntry t))
    (b : SubSegments t) (hb : b.Sized cfg)
    (hn : entries.length ≤ MemoryLayout.maxEntryCount cfg t) :
    ∃ out, encode memory startCycle entries b = some out ∧
      decode memory' startCycle entries.length out = some entries := by
  obtain ⟨out, h⟩ := encode_of_le hb hn
  exact ⟨out, h, decode_of_encode h⟩

/-- The entries of an instruction that accesses memory with a stride of 8 bytes every two cycles.
They are predicted from the third or fourth one on. -/
def strided (t : AccessType) (n : ℕ) : List (MemoryEntry t) :=
  (List.range n).map fun i =>
    ⟨.ofNat 64 (0x8001000000000028 + 2 * i), 5, fun _ => .ofNat _ (0x1000 + 8 * i)⟩

theorem encode_decode_roundTrip_strided :
    ∃ out, encode ⟨fun _ _ => 7, fun _ _ => 7, fun _ _ _ => 7⟩ 40 (strided .dataMemoryAccess32 8)
        (SubSegments.cleared .default .dataMemoryAccess32) = some out ∧
      decode ⟨fun _ _ => 0, fun _ _ => 3, fun _ _ _ => 0⟩ 40 8 out =
        some (strided .dataMemoryAccess32 8) :=
  encode_decode_roundTrip .default .dataMemoryAccess32 _ _ 40 _ _
    (SubSegments.sized_cleared _ _) (by decide)

end Simutrace
