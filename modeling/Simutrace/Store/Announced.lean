import Simutrace.Store.Announcing
import Simutrace.Store.Commit
import Simutrace.Store.Reload

/-! # Streams are defined before they are used

In the order of the directories, the zero frame of a stream comes before its
data frames and before any association that names it. Opening the frames one
after the other then finds every stream and restores every association.
-/

namespace Simutrace.Simtrace3

variable {totalStreamCount : List UInt8 → BitVec 32} {murmur3 : List UInt8 → BitVec 32}
  {frames before after : List Committed} {c : Committed} {id : StreamId} {ids : List StreamId}
  {d : List UInt8} {streams streams' : Streams}

namespace Committed

def IsData (c : Committed) : Prop := c.1.header.sequenceNumber ≠ -1

/-- A zero frame with one attribute. -/
def Carries (c : Committed) (type : BitVec 8) (buffer : List UInt8) : Prop :=
  ¬ c.IsData ∧ ∃ a, c.1.attributes = [a] ∧ a.type = type ∧ a.buffer = buffer

def Describes (c : Committed) (id : StreamId) (descriptor : List UInt8) : Prop :=
  c.streamId = id ∧ c.Carries satStreamDescription descriptor

/-- The zero frame that names the hidden streams of a stream. -/
def Announces (c : Committed) (id : StreamId) (ids : List StreamId) : Prop :=
  c.streamId = id ∧ c.Carries satAssociatedStreams (packAssociatedStreams ids)

end Committed

def Described (frames : List Committed) (id : StreamId) (descriptor : List UInt8) : Prop :=
  ∃ z ∈ frames, z.Describes id descriptor

def Announced (frames : List Committed) (id : StreamId) (ids : List StreamId) : Prop :=
  ∃ z ∈ frames, z.Announces id ids

/-- What a frame needs is found in the frames before it. -/
inductive Placed (totalStreamCount : List UInt8 → BitVec 32) (before : List Committed)
    (c : Committed) : Prop
  | description {d : List UInt8} (describes : c.Describes c.streamId d)
      (new : ∀ d, ¬ Described before c.streamId d)
  | association {d : List UInt8} {ids : List StreamId} (announces : c.Announces c.streamId ids)
      (described : Described before c.streamId d)
      (count : (totalStreamCount d).toNat = ids.length) (nonempty : ids ≠ [])
      (new : ∀ ids, ¬ Announced before c.streamId ids)
      (hidden : ∀ i ∈ ids, ∃ d, Described before i d)
  | data {d : List UInt8} (data : c.IsData) (described : Described before c.streamId d)
      (announced : totalStreamCount d ≠ 0 → ∃ ids, Announced before c.streamId ids)

def Ordered (totalStreamCount : List UInt8 → BitVec 32) (frames : List Committed) : Prop :=
  ∀ before c after, frames = before ++ c :: after → Placed totalStreamCount before c

structure Restored (frames : List Committed) (streams : Streams) : Prop where
  described : ∀ id d, Described frames id d → ∃ stream, streams id = some stream ∧
    stream.descriptor = d
  known : ∀ id stream, streams id = some stream → Described frames id stream.descriptor
  announced : ∀ id ids, Announced frames id ids → ∃ stream, streams id = some stream ∧
    stream.associated = some ids
  associated : ∀ id stream ids, streams id = some stream → stream.associated = some ids →
    Announced frames id ids

theorem satStreamDescription_ne : satStreamDescription ≠ satAssociatedStreams := by decide

theorem Committed.Carries.eq {type type' : BitVec 8} {buffer buffer' : List UInt8}
    (h : c.Carries type buffer) (h' : c.Carries type' buffer') :
    type = type' ∧ buffer = buffer' := by
  obtain ⟨-, a, ha, rfl, rfl⟩ := h
  obtain ⟨-, b, hb, rfl, rfl⟩ := h'
  obtain ⟨rfl, -⟩ := List.cons.inj (ha.symm.trans hb)
  exact ⟨rfl, rfl⟩

theorem packAssociatedStreams_inj {ids' : List StreamId} (hlt : ids.length < 2 ^ 32)
    (h : packAssociatedStreams ids = packAssociatedStreams ids') : ids = ids' := by
  have hlength (ids : List StreamId) :
      (packAssociatedStreams ids).length = 4 * (ids.length + 1) := by
    rw [packAssociatedStreams, LittleEndian.length_pack (by simp), List.sum_replicate_nat,
      Nat.mul_comm]
  have hlen : ids.length = ids'.length := by
    have := hlength ids'
    rw [← h, hlength] at this
    omega
  have hunpack := unpack_packAssociatedStreams hlt
  rw [h, hlen, unpack_packAssociatedStreams (hlen ▸ hlt)] at hunpack
  exact ((List.map_injective_iff.mpr fun _ _ => BitVec.eq_of_toNat_eq)
    (List.cons.inj hunpack).2).symm

theorem described_append : Described (before ++ after) id d ↔
    Described before id d ∨ Described after id d := by
  simp only [Described, List.mem_append, or_and_right, exists_or]

theorem announced_append : Announced (before ++ after) id ids ↔
    Announced before id ids ∨ Announced after id ids := by
  simp only [Announced, List.mem_append, or_and_right, exists_or]

theorem described_singleton : Described [c] id d ↔ c.Describes id d := by
  simp only [Described, List.mem_singleton, exists_eq_left]

theorem announced_singleton : Announced [c] id ids ↔ c.Announces id ids := by
  simp only [Announced, List.mem_singleton, exists_eq_left]

theorem Ordered.append (h : Ordered totalStreamCount frames)
    (hc : Placed totalStreamCount frames c) : Ordered totalStreamCount (frames ++ [c]) := by
  rintro before c' after he
  rcases List.eq_nil_or_concat after with rfl | ⟨after', last, rfl⟩
  · obtain ⟨rfl, hl⟩ := List.append_inj' he rfl
    obtain ⟨rfl, -⟩ := List.cons.inj hl
    exact hc
  · rw [List.concat_eq_append, ← List.cons_append, ← List.append_assoc] at he
    obtain ⟨rfl, -⟩ := List.append_inj' he rfl
    exact h _ _ _ rfl

theorem Ordered.left (h : Ordered totalStreamCount (before ++ after)) :
    Ordered totalStreamCount before := by
  rintro before' c after' rfl
  exact h before' c (after' ++ after) (by rw [List.append_assoc, List.cons_append])

theorem not_describes_of_isData (h : c.IsData) : ¬ c.Describes id d := fun hd => hd.2.1 h

theorem not_announces_of_isData (h : c.IsData) : ¬ c.Announces id ids := fun hd => hd.2.1 h

theorem Committed.Describes.not_announces (h : c.Describes id d) {i : StreamId} :
    ¬ c.Announces i ids :=
  fun ha => satStreamDescription_ne (h.2.eq ha.2).1

theorem Restored.new : Restored [] (fun _ => none) where
  described _ _ h := by
    obtain ⟨z, hz, -⟩ := h
    cases hz
  known _ _ h := by cases h
  announced _ _ h := by
    obtain ⟨z, hz, -⟩ := h
    cases hz
  associated _ _ _ h := by cases h

theorem Restored.register (h : Restored frames streams) (hc : c.Describes c.streamId d)
    (hnew : ∀ d, ¬ Described frames c.streamId d) :
    openCommitted totalStreamCount streams c =
        some (Function.update streams c.streamId (some (.new d))) ∧
      Restored (frames ++ [c]) (Function.update streams c.streamId (some (.new d))) := by
  have hnone : streams c.streamId = none := by
    by_contra hne
    obtain ⟨stream, hs⟩ := Option.ne_none_iff_exists'.mp hne
    exact hnew _ (h.known _ stream hs)
  have hannounced : ∀ ids, ¬ Announced frames c.streamId ids := fun ids ha => by
    obtain ⟨stream, hs, -⟩ := h.announced _ _ ha
    cases hnone.symm.trans hs
  constructor
  · obtain ⟨-, hz, a, ha, ht, rfl⟩ := hc
    rw [openCommitted, if_pos (not_not.mp hz), ha]
    exact openZeroFrame_register hnone ht
  · refine ⟨fun i d' hd => ?_, fun i stream hs => ?_, fun i ids ha => ?_,
      fun i stream ids hs ha => ?_⟩
    · rw [described_append, described_singleton] at hd
      rcases hd with hd | hd
      · have hne : i ≠ c.streamId := by
          rintro rfl
          exact hnew _ hd
        rw [Function.update_of_ne hne]
        exact h.described i d' hd
      · obtain rfl := hd.1
        rw [Function.update_self]
        exact ⟨_, rfl, (hc.2.eq hd.2).2⟩
    · rw [described_append, described_singleton]
      by_cases he : i = c.streamId
      · subst he
        rw [Function.update_self] at hs
        obtain rfl := Option.some.inj hs
        exact Or.inr hc
      · rw [Function.update_of_ne he] at hs
        exact Or.inl (h.known i stream hs)
    · rw [announced_append, announced_singleton] at ha
      have ha := ha.resolve_right hc.not_announces
      have hne : i ≠ c.streamId := by
        rintro rfl
        exact hannounced _ ha
      rw [Function.update_of_ne hne]
      exact h.announced i ids ha
    · rw [announced_append]
      by_cases he : i = c.streamId
      · subst he
        rw [Function.update_self] at hs
        obtain rfl := Option.some.inj hs
        cases ha
      · rw [Function.update_of_ne he] at hs
        exact Or.inl (h.associated i stream ids hs ha)

theorem Restored.associate (h : Restored frames streams) (hc : c.Announces c.streamId ids)
    (hdesc : Described frames c.streamId d) (hcount : (totalStreamCount d).toNat = ids.length)
    (hne : ids ≠ []) (hnew : ∀ ids, ¬ Announced frames c.streamId ids)
    (hids : ∀ i ∈ ids, ∃ d, Described frames i d) :
    ∃ stream : StoreStream,
      openCommitted totalStreamCount streams c = some (Function.update streams c.streamId
        (some { stream with associated := some ids })) ∧
      Restored (frames ++ [c]) (Function.update streams c.streamId
        (some { stream with associated := some ids })) := by
  obtain ⟨stream, hs, hd⟩ := h.described _ _ hdesc
  have hassoc : stream.associated = none := by
    by_contra hne
    obtain ⟨ids', ha⟩ := Option.ne_none_iff_exists'.mp hne
    exact hnew ids' (h.associated _ stream ids' hs ha)
  have hlt : ids.length < 2 ^ 32 := hcount ▸ (totalStreamCount d).isLt
  refine ⟨stream, ?_, fun i d' hd' => ?_, fun i stream' hs' => ?_, fun i ids' ha => ?_,
    fun i stream' ids' hs' ha => ?_⟩
  · obtain ⟨-, hz, a, ha, ht, hb⟩ := hc
    rw [openCommitted, if_pos (not_not.mp hz), ha]
    refine openZeroFrame_associate hs hassoc (hd ▸ hcount) hne (fun i hi => ?_) ht hb
    obtain ⟨d', hd'⟩ := hids i hi
    obtain ⟨stream', hs', -⟩ := h.described i d' hd'
    rw [hs']
    exact Option.some_ne_none _
  · rw [described_append, described_singleton] at hd'
    have hd' := hd'.resolve_right fun hd' => hd'.not_announces hc
    obtain ⟨stream', hs', rfl⟩ := h.described i d' hd'
    by_cases he : i = c.streamId
    · subst he
      obtain rfl := Option.some.inj (hs.symm.trans hs')
      rw [Function.update_self]
      exact ⟨_, rfl, rfl⟩
    · rw [Function.update_of_ne he]
      exact ⟨stream', hs', rfl⟩
  · rw [described_append]
    by_cases he : i = c.streamId
    · subst he
      rw [Function.update_self] at hs'
      obtain rfl := Option.some.inj hs'
      exact Or.inl (h.known _ stream hs)
    · rw [Function.update_of_ne he] at hs'
      exact Or.inl (h.known i stream' hs')
  · rw [announced_append, announced_singleton] at ha
    by_cases he : i = c.streamId
    · subst he
      have ha := ha.resolve_left (hnew ids')
      rw [Function.update_self]
      exact ⟨_, rfl, congrArg some (packAssociatedStreams_inj hlt (hc.2.eq ha.2).2)⟩
    · have ha := ha.resolve_right fun ha => he ha.1.symm
      rw [Function.update_of_ne he]
      exact h.announced i ids' ha
  · rw [announced_append, announced_singleton]
    by_cases he : i = c.streamId
    · subst he
      rw [Function.update_self] at hs'
      obtain rfl := Option.some.inj hs'
      obtain rfl := Option.some.inj ha
      exact Or.inr hc
    · rw [Function.update_of_ne he] at hs'
      exact Or.inl (h.associated i stream' ids' hs' ha)

theorem Restored.data (h : Restored frames streams) (hc : c.IsData)
    (e : openCommitted totalStreamCount streams c = some streams') :
    Restored (frames ++ [c]) streams' := by
  rw [openCommitted, if_neg hc] at e
  simp only [openDataFrame, Option.bind_eq_bind, Option.bind_eq_some_iff] at e
  obtain ⟨stream, hs, s, -, he⟩ := e
  obtain rfl := Option.some.inj he
  have hlookup (i : StreamId) (stream' : StoreStream) :
      Function.update streams c.1.header.streamId (some { stream with stream := s }) i =
        some stream' → ∃ stream'', streams i = some stream'' ∧
          stream''.descriptor = stream'.descriptor ∧ stream''.associated = stream'.associated := by
    intro hi
    by_cases he : i = c.1.header.streamId
    · subst he
      rw [Function.update_self] at hi
      obtain rfl := Option.some.inj hi
      exact ⟨stream, hs, rfl, rfl⟩
    · rw [Function.update_of_ne he] at hi
      exact ⟨stream', hi, rfl, rfl⟩
  have hkeep (i : StreamId) (stream' : StoreStream) (hi : streams i = some stream') :
      ∃ stream'', Function.update streams c.1.header.streamId
        (some { stream with stream := s }) i = some stream'' ∧
          stream''.descriptor = stream'.descriptor ∧ stream''.associated = stream'.associated := by
    by_cases he : i = c.1.header.streamId
    · subst he
      obtain rfl := Option.some.inj (hs.symm.trans hi)
      exact ⟨_, Function.update_self .., rfl, rfl⟩
    · exact ⟨stream', by rw [Function.update_of_ne he, hi], rfl, rfl⟩
  refine ⟨fun i d' hd => ?_, fun i stream' hi => ?_, fun i ids ha => ?_,
    fun i stream' ids hi ha => ?_⟩
  · rw [described_append, described_singleton] at hd
    obtain ⟨stream', hi, rfl⟩ := h.described i d' (hd.resolve_right (not_describes_of_isData hc))
    obtain ⟨stream'', hi'', hd'', -⟩ := hkeep i stream' hi
    exact ⟨stream'', hi'', hd''⟩
  · rw [described_append]
    obtain ⟨stream'', hi'', hd'', -⟩ := hlookup i stream' hi
    exact Or.inl (hd'' ▸ h.known i stream'' hi'')
  · rw [announced_append, announced_singleton] at ha
    obtain ⟨stream', hi, ha'⟩ := h.announced i ids (ha.resolve_right (not_announces_of_isData hc))
    obtain ⟨stream'', hi'', -, ha''⟩ := hkeep i stream' hi
    exact ⟨stream'', hi'', ha''.trans ha'⟩
  · rw [announced_append]
    obtain ⟨stream'', hi'', -, ha''⟩ := hlookup i stream' hi
    exact Or.inl (h.associated i stream'' ids hi'' (ha''.trans ha))

theorem Restored.step (h : Restored frames streams) (hp : Placed totalStreamCount frames c)
    (e : openCommitted totalStreamCount streams c = some streams') :
    Restored (frames ++ [c]) streams' := by
  cases hp with
  | description describes new =>
    have hregister := @register totalStreamCount _ _ _ _ h describes new
    obtain rfl := Option.some.inj (e.symm.trans hregister.1)
    exact hregister.2
  | association announces described count nonempty new hidden =>
    obtain ⟨stream, he, hr⟩ := h.associate announces described count nonempty new hidden
    obtain rfl := Option.some.inj (e.symm.trans he)
    exact hr
  | data data => exact h.data data e

/-! ## The order of the frames of a run -/

theorem carries_zero {typeId : BitVec 128} {a : Attribute}
    (fits : frameHeaderSize + a.size < 2 ^ 64) (offset : FileOffset) : Committed.Carries
      ((Simtrace3Frame.zero id typeId a fits).updateHash murmur3, offset) a.type a.buffer :=
  ⟨fun h => h rfl, a, rfl, rfl, rfl⟩

theorem readable_zero {typeId : BitVec 128} {a : Attribute}
    (fits : frameHeaderSize + a.size < 2 ^ 64) (offset : FileOffset) : Committed.Readable murmur3
      ((Simtrace3Frame.zero id typeId a fits).updateHash murmur3, offset) :=
  ⟨Simtrace3Frame.validateHash_updateHash _, fun _ => rfl⟩

namespace Announcing

/-- The streams of the store are those that the file describes, but for one that is still being
registered. What waits to be written can be decoded with what has been announced. -/
structure Inv (totalStreamCount : List UInt8 → BitVec 32) (murmur3 : List UInt8 → BitVec 32)
    (r : Announcing) : Prop where
  store : r.store.Consistent r.committed
  readable : ∀ c ∈ r.committed, c.Readable murmur3
  ordered : Ordered totalStreamCount r.committed
  described : ∀ id d, Described r.committed id d ↔
    (∃ e, r.encoders id = some e ∧ e.descriptor = d) ∨
      ∃ owner, r.registration = some ⟨id, d, owner⟩
  unregistered : ∀ g, r.registration = some g → r.encoders g.id = none
  announced : ∀ id, (∃ ids, Announced r.committed id ids) ↔
    ∃ e, r.encoders id = some e ∧ e.initialized = true
  initializing : ∀ id e op, r.encoders id = some e → e.initializing = some op →
    totalStreamCount e.descriptor ≠ 0 ∧ e.initialized = false
  hidden : ∀ id e, r.encoders id = some e → ∀ i ∈ e.streams, ∃ e', r.encoders i = some e'
  queued : ∀ id ∈ r.queue, ∃ e, r.encoders id = some e ∧
    (totalStreamCount e.descriptor = 0 ∨ e.initialized = true)

variable {r r' : Announcing} {encoder encoder' : EncoderState} {store : Simtrace3Store}

theorem Inv.new : Inv totalStreamCount murmur3 new where
  store := Simtrace3Store.consistent_createStore
  readable _ h := by cases h
  ordered before c after h := by simp [Announcing.new] at h
  described id d := by
    refine iff_of_false (fun ⟨z, hz, _⟩ => by cases hz) ?_
    rintro (⟨e, he, -⟩ | ⟨owner, ho⟩)
    · cases he
    · cases ho
  unregistered _ h := by cases h
  announced id := by
    refine iff_of_false (fun ⟨ids, z, hz, _⟩ => by cases hz) ?_
    rintro ⟨e, he, -⟩
    cases he
  initializing _ _ _ h := by cases h
  hidden _ _ h := by cases h
  queued _ h := by cases h

theorem setEncoder_eq_some {id i : StreamId} {e : EncoderState}
    (hs : r.encoders id = some encoder) :
    (r.setEncoder id encoder').encoders i = some e ↔
      (i = id ∧ e = encoder') ∨ (i ≠ id ∧ r.encoders i = some e) := by
  by_cases he : i = id
  · subst he
    simp [setEncoder, eq_comm]
  · simp [setEncoder, he]

theorem exists_setEncoder {P : EncoderState → Prop} (hs : r.encoders id = some encoder)
    (hP : P encoder' ↔ P encoder) (i : StreamId) :
    (∃ e, (r.setEncoder id encoder').encoders i = some e ∧ P e) ↔
      ∃ e, r.encoders i = some e ∧ P e := by
  simp only [setEncoder_eq_some hs]
  constructor
  · rintro ⟨e, ⟨rfl, rfl⟩ | ⟨-, he⟩, hp⟩
    · exact ⟨encoder, hs, hP.mp hp⟩
    · exact ⟨e, he, hp⟩
  · rintro ⟨e, he, hp⟩
    by_cases hi : i = id
    · subst hi
      obtain rfl := Option.some.inj (hs.symm.trans he)
      exact ⟨encoder', Or.inl ⟨rfl, rfl⟩, hP.mpr hp⟩
    · exact ⟨e, Or.inr ⟨hi, he⟩, hp⟩

/-- An encoder may change if it keeps what the file tells about its stream. -/
theorem Inv.setEncoder (h : Inv totalStreamCount murmur3 r) (hs : r.encoders id = some encoder)
    (hd : encoder'.descriptor = encoder.descriptor)
    (hi : encoder'.initialized = encoder.initialized)
    (hop : ∀ op, encoder'.initializing = some op →
      totalStreamCount encoder.descriptor ≠ 0 ∧ encoder.initialized = false)
    (hh : ∀ i ∈ encoder'.streams, ∃ e, r.encoders i = some e) :
    Inv totalStreamCount murmur3 (r.setEncoder id encoder') where
  store := h.store
  readable := h.readable
  ordered := h.ordered
  described i d := by
    rw [exists_setEncoder hs (P := fun e => e.descriptor = d) (by rw [hd])]
    exact h.described i d
  unregistered g hg := by
    have hne : g.id ≠ id := by
      rintro rfl
      cases (h.unregistered g hg).symm.trans hs
    exact (Function.update_of_ne hne _ _).trans (h.unregistered g hg)
  announced i := by
    rw [exists_setEncoder hs (P := fun e => e.initialized = true) (by rw [hi])]
    exact h.announced i
  initializing i e op he ho := by
    rcases (setEncoder_eq_some hs).mp he with ⟨rfl, rfl⟩ | ⟨-, he⟩
    · rw [hd, hi]
      exact hop op ho
    · exact h.initializing i e op he ho
  hidden i e he j hj := by
    have hex : ∃ e, r.encoders j = some e := by
      rcases (setEncoder_eq_some hs).mp he with ⟨rfl, rfl⟩ | ⟨-, he⟩
      · exact hh j hj
      · exact h.hidden i e he j hj
    simpa using (exists_setEncoder hs (P := fun _ => True) Iff.rfl j).mpr (by simpa using hex)
  queued i hq := by
    rw [exists_setEncoder hs
      (P := fun e => totalStreamCount e.descriptor = 0 ∨ e.initialized = true) (by rw [hd, hi])]
    exact h.queued i hq

/-- While the frame of a registration is committed, its stream is not part of the store. -/
theorem Inv.registered (h : Inv totalStreamCount murmur3 r)
    (hstore : store.Consistent (r.committed ++ [c])) (hread : c.Readable murmur3)
    (hc : c.Describes id d) (hnew : r.encoders id = none) (hunlocked : r.registration = none)
    (owner : Option StreamId) :
    Inv totalStreamCount murmur3 { r with
      store := store
      committed := r.committed ++ [c]
      registration := some ⟨id, d, owner⟩ } where
  store := hstore
  readable z hz := by
    rcases List.mem_append.mp hz with hz | hz
    · exact h.readable z hz
    · obtain rfl := List.mem_singleton.mp hz
      exact hread
  ordered := by
    refine h.ordered.append (.description (d := d) ?_ fun d' hd' => ?_)
    · rwa [hc.1]
    · rw [hc.1, h.described, hnew, hunlocked] at hd'
      rcases hd' with ⟨e, he, -⟩ | ⟨owner, ho⟩
      · cases he
      · cases ho
  described i d' := by
    rw [described_append, described_singleton, h.described, hunlocked]
    constructor
    · rintro ((he | ⟨owner, ho⟩) | hd')
      · exact Or.inl he
      · cases ho
      · obtain rfl := hc.1.symm.trans hd'.1
        obtain rfl := (hc.2.eq hd'.2).2
        exact Or.inr ⟨owner, rfl⟩
    · rintro (he | ⟨owner', ho⟩)
      · exact Or.inl (Or.inl he)
      · cases ho
        exact Or.inr hc
  unregistered g hg := by
    obtain rfl := Option.some.inj hg
    exact hnew
  announced i := by
    simp only [announced_append, announced_singleton, hc.not_announces, or_false]
    exact h.announced i
  initializing := h.initializing
  hidden := h.hidden
  queued := h.queued

theorem Inv.addStream {g : Registration} (h : Inv totalStreamCount murmur3 r)
    (hg : r.registration = some g) : Inv totalStreamCount murmur3 (r.addStream g) := by
  have hnone := h.unregistered g hg
  let r' : Announcing := { r.setEncoder g.id (.new g.descriptor) with registration := none }
  have hlookup (i : StreamId) (e : EncoderState) : r'.encoders i = some e ↔
      (i = g.id ∧ e = .new g.descriptor) ∨ r.encoders i = some e := by
    by_cases he : i = g.id
    · subst he
      simp [r', Announcing.setEncoder, hnone, eq_comm]
    · simp [r', Announcing.setEncoder, he]
  have hold (i : StreamId) (e : EncoderState) (he : r.encoders i = some e) :
      r'.encoders i = some e := (hlookup i e).mpr (Or.inr he)
  have hr' : Inv totalStreamCount murmur3 r' := by
    refine ⟨h.store, h.readable, h.ordered, fun i d => ?_, (fun g hg => by cases hg), fun i => ?_,
      fun i e op he ho => ?_, fun i e he j hj => ?_, fun i hi => ?_⟩
    · refine (h.described i d).trans ?_
      rw [hg]
      constructor
      · rintro (⟨e, he, rfl⟩ | ⟨owner, ho⟩)
        · exact Or.inl ⟨e, hold i e he, rfl⟩
        · obtain rfl := Option.some.inj ho
          exact Or.inl ⟨_, (hlookup i _).mpr (Or.inl ⟨rfl, rfl⟩), rfl⟩
      · rintro (⟨e, he, rfl⟩ | ⟨owner, ho⟩)
        · rcases (hlookup i e).mp he with ⟨rfl, rfl⟩ | he
          · exact Or.inr ⟨g.owner, rfl⟩
          · exact Or.inl ⟨e, he, rfl⟩
        · cases ho
    · refine (h.announced i).trans ?_
      constructor
      · rintro ⟨e, he, hi⟩
        exact ⟨e, hold i e he, hi⟩
      · rintro ⟨e, he, hi⟩
        rcases (hlookup i e).mp he with ⟨rfl, rfl⟩ | he
        · cases hi
        · exact ⟨e, he, hi⟩
    · rcases (hlookup i e).mp he with ⟨rfl, rfl⟩ | he
      · cases ho
      · exact h.initializing i e op he ho
    · rcases (hlookup i e).mp he with ⟨rfl, rfl⟩ | he
      · cases hj
      · obtain ⟨e', he'⟩ := h.hidden i e he j hj
        exact ⟨e', hold j e' he'⟩
    · obtain ⟨e, he, hq⟩ := h.queued i hi
      exact ⟨e, hold i e he, hq⟩
  rw [Announcing.addStream]
  dsimp only
  split
  · exact hr'
  · rename_i owner _
    split
    · exact hr'
    · rename_i encoder he
      refine hr'.setEncoder he rfl rfl (fun op ho => hr'.initializing owner encoder op he ho)
        fun i hi => ?_
      rcases List.mem_append.mp hi with hi | hi
      · exact hr'.hidden owner encoder he i hi
      · obtain rfl := List.mem_singleton.mp hi
        exact ⟨_, (hlookup g.id _).mpr (Or.inl ⟨rfl, rfl⟩)⟩

theorem Inv.finish (h : Inv totalStreamCount murmur3 r) (hs : r.encoders id = some encoder)
    (hq : totalStreamCount encoder.descriptor = 0 ∨ encoder.initialized = true)
    (op : CloseOperation) : Inv totalStreamCount murmur3 (r.finish id op) := by
  cases op with
  | drop => exact h
  | write =>
    refine { h with queued := fun i hi => ?_ }
    rcases List.mem_append.mp hi with hi | hi
    · exact h.queued i hi
    · obtain rfl := List.mem_singleton.mp hi
      exact ⟨encoder, hs, hq⟩

theorem Inv.close (h : Inv totalStreamCount murmur3 r) (hs : r.encoders id = some encoder)
    (op : CloseOperation) :
    Inv totalStreamCount murmur3 (r.close totalStreamCount id encoder op) := by
  rw [Announcing.close]
  split
  · rename_i hq
    exact h.finish hs hq op
  · rename_i hq
    rw [not_or, Bool.not_eq_true] at hq
    exact h.setEncoder hs rfl rfl (fun _ _ => hq) (h.hidden id encoder hs)

theorem exists_announced_append {committed : List Committed} {ids : List StreamId}
    (hc : c.Announces id ids) (i : StreamId) :
    (∃ ids, Announced (committed ++ [c]) i ids) ↔ (∃ ids, Announced committed i ids) ∨ i = id := by
  simp only [announced_append, announced_singleton, exists_or]
  exact or_congr_right ⟨fun ⟨_, ha⟩ => ha.1.symm.trans hc.1, fun he => ⟨_, he ▸ hc⟩⟩

theorem Inv.not_announced (h : Inv totalStreamCount murmur3 r) (hs : r.encoders id = some encoder)
    (hinit : encoder.initialized = false) (ids : List StreamId) :
    ¬ Announced r.committed id ids := by
  intro ha
  obtain ⟨e, he, hi⟩ := (h.announced id).mp ⟨ids, ha⟩
  obtain rfl := Option.some.inj (hs.symm.trans he)
  cases hinit.symm.trans hi

theorem Inv.setInitialized (h : Inv totalStreamCount murmur3 r) (hs : r.encoders id = some encoder)
    {op : CloseOperation} (hop : encoder.initializing = some op)
    (hcount : encoder.streams.length = (totalStreamCount encoder.descriptor).toNat)
    (hstore : store.Consistent (r.committed ++ [c])) (hread : c.Readable murmur3)
    (hc : c.Announces id encoder.streams) :
    Inv totalStreamCount murmur3 ({ r with
      store := store
      committed := r.committed ++ [c] }.setEncoder id
        { encoder with initialized := true, initializing := none }) := by
  obtain ⟨hne, hinit⟩ := h.initializing id encoder op hs hop
  let encoder' : EncoderState := { encoder with initialized := true, initializing := none }
  let r₁ : Announcing := { r with store := store, committed := r.committed ++ [c] }
  have hs₁ : r₁.encoders id = some encoder := hs
  refine ⟨hstore, fun z hz => ?_, h.ordered.append ?_, fun i d => ?_, fun g hg => ?_, fun i => ?_,
    fun i e op he ho => ?_, fun i e he j hj => ?_, fun i hi => ?_⟩
  · rcases List.mem_append.mp hz with hz | hz
    · exact h.readable z hz
    · obtain rfl := List.mem_singleton.mp hz
      exact hread
  · refine .association (d := encoder.descriptor) (hc.1.symm ▸ hc) ?_ hcount.symm ?_
      (hc.1.symm ▸ h.not_announced hs hinit) fun i hi => ?_
    · rw [hc.1, h.described]
      exact Or.inl ⟨encoder, hs, rfl⟩
    · intro hnil
      rw [hnil, List.length_nil] at hcount
      exact hne (BitVec.eq_of_toNat_eq hcount.symm)
    · obtain ⟨e, he⟩ := h.hidden id encoder hs i hi
      exact ⟨e.descriptor, (h.described i _).mpr (Or.inl ⟨e, he, rfl⟩)⟩
  · have hex : (∃ e, (r₁.setEncoder id encoder').encoders i = some e ∧ e.descriptor = d) ↔
        ∃ e, r.encoders i = some e ∧ e.descriptor = d :=
      exists_setEncoder hs₁ (P := fun e => e.descriptor = d)
        (show encoder'.descriptor = d ↔ encoder.descriptor = d from Iff.rfl) i
    refine described_append.trans ?_
    rw [described_singleton, or_iff_left fun hd => hd.not_announces hc, hex]
    exact h.described i d
  · have hne : g.id ≠ id := by
      rintro rfl
      cases (h.unregistered g hg).symm.trans hs
    exact (Function.update_of_ne hne _ _).trans (h.unregistered g hg)
  · refine (exists_announced_append hc i).trans ?_
    rw [h.announced]
    constructor
    · rintro (⟨e, he, hi⟩ | rfl)
      · have hid : i ≠ id := by
          rintro rfl
          obtain rfl := Option.some.inj (hs.symm.trans he)
          cases hinit.symm.trans hi
        exact ⟨e, (setEncoder_eq_some hs₁).mpr (Or.inr ⟨hid, he⟩), hi⟩
      · exact ⟨encoder', (setEncoder_eq_some hs₁).mpr (Or.inl ⟨rfl, rfl⟩), rfl⟩
    · rintro ⟨e, he, hi⟩
      rcases (setEncoder_eq_some hs₁).mp he with ⟨rfl, -⟩ | ⟨-, he⟩
      · exact Or.inr rfl
      · exact Or.inl ⟨e, he, hi⟩
  · rcases (setEncoder_eq_some hs₁).mp he with ⟨rfl, rfl⟩ | ⟨-, he⟩
    · cases ho
    · exact h.initializing i e op he ho
  · have hex : ∃ e, r.encoders j = some e := by
      rcases (setEncoder_eq_some hs₁).mp he with ⟨rfl, rfl⟩ | ⟨-, he⟩
      · exact h.hidden i encoder hs j hj
      · exact h.hidden i e he j hj
    simpa using (exists_setEncoder hs₁ (P := fun _ => True) Iff.rfl j).mpr (by simpa using hex)
  · obtain ⟨e, he, hq⟩ := h.queued i hi
    by_cases hid : i = id
    · exact ⟨encoder', (setEncoder_eq_some hs₁).mpr (Or.inl ⟨hid, rfl⟩), Or.inr rfl⟩
    · exact ⟨e, (setEncoder_eq_some hs₁).mpr (Or.inr ⟨hid, he⟩), hq⟩

theorem Inv.announce (h : Inv totalStreamCount murmur3 r) (hs : r.encoders id = some encoder)
    {op : CloseOperation} (hop : encoder.initializing = some op)
    (hcount : encoder.streams.length = (totalStreamCount encoder.descriptor).toNat)
    (hstore : store.Consistent (r.committed ++ [c])) (hread : c.Readable murmur3)
    (hc : c.Announces id encoder.streams) :
    Inv totalStreamCount murmur3 (({ r with
      store := store
      committed := r.committed ++ [c] }.setEncoder id
        { encoder with initialized := true, initializing := none }).finish id op) := by
  have hset := h.setInitialized hs hop hcount hstore hread hc
  have hs₁ : ({ r with store := store, committed := r.committed ++ [c] } : Announcing).encoders id =
      some encoder := hs
  exact hset.finish ((setEncoder_eq_some hs₁).mpr (Or.inl ⟨rfl, rfl⟩)) (Or.inr rfl) op

theorem Inv.encode (h : Inv totalStreamCount murmur3 r) {queue : List StreamId}
    (hq : c.streamId ∈ r.queue) (hsub : ∀ i ∈ queue, i ∈ r.queue)
    (hstore : store.Consistent (r.committed ++ [c])) (hread : c.Readable murmur3)
    (hc : c.IsData) :
    Inv totalStreamCount murmur3 { r with
      store := store
      committed := r.committed ++ [c]
      queue := queue } where
  store := hstore
  readable z hz := by
    rcases List.mem_append.mp hz with hz | hz
    · exact h.readable z hz
    · obtain rfl := List.mem_singleton.mp hz
      exact hread
  ordered := by
    obtain ⟨e, he, hready⟩ := h.queued c.streamId hq
    refine h.ordered.append (.data hc ((h.described c.streamId e.descriptor).mpr
      (Or.inl ⟨e, he, rfl⟩)) fun hne => ?_)
    exact (h.announced c.streamId).mpr ⟨e, he, hready.resolve_left hne⟩
  described i d := by
    rw [described_append, described_singleton, or_iff_left (not_describes_of_isData hc)]
    exact h.described i d
  unregistered := h.unregistered
  announced i := by
    simp only [announced_append, announced_singleton, not_announces_of_isData hc, or_false]
    exact h.announced i
  initializing := h.initializing
  hidden := h.hidden
  queued i hi := h.queued i (hsub i hi)

theorem Inv.setStore (h : Inv totalStreamCount murmur3 r) (hs : store.Consistent r.committed) :
    Inv totalStreamCount murmur3 { r with store := store } :=
  { h with store := hs }

theorem Inv.commitFrame (h : Inv totalStreamCount murmur3 r) {fault : Option IoFault}
    {frame : Simtrace3Frame} {success failure : Announcing → Announcing}
    (hfail : ∀ store, store.Consistent r.committed →
      Inv totalStreamCount murmur3 (failure { r with store := store }))
    (hsucc : ∀ offset store, store.Consistent
        (r.committed ++ [(frame.updateHash murmur3, offset)]) →
      Inv totalStreamCount murmur3 (success { r with
        store := store
        committed := r.committed ++ [(frame.updateHash murmur3, offset)] })) :
    Inv totalStreamCount murmur3 (r.commitFrame murmur3 fault frame success failure) := by
  rw [Announcing.commitFrame]
  cases he : r.store.commitFrame murmur3 fault frame with
  | mk o store =>
    obtain ⟨hnone, hsome⟩ := h.store.commitFrame he
    cases o with
    | none => exact hfail store (hnone rfl)
    | some offset => exact hsucc offset store (hsome offset rfl)

theorem Inv.step (h : Inv totalStreamCount murmur3 r) (hstep : Step totalStreamCount murmur3 r r') :
    Inv totalStreamCount murmur3 r' := by
  cases hstep with
  | registerStream unlocked new type fits =>
    refine h.commitFrame (fun _ hs => h.setStore hs) fun offset store hs => ?_
    exact h.registered hs (readable_zero fits offset) ⟨rfl, type ▸ carries_zero fits offset⟩ new
      unlocked none
  | @registerHiddenStream owner _ encoder _ _ _ _ stream locked _ unlocked new type _ fits =>
    refine h.commitFrame (fun _ hs => ?_) fun offset store hs => ?_
    · exact (h.setStore hs).setEncoder stream rfl rfl (fun _ ho => by cases ho)
        (h.hidden owner encoder stream)
    · exact h.registered hs (readable_zero fits offset) ⟨rfl, type ▸ carries_zero fits offset⟩ new
        unlocked (some owner)
  | addStream registration => exact h.addStream registration
  | close stream _ => exact h.close stream _
  | @announce id encoder _ _ _ _ stream locked complete type buffer fits =>
    refine h.commitFrame (fun _ hs => ?_) fun offset store hs => ?_
    · exact (h.setStore hs).setEncoder stream rfl rfl (fun _ ho => by cases ho)
        (h.hidden id encoder stream)
    · exact h.announce stream locked complete hs (readable_zero fits offset)
        ⟨rfl, type ▸ buffer ▸ carries_zero fits offset⟩
  | @initializeFailed id encoder _ stream locked _ =>
    exact h.setEncoder stream rfl rfl (fun _ ho => by cases ho) (h.hidden id encoder stream)
  | @encode frame _ before after queued data =>
    have hsub : ∀ i ∈ before ++ after, i ∈ r.queue := fun i hi => by
      rw [queued]
      exact List.mem_append.mpr ((List.mem_append.mp hi).imp_right (List.mem_cons_of_mem _))
    refine h.commitFrame (fun _ hs => ?_) fun offset store hs => ?_
    · exact { h.setStore hs with queued := fun i hi => h.queued i (hsub i hi) }
    · refine h.encode ?_ hsub hs ⟨Simtrace3Frame.validateHash_updateHash _, fun hz => ?_⟩ data
      · rw [queued]
        exact List.mem_append_right _ List.mem_cons_self
      · exact (data hz).elim

theorem Reachable.inv (h : Reachable totalStreamCount murmur3 r) :
    Inv totalStreamCount murmur3 r := by
  induction h with
  | new => exact .new
  | step _ hstep ih => exact ih.step hstep

end Announcing

/-! ## Opening the frames -/

def Loads (totalStreamCount : List UInt8 → BitVec 32) (murmur3 : List UInt8 → BitVec 32)
    (storage : Storage) (frames : List Committed) (streams : Streams) : Prop :=
  (frames.map Committed.link).foldlM (openFrame totalStreamCount murmur3 storage)
    (fun _ => none) = some streams

theorem Ordered.restored {storage : Storage} {current : Option ℕ}
    (h : Ordered totalStreamCount frames) (hs : ∀ c ∈ frames, Stored storage current c.1 c.2)
    (hr : ∀ c ∈ frames, c.Readable murmur3)
    (hl : Loads totalStreamCount murmur3 storage frames streams) : Restored frames streams := by
  rw [Loads, foldlM_openFrame hs hr] at hl
  clear hs hr
  induction frames using List.reverseRecOn generalizing streams with
  | nil =>
    obtain rfl := Option.some.inj hl
    exact .new
  | append_singleton frames c ih =>
    rw [List.foldlM_append, Option.bind_eq_bind, Option.bind_eq_some_iff] at hl
    obtain ⟨streams₁, hl, hc⟩ := hl
    simp only [List.foldlM_cons, List.foldlM_nil, Option.bind_eq_bind,
      Option.bind_eq_some_iff] at hc
    obtain ⟨streams₂, he, hp⟩ := hc
    obtain rfl := Option.some.inj hp
    exact (ih h.left hl).step (h frames c [] rfl) he

theorem Restored.open_zero (h : Restored frames streams) (hp : Placed totalStreamCount frames c)
    (hz : ¬ c.IsData) : ∃ streams', openCommitted totalStreamCount streams c = some streams' := by
  cases hp with
  | description describes new => exact ⟨_, (h.register describes new).1⟩
  | association announces described count nonempty new hidden =>
    obtain ⟨stream, he, -⟩ := h.associate announces described count nonempty new hidden
    exact ⟨_, he⟩
  | data data => exact (hz data).elim

namespace Announcing

variable {r : Announcing}

/-- In any interleaving, the directories list the frames of a stream behind the frame that
describes it, and behind its association if its data cannot be decoded without. Opening the file
therefore knows the stream of every frame, restores every association, and opens all zero frames. -/
theorem Reachable.defined_before_use (h : Reachable totalStreamCount murmur3 r) :
    (∀ assertions fuel, 2 * r.committed.length + 1 ≤ fuel →
      r.store.file.openStore assertions visit fuel [] =
        some (r.committed.map Committed.link)) ∧
    (∀ before c after, r.committed = before ++ c :: after →
      (c.IsData → ∃ d, Described before c.streamId d ∧
        (totalStreamCount d ≠ 0 → ∃ ids, Announced before c.streamId ids)) ∧
      (∀ ids, c.Announces c.streamId ids → ∀ i ∈ ids, ∃ d, Described before i d)) ∧
    ∀ before after streams, r.committed = before ++ after →
      Loads totalStreamCount murmur3 r.store.file.storage before streams →
      (∀ id ids, Announced before id ids → ∃ stream, streams id = some stream ∧
        stream.associated = some ids) ∧
      ∀ c ∈ after.head?,
        (c.IsData → ∃ stream, streams c.streamId = some stream ∧
          (totalStreamCount stream.descriptor ≠ 0 → stream.associated ≠ none)) ∧
        (¬ c.IsData → ∃ streams', openFrame totalStreamCount murmur3 r.store.file.storage streams
          c.link = some streams') := by
  obtain ⟨⟨current, index, hh, -⟩, readable, ordered, -⟩ := h.inv
  refine ⟨fun assertions fuel hfuel => ?_, fun before c after he => ?_,
    fun before after streams he hl => ?_⟩
  · rw [hh.directories.openStore hh.capacity, foldlM_visit, List.nil_append]
    rwa [List.length_map]
  · have hp := ordered before c after he
    constructor
    · intro hdata
      cases hp with
      | description describes => exact (not_describes_of_isData hdata describes).elim
      | association announces => exact (not_announces_of_isData hdata announces).elim
      | data _ described announced => exact ⟨_, described, announced⟩
    · intro ids ha i hi
      cases hp with
      | description describes => exact (describes.not_announces ha).elim
      | @association d ids' announces _ count _ _ hidden =>
        have hlt : ids'.length < 2 ^ 32 := count ▸ (totalStreamCount d).isLt
        obtain rfl := packAssociatedStreams_inj hlt (announces.2.eq ha.2).2
        exact hidden i hi
      | data hdata => exact (not_announces_of_isData hdata ha).elim
  · have hmem : ∀ c ∈ before, c ∈ r.committed := fun c hc => by
      rw [he]
      exact List.mem_append_left _ hc
    rw [he] at ordered
    have hrestored := ordered.left.restored (fun c hc => hh.stored c (hmem c hc))
      (fun c hc => readable c (hmem c hc)) hl
    refine ⟨hrestored.announced, fun c hc => ?_⟩
    obtain ⟨after, rfl⟩ := List.head?_eq_some_iff.mp hc
    have hp := ordered before c after rfl
    constructor
    · intro hdata
      cases hp with
      | description describes => exact (not_describes_of_isData hdata describes).elim
      | association announces => exact (not_announces_of_isData hdata announces).elim
      | data _ described announced =>
        obtain ⟨stream, hs, rfl⟩ := hrestored.described _ _ described
        refine ⟨stream, hs, fun hne hnone => ?_⟩
        obtain ⟨ids, ha⟩ := announced hne
        obtain ⟨stream', hs', hids⟩ := hrestored.announced _ ids ha
        obtain rfl := Option.some.inj (hs.symm.trans hs')
        cases hnone.symm.trans hids
    · intro hzero
      have hc : c ∈ r.committed := by
        rw [he]
        exact List.mem_append_right _ List.mem_cons_self
      rw [openFrame_of_stored (hh.stored c hc) (readable c hc)]
      exact hrestored.open_zero hp hzero

def oneHiddenStream (descriptor : List UInt8) : BitVec 32 := if descriptor = [1] then 1 else 0

def describe (byte : UInt8) : Attribute := ⟨satStreamDescription, 1, [byte], by simp⟩

def associate : Attribute := ⟨satAssociatedStreams, 8, packAssociatedStreams [1], by decide⟩

/-- A stream is registered and written, which registers and announces its hidden stream. -/
theorem defined_before_use_first_write : ∃ r before c,
    Reachable oneHiddenStream (MurmurHash3.hash32 0) r ∧ r.committed = before ++ [c] ∧ c.IsData ∧
      ∃ d, Described before c.streamId d ∧
        (oneHiddenStream d ≠ 0 → ∃ ids, Announced before c.streamId ids) := by
  have h₁ := Reachable.new.step (@Step.registerStream oneHiddenStream (MurmurHash3.hash32 0) _ 0 0
    (describe 1) none rfl rfl rfl (by decide))
  have h₂ := h₁.step (.addStream rfl)
  have h₃ := h₂.step (@Step.close _ _ _ 0 _ .write rfl rfl)
  have h₄ := h₃.step (@Step.registerHiddenStream _ _ _ 0 1 _ _ 0 (describe 2) none rfl rfl
    (by decide) rfl rfl rfl rfl (by decide))
  have h₅ := h₄.step (.addStream rfl)
  have h₆ := h₅.step (@Step.announce _ _ _ 0 _ _ 0 associate none rfl rfl rfl rfl rfl (by decide))
  have h₇ := h₆.step (@Step.encode _ _ _ (.bare 0) none [] [] rfl (by decide))
  have huse := h₇.defined_before_use.2.1 _ _ [] rfl
  have hdata : ¬ (0 : BitVec 32) = -1 := by decide
  exact ⟨_, _, _, h₇, rfl, hdata, huse.1 hdata⟩

end Announcing

end Simutrace.Simtrace3
