import Simutrace.Buffer.Usage
import Mathlib.Tactic.FinCases

/-! # Identity of cached data

The standby index finds a segment by the hash of its link and by its stream and
sequence number. The store only contributes to the hash, where it is folded
into 16 bits.
-/

namespace Simutrace.Buffer

variable {n : ℕ} {b b' : ServerStreamBuffer n} {seg x : Fin n} {P : StoreId → Prop}

/-- The bits of a store that are part of the hash. -/
def foldedStore (store : StoreId) : BitVec 64 := foldStore 0#64 store.toNat

theorem foldStore_eq (triple : BitVec 64) (store : ℕ) :
    foldStore triple store = triple ^^^ foldStore 0#64 store := by
  induction store using Nat.strongRecOn generalizing triple with
  | ind store ih =>
    rw [foldStore, foldStore.eq_def 0#64]
    split
    · rename_i hs
      have hlt : store >>> 16 < store := by
        rw [Nat.shiftRight_eq_div_pow]
        omega
      rw [ih _ hlt, ih _ hlt (0#64 ^^^ _), BitVec.zero_xor, BitVec.xor_assoc]
    · rw [BitVec.xor_zero]

theorem key_eq_iff {link link' : StoreStreamSegmentLink} :
    LinkHash.key link = LinkHash.key link' ↔
      foldedStore link.store = foldedStore link'.store ∧ link.link = link'.link := by
  rw [LinkHash.key, LinkHash.key, Prod.mk.injEq, linkHash, linkHash, foldStore_eq,
    foldStore_eq _ link'.store.toNat]
  constructor
  · rintro ⟨hhash, hlink⟩
    rw [hlink] at hhash
    exact ⟨(BitVec.xor_right_inj _).mp hhash, hlink⟩
  · rintro ⟨hstore, hlink⟩
    rw [hlink]
    exact ⟨congrArg _ hstore, rfl⟩

def InStores (P : StoreId → Prop) (b : ServerStreamBuffer n) : Prop :=
  ∀ seg stream, (b.segments seg).stream = some stream → P stream.store

namespace InStores

theorem modify {f : Segment n → Segment n} (h : InStores P b)
    (hf : ∀ stream, (f (b.segments seg)).stream = some stream → P stream.store) :
    InStores P (b.modify seg f) := by
  intro x stream hs
  by_cases hx : x = seg
  · subst hx
    rw [ServerStreamBuffer.segments_modify_self] at hs
    exact hf stream hs
  · rw [ServerStreamBuffer.segments_modify_of_ne hx] at hs
    exact h x stream hs

theorem setNext {next : Option (Fin n)} (h : InStores P b) : InStores P (b.setNext seg next) :=
  h.modify (h seg)

theorem setPrev {prev : Option (Fin n)} (h : InStores P b) : InStores P (b.setPrev seg prev) :=
  h.modify (h seg)

theorem purgeUnchecked (h : InStores P b) : InStores P (b.purgeUnchecked seg) := by
  have hmodify : InStores P (b.modify seg fun s =>
      { s with stream := none, sequenceNumber := invalidStreamSegmentId, flags := .free,
               next := b.freeHead }) := h.modify fun _ hs => by cases hs
  exact hmodify

theorem dequeueFromFreeList (h : InStores P b) : InStores P b.dequeueFromFreeList.2 := by
  rw [ServerStreamBuffer.dequeueFromFreeList]
  split
  · exact h
  · rename_i seg _
    have hmodify : InStores P (b.modify seg fun s =>
        { s with isSubmitted := false, flags := .used, next := none }) := h.modify (h seg)
    exact hmodify

theorem unlink (h : InStores P b) (hb : b.unlink seg = some b') : InStores P b' := by
  rw [ServerStreamBuffer.unlink] at hb
  obtain ⟨next, hnext, hb⟩ := Option.bind_eq_some_iff.mp hb
  split at hb
  · obtain rfl := Option.some.inj hb
    exact h
  · obtain ⟨prev, hprev, rfl⟩ := Option.map_eq_some_iff.mp hb
    have hset : InStores P ((b.setNext prev (some next)).setPrev next (some prev)) :=
      h.setNext.setPrev
    exact hset

theorem dequeueFromStandbyList (h : InStores P b) (hb : b.dequeueFromStandbyList seg = some b') :
    InStores P b' := by
  obtain ⟨b₁, hb₁, rfl⟩ := Option.map_eq_some_iff.mp hb
  have h₁ := h.unlink hb₁
  have h₂ : InStores P (b₁.modify seg fun s => { s with isSubmitted := false }) :=
    h₁.modify (h₁ seg)
  exact h₂.setNext.setPrev

theorem promote (h : InStores P b) : InStores P (b.promote seg) := by
  rw [ServerStreamBuffer.promote]
  split
  · have hclear : InStores P (b.clearPrefetch seg) := h.modify (h seg)
    exact hclear
  · exact h

theorem enqueueToStandbyList (h : InStores P b) (hb : b.enqueueToStandbyList seg = some b') :
    InStores P b' := by
  rw [ServerStreamBuffer.enqueueToStandbyList] at hb
  split at hb
  · obtain rfl := Option.some.inj hb
    have hset : InStores P ((b.setNext seg (some seg)).setPrev seg (some seg)) := h.setNext.setPrev
    exact hset
  · rename_i head _
    obtain ⟨last, -, rfl⟩ := Option.map_eq_some_iff.mp hb
    have hlinked : InStores P (b.linkBetween seg last head) := h.setNext.setPrev.setNext.setPrev
    exact hlinked.promote

theorem addStandbySegment (h : InStores P b) (hb : b.addStandbySegment seg = some b') :
    InStores P b' := by
  obtain ⟨link, -, hb⟩ := Option.bind_eq_some_iff.mp hb
  split at hb
  · obtain rfl := Option.some.inj hb
    exact h.purgeUnchecked
  · exact enqueueToStandbyList (b := { b with standbyIndex := (link, seg) :: b.standbyIndex }) h hb

theorem freeUnchecked {prefetch : Bool} (h : InStores P b)
    (hb : b.freeUnchecked seg prefetch = some b') : InStores P b' := by
  rw [ServerStreamBuffer.freeUnchecked] at hb
  split at hb
  · exact addStandbySegment (h.modify (h seg)) hb
  · obtain rfl := Option.some.inj hb
    exact (h.modify (h seg)).purgeUnchecked

theorem evictFromStandbyList {r : Option (Fin n)} (h : InStores P b)
    (hb : b.evictFromStandbyList = some (r, b')) : InStores P b' := by
  rw [ServerStreamBuffer.evictFromStandbyList] at hb
  split at hb
  · cases hb
    exact h
  · obtain ⟨seg, -, hb⟩ := Option.bind_eq_some_iff.mp hb
    obtain ⟨link, -, hb⟩ := Option.bind_eq_some_iff.mp hb
    obtain ⟨b₁, hb₁, hb⟩ := Option.map_eq_some_iff.mp hb
    cases hb
    have h₁ := dequeueFromStandbyList (b := b.eraseStandbySegment link) h hb₁
    exact h₁.modify (h₁ seg)

theorem removeStandbySegment {link : StoreStreamSegmentLink} {r : Option (Fin n)}
    (h : InStores P b) (hb : b.removeStandbySegment link = some (r, b')) : InStores P b' := by
  rw [ServerStreamBuffer.removeStandbySegment] at hb
  split at hb
  · cases hb
    exact h
  · obtain ⟨b₁, hb₁, hb⟩ := Option.map_eq_some_iff.mp hb
    cases hb
    exact dequeueFromStandbyList (b := b.eraseStandbySegment link) h hb₁

theorem prepareSegment {stream : Option ServerStream} (h : InStores P b)
    (hs : ∀ s, stream = some s → P s.store) (sequenceNumber : StreamSegmentId) :
    InStores P (b.prepareSegment seg stream sequenceNumber) :=
  h.modify hs

theorem tryAllocateFreeSegment {stream : Option ServerStream} {sequenceNumber : StreamSegmentId}
    {r : Option (Fin n)} (h : InStores P b) (hs : ∀ s, stream = some s → P s.store)
    (hb : b.tryAllocateFreeSegment stream sequenceNumber = some (r, b')) : InStores P b' := by
  rw [ServerStreamBuffer.tryAllocateFreeSegment] at hb
  have hfree := h.dequeueFromFreeList
  split at hb
  · rename_i seg b₁ hd
    rw [hd] at hfree
    cases hb
    exact hfree.prepareSegment hs sequenceNumber
  · rename_i b₁ hd
    rw [hd] at hfree
    obtain ⟨⟨r', b₂⟩, he, hb⟩ := Option.map_eq_some_iff.mp hb
    have h₂ := hfree.evictFromStandbyList he
    cases r' with
    | none =>
      cases hb
      exact h₂
    | some seg =>
      cases hb
      exact h₂.prepareSegment hs sequenceNumber

theorem setupSegment {stream : Option ServerStream} {flags : StreamAccessFlags}
    {location : Option StorageLocation} (h : InStores P b) :
    InStores P (b.setupSegment seg stream flags location) := by
  refine h.modify fun s hs => h seg s ?_
  cases location with
  | some location => exact hs
  | none => cases stream with
    | none => exact hs
    | some stream => exact hs

theorem allocateUnchecked {stream : Option ServerStream} {sequenceNumber : StreamSegmentId}
    {flags : StreamAccessFlags} {location : Option StorageLocation}
    {r : Request n × ServerStreamBuffer n} (h : InStores P b)
    (hs : ∀ s, stream = some s → P s.store)
    (hb : b.allocateUnchecked stream sequenceNumber flags location = some r) :
    InStores P r.2 := by
  obtain ⟨⟨r', b₁⟩, ht, rfl⟩ := Option.map_eq_some_iff.mp hb
  have h₁ := h.tryAllocateFreeSegment hs ht
  cases r' with
  | none => exact h₁
  | some seg => exact h₁.setupSegment

theorem requestUnchecked {stream : Option ServerStream} {sequenceNumber : StreamSegmentId}
    {flags : StreamAccessFlags} {location : Option StorageLocation}
    {r : Request n × ServerStreamBuffer n} (h : InStores P b)
    (hs : ∀ s, stream = some s → P s.store)
    (hb : b.requestUnchecked stream sequenceNumber flags location = some r) :
    InStores P r.2 := by
  cases stream with
  | none => exact h.allocateUnchecked hs hb
  | some stream =>
    obtain ⟨⟨r', b₁⟩, ht, hb⟩ := Option.bind_eq_some_iff.mp hb
    have h₁ := h.removeStandbySegment ht
    cases r' with
    | none => exact h₁.allocateUnchecked hs hb
    | some seg =>
      cases hb
      exact h₁

theorem submitUnchecked {client : ClientSegment} {r : Submission × ServerStreamBuffer n}
    (h : InStores P b) (hb : b.submitUnchecked seg client = some r) : InStores P r.2 := by
  rw [ServerStreamBuffer.submitUnchecked] at hb
  obtain ⟨stream, -, hb⟩ := Option.bind_eq_some_iff.mp hb
  split at hb
  · split at hb
    · obtain ⟨b₁, hf, rfl⟩ := Option.map_eq_some_iff.mp hb
      exact h.freeUnchecked hf
    · cases hb
      exact h
  · dsimp only at hb
    have hcopied : ∀ control, InStores P (b.modify seg fun s => { s with control := control }) :=
      fun control => h.modify (h seg)
    have hcontrol : ∀ control submitted, InStores P (b.modify seg fun s =>
        { s with control := control, isSubmitted := submitted }) :=
      fun control submitted => h.modify (h seg)
    split at hb
    · cases hb
      exact hcopied _
    · split at hb
      · cases hb
        exact hcontrol _ _
      · split at hb
        · cases hb
          exact hcontrol _ _
        · cases hb
          exact hcontrol _ _

theorem flushFrom {rounds : ℕ} {store : StoreId} {last : Fin n} (h : InStores P b)
    (hb : ServerStreamBuffer.flushFrom rounds b store last seg = some b') : InStores P b' := by
  induction rounds generalizing b seg with
  | zero => cases hb
  | succ rounds ih =>
    rw [ServerStreamBuffer.flushFrom] at hb
    obtain ⟨b₁, hf, hb⟩ := Option.bind_eq_some_iff.mp hb
    have h₁ : InStores P b₁ := by
      obtain ⟨link, -, hf⟩ := Option.bind_eq_some_iff.mp hf
      split at hf
      · obtain ⟨b₂, hd, rfl⟩ := Option.map_eq_some_iff.mp hf
        exact (dequeueFromStandbyList (b := b.eraseStandbySegment link) h hd).purgeUnchecked
      · cases hf
        exact h
    split at hb
    · cases hb
      exact h₁
    · obtain ⟨next, -, hb⟩ := Option.bind_eq_some_iff.mp hb
      exact ih h₁ hb

theorem flushStandbyList {store : StoreId} (h : InStores P b)
    (hb : b.flushStandbyList store = some b') : InStores P b' := by
  rw [ServerStreamBuffer.flushStandbyList] at hb
  split at hb
  · cases hb
    exact h
  · obtain ⟨last, -, hb⟩ := Option.bind_eq_some_iff.mp hb
    exact h.flushFrom hb

end InStores

def Call.store? : Call n → Option StoreId
  | .requestSegment stream _ | .openSegment stream _ _ => some stream.store
  | _ => none

namespace Usage

variable {u u' : Usage n}

theorem inStores_step {call : Call n} (h : InStores P u.buffer)
    (hc : ∀ s, call.store? = some s → P s) (hu : u.step call = some u') :
    InStores P u'.buffer := by
  have hchanges := step_changes hu
  generalize u'.buffer = b' at hchanges ⊢
  cases hchanges with
  | same => exact h
  | request hr =>
    refine h.requestUnchecked ?_ hr
    rintro s ⟨⟩
    exact hc _ rfl
  | requestScratch hr => exact h.requestUnchecked (fun s hs => by cases hs) hr
  | load hr =>
    refine h.requestUnchecked ?_ hr
    rintro s ⟨⟩
    exact hc _ rfl
  | purge seg => exact h.purgeUnchecked
  | free _ _ hb => exact h.freeUnchecked hb
  | submit hr => exact h.submitUnchecked hr
  | written hb => exact h.freeUnchecked hb
  | unsubmit seg => exact h.modify (h seg)
  | flush hb => exact h.flushStandbyList hb

theorem inStores_run {calls : List (Call n)} (h : InStores P u.buffer)
    (hc : ∀ call ∈ calls, ∀ s, call.store? = some s → P s) (hu : u.run calls = some u') :
    InStores P u'.buffer := by
  induction calls generalizing u with
  | nil =>
    cases hu
    exact h
  | cons call calls ih =>
    rw [Usage.run, List.foldlM_cons] at hu
    obtain ⟨u₁, h₁, hu⟩ := Option.bind_eq_some_iff.mp hu
    exact ih (inStores_step h (hc call List.mem_cons_self) h₁)
      (fun c hm => hc c (List.mem_cons_of_mem _ hm)) hu

end Usage

/-- The data that a segment was loaded or written for. -/
def Segment.source (s : Segment n) : Option StoreStreamSegmentLink :=
  s.stream.map fun stream => ⟨stream.store, ⟨stream.id, s.sequenceNumber⟩⟩

theorem Segment.source_congr {s s' : Segment n} (h : s'.data = s.data) : s'.source = s.source := by
  cases s
  cases s'
  cases h
  rfl

/-- In every run with the given stores, a lookup only finds data of the link it is for. -/
def ServesOwn (P : StoreId → Prop) : Prop :=
  ∀ (n segmentSize : ℕ) (enableCache : Bool) (calls : List (Call n)) (u : Usage n),
    (∀ call ∈ calls, ∀ s, call.store? = some s → P s) →
    (Usage.initial n segmentSize enableCache).run calls = some u →
    ∀ link seg, P link.store → u.buffer.findStandbySegment link = some seg →
      (u.buffer.segments seg).source = some link

theorem Parts.source_eq {free standby owned : List (Fin n)} {link : StoreStreamSegmentLink}
    (h : Parts b free standby owned) (hs : InStores P b)
    (hP : ∀ s t, P s → P t → foldedStore s = foldedStore t → s = t) (hlink : P link.store)
    (hfind : b.findStandbySegment link = some seg) : (b.segments seg).source = some link := by
  obtain ⟨link', he, hkey⟩ := KeyedIndex.exists_of_find hfind
  obtain ⟨hfold, heq⟩ := key_eq_iff.mp hkey
  obtain ⟨stream, hstream, hown⟩ := Option.map_eq_some_iff.mp (h.linked _ he)
  dsimp only at hstream hown
  subst hown
  have hnamed := (h.isCached seg (h.mem_standby he)).named stream hstream
  have hstore := hP _ _ (hs seg stream hstream) hlink hfold
  rw [Segment.source, hstream, Option.map_some, ← hnamed]
  obtain ⟨store, l⟩ := link
  obtain rfl : stream.store = store := hstore
  exact congrArg _ (congrArg _ heq)

def cacheCalls (store : StoreId) : List (Call 1) :=
  [.openSegment ⟨store, 0, 8, false⟩ ⟨false, false⟩ ⟨0, some 1, 1⟩, .readReturned ⟨0, Nat.one_pos⟩,
    .freeSegment 0 false]

theorem exists_cached (store : StoreId) : ∃ u,
    (Usage.initial 1 64 true).run (cacheCalls store) = some u ∧
      u.buffer.standbyIndex = [(⟨store, ⟨0, 0⟩⟩, 0)] ∧ u.buffer.next 0 = some 0 ∧
      (u.buffer.segments 0).source = some ⟨store, ⟨0, 0⟩⟩ ∧ u.owned = [] ∧ u.encoding 0 = none :=
  ⟨_, rfl, rfl, rfl, rfl, rfl, rfl⟩

/-- A lookup only finds data of its own store if and only if no two of the stores are folded into
the same bits. -/
theorem servesOwn_iff_foldedStore_injective (P : StoreId → Prop) :
    ServesOwn P ↔ ∀ s t, P s → P t → foldedStore s = foldedStore t → s = t := by
  constructor
  · intro h s t hs ht hfold
    obtain ⟨u, hu, hindex, -, hsource, -⟩ := exists_cached s
    have hcalls : ∀ call ∈ cacheCalls s, ∀ store, call.store? = some store → P store := by
      intro call hc store hstore
      fin_cases hc
      · cases hstore
        exact hs
      · cases hstore
      · cases hstore
    have hfind : u.buffer.findStandbySegment ⟨t, ⟨0, 0⟩⟩ = some 0 := by
      rw [ServerStreamBuffer.findStandbySegment, hindex]
      exact KeyedIndex.find_of_mem (List.nodup_singleton _) List.mem_cons_self
        (key_eq_iff.mpr ⟨hfold, rfl⟩)
    have hown := h 1 64 true _ u hcalls hu ⟨t, ⟨0, 0⟩⟩ 0 ht hfind
    exact congrArg StoreStreamSegmentLink.store (Option.some.inj (hsource.symm.trans hown))
  · intro hP n segmentSize enableCache calls u hcalls hu link seg hlink hfind
    obtain ⟨u', hu', hinv⟩ := (Usage.initial_inv n segmentSize enableCache).run calls
    obtain rfl := Option.some.inj (hu.symm.trans hu')
    obtain ⟨free, standby, hparts⟩ := hinv.parts
    have hinit : InStores P (Usage.initial n segmentSize enableCache).buffer := by
      intro seg stream hs
      cases hs
    exact hparts.source_eq (Usage.inStores_run hinit hcalls hu) hP hlink hfind

theorem foldedStore_one_eq : foldedStore 1 = foldedStore 0x10000 := by
  simp [foldedStore, foldStore]

/-- A segment of the first store is handed out to a stream of a later store that opens the same
sequence number of its own stream, and nothing is loaded. -/
theorem served_for_other_store : ∃ u u',
    (Usage.initial 1 64 true).run (cacheCalls 1) = some u ∧
      u.buffer.findStandbySegment ⟨0x10000, ⟨0, 0⟩⟩ = some 0 ∧
      (u.buffer.segments 0).source = some ⟨1, ⟨0, 0⟩⟩ ∧
      u.step (.openSegment ⟨0x10000, 0, 8, false⟩ ⟨false, false⟩ ⟨0, some 1, 1⟩) = some u' ∧
      u'.owned = [0] ∧ u'.encoding 0 = none ∧
      (u'.buffer.segments 0).source = some ⟨1, ⟨0, 0⟩⟩ := by
  obtain ⟨u, hu, hindex, hnext, hsource, howned, hcall⟩ := exists_cached 1
  have hfind : u.buffer.findStandbySegment ⟨0x10000, ⟨0, 0⟩⟩ = some 0 := by
    rw [ServerStreamBuffer.findStandbySegment, hindex]
    exact KeyedIndex.find_of_mem (List.nodup_singleton _) List.mem_cons_self
      (key_eq_iff.mpr ⟨foldedStore_one_eq, rfl⟩)
  obtain ⟨b, hdequeue, hdata⟩ : ∃ b,
      (u.buffer.eraseStandbySegment ⟨0x10000, ⟨0, 0⟩⟩).dequeueFromStandbyList 0 = some b ∧
        (b.segments 0).data = (u.buffer.segments 0).data := by
    have hnext' : (u.buffer.eraseStandbySegment ⟨0x10000, ⟨0, 0⟩⟩).next 0 = some 0 := hnext
    refine ⟨{ u.buffer.eraseStandbySegment ⟨0x10000, ⟨0, 0⟩⟩ with
      standbyHead := none }.resetLinks 0, ?_, ServerStreamBuffer.data_resetLinks⟩
    rw [ServerStreamBuffer.dequeueFromStandbyList, ServerStreamBuffer.unlink, hnext',
      Option.bind_some, if_pos rfl, Option.map_some]
  refine ⟨u, u.load (.served 0, b), hu, hfind, hsource, ?_, ?_, hcall, ?_⟩
  · rw [Usage.step, ServerStreamBuffer.requestUnchecked, ServerStreamBuffer.removeStandbySegment,
      hfind]
    dsimp only
    rw [hdequeue, Option.map_some, Option.bind_some, Option.map_some]
  · exact congrArg (List.cons 0) howned
  · exact (Segment.source_congr hdata).trans hsource

end Simutrace.Buffer
