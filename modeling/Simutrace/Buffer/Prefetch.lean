import Simutrace.Buffer.Flush

/-! # Marks of prefetched segments

A prefetched segment is marked when it is freed, so that it is not the next one
to be evicted although it has a low priority. Inserting it into the standby list
removes the mark, except if the list is empty.
-/

namespace Simutrace.Buffer

variable {n : ℕ} {b b' : ServerStreamBuffer n} {seg x : Fin n} {prefetch : Bool}

/-- No segment but the given one is marked. -/
def UnmarkedBut (seg : Fin n) (b : ServerStreamBuffer n) : Prop :=
  ∀ x, x ≠ seg → (b.segments x).flags.prefetch = false

def Unmarked (b : ServerStreamBuffer n) : Prop := ∀ x, (b.segments x).flags.prefetch = false

/-- The segment is marked and becomes the only one of the standby list. -/
def MarksOnly (b : ServerStreamBuffer n) (seg : Fin n) (prefetch : Bool) : Prop :=
  prefetch ∧ (b.segments seg).flags.cacheable ∧ b.enableCache ∧
    (b.segments seg).control.rawEntryCount > 0 ∧ b.standbyHead = none

theorem prefetch_eq (h : (b'.segments x).data = (b.segments x).data) :
    (b'.segments x).flags.prefetch = (b.segments x).flags.prefetch :=
  congrArg (fun d => d.1.prefetch) h

namespace UnmarkedBut

theorem unmarked (h : UnmarkedBut seg b) (hs : (b.segments seg).flags.prefetch = false) :
    Unmarked b := by
  intro x
  by_cases hx : x = seg
  · rw [hx]
    exact hs
  · exact h x hx

theorem modify {f : Segment n → Segment n} (h : UnmarkedBut seg b) :
    UnmarkedBut seg (b.modify seg f) := by
  intro x hx
  rw [ServerStreamBuffer.segments_modify_of_ne hx]
  exact h x hx

theorem purgeUnchecked (h : UnmarkedBut seg b) : Unmarked (b.purgeUnchecked seg) := by
  have hother : UnmarkedBut seg (b.purgeUnchecked seg) := fun x hx => by
    rw [ServerStreamBuffer.segments_purgeUnchecked hx]
    exact h x hx
  apply hother.unmarked
  simp [ServerStreamBuffer.purgeUnchecked, ServerStreamBuffer.enqueueToFreeList,
    SegmentFlags.free]

theorem promote (h : UnmarkedBut seg b) : Unmarked (b.promote seg) := by
  rw [ServerStreamBuffer.promote]
  split
  · have hclear : UnmarkedBut seg (b.clearPrefetch seg) := h.modify
    apply hclear.unmarked
    simp [ServerStreamBuffer.clearPrefetch]
  · rename_i hp
    exact h.unmarked (Bool.eq_false_iff.mpr fun hs => hp (Or.inr hs))

/-- Inserting a segment removes its mark if the list is not empty. -/
theorem enqueueToStandbyList (h : UnmarkedBut seg b)
    (hs : b.standbyHead = none → (b.segments seg).flags.prefetch = false)
    (hb : b.enqueueToStandbyList seg = some b') : Unmarked b' := by
  rw [ServerStreamBuffer.enqueueToStandbyList] at hb
  split at hb
  · rename_i hhead
    obtain rfl := Option.some.inj hb
    intro x
    have hdata : (((b.setNext seg (some seg)).setPrev seg (some seg)).segments x).data =
        (b.segments x).data := ServerStreamBuffer.data_setPrev.trans ServerStreamBuffer.data_setNext
    exact (prefetch_eq hdata).trans (h.unmarked (hs hhead) x)
  · obtain ⟨last, -, rfl⟩ := Option.map_eq_some_iff.mp hb
    apply promote
    intro x hx
    rw [prefetch_eq ServerStreamBuffer.data_linkBetween]
    exact h x hx

theorem addStandbySegment (h : UnmarkedBut seg b)
    (hs : b.standbyHead = none → (b.segments seg).flags.prefetch = false)
    (hb : b.addStandbySegment seg = some b') : Unmarked b' := by
  obtain ⟨link, -, hb⟩ := Option.bind_eq_some_iff.mp hb
  split at hb
  · obtain rfl := Option.some.inj hb
    exact h.purgeUnchecked
  · exact enqueueToStandbyList (b := { b with standbyIndex := (link, seg) :: b.standbyIndex }) h hs
      hb

end UnmarkedBut

namespace Unmarked

theorem unmarkedBut (h : Unmarked b) : UnmarkedBut seg b := fun x _ => h x

theorem of_data (h : Unmarked b) (hd : ∀ x, (b'.segments x).data = (b.segments x).data) :
    Unmarked b' := fun x => (prefetch_eq (hd x)).trans (h x)

theorem modify {f : Segment n → Segment n} (h : Unmarked b)
    (hf : (f (b.segments seg)).flags.prefetch = false) : Unmarked (b.modify seg f) :=
  h.unmarkedBut.modify.unmarked (by rwa [ServerStreamBuffer.segments_modify_self])

theorem purgeUnchecked (h : Unmarked b) : Unmarked (b.purgeUnchecked seg) :=
  h.unmarkedBut.purgeUnchecked

theorem freeUnchecked (h : Unmarked b) (hm : ¬ MarksOnly b seg prefetch)
    (hb : b.freeUnchecked seg prefetch = some b') : Unmarked b' := by
  rw [ServerStreamBuffer.freeUnchecked] at hb
  split at hb
  · rename_i hc
    refine h.unmarkedBut.modify.addStandbySegment (fun hhead => ?_) hb
    rw [ServerStreamBuffer.segments_modify_self]
    dsimp only
    rw [h seg, Bool.false_or]
    exact Bool.eq_false_iff.mpr fun hp => hm ⟨hp, hc.1, hc.2.1, hc.2.2, hhead⟩
  · obtain rfl := Option.some.inj hb
    exact h.unmarkedBut.modify.purgeUnchecked

theorem dequeueFromFreeList (h : Unmarked b) : Unmarked b.dequeueFromFreeList.2 := by
  rw [ServerStreamBuffer.dequeueFromFreeList]
  split
  · exact h
  · rename_i seg _
    have hmodify : Unmarked (b.modify seg fun s =>
        { s with isSubmitted := false, flags := .used, next := none }) := h.modify rfl
    exact hmodify

theorem dequeueFromStandbyList (h : Unmarked b) (hb : b.dequeueFromStandbyList seg = some b') :
    Unmarked b' := h.of_data (ServerStreamBuffer.data_dequeueFromStandbyList hb)

theorem evictFromStandbyList {r : Option (Fin n)} (h : Unmarked b)
    (hb : b.evictFromStandbyList = some (r, b')) : Unmarked b' := by
  rw [ServerStreamBuffer.evictFromStandbyList] at hb
  split at hb
  · cases hb
    exact h
  · obtain ⟨seg, -, hb⟩ := Option.bind_eq_some_iff.mp hb
    obtain ⟨link, -, hb⟩ := Option.bind_eq_some_iff.mp hb
    obtain ⟨b₁, hb₁, hb⟩ := Option.map_eq_some_iff.mp hb
    cases hb
    exact (dequeueFromStandbyList (b := b.eraseStandbySegment link) h hb₁).modify rfl

theorem removeStandbySegment {link : StoreStreamSegmentLink} {r : Option (Fin n)}
    (h : Unmarked b) (hb : b.removeStandbySegment link = some (r, b')) : Unmarked b' := by
  rw [ServerStreamBuffer.removeStandbySegment] at hb
  split at hb
  · cases hb
    exact h
  · obtain ⟨b₁, hb₁, hb⟩ := Option.map_eq_some_iff.mp hb
    cases hb
    exact dequeueFromStandbyList (b := b.eraseStandbySegment link) h hb₁

theorem tryAllocateFreeSegment {stream : Option ServerStream} {sequenceNumber : StreamSegmentId}
    {r : Option (Fin n)} (h : Unmarked b)
    (hb : b.tryAllocateFreeSegment stream sequenceNumber = some (r, b')) : Unmarked b' := by
  rw [ServerStreamBuffer.tryAllocateFreeSegment] at hb
  have hfree := h.dequeueFromFreeList
  split at hb
  · rename_i seg b₁ hd
    rw [hd] at hfree
    cases hb
    exact hfree.modify (hfree seg)
  · rename_i b₁ hd
    rw [hd] at hfree
    obtain ⟨⟨r', b₂⟩, he, hb⟩ := Option.map_eq_some_iff.mp hb
    have h₂ := hfree.evictFromStandbyList he
    cases r' with
    | none =>
      cases hb
      exact h₂
    | some seg =>
      cases hb
      exact h₂.modify (h₂ seg)

theorem setupSegment {stream : Option ServerStream} {flags : StreamAccessFlags}
    {location : Option StorageLocation} (h : Unmarked b) :
    Unmarked (b.setupSegment seg stream flags location) := by
  apply h.modify
  cases location with
  | some location => exact h seg
  | none => cases stream with
    | none => exact h seg
    | some stream => exact h seg

theorem allocateUnchecked {stream : Option ServerStream} {sequenceNumber : StreamSegmentId}
    {flags : StreamAccessFlags} {location : Option StorageLocation}
    {r : Request n × ServerStreamBuffer n} (h : Unmarked b)
    (hb : b.allocateUnchecked stream sequenceNumber flags location = some r) : Unmarked r.2 := by
  obtain ⟨⟨r', b₁⟩, ht, rfl⟩ := Option.map_eq_some_iff.mp hb
  have h₁ := h.tryAllocateFreeSegment ht
  cases r' with
  | none => exact h₁
  | some seg => exact h₁.setupSegment

theorem requestUnchecked {stream : Option ServerStream} {sequenceNumber : StreamSegmentId}
    {flags : StreamAccessFlags} {location : Option StorageLocation}
    {r : Request n × ServerStreamBuffer n} (h : Unmarked b)
    (hb : b.requestUnchecked stream sequenceNumber flags location = some r) : Unmarked r.2 := by
  cases stream with
  | none => exact h.allocateUnchecked hb
  | some stream =>
    obtain ⟨⟨r', b₁⟩, ht, hb⟩ := Option.bind_eq_some_iff.mp hb
    have h₁ := h.removeStandbySegment ht
    cases r' with
    | none => exact h₁.allocateUnchecked hb
    | some seg =>
      cases hb
      exact h₁

theorem not_marksOnly_false : ¬ MarksOnly b seg false := fun h => Bool.false_ne_true h.1

theorem submitUnchecked {client : ClientSegment} {r : Submission × ServerStreamBuffer n}
    (h : Unmarked b) (hb : b.submitUnchecked seg client = some r) : Unmarked r.2 := by
  rw [ServerStreamBuffer.submitUnchecked] at hb
  obtain ⟨stream, -, hb⟩ := Option.bind_eq_some_iff.mp hb
  split at hb
  · split at hb
    · obtain ⟨b₁, hf, rfl⟩ := Option.map_eq_some_iff.mp hb
      exact h.freeUnchecked not_marksOnly_false hf
    · cases hb
      exact h
  · dsimp only at hb
    have hcopied (control : SegmentControlElement) :
        Unmarked (b.modify seg fun s => { s with control := control }) := h.modify (h seg)
    have hcontrol (control : SegmentControlElement) (submitted : Bool) : Unmarked (b.modify seg
        fun s => { s with control := control, isSubmitted := submitted }) := h.modify (h seg)
    split at hb
    · cases hb
      exact hcopied _
    · split at hb
      · cases hb
        exact hcontrol _ _
      · split at hb
        · cases hb
          exact hcontrol _ _
        · cases hb
          exact hcontrol _ _

theorem flushFrom {rounds : ℕ} {store : StoreId} {last : Fin n} (h : Unmarked b)
    (hb : ServerStreamBuffer.flushFrom rounds b store last seg = some b') : Unmarked b' := by
  induction rounds generalizing b seg with
  | zero => cases hb
  | succ rounds ih =>
    rw [ServerStreamBuffer.flushFrom] at hb
    obtain ⟨b₁, hf, hb⟩ := Option.bind_eq_some_iff.mp hb
    have h₁ : Unmarked b₁ := by
      obtain ⟨link, -, hf⟩ := Option.bind_eq_some_iff.mp hf
      split at hf
      · obtain ⟨b₂, hd, rfl⟩ := Option.map_eq_some_iff.mp hf
        exact (dequeueFromStandbyList (b := b.eraseStandbySegment link) h hd).purgeUnchecked
      · cases hf
        exact h
    split at hb
    · cases hb
      exact h₁
    · obtain ⟨next, -, hb⟩ := Option.bind_eq_some_iff.mp hb
      exact ih h₁ hb

theorem flushStandbyList {store : StoreId} (h : Unmarked b)
    (hb : b.flushStandbyList store = some b') : Unmarked b' := by
  rw [ServerStreamBuffer.flushStandbyList] at hb
  split at hb
  · cases hb
    exact h
  · obtain ⟨last, -, hb⟩ := Option.bind_eq_some_iff.mp hb
    exact h.flushFrom hb

end Unmarked

open ServerStreamBuffer

def EvictedNext (b : ServerStreamBuffer n) (seg : Fin n) : Prop :=
  ∃ b', b.evictFromStandbyList = some (some seg, b')

inductive Added (b : ServerStreamBuffer n) (seg : Fin n) : ServerStreamBuffer n → Prop
  | purged {b' : ServerStreamBuffer n} (found : b.standbyIndex ≠ [])
      (index : b'.standbyIndex = b.standbyIndex) : Added b seg b'
  | only {b' : ServerStreamBuffer n} (empty : b.standbyHead = none)
      (first : b'.standbyHead = some seg) (prev : b'.prev seg = some seg)
      (flags : (b'.segments seg).flags = (b.segments seg).flags)
      (mem : seg ∈ b'.standbyIndex.map Prod.snd) : Added b seg b'
  | first {b' : ServerStreamBuffer n} {head : Fin n} (nonempty : b.standbyHead = some head)
      (high : (b.segments seg).flags.lowPriority = false ∨ (b.segments seg).flags.prefetch)
      (first : b'.standbyHead = some seg) : Added b seg b'
  | last {b' : ServerStreamBuffer n} {head : Fin n} (nonempty : b.standbyHead = some head)
      (low : ¬ ((b.segments seg).flags.lowPriority = false ∨ (b.segments seg).flags.prefetch))
      (first : b'.standbyHead = some head) (prev : b'.prev head = some seg) : Added b seg b'

theorem added_addStandbySegment (hb : b.addStandbySegment seg = some b') : Added b seg b' := by
  obtain ⟨link, hlink, hb⟩ := Option.bind_eq_some_iff.mp hb
  split at hb
  · rename_i hfind
    obtain rfl := Option.some.inj hb
    refine .purged (fun hnil => ?_) rfl
    rw [findStandbySegment, hnil] at hfind
    cases hfind
  · rw [ServerStreamBuffer.enqueueToStandbyList] at hb
    split at hb
    · rename_i hhead
      obtain rfl := Option.some.inj hb
      refine .only hhead rfl ?_ ?_ (by simp)
      · exact congrFun prev_setPrev seg |>.trans (Function.update_self ..)
      · exact congrArg Prod.fst (data_setPrev.trans data_setNext)
    · rename_i head hhead
      obtain ⟨last, -, rfl⟩ := Option.map_eq_some_iff.mp hb
      have hflags : ((linkBetween { b with standbyIndex := (link, seg) :: b.standbyIndex } seg last
          head).segments seg).flags = (b.segments seg).flags := congrArg Prod.fst data_linkBetween
      by_cases hp : (b.segments seg).flags.lowPriority = false ∨ (b.segments seg).flags.prefetch
      · refine .first hhead hp ?_
        rw [ServerStreamBuffer.promote, hflags, if_pos hp]
      · rw [ServerStreamBuffer.promote, hflags, if_neg hp]
        refine .last hhead hp hhead ?_
        rw [prev_linkBetween, Function.update_self]

/-- A segment that is freed, before it is added to the standby list. -/
def markFreed (b : ServerStreamBuffer n) (seg : Fin n) (prefetch : Bool) : ServerStreamBuffer n :=
  b.modify seg fun s =>
    { s with isSubmitted := true
             flags := { s.flags with prefetch := s.flags.prefetch || prefetch
                                     readOnly := true } }

@[simp] theorem flags_markFreed : ((markFreed b seg prefetch).segments seg).flags =
    { (b.segments seg).flags with
      prefetch := (b.segments seg).flags.prefetch || prefetch
      readOnly := true } := by
  rw [markFreed, segments_modify_self]

theorem added_of_cached (hc : (b.segments seg).flags.cacheable ∧ b.enableCache ∧
    (b.segments seg).control.rawEntryCount > 0) (hb : b.freeUnchecked seg prefetch = some b') :
    Added (markFreed b seg prefetch) seg b' := by
  rw [ServerStreamBuffer.freeUnchecked, if_pos hc] at hb
  exact added_addStandbySegment hb

/-- Freeing a segment adds it to the standby list, or leaves the index as it is. -/
theorem added_freeUnchecked (hb : b.freeUnchecked seg prefetch = some b') :
    b'.standbyIndex = b.standbyIndex ∨ Added (markFreed b seg prefetch) seg b' := by
  by_cases hc : (b.segments seg).flags.cacheable ∧ b.enableCache ∧
      (b.segments seg).control.rawEntryCount > 0
  · exact Or.inr (added_of_cached hc hb)
  · rw [ServerStreamBuffer.freeUnchecked, if_neg hc] at hb
    obtain rfl := Option.some.inj hb
    exact Or.inl rfl

theorem evictedNext_of_prev {free standby owned : List (Fin n)} {head : Fin n}
    (h : Parts b free standby owned) (hhead : b.standbyHead = some head)
    (hprev : b.prev head = some seg) : EvictedNext b seg := by
  have hring := h.ring
  rw [hhead] at hring
  obtain ⟨rest, rfl⟩ := hring.head_cases
  have hmem := hring.mem_of_prev_head hprev
  obtain ⟨link, hlink⟩ := Parts.exists_linkOf h.toArranged hmem
  obtain ⟨front, back, hsplit⟩ := List.append_of_mem hmem
  rw [hsplit] at h
  obtain ⟨b', hb, -⟩ := h.dequeueFromStandbyList hlink
  refine ⟨b'.modify seg fun s => { s with flags := .used }, ?_⟩
  rw [ServerStreamBuffer.evictFromStandbyList, hhead]
  dsimp only
  rw [hprev, Option.bind_some, hlink, Option.bind_some, hb, Option.map_some]

namespace Usage

variable {u u' : Usage n}

/-- A prefetched segment is freed, and becomes the only one of the standby list. -/
def PrefetchesFirst (u : Usage n) (call : Call n) : Prop :=
  ∃ seg : Fin n, call = .freeSegment seg true ∧ u.encoding seg = none ∧ u.buffer.Freeable seg ∧
    MarksOnly u.buffer seg true

/-- No segment that is cached or was handed out is still marked. Only the insertion after a prefetch
is affected by the mark, any other one puts a segment of low priority where it is evicted next. -/
structure OneShot (u : Usage n) : Prop where
  unmarked : ∀ seg, seg ∈ u.buffer.standbyIndex.map Prod.snd ∨ seg ∈ u.owned →
    (u.buffer.segments seg).flags.prefetch = false
  first : ∀ seg ∈ u.owned, ∀ b', u.buffer.freeUnchecked seg true = some b' →
    seg ∈ b'.standbyIndex.map Prod.snd → b'.standbyHead = some seg
  evictedNext : ∀ seg ∈ u.owned, (u.buffer.segments seg).flags.lowPriority → ∀ b',
    u.buffer.freeUnchecked seg false = some b' → seg ∈ b'.standbyIndex.map Prod.snd →
      EvictedNext b' seg

theorem Inv.notMem_standbyIndex (h : Inv u) (hs : seg ∈ u.owned) :
    seg ∉ u.buffer.standbyIndex.map Prod.snd := by
  obtain ⟨free, standby, hp⟩ := h.parts
  intro hmem
  exact hp.ne_of_mem_standby hs (hp.indexed.mem_iff.mp hmem) rfl

theorem Inv.oneShot (h : Inv u) (hm : Unmarked u.buffer) : OneShot u where
  unmarked seg _ := hm seg
  first seg hs b' hb hmem := by
    have hnot := h.notMem_standbyIndex hs
    rcases added_freeUnchecked hb with hindex | hadded
    · exact absurd (hindex ▸ hmem) hnot
    · cases hadded with
      | purged _ index => exact absurd (index ▸ hmem) hnot
      | only _ first => exact first
      | first _ _ first => exact first
      | last _ low => exact absurd (Or.inr (by simp)) low
  evictedNext seg hs hl b' hb hmem := by
    have hnot := h.notMem_standbyIndex hs
    obtain ⟨free, standby, hp⟩ := h.owned hs
    obtain ⟨b, free', standby', hb', hp'⟩ := hp.freeUnchecked false
    obtain rfl := Option.some.inj (hb'.symm.trans hb)
    rcases added_freeUnchecked hb with hindex | hadded
    · exact absurd (hindex ▸ hmem) hnot
    · cases hadded with
      | purged _ index => exact absurd (index ▸ hmem) hnot
      | only _ first prev => exact evictedNext_of_prev hp' first prev
      | first _ high =>
        simp [hl, hm seg] at high
      | last _ _ first prev => exact evictedNext_of_prev hp' first prev

theorem unmarked_step {call : Call n} (h : Unmarked u.buffer) (hc : ¬ PrefetchesFirst u call)
    (hu : u.step call = some u') : Unmarked u'.buffer := by
  have hchanges := step_changes hu
  generalize u'.buffer = b' at hchanges ⊢
  cases hchanges with
  | same => exact h
  | request hr => exact h.requestUnchecked hr
  | requestScratch hr => exact h.requestUnchecked hr
  | load hr => exact h.requestUnchecked hr
  | purge seg => exact h.purgeUnchecked
  | @free seg prefetch _ unlocked freeable hb =>
    refine h.freeUnchecked (fun hmarks => ?_) hb
    obtain rfl : prefetch = true := hmarks.1
    exact hc ⟨seg, rfl, unlocked, freeable, hmarks⟩
  | submit hr => exact h.submitUnchecked hr
  | written hb => exact h.freeUnchecked Unmarked.not_marksOnly_false hb
  | unsubmit seg => exact h.modify (h seg)
  | flush hb => exact h.flushStandbyList hb

/-- The segment that is prefetched into an empty list keeps its mark. -/
theorem Inv.marked_of_prefetchesFirst {call : Call n} (h : Inv u) (hc : PrefetchesFirst u call) :
    ∃ u' seg, u.step call = some u' ∧ seg ∈ u'.buffer.standbyIndex.map Prod.snd ∧
      (u'.buffer.segments seg).flags.prefetch = true := by
  obtain ⟨seg, rfl, hcall, hfreeable, hmarks⟩ := hc
  have hs := h.mem_owned ⟨hfreeable.1, hfreeable.2.1⟩
  obtain ⟨free, standby, hp⟩ := h.owned hs
  obtain ⟨b', -, -, hb', -⟩ := hp.freeUnchecked true
  refine ⟨u.release seg b', seg, ?_, ?_⟩
  · rw [Usage.step, Usage.lock, dif_pos seg.isLt, Fin.eta, if_pos hcall, if_pos hfreeable, hb',
      Option.map_some]
  · have hadded := added_of_cached ⟨hmarks.2.1, hmarks.2.2.1, hmarks.2.2.2.1⟩ hb'
    have hempty : u.buffer.standbyHead = none := hmarks.2.2.2.2
    cases hadded with
    | purged found =>
      have hring := hp.ring
      rw [hempty] at hring
      obtain rfl := LinkedList.Ring.nil_iff.mp hring
      exact absurd (List.map_eq_nil_iff.mp (List.Perm.eq_nil hp.indexed)) found
    | only _ _ _ flags mem =>
      refine ⟨mem, ?_⟩
      rw [Usage.release, flags, flags_markFreed]
      exact Bool.or_true _
    | first nonempty =>
      rw [markFreed, standbyHead_modify, hempty] at nonempty
      cases nonempty
    | last nonempty =>
      rw [markFreed, standbyHead_modify, hempty] at nonempty
      cases nonempty

theorem run_append_singleton {before : List (Call n)} {call : Call n} :
    u.run (before ++ [call]) = (u.run before).bind fun u => u.step call := by
  simp [Usage.run, List.foldlM_append]

/-- In all states of a run, marks are used once if and only if no segment is prefetched into the
empty standby list. -/
theorem oneShot_iff (n segmentSize : ℕ) (enableCache : Bool) (calls : List (Call n)) :
    (∀ before after u, calls = before ++ after →
      (initial n segmentSize enableCache).run before = some u → OneShot u) ↔
      ∀ before call after u, calls = before ++ call :: after →
        (initial n segmentSize enableCache).run before = some u → ¬ PrefetchesFirst u call := by
  have hinv (before : List (Call n)) (u : Usage n)
      (hu : (initial n segmentSize enableCache).run before = some u) : Inv u := by
    obtain ⟨u', hu', hinv⟩ := (initial_inv n segmentSize enableCache).run before
    obtain rfl := Option.some.inj (hu.symm.trans hu')
    exact hinv
  constructor
  · intro h before call after u hcalls hu hc
    obtain ⟨u', seg, hstep, hmem, hmark⟩ := (hinv before u hu).marked_of_prefetchesFirst hc
    have hu' : (initial n segmentSize enableCache).run (before ++ [call]) = some u' := by
      rw [run_append_singleton, hu, Option.bind_some, hstep]
    have hshot := h (before ++ [call]) after u' (by simp [hcalls]) hu'
    rw [hshot.unmarked seg (Or.inl hmem)] at hmark
    cases hmark
  · intro h before after u hcalls hu
    apply (hinv before u hu).oneShot
    induction before using List.reverseRecOn generalizing after u with
    | nil =>
      obtain rfl := Option.some.inj hu
      exact fun _ => rfl
    | append_singleton before call ih =>
      rw [run_append_singleton] at hu
      obtain ⟨u₁, h₁, hstep⟩ := Option.bind_eq_some_iff.mp hu
      have hsplit : calls = before ++ call :: after := by simpa using hcalls
      exact unmarked_step (ih (call :: after) u₁ hsplit h₁) (h before call after u₁ hsplit h₁) hstep

def prefetchCalls : List (Call 1) :=
  [.openSegment ⟨1, 0, 8, false⟩ ⟨false, true⟩ ⟨0, some 1, 1⟩, .readReturned ⟨0, Nat.one_pos⟩,
    .freeSegment 0 true]

/-- The only segment of the standby list is still marked. -/
theorem not_oneShot_prefetchCalls : ∃ u, (initial 1 64 true).run prefetchCalls = some u ∧
    (u.buffer.segments 0).flags.prefetch = true ∧ ¬ OneShot u := by
  obtain ⟨u, hu, hmem, hmark⟩ : ∃ u, (initial 1 64 true).run prefetchCalls = some u ∧
      u.buffer.standbyIndex.map Prod.snd = [0] ∧ (u.buffer.segments 0).flags.prefetch = true :=
    ⟨_, rfl, rfl, rfl⟩
  refine ⟨u, hu, hmark, fun h => ?_⟩
  rw [h.unmarked 0 (Or.inl (by simp [hmem]))] at hmark
  cases hmark

end Usage

end Simutrace.Buffer
