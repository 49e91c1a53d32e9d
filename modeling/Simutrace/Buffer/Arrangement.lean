import Simutrace.Buffer.Operations
import Simutrace.Library.LinkedChain
import Simutrace.Library.LinkedRing
import Mathlib.Data.List.FinRange

/-! # The lists of a buffer

The free list and the standby list are disjoint, and the remaining segments are
owned. Adding a segment to a list and taking one out only affects the links of
the segments of this list.
-/

namespace Simutrace.Buffer

open LinkedList

variable {n : ℕ} {b b' : ServerStreamBuffer n} {free standby owned : List (Fin n)} {seg : Fin n}

def Segment.Named (s : Segment n) : Prop :=
  ∀ stream, s.stream = some stream → s.control.link = ⟨stream.id, s.sequenceNumber⟩

structure Segment.Free (s : Segment n) : Prop where
  flags : s.flags = .free
  prev : s.prev = none
  stream : s.stream = none

structure Segment.Cached (s : Segment n) : Prop where
  inUse : s.flags.inUse
  stream : s.stream.isSome
  named : s.Named

structure Segment.Owned (s : Segment n) : Prop where
  inUse : s.flags.inUse
  next : s.next = none
  prev : s.prev = none
  cacheable : s.flags.cacheable → s.stream.isSome
  named : s.Named

theorem Segment.Free.congr {s s' : Segment n} (h : s.Free) (hd : s'.data = s.data)
    (hp : s'.prev = s.prev) : s'.Free := by
  cases s
  cases s'
  cases hd
  exact ⟨h.flags, hp.trans h.prev, h.stream⟩

theorem Segment.Cached.congr {s s' : Segment n} (h : s.Cached) (hd : s'.data = s.data) :
    s'.Cached := by
  cases s
  cases s'
  cases hd
  exact ⟨h.inUse, h.stream, h.named⟩

theorem Segment.Cached.detach {s s' : Segment n} (h : s.Cached) (hd : s'.data = s.data)
    (hn : s'.next = none) (hp : s'.prev = none) : s'.Owned :=
  ⟨(h.congr hd).inUse, hn, hp, fun _ => (h.congr hd).stream, (h.congr hd).named⟩

theorem Segment.Owned.congr {s s' : Segment n} (h : s.Owned) (hd : s'.data = s.data)
    (hn : s'.next = s.next) (hp : s'.prev = s.prev) : s'.Owned := by
  cases s
  cases s'
  cases hd
  exact ⟨h.inUse, hn.trans h.next, hp.trans h.prev, h.cacheable, h.named⟩

namespace ServerStreamBuffer

theorem segments_purgeUnchecked {x : Fin n} (hx : x ≠ seg) :
    (b.purgeUnchecked seg).segments x = b.segments x :=
  Function.update_of_ne hx ..

theorem linkOf_congr {x : Fin n} (h : (b'.segments x).data = (b.segments x).data) :
    b'.linkOf x = b.linkOf x := by
  obtain ⟨-, hstream, -, hcontrol⟩ : _ ∧ _ ∧ _ ∧ _ := by
    simpa only [Segment.data, Prod.mk.injEq] using h
  rw [linkOf, linkOf, hstream, hcontrol]

theorem next_resetLinks : (b.resetLinks seg).next = Function.update b.next seg none := by
  rw [resetLinks, next_setPrev, next_setNext, next_modify]
  rfl

theorem prev_resetLinks : (b.resetLinks seg).prev = Function.update b.prev seg none := by
  rw [resetLinks, prev_setPrev, prev_setNext, prev_modify]
  rfl

theorem data_resetLinks {x : Fin n} :
    ((b.resetLinks seg).segments x).data = (b.segments x).data := by
  rw [resetLinks, data_setPrev, data_setNext, data_modify]
  rfl

/-- The links after a segment was taken out of the standby list. -/
structure Unlinked (b : ServerStreamBuffer n) (seg : Fin n) (b' : ServerStreamBuffer n) :
    Prop where
  freeHead : b'.freeHead = b.freeHead
  standbyIndex : b'.standbyIndex = b.standbyIndex
  data : ∀ x, (b'.segments x).data = (b.segments x).data
  next_prev : ∀ z, b.prev seg = some z → z ≠ seg → b'.next z = b.next seg
  prev_next : ∀ z, b.next seg = some z → z ≠ seg → b'.prev z = b.prev seg
  next_of_ne : ∀ x, x ≠ seg → b.prev seg ≠ some x → b'.next x = b.next x
  prev_of_ne : ∀ x, x ≠ seg → b.next seg ≠ some x → b'.prev x = b.prev x

theorem Unlinked.resetLinks (h : Unlinked b seg b') : Unlinked b seg (b'.resetLinks seg) where
  freeHead := h.freeHead
  standbyIndex := h.standbyIndex
  data x := data_resetLinks.trans (h.data x)
  next_prev z hz hne := by
    rw [next_resetLinks, Function.update_of_ne hne, h.next_prev z hz hne]
  prev_next z hz hne := by
    rw [prev_resetLinks, Function.update_of_ne hne, h.prev_next z hz hne]
  next_of_ne x hx hp := by
    rw [next_resetLinks, Function.update_of_ne hx, h.next_of_ne x hx hp]
  prev_of_ne x hx hn := by
    rw [prev_resetLinks, Function.update_of_ne hx, h.prev_of_ne x hx hn]

theorem exists_unlinked_self (hnext : b.next seg = some seg) (hprev : b.prev seg = some seg) :
    ∃ b', b.unlink seg = some b' ∧ Unlinked b seg b' ∧ b'.standbyHead = none := by
  refine ⟨{ b with standbyHead := none }, ?_, ?_, rfl⟩
  · rw [unlink, hnext, Option.bind_some, if_pos rfl]
  · refine ⟨rfl, rfl, fun _ => rfl, fun z hz hne => ?_, fun z hz hne => ?_, fun _ _ _ => rfl,
      fun _ _ _ => rfl⟩
    · exact absurd (Option.some.inj (hprev.symm.trans hz)).symm hne
    · exact absurd (Option.some.inj (hnext.symm.trans hz)).symm hne

theorem exists_unlinked_of_ne {next prev : Fin n} (hnext : b.next seg = some next)
    (hprev : b.prev seg = some prev) (hne : next ≠ seg) :
    ∃ b', b.unlink seg = some b' ∧ Unlinked b seg b' ∧
      b'.standbyHead = if b.standbyHead = some seg then some next else b.standbyHead := by
  refine ⟨{ (b.setNext prev (some next)).setPrev next (some prev) with
      standbyHead := if b.standbyHead = some seg then some next else b.standbyHead }, ?_, ?_, rfl⟩
  · rw [unlink, hnext, Option.bind_some, if_neg hne, hprev, Option.map_some]
  · have hnext' : ((b.setNext prev (some next)).setPrev next (some prev)).next =
        Function.update b.next prev (some next) := by simp
    have hprev' : ((b.setNext prev (some next)).setPrev next (some prev)).prev =
        Function.update b.prev next (some prev) := by simp
    refine ⟨rfl, rfl, fun x => ?_, fun z hz hne => ?_, fun z hz hne => ?_, fun x hx hxp => ?_,
      fun x hx hxn => ?_⟩
    · exact data_setPrev.trans data_setNext
    · obtain rfl := Option.some.inj (hprev.symm.trans hz)
      exact (congrFun hnext' prev).trans ((Function.update_self ..).trans hnext.symm)
    · obtain rfl := Option.some.inj (hnext.symm.trans hz)
      exact (congrFun hprev' next).trans ((Function.update_self ..).trans hprev.symm)
    · refine (congrFun hnext' x).trans (Function.update_of_ne ?_ ..)
      rintro rfl
      exact hxp hprev
    · refine (congrFun hprev' x).trans (Function.update_of_ne ?_ ..)
      rintro rfl
      exact hxn hnext

theorem exists_unlinked {front back : List (Fin n)}
    (h : Ring b.next b.prev b.standbyHead (front ++ seg :: back)) :
    ∃ b', b.unlink seg = some b' ∧ Unlinked b seg b' ∧
      b'.standbyHead = (front ++ back).head? := by
  have hnext := h.next_eq
  have hprev := h.prev_eq
  obtain ⟨next, hn⟩ : ∃ next, (back ++ front ++ [seg]).head? = some next :=
    Option.isSome_iff_exists.mp (by simp)
  obtain ⟨prev, hp⟩ : ∃ prev, (seg :: (back ++ front)).getLast? = some prev :=
    Option.isSome_iff_exists.mp (by simp)
  rw [hn] at hnext
  rw [hp] at hprev
  have hnot : seg ∉ back ++ front := by
    have hnodup := List.perm_middle.nodup h.nodup
    intro hs
    exact (List.nodup_cons.mp hnodup).1 (List.mem_append.mpr (List.mem_append.mp hs).symm)
  by_cases hself : next = seg
  · subst hself
    have hnil : back ++ front = [] := by
      cases hc : back ++ front with
      | nil => rfl
      | cons c t =>
        rw [hc] at hn hnot
        obtain rfl : c = next := Option.some.inj hn
        exact absurd List.mem_cons_self hnot
    obtain ⟨rfl, rfl⟩ := List.append_eq_nil_iff.mp hnil
    obtain rfl : next = prev := Option.some.inj hp
    exact exists_unlinked_self hnext hprev
  · obtain ⟨b', hb, hu, hb'⟩ := exists_unlinked_of_ne hnext hprev hself
    refine ⟨b', hb, hu, hb'.trans ?_⟩
    have hhead := h.head_eq
    cases front with
    | nil =>
      rw [List.append_nil] at hn
      have hback : back.head? = some next := by
        cases back with
        | nil => exact absurd (Option.some.inj hn).symm hself
        | cons c t => exact hn
      exact (if_pos hhead).trans hback.symm
    | cons c front =>
      have hne : c ≠ seg := by
        rintro rfl
        exact hnot (List.mem_append_right _ List.mem_cons_self)
      have hhead' : b.standbyHead = some c := hhead
      refine (if_neg ?_).trans hhead'
      rw [hhead']
      exact fun he => hne (Option.some.inj he)

theorem exists_dequeued {front back : List (Fin n)}
    (h : Ring b.next b.prev b.standbyHead (front ++ seg :: back)) :
    ∃ b', b.dequeueFromStandbyList seg = some b' ∧ Unlinked b seg b' ∧
      b'.standbyHead = (front ++ back).head? ∧ b'.next seg = none ∧ b'.prev seg = none := by
  obtain ⟨b', hb, hu, hhead⟩ := exists_unlinked h
  refine ⟨b'.resetLinks seg, ?_, hu.resetLinks, hhead, ?_, ?_⟩
  · rw [dequeueFromStandbyList, hb, Option.map_some]
  · rw [next_resetLinks, Function.update_self]
  · rw [prev_resetLinks, Function.update_self]

structure Enqueued (b : ServerStreamBuffer n) (standby : List (Fin n)) (seg : Fin n)
    (b' : ServerStreamBuffer n) (standby' : List (Fin n)) : Prop where
  perm : standby'.Perm (seg :: standby)
  ring : Ring b'.next b'.prev b'.standbyHead standby'
  freeHead : b'.freeHead = b.freeHead
  standbyIndex : b'.standbyIndex = b.standbyIndex
  next : ∀ x ∉ seg :: standby, b'.next x = b.next x
  prev : ∀ x ∉ seg :: standby, b'.prev x = b.prev x
  data : ∀ x, x ≠ seg → (b'.segments x).data = (b.segments x).data
  inUse : (b'.segments seg).flags.inUse = (b.segments seg).flags.inUse
  stream : (b'.segments seg).stream = (b.segments seg).stream
  sequenceNumber : (b'.segments seg).sequenceNumber = (b.segments seg).sequenceNumber
  control : (b'.segments seg).control = (b.segments seg).control

theorem Enqueued.of_data {standby' : List (Fin n)} (hperm : standby'.Perm (seg :: standby))
    (hring : Ring b'.next b'.prev b'.standbyHead standby') (hfree : b'.freeHead = b.freeHead)
    (hindex : b'.standbyIndex = b.standbyIndex)
    (hnext : ∀ x ∉ seg :: standby, b'.next x = b.next x)
    (hprev : ∀ x ∉ seg :: standby, b'.prev x = b.prev x)
    (hdata : ∀ x, (b'.segments x).data = (b.segments x).data) :
    Enqueued b standby seg b' standby' := by
  obtain ⟨hflags, hstream, hnumber, hcontrol⟩ : _ ∧ _ ∧ _ ∧ _ := by
    simpa only [Segment.data, Prod.mk.injEq] using hdata seg
  exact ⟨hperm, hring, hfree, hindex, hnext, hprev, fun x _ => hdata x,
    congrArg SegmentFlags.inUse hflags, hstream, hnumber, hcontrol⟩

theorem Enqueued.promote {rest : List (Fin n)}
    (h : Enqueued b standby seg b' (rest ++ [seg])) :
    ∃ standby', Enqueued b standby seg (b'.promote seg) standby' := by
  have hnext : (b'.clearPrefetch seg).next = b'.next := next_modify rfl
  have hprev : (b'.clearPrefetch seg).prev = b'.prev := prev_modify rfl
  have hself := segments_modify_self (b := b') (x := seg)
    (f := fun s => { s with flags := { s.flags with prefetch := false } })
  by_cases hp : (b'.segments seg).flags.lowPriority = false ∨ (b'.segments seg).flags.prefetch
  · rw [ServerStreamBuffer.promote, if_pos hp]
    refine ⟨seg :: rest, ⟨(List.perm_append_singleton seg rest).symm.trans h.perm, ?_, h.freeHead,
      h.standbyIndex, ?_, ?_, ?_, ?_, ?_, ?_, ?_⟩⟩
    · exact h.ring.rotate_head.congr (fun x _ => congrFun hnext x) fun x _ => congrFun hprev x
    · exact fun x hx => (congrFun hnext x).trans (h.next x hx)
    · exact fun x hx => (congrFun hprev x).trans (h.prev x hx)
    · exact fun x hx => (congrArg Segment.data (Function.update_of_ne hx ..)).trans (h.data x hx)
    · exact (congrArg (fun s => s.flags.inUse) hself).trans h.inUse
    · exact (congrArg Segment.stream hself).trans h.stream
    · exact (congrArg Segment.sequenceNumber hself).trans h.sequenceNumber
    · exact (congrArg Segment.control hself).trans h.control
  · rw [ServerStreamBuffer.promote, if_neg hp]
    exact ⟨_, h⟩

theorem next_linkBetween {last head : Fin n} : (b.linkBetween seg last head).next =
    Function.update (Function.update b.next seg (some head)) last (some seg) := by
  simp [linkBetween]

theorem prev_linkBetween {last head : Fin n} : (b.linkBetween seg last head).prev =
    Function.update (Function.update b.prev seg (some last)) head (some seg) := by
  simp [linkBetween]

theorem data_linkBetween {last head x : Fin n} :
    ((b.linkBetween seg last head).segments x).data = (b.segments x).data := by
  simp [linkBetween]

theorem exists_enqueued (h : Ring b.next b.prev b.standbyHead standby) (hs : seg ∉ standby) :
    ∃ b' standby', b.enqueueToStandbyList seg = some b' ∧ Enqueued b standby seg b' standby' := by
  cases hhead : b.standbyHead with
  | none =>
    rw [hhead] at h
    obtain rfl := Ring.nil_iff.mp h
    refine ⟨_, [seg], by rw [enqueueToStandbyList, hhead], ?_⟩
    have hnext : ((b.setNext seg (some seg)).setPrev seg (some seg)).next =
        Function.update b.next seg (some seg) := by simp
    have hprev : ((b.setNext seg (some seg)).setPrev seg (some seg)).prev =
        Function.update b.prev seg (some seg) := by simp
    refine Enqueued.of_data (List.Perm.refl _) (Ring.singleton ?_ ?_) rfl rfl (fun x hx => ?_)
      (fun x hx => ?_) fun x => data_setPrev.trans data_setNext
    · exact (congrFun hnext seg).trans (Function.update_self ..)
    · exact (congrFun hprev seg).trans (Function.update_self ..)
    · exact (congrFun hnext x).trans (Function.update_of_ne (List.ne_of_not_mem_cons hx) ..)
    · exact (congrFun hprev x).trans (Function.update_of_ne (List.ne_of_not_mem_cons hx) ..)
  | some head =>
    rw [hhead] at h
    obtain ⟨rest, rfl⟩ := h.head_cases
    obtain ⟨last, hlast⟩ : ∃ last, b.prev head = some last := by
      rw [h.prev_head]
      exact Option.isSome_iff_exists.mp (by simp)
    have hmem := h.mem_of_prev_head hlast
    have hne : seg ≠ last := fun he => hs (he ▸ hmem)
    have hne' : seg ≠ head := fun he => hs (he ▸ List.mem_cons_self)
    have hb : Enqueued b (head :: rest) seg (b.linkBetween seg last head)
        (head :: rest ++ [seg]) := by
      refine Enqueued.of_data (List.perm_append_singleton _ _) ?_ rfl rfl (fun x hx => ?_)
        (fun x hx => ?_) fun x => data_linkBetween
      · have hhead' : (b.linkBetween seg last head).standbyHead = some head := hhead
        rw [hhead', next_linkBetween, prev_linkBetween]
        refine h.insert hs hlast ?_ ?_ ?_ ?_ (fun c hc hl => ?_) fun c hc hl => ?_
        · rw [Function.update_of_ne hne, Function.update_self]
        · rw [Function.update_of_ne hne', Function.update_self]
        · rw [Function.update_self]
        · rw [Function.update_self]
        · rw [Function.update_of_ne hl, Function.update_of_ne hc]
        · rw [Function.update_of_ne hl, Function.update_of_ne hc]
      · rw [next_linkBetween, Function.update_of_ne, Function.update_of_ne]
        · exact List.ne_of_not_mem_cons hx
        · rintro rfl
          exact hx (List.mem_cons_of_mem _ hmem)
      · rw [prev_linkBetween, Function.update_of_ne, Function.update_of_ne]
        · exact List.ne_of_not_mem_cons hx
        · rintro rfl
          exact hx (List.mem_cons_of_mem _ List.mem_cons_self)
    obtain ⟨standby', hp⟩ := hb.promote
    refine ⟨_, standby', ?_, hp⟩
    rw [enqueueToStandbyList, hhead]
    dsimp only
    rw [hlast, Option.map_some]

end ServerStreamBuffer

/-- The free list and the standby list take up all segments but the owned ones, and the standby
index holds the segments of the standby list under their own links. -/
structure Arranged (b : ServerStreamBuffer n) (free standby owned : List (Fin n)) : Prop where
  parts : (free ++ standby ++ owned).Perm (List.finRange n)
  chain : Chain b.next b.freeHead free
  ring : Ring b.next b.prev b.standbyHead standby
  indexed : (b.standbyIndex.map Prod.snd).Perm standby
  linked : ∀ e ∈ b.standbyIndex, b.linkOf e.2 = some e.1
  unique : KeyedIndex.Unique LinkHash.key b.standbyIndex
  isFree : ∀ seg ∈ free, (b.segments seg).Free
  isCached : ∀ seg ∈ standby, (b.segments seg).Cached

namespace Arranged

theorem nodup (h : Arranged b free standby owned) : (free ++ standby ++ owned).Nodup :=
  h.parts.symm.nodup (List.nodup_finRange n)

theorem ne_of_mem_free (h : Arranged b free standby owned) (hs : seg ∈ owned) {x : Fin n}
    (hx : x ∈ free) : x ≠ seg :=
  (List.nodup_append.mp h.nodup).2.2 x (List.mem_append_left _ hx) seg hs

theorem ne_of_mem_standby (h : Arranged b free standby owned) (hs : seg ∈ owned) {x : Fin n}
    (hx : x ∈ standby) : x ≠ seg :=
  (List.nodup_append.mp h.nodup).2.2 x (List.mem_append_right _ hx) seg hs

theorem mem_standby (h : Arranged b free standby owned) {e : StoreStreamSegmentLink × Fin n}
    (he : e ∈ b.standbyIndex) : e.2 ∈ standby :=
  h.indexed.mem_iff.mp (List.mem_map_of_mem he)

theorem perm {owned' : List (Fin n)} (h : Arranged b free standby owned)
    (hp : owned.Perm owned') : Arranged b free standby owned' :=
  { h with parts := (hp.symm.append_left _).trans h.parts }

/-- A version of the buffer that has the same lists and agrees on their segments. -/
theorem congr (h : Arranged b free standby owned) (hfree : b'.freeHead = b.freeHead)
    (hhead : b'.standbyHead = b.standbyHead) (hindex : b'.standbyIndex = b.standbyIndex)
    (hs : ∀ x ∈ free ++ standby, b'.segments x = b.segments x) :
    Arranged b' free standby owned := by
  have hf : ∀ x ∈ free, b'.segments x = b.segments x := fun x hx =>
    hs x (List.mem_append_left _ hx)
  have hc : ∀ x ∈ standby, b'.segments x = b.segments x := fun x hx =>
    hs x (List.mem_append_right _ hx)
  refine ⟨h.parts, ?_, ?_, ?_, ?_, ?_, ?_, ?_⟩
  · rw [hfree]
    exact h.chain.congr fun x hx => congrArg Segment.next (hf x hx)
  · rw [hhead]
    exact h.ring.congr (fun x hx => congrArg Segment.next (hc x hx))
      fun x hx => congrArg Segment.prev (hc x hx)
  · rw [hindex]
    exact h.indexed
  · rw [hindex]
    intro e he
    rw [← h.linked e he, ServerStreamBuffer.linkOf, hc e.2 (h.mem_standby he)]
    rfl
  · rw [hindex]
    exact h.unique
  · intro x hx
    rw [hf x hx]
    exact h.isFree x hx
  · intro x hx
    rw [hc x hx]
    exact h.isCached x hx

theorem modify (h : Arranged b free standby owned) (hs : seg ∈ owned)
    (f : Segment n → Segment n) : Arranged (b.modify seg f) free standby owned := by
  refine h.congr rfl rfl rfl fun x hx => ServerStreamBuffer.segments_modify_of_ne ?_
  rcases List.mem_append.mp hx with hx | hx
  · exact h.ne_of_mem_free hs hx
  · exact h.ne_of_mem_standby hs hx

theorem pop (h : Arranged b (seg :: free) standby owned) :
    Arranged { b with freeHead := b.next seg } free standby (seg :: owned) where
  parts := List.perm_middle.trans h.parts
  chain := h.chain.2
  ring := h.ring
  indexed := h.indexed
  linked := h.linked
  unique := h.unique
  isFree x hx := h.isFree x (List.mem_cons_of_mem _ hx)
  isCached := h.isCached

theorem push (h : Arranged b free standby (seg :: owned)) (hf : (b.segments seg).Free)
    (hn : b.next seg = b.freeHead) :
    Arranged { b with freeHead := some seg } (seg :: free) standby owned where
  parts := List.perm_middle.symm.trans h.parts
  chain := ⟨rfl, hn ▸ h.chain⟩
  ring := h.ring
  indexed := h.indexed
  linked := h.linked
  unique := h.unique
  isFree := by
    intro x hx
    rcases List.mem_cons.mp hx with rfl | hx
    · exact hf
    · exact h.isFree x hx
  isCached := h.isCached

/-- A segment of the standby list is taken out of the list and of the index. -/
theorem dequeueFromStandbyList {front back : List (Fin n)} {link : StoreStreamSegmentLink}
    (h : Arranged b free (front ++ seg :: back) owned) (hlink : b.linkOf seg = some link) :
    ∃ b', (b.eraseStandbySegment link).dequeueFromStandbyList seg = some b' ∧
      Arranged b' free (front ++ back) (seg :: owned) ∧ (b'.segments seg).Owned ∧
      ∀ x ∈ owned, b'.next x = b.next x ∧ b'.prev x = b.prev x ∧
        (b'.segments x).data = (b.segments x).data := by
  have hseg : seg ∈ front ++ seg :: back := by simp
  obtain ⟨b', hb, hu, hhead, hnext, hprev⟩ :=
    ServerStreamBuffer.exists_dequeued (b := b.eraseStandbySegment link) h.ring
  have hother : ∀ x, x ∉ front ++ seg :: back → b'.next x = b.next x ∧ b'.prev x = b.prev x := by
    intro x hx
    have hne : x ≠ seg := fun he => hx (he ▸ hseg)
    exact ⟨hu.next_of_ne x hne fun hz => hx (h.ring.mem_of_prev hz),
      hu.prev_of_ne x hne fun hz => hx (h.ring.mem_of_next hz)⟩
  have hfree : ∀ x ∈ free, x ∉ front ++ seg :: back := fun x hx hs =>
    (List.nodup_append.mp (List.nodup_append.mp h.nodup).1).2.2 x hx x hs rfl
  have howned : ∀ x ∈ owned, x ∉ front ++ seg :: back := fun x hx hs =>
    h.ne_of_mem_standby hx hs rfl
  have hentry : (link, seg) ∈ b.standbyIndex := by
    obtain ⟨⟨link', x⟩, he, rfl⟩ := List.mem_map.mp (h.indexed.mem_iff.mpr hseg)
    obtain rfl := Option.some.inj ((h.linked _ he).symm.trans hlink)
    exact he
  have hindex : b'.standbyIndex = KeyedIndex.erase LinkHash.key b.standbyIndex link :=
    hu.standbyIndex
  refine ⟨b', hb, ⟨?_, ?_, ?_, ?_, ?_, ?_, ?_, ?_⟩, ?_, ?_⟩
  · refine List.Perm.trans ?_ h.parts
    rw [List.perm_iff_count]
    intro x
    simp only [List.count_append, List.count_cons]
    omega
  · rw [hu.freeHead]
    exact h.chain.congr fun x hx => (hother x (hfree x hx)).1
  · rw [hhead]
    exact h.ring.remove hu.next_prev hu.prev_next hu.next_of_ne hu.prev_of_ne
  · rw [hindex]
    have hperm := (KeyedIndex.perm_erase h.unique hentry rfl).map Prod.snd
    exact List.Perm.cons_inv ((hperm.symm.trans h.indexed).trans List.perm_middle)
  · rw [hindex]
    intro e he
    rw [ServerStreamBuffer.linkOf_congr (hu.data e.2)]
    exact h.linked e (KeyedIndex.mem_of_mem_erase he)
  · rw [hindex]
    exact h.unique.erase link
  · intro x hx
    exact (h.isFree x hx).congr (hu.data x) (hother x (hfree x hx)).2
  · intro x hx
    refine (h.isCached x ?_).congr (hu.data x)
    rcases List.mem_append.mp hx with hx | hx
    · exact List.mem_append_left _ hx
    · exact List.mem_append_right _ (List.mem_cons_of_mem _ hx)
  · exact (h.isCached seg hseg).detach (hu.data seg) hnext hprev
  · intro x hx
    exact ⟨(hother x (howned x hx)).1, (hother x (howned x hx)).2, hu.data x⟩

theorem addStandbySegment {link : StoreStreamSegmentLink}
    (h : Arranged b free standby (seg :: owned)) (hc : (b.segments seg).Cached)
    (hlink : b.linkOf seg = some link) (hfind : b.findStandbySegment link = none) :
    ∃ b' standby', b.addStandbySegment seg = some b' ∧ Arranged b' free standby' owned ∧
      ∀ x ∈ owned, b'.next x = b.next x ∧ b'.prev x = b.prev x ∧
        (b'.segments x).data = (b.segments x).data := by
  have hseg : seg ∉ standby := fun hs => h.ne_of_mem_standby List.mem_cons_self hs rfl
  obtain ⟨b', standby', hb, he⟩ := ServerStreamBuffer.exists_enqueued
    (b := { b with standbyIndex := (link, seg) :: b.standbyIndex }) h.ring hseg
  have hfree : ∀ x ∈ free, x ∉ seg :: standby := by
    intro x hx hs
    rcases List.mem_cons.mp hs with rfl | hs
    · exact h.ne_of_mem_free List.mem_cons_self hx rfl
    · exact (List.nodup_append.mp (List.nodup_append.mp h.nodup).1).2.2 x hx x hs rfl
  have howned : ∀ x ∈ owned, x ∉ seg :: standby := by
    intro x hx hs
    rcases List.mem_cons.mp hs with rfl | hs
    · exact (List.nodup_cons.mp (List.nodup_append.mp h.nodup).2.1).1 hx
    · exact h.ne_of_mem_standby (List.mem_cons_of_mem _ hx) hs rfl
  have hdata : ∀ x ∉ seg :: standby, (b'.segments x).data = (b.segments x).data := fun x hx =>
    he.data x (List.ne_of_not_mem_cons hx)
  have hlinks : ∀ x, b'.linkOf x = b.linkOf x := by
    intro x
    by_cases hx : x = seg
    · subst hx
      rw [ServerStreamBuffer.linkOf, ServerStreamBuffer.linkOf, he.stream, he.control]
    · exact ServerStreamBuffer.linkOf_congr (he.data x hx)
  refine ⟨b', standby', ?_, ⟨?_, ?_, he.ring, ?_, ?_, ?_, ?_, ?_⟩, ?_⟩
  · rw [ServerStreamBuffer.addStandbySegment, hlink, Option.bind_some, hfind]
    exact hb
  · refine List.Perm.trans ?_ h.parts
    have hperm := (he.perm.append_left free).append_right owned
    refine hperm.trans ?_
    rw [List.perm_iff_count]
    intro x
    simp only [List.count_append, List.count_cons]
    omega
  · rw [he.freeHead]
    exact h.chain.congr fun x hx => he.next x (hfree x hx)
  · rw [he.standbyIndex]
    exact (h.indexed.cons seg).trans he.perm.symm
  · rw [he.standbyIndex]
    intro e hmem
    rw [hlinks]
    rcases List.mem_cons.mp hmem with rfl | hmem
    · exact hlink
    · exact h.linked e hmem
  · rw [he.standbyIndex]
    exact h.unique.cons hfind seg
  · intro x hx
    exact (h.isFree x hx).congr (hdata x (hfree x hx)) (he.prev x (hfree x hx))
  · intro x hx
    rcases List.mem_cons.mp (he.perm.mem_iff.mp hx) with rfl | hx'
    · refine ⟨he.inUse.trans hc.inUse, he.stream ▸ hc.stream, fun stream hs => ?_⟩
      rw [he.control, he.sequenceNumber]
      exact hc.named stream (he.stream.symm.trans hs)
    · exact (h.isCached x hx').congr (he.data x fun heq => hseg (heq ▸ hx'))
  · intro x hx
    exact ⟨he.next x (howned x hx), he.prev x (howned x hx), hdata x (howned x hx)⟩

end Arranged

end Simutrace.Buffer
