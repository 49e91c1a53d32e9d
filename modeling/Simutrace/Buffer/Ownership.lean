import Simutrace.Buffer.Arrangement

/-! # Ownership of buffer segments

A segment is free, cached, or owned by the one it was handed out to. Every
operation moves segments between these parts.
-/

namespace Simutrace.Buffer

open LinkedList

variable {n : ℕ} {b b' : ServerStreamBuffer n} {free standby owned : List (Fin n)} {seg : Fin n}

/-- Every segment is on the free list, on the standby list, or in use by one owner. -/
structure Parts (b : ServerStreamBuffer n) (free standby owned : List (Fin n)) : Prop
    extends Arranged b free standby owned where
  isOwned : ∀ seg ∈ owned, (b.segments seg).Owned

namespace Parts

theorem erase (h : Parts b free standby owned) (hs : seg ∈ owned) :
    Parts b free standby (seg :: owned.erase seg) :=
  ⟨h.perm (List.perm_cons_erase hs), fun x hx =>
    h.isOwned x ((List.perm_cons_erase hs).mem_iff.mpr hx)⟩

theorem not_mem_owned (h : Arranged b free standby (seg :: owned)) : seg ∉ owned :=
  (List.nodup_cons.mp (List.nodup_append.mp h.nodup).2.1).1

theorem own (h : Arranged b free standby (seg :: owned)) (hs : (b.segments seg).Owned)
    (ho : ∀ x ∈ owned, (b.segments x).Owned) : Parts b free standby (seg :: owned) := by
  refine ⟨h, fun x hx => ?_⟩
  rcases List.mem_cons.mp hx with rfl | hx
  · exact hs
  · exact ho x hx

theorem modify {f : Segment n → Segment n} (h : Parts b free standby (seg :: owned))
    (hf : (f (b.segments seg)).Owned) : Parts (b.modify seg f) free standby (seg :: owned) := by
  refine own (h.toArranged.modify List.mem_cons_self f) ?_ fun x hx => ?_
  · rw [ServerStreamBuffer.segments_modify_self]
    exact hf
  · rw [ServerStreamBuffer.segments_modify_of_ne
      (ne_of_mem_of_not_mem hx (not_mem_owned h.toArranged))]
    exact h.isOwned x (List.mem_cons_of_mem _ hx)

theorem purgeUnchecked (h : Parts b free standby (seg :: owned)) :
    Parts (b.purgeUnchecked seg) (seg :: free) standby owned := by
  refine ⟨(h.toArranged.modify List.mem_cons_self _).push ?_ ?_, fun x hx => ?_⟩
  · rw [ServerStreamBuffer.segments_modify_self]
    exact ⟨rfl, (h.isOwned seg List.mem_cons_self).prev, rfl⟩
  · rw [ServerStreamBuffer.next, ServerStreamBuffer.segments_modify_self]
    rfl
  · have hne : x ≠ seg := ne_of_mem_of_not_mem hx (not_mem_owned h.toArranged)
    rw [ServerStreamBuffer.segments_purgeUnchecked hne]
    exact h.isOwned x (List.mem_cons_of_mem _ hx)

theorem dequeueFromFreeList (h : Parts b (seg :: free) standby owned) :
    ∃ b', b.dequeueFromFreeList = (some seg, b') ∧ Parts b' free standby (seg :: owned) ∧
      (b'.segments seg).flags = .used := by
  have hhead : b.freeHead = some seg := h.chain.1
  refine ⟨_, by rw [ServerStreamBuffer.dequeueFromFreeList, hhead], ?_,
    congrArg Segment.flags ServerStreamBuffer.segments_modify_self⟩
  have hpop := h.toArranged.pop
  have hfree := h.isFree seg List.mem_cons_self
  refine own (hpop.modify List.mem_cons_self _) ?_ fun x hx => ?_
  · rw [ServerStreamBuffer.segments_modify_self]
    refine ⟨rfl, rfl, hfree.prev, (fun hc => by cases hc), fun stream hs => ?_⟩
    cases hfree.stream.symm.trans hs
  · rw [ServerStreamBuffer.segments_modify_of_ne (ne_of_mem_of_not_mem hx (not_mem_owned hpop))]
    exact h.isOwned x hx

theorem exists_linkOf (h : Arranged b free standby owned) (hs : seg ∈ standby) :
    ∃ link, b.linkOf seg = some link := by
  obtain ⟨⟨link, x⟩, he, rfl⟩ := List.mem_map.mp (h.indexed.mem_iff.mpr hs)
  exact ⟨link, h.linked _ he⟩

theorem dequeueFromStandbyList {front back : List (Fin n)} {link : StoreStreamSegmentLink}
    (h : Parts b free (front ++ seg :: back) owned) (hlink : b.linkOf seg = some link) :
    ∃ b', (b.eraseStandbySegment link).dequeueFromStandbyList seg = some b' ∧
      Parts b' free (front ++ back) (seg :: owned) := by
  obtain ⟨b', hb, ha, hseg, hsame⟩ := h.toArranged.dequeueFromStandbyList hlink
  refine ⟨b', hb, own ha hseg fun x hx => ?_⟩
  obtain ⟨hn, hp, hd⟩ := hsame x hx
  exact (h.isOwned x hx).congr hd hn hp

theorem addStandbySegment (h : Parts b free standby (seg :: owned))
    (hs : (b.segments seg).stream.isSome) :
    ∃ b' free' standby', b.addStandbySegment seg = some b' ∧ Parts b' free' standby' owned := by
  have ho := h.isOwned seg List.mem_cons_self
  obtain ⟨stream, hstream⟩ := Option.isSome_iff_exists.mp hs
  have hlink : b.linkOf seg = some ⟨stream.store, (b.segments seg).control.link⟩ := by
    rw [ServerStreamBuffer.linkOf, hstream, Option.map_some]
  cases hfind : b.findStandbySegment ⟨stream.store, (b.segments seg).control.link⟩ with
  | some other =>
    refine ⟨_, _, _, ?_, h.purgeUnchecked⟩
    rw [ServerStreamBuffer.addStandbySegment, hlink, Option.bind_some, hfind]
  | none =>
    obtain ⟨b', standby', hb, ha, hsame⟩ :=
      h.toArranged.addStandbySegment ⟨ho.inUse, hs, ho.named⟩ hlink hfind
    refine ⟨b', free, standby', hb, ha, fun x hx => ?_⟩
    obtain ⟨hn, hp, hd⟩ := hsame x hx
    exact (h.isOwned x (List.mem_cons_of_mem _ hx)).congr hd hn hp

theorem freeUnchecked (h : Parts b free standby (seg :: owned)) (prefetch : Bool) :
    ∃ b' free' standby', b.freeUnchecked seg prefetch = some b' ∧
      Parts b' free' standby' owned := by
  have ho := h.isOwned seg List.mem_cons_self
  rw [ServerStreamBuffer.freeUnchecked]
  split
  · rename_i hc
    refine addStandbySegment (h.modify ?_) ?_
    · exact ⟨ho.inUse, ho.next, ho.prev, ho.cacheable, ho.named⟩
    · rw [ServerStreamBuffer.segments_modify_self]
      exact ho.cacheable hc.1
  · refine ⟨_, _, _, rfl, (h.modify ?_).purgeUnchecked⟩
    exact ⟨ho.inUse, ho.next, ho.prev, ho.cacheable, ho.named⟩

theorem evictFromStandbyList (h : Parts b free standby owned) :
    b.evictFromStandbyList = some (none, b) ∨
      ∃ seg b' standby', b.evictFromStandbyList = some (some seg, b') ∧
        Parts b' free standby' (seg :: owned) ∧ (b'.segments seg).flags = .used := by
  rw [ServerStreamBuffer.evictFromStandbyList]
  cases hhead : b.standbyHead with
  | none => exact Or.inl rfl
  | some head =>
    have hring := h.ring
    rw [hhead] at hring
    obtain ⟨rest, rfl⟩ := hring.head_cases
    obtain ⟨seg, hseg⟩ : ∃ seg, b.prev head = some seg := by
      rw [hring.prev_head]
      exact Option.isSome_iff_exists.mp (by simp)
    have hmem := hring.mem_of_prev_head hseg
    obtain ⟨link, hlink⟩ := exists_linkOf h.toArranged hmem
    obtain ⟨front, back, hsplit⟩ := List.append_of_mem hmem
    rw [hsplit] at h
    obtain ⟨b', hb, hp⟩ := h.dequeueFromStandbyList hlink
    have ho := hp.isOwned seg List.mem_cons_self
    refine Or.inr ⟨seg, _, _, ?_, hp.modify (f := fun s => { s with flags := .used }) ?_,
      congrArg Segment.flags ServerStreamBuffer.segments_modify_self⟩
    · dsimp only
      rw [hseg, Option.bind_some, hlink, Option.bind_some, hb, Option.map_some]
    · exact ⟨rfl, ho.next, ho.prev, (fun hc => by cases hc), ho.named⟩

theorem removeStandbySegment (h : Parts b free standby owned) (link : StoreStreamSegmentLink) :
    b.removeStandbySegment link = some (none, b) ∨
      ∃ seg b' standby', b.removeStandbySegment link = some (some seg, b') ∧
        Parts b' free standby' (seg :: owned) := by
  rw [ServerStreamBuffer.removeStandbySegment]
  cases hfind : b.findStandbySegment link with
  | none => exact Or.inl rfl
  | some seg =>
    obtain ⟨link', he, hkey⟩ := KeyedIndex.exists_of_find hfind
    obtain ⟨front, back, rfl⟩ := List.append_of_mem (h.mem_standby he)
    have herase : b.eraseStandbySegment link = b.eraseStandbySegment link' := by
      rw [ServerStreamBuffer.eraseStandbySegment, ServerStreamBuffer.eraseStandbySegment,
        KeyedIndex.erase, KeyedIndex.erase, hkey]
    obtain ⟨b', hb, hp⟩ := h.dequeueFromStandbyList (h.linked _ he)
    refine Or.inr ⟨seg, b', _, ?_, hp⟩
    dsimp only
    rw [herase, hb, Option.map_some]

theorem prepareSegment (h : Parts b free standby (seg :: owned)) (stream : Option ServerStream)
    (sequenceNumber : StreamSegmentId) (hs : (b.segments seg).flags = .used) :
    Parts (b.prepareSegment seg stream sequenceNumber) free standby (seg :: owned) := by
  have ho := h.isOwned seg List.mem_cons_self
  refine h.modify ⟨ho.inUse, ho.next, ho.prev, fun hc => ?_, fun s hstream => ?_⟩
  · dsimp only at hc
    rw [hs] at hc
    cases hc
  · obtain rfl : stream = some s := hstream
    rfl

theorem tryAllocateFreeSegment (h : Parts b free standby owned) (stream : Option ServerStream)
    (sequenceNumber : StreamSegmentId) :
    b.tryAllocateFreeSegment stream sequenceNumber = some (none, b) ∨
      ∃ seg b' free' standby',
        b.tryAllocateFreeSegment stream sequenceNumber = some (some seg, b') ∧
        Parts b' free' standby' (seg :: owned) ∧ (b'.segments seg).stream = stream := by
  rw [ServerStreamBuffer.tryAllocateFreeSegment]
  cases free with
  | nil =>
    have hfree : b.dequeueFromFreeList = (none, b) := by
      rw [ServerStreamBuffer.dequeueFromFreeList, show b.freeHead = none from h.chain]
    rw [hfree]
    dsimp only
    rcases h.evictFromStandbyList with he | ⟨seg, b', standby', he, hp, hflags⟩
    · rw [he]
      exact Or.inl rfl
    · rw [he]
      refine Or.inr ⟨seg, _, _, _, rfl, hp.prepareSegment stream sequenceNumber hflags, ?_⟩
      rw [ServerStreamBuffer.prepareSegment, ServerStreamBuffer.segments_modify_self]
  | cons seg free =>
    obtain ⟨b', hb, hp, hflags⟩ := h.dequeueFromFreeList
    rw [hb]
    refine Or.inr ⟨seg, _, _, _, rfl, hp.prepareSegment stream sequenceNumber hflags, ?_⟩
    rw [ServerStreamBuffer.prepareSegment, ServerStreamBuffer.segments_modify_self]

theorem setupSegment (h : Parts b free standby (seg :: owned)) {stream : Option ServerStream}
    (flags : StreamAccessFlags) {location : Option StorageLocation}
    (hs : (b.segments seg).stream = stream) (hl : location.isSome → stream.isSome) :
    Parts (b.setupSegment seg stream flags location) free standby (seg :: owned) := by
  have ho := h.isOwned seg List.mem_cons_self
  apply h.modify
  cases location with
  | some location => exact ⟨ho.inUse, ho.next, ho.prev, fun _ => hs ▸ hl rfl, ho.named⟩
  | none =>
    cases stream with
    | none => exact ⟨ho.inUse, ho.next, ho.prev, ho.cacheable, ho.named⟩
    | some stream =>
      exact ⟨ho.inUse, ho.next, ho.prev, fun _ => congrArg Option.isSome hs, ho.named⟩

def Requested (owned : List (Fin n)) : Request n × ServerStreamBuffer n → Prop
  | (.exhausted, b) => ∃ free standby, Parts b free standby owned
  | (.served seg, b) | (.allocated seg, b) => ∃ free standby, Parts b free standby (seg :: owned)

theorem allocateUnchecked (h : Parts b free standby owned) (stream : Option ServerStream)
    (sequenceNumber : StreamSegmentId) (flags : StreamAccessFlags)
    (location : Option StorageLocation) (hl : location.isSome → stream.isSome) :
    ∃ r, b.allocateUnchecked stream sequenceNumber flags location = some r ∧
      Requested owned r := by
  rw [ServerStreamBuffer.allocateUnchecked]
  rcases h.tryAllocateFreeSegment stream sequenceNumber with
    ht | ⟨seg, b', free', standby', ht, hp, hs⟩
  · rw [ht]
    exact ⟨_, rfl, free, standby, h⟩
  · rw [ht]
    exact ⟨_, rfl, free', standby', hp.setupSegment flags hs hl⟩

theorem requestUnchecked (h : Parts b free standby owned) (stream : Option ServerStream)
    (sequenceNumber : StreamSegmentId) (flags : StreamAccessFlags)
    (location : Option StorageLocation) (hl : location.isSome → stream.isSome) :
    ∃ r, b.requestUnchecked stream sequenceNumber flags location = some r ∧
      Requested owned r := by
  cases stream with
  | none => exact h.allocateUnchecked _ sequenceNumber flags location hl
  | some stream =>
    rw [ServerStreamBuffer.requestUnchecked]
    rcases h.removeStandbySegment ⟨stream.store, ⟨stream.id, sequenceNumber⟩⟩ with
      hr | ⟨seg, b', standby', hr, hp⟩
    · rw [hr]
      exact h.allocateUnchecked _ sequenceNumber flags location hl
    · rw [hr]
      exact ⟨_, rfl, free, standby', hp⟩

theorem link_fixEntryCount {stream : ServerStream} {control : SegmentControlElement} :
    (ServerStreamBuffer.fixEntryCount stream control).link = control.link := by
  rw [ServerStreamBuffer.fixEntryCount]
  split
  · rfl
  · rfl

/-- The parts after a submission: a segment that was released has no owner any more. -/
def Submitted (seg : Fin n) (owned : List (Fin n)) : Submission × ServerStreamBuffer n → Prop
  | (.completed, b) => ∃ free standby, Parts b free standby owned
  | (_, b) => ∃ free standby, Parts b free standby (seg :: owned)

theorem submitUnchecked (h : Parts b free standby (seg :: owned)) (client : ClientSegment)
    (hs : (b.segments seg).stream.isSome) :
    ∃ r, b.submitUnchecked seg client = some r ∧ Submitted seg owned r := by
  have ho := h.isOwned seg List.mem_cons_self
  obtain ⟨stream, hstream⟩ := Option.isSome_iff_exists.mp hs
  have hmodify : ∀ control : SegmentControlElement, ∀ submitted,
      control.link = ⟨stream.id, (b.segments seg).sequenceNumber⟩ →
      Parts (b.modify seg fun s => { s with control := control, isSubmitted := submitted }) free
        standby (seg :: owned) := by
    intro control submitted hc
    refine h.modify ⟨ho.inUse, ho.next, ho.prev, ho.cacheable, fun s hs => ?_⟩
    obtain rfl := Option.some.inj (hstream.symm.trans hs)
    exact hc
  rw [ServerStreamBuffer.submitUnchecked, hstream, Option.bind_some]
  split
  · split
    · obtain ⟨b', free', standby', hb, hp⟩ := h.freeUnchecked false
      rw [hb]
      exact ⟨_, rfl, free', standby', hp⟩
    · exact ⟨_, rfl, free, standby, h⟩
  · dsimp only
    split
    · exact ⟨_, rfl, free, standby, hmodify _ _ rfl⟩
    · split
      · exact ⟨_, rfl, free, standby, hmodify _ _ rfl⟩
      · split
        · exact ⟨_, rfl, free, standby, hmodify _ _ link_fixEntryCount⟩
        · exact ⟨_, rfl, free, standby, hmodify _ _ link_fixEntryCount⟩

theorem flushSegment {front back : List (Fin n)} (h : Parts b free (front ++ seg :: back) owned)
    (store : StoreId) :
    ∃ b' free' front', b.flushSegment store seg = some b' ∧
      Parts b' free' (front' ++ back) owned := by
  have hmem : seg ∈ front ++ seg :: back := by simp
  obtain ⟨link, hlink⟩ := exists_linkOf h.toArranged hmem
  rw [ServerStreamBuffer.flushSegment, hlink, Option.bind_some]
  split
  · obtain ⟨b', hb, hp⟩ := h.dequeueFromStandbyList hlink
    rw [hb]
    exact ⟨_, _, front, rfl, hp.purgeUnchecked⟩
  · refine ⟨b, free, front ++ [seg], rfl, ?_⟩
    rwa [List.append_assoc]

/-- The loop visits the rest of the standby list once, which ends at the last segment. -/
theorem flushFrom {store : StoreId} {last : Fin n} {rounds : ℕ} {front back : List (Fin n)}
    (h : Parts b free (front ++ seg :: back) owned) (hlast : (seg :: back).getLast? = some last)
    (hr : back.length < rounds) :
    ∃ b' free' standby', ServerStreamBuffer.flushFrom rounds b store last seg = some b' ∧
      Parts b' free' standby' owned := by
  induction rounds generalizing b free front seg back with
  | zero => cases hr
  | succ rounds ih =>
    obtain ⟨b', free', front', hb, hp⟩ := h.flushSegment store
    rw [ServerStreamBuffer.flushFrom, hb, Option.bind_some]
    have hnodup := (List.nodup_append.mp h.ring.nodup).2.1
    cases back with
    | nil =>
      obtain rfl : seg = last := Option.some.inj hlast
      rw [if_pos rfl]
      exact ⟨b', free', _, rfl, hp⟩
    | cons next back =>
      have hne : seg ≠ last := by
        rintro rfl
        exact (List.nodup_cons.mp hnodup).1 (List.mem_of_getLast? hlast)
      have hnext : b.next seg = some next := h.ring.next_eq
      rw [if_neg hne, hnext, Option.bind_some]
      exact ih hp hlast (by simpa using hr)

theorem flushStandbyList (h : Parts b free standby owned) (store : StoreId) :
    ∃ b' free' standby', b.flushStandbyList store = some b' ∧ Parts b' free' standby' owned := by
  rw [ServerStreamBuffer.flushStandbyList]
  cases hhead : b.standbyHead with
  | none => exact ⟨b, free, standby, rfl, h⟩
  | some head =>
    have hring := h.ring
    rw [hhead] at hring
    obtain ⟨rest, rfl⟩ := hring.head_cases
    obtain ⟨last, hlast⟩ : ∃ last, (head :: rest).getLast? = some last :=
      Option.isSome_iff_exists.mp (by simp)
    dsimp only
    rw [hring.prev_head, hlast, Option.bind_some]
    refine @flushFrom _ _ _ _ _ _ _ _ [] _ h hlast ?_
    have hlength := h.parts.length_eq
    simp only [List.length_append, List.length_cons, List.length_finRange] at hlength
    omega

end Parts

end Simutrace.Buffer
