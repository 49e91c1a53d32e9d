import Simutrace.Buffer.Identity

/-! # Flushing the standby list

The loop walks the ring once, from the head to the segment that was the last one
at the beginning. It unlinks segments behind it only, so that the link it follows
next is still there. What it takes out goes to the free list, the other segments
stay in their order.
-/

namespace Simutrace.Buffer

variable {n : ℕ} {b b' b₁ : ServerStreamBuffer n} {free standby owned front back : List (Fin n)}
  {seg x : Fin n} {store : StoreId}

namespace ServerStreamBuffer

/-- A segment with data of the store. The invalid id stands for all stores. -/
def CachedFor (b : ServerStreamBuffer n) (store : StoreId) (seg : Fin n) : Prop :=
  ∃ link ∈ b.linkOf seg, store = invalidStoreId ∨ link.store = store

instance : Decidable (b.CachedFor store seg) := inferInstanceAs (Decidable (∃ _ ∈ _, _))

theorem cachedFor_congr (h : (b'.segments x).data = (b.segments x).data) :
    b'.CachedFor store x ↔ b.CachedFor store x := by
  rw [CachedFor, CachedFor, linkOf_congr h]

theorem data_unlink (h : b.unlink seg = some b') (x : Fin n) :
    (b'.segments x).data = (b.segments x).data := by
  obtain ⟨next, -, h⟩ := Option.bind_eq_some_iff.mp h
  split at h
  · obtain rfl := Option.some.inj h
    rfl
  · obtain ⟨prev, -, rfl⟩ := Option.map_eq_some_iff.mp h
    exact data_setPrev.trans data_setNext

theorem data_dequeueFromStandbyList (h : b.dequeueFromStandbyList seg = some b') (x : Fin n) :
    (b'.segments x).data = (b.segments x).data := by
  obtain ⟨b₁, h₁, rfl⟩ := Option.map_eq_some_iff.mp h
  exact data_resetLinks.trans (data_unlink h₁ x)

theorem standbyIndex_dequeueFromStandbyList (h : b.dequeueFromStandbyList seg = some b') :
    b'.standbyIndex = b.standbyIndex := by
  obtain ⟨b₁, h₁, rfl⟩ := Option.map_eq_some_iff.mp h
  obtain ⟨next, -, h₁⟩ := Option.bind_eq_some_iff.mp h₁
  split at h₁
  · obtain rfl := Option.some.inj h₁
    rfl
  · obtain ⟨prev, -, rfl⟩ := Option.map_eq_some_iff.mp h₁
    rfl

structure Flushed (b : ServerStreamBuffer n) (store : StoreId) (visited : List (Fin n))
    (b' : ServerStreamBuffer n) : Prop where
  data : ∀ x, ¬ (x ∈ visited ∧ b.CachedFor store x) → (b'.segments x).data = (b.segments x).data
  index : ∀ e, e ∈ b'.standbyIndex ↔
    e ∈ b.standbyIndex ∧ ¬ (e.2 ∈ visited ∧ b.CachedFor store e.2)

theorem Flushed.nil : Flushed b store [] b := ⟨fun _ _ => rfl, fun e => by simp⟩

theorem Flushed.of_notCached (h : ¬ b.CachedFor store seg) : Flushed b store [seg] b where
  data _ _ := rfl
  index e := by
    constructor
    · intro he
      refine ⟨he, ?_⟩
      rintro ⟨hmem, hc⟩
      rw [List.mem_singleton.mp hmem] at hc
      exact h hc
    · exact fun he => he.1

theorem Flushed.append {l₁ l₂ : List (Fin n)} (h₁ : Flushed b store l₁ b₁)
    (h₂ : Flushed b₁ store l₂ b') (disjoint : ∀ x ∈ l₁, x ∉ l₂) :
    Flushed b store (l₁ ++ l₂) b' := by
  have hcached (x : Fin n) (hx : x ∈ l₂) : b₁.CachedFor store x ↔ b.CachedFor store x :=
    cachedFor_congr (h₁.data x fun h => disjoint x h.1 hx)
  constructor
  · intro x hx
    rw [h₂.data x, h₁.data x]
    · rintro ⟨hmem, hc⟩
      exact hx ⟨List.mem_append_left _ hmem, hc⟩
    · rintro ⟨hmem, hc⟩
      exact hx ⟨List.mem_append_right _ hmem, (hcached x hmem).mp hc⟩
  · intro e
    rw [h₂.index, h₁.index, List.mem_append]
    constructor
    · rintro ⟨⟨he, hnot₁⟩, hnot₂⟩
      refine ⟨he, ?_⟩
      rintro ⟨hmem | hmem, hc⟩
      · exact hnot₁ ⟨hmem, hc⟩
      · exact hnot₂ ⟨hmem, (hcached e.2 hmem).mpr hc⟩
    · rintro ⟨he, hnot⟩
      refine ⟨⟨he, fun h => hnot ⟨Or.inl h.1, h.2⟩⟩, fun h => hnot ⟨Or.inr h.1, ?_⟩⟩
      exact (hcached e.2 h.1).mp h.2

end ServerStreamBuffer

open ServerStreamBuffer

namespace Parts

/-- The index has one entry for a segment, the one under its own link. -/
theorem mem_eraseStandbySegment {link : StoreStreamSegmentLink}
    (h : Arranged b free standby owned) (hs : seg ∈ standby) (hlink : b.linkOf seg = some link)
    (e : StoreStreamSegmentLink × Fin n) :
    e ∈ (b.eraseStandbySegment link).standbyIndex ↔ e ∈ b.standbyIndex ∧ e.2 ≠ seg := by
  have hnodup : (b.standbyIndex.map Prod.snd).Nodup := h.indexed.nodup_iff.mpr h.ring.nodup
  have hentry : (link, seg) ∈ b.standbyIndex := by
    obtain ⟨⟨link', x⟩, he, rfl⟩ := List.mem_map.mp (h.indexed.mem_iff.mpr hs)
    obtain rfl := Option.some.inj ((h.linked _ he).symm.trans hlink)
    exact he
  have hperm : b.standbyIndex.Perm ((link, seg) :: (b.eraseStandbySegment link).standbyIndex) :=
    KeyedIndex.perm_erase h.unique hentry rfl
  have hnodup' := (hperm.map Prod.snd).nodup hnodup
  rw [hperm.mem_iff, List.mem_cons]
  constructor
  · intro he
    refine ⟨Or.inr he, fun heq => ?_⟩
    have hmem := List.mem_map_of_mem (f := Prod.snd) he
    rw [heq] at hmem
    exact (List.nodup_cons.mp hnodup').1 hmem
  · rintro ⟨rfl | he, hne⟩
    · exact absurd rfl hne
    · exact he

theorem flushSegment_cases (h : Parts b free (front ++ seg :: back) owned) (store : StoreId) :
    ∃ b', b.flushSegment store seg = some b' ∧ Flushed b store [seg] b' ∧
      (b.CachedFor store seg ∧ Parts b' (seg :: free) (front ++ back) owned ∨
        ¬ b.CachedFor store seg ∧ b' = b) := by
  have hmem : seg ∈ front ++ seg :: back := by simp
  obtain ⟨link, hlink⟩ := exists_linkOf h.toArranged hmem
  have hcached : b.CachedFor store seg ↔ store = invalidStoreId ∨ link.store = store := by
    simp [CachedFor, hlink]
  rw [ServerStreamBuffer.flushSegment, hlink, Option.bind_some]
  by_cases hc : store = invalidStoreId ∨ link.store = store
  · obtain ⟨b₁, hb, hp⟩ := h.dequeueFromStandbyList hlink
    rw [if_pos hc, hb]
    refine ⟨_, rfl, ?_, Or.inl ⟨hcached.mpr hc, hp.purgeUnchecked⟩⟩
    constructor
    · intro x hx
      have hne : x ≠ seg := by
        rintro rfl
        exact hx ⟨List.mem_singleton_self x, hcached.mpr hc⟩
      rw [segments_purgeUnchecked hne, data_dequeueFromStandbyList hb]
      rfl
    · intro e
      have hindex : (b₁.purgeUnchecked seg).standbyIndex =
          (b.eraseStandbySegment link).standbyIndex :=
        (show _ = b₁.standbyIndex from rfl).trans (standbyIndex_dequeueFromStandbyList hb)
      rw [hindex, mem_eraseStandbySegment h.toArranged hmem hlink, List.mem_singleton]
      refine and_congr_right fun _ => not_congr ⟨fun he => ⟨he, ?_⟩, And.left⟩
      rw [he]
      exact hcached.mpr hc
  · rw [if_neg hc]
    have hnot : ¬ b.CachedFor store seg := hc ∘ hcached.mp
    exact ⟨b, rfl, .of_notCached hnot, Or.inr ⟨hnot, rfl⟩⟩

/-- From a segment on, the loop flushes the rest of the standby list. -/
theorem flushFrom_eq {last : Fin n} {rounds : ℕ}
    (h : Parts b free (front ++ seg :: back) owned) (hlast : (seg :: back).getLast? = some last)
    (hr : back.length < rounds) :
    ∃ b', ServerStreamBuffer.flushFrom rounds b store last seg = some b' ∧
      Flushed b store (seg :: back) b' ∧
      Parts b' (((seg :: back).filter (b.CachedFor store ·)).reverse ++ free)
        (front ++ (seg :: back).filter (¬ b.CachedFor store ·)) owned := by
  induction rounds generalizing b free front seg back with
  | zero => cases hr
  | succ rounds ih =>
    have hnodup : (seg :: back).Nodup := (List.nodup_append.mp h.ring.nodup).2.1
    obtain ⟨b₁, hb, hflushed, hcases⟩ := h.flushSegment_cases store
    rw [ServerStreamBuffer.flushFrom, hb, Option.bind_some]
    have hsame (x : Fin n) (hx : x ∈ back) : b₁.CachedFor store x ↔ b.CachedFor store x := by
      refine cachedFor_congr (hflushed.data x ?_)
      rintro ⟨hmem, -⟩
      rw [List.mem_singleton.mp hmem] at hx
      exact (List.nodup_cons.mp hnodup).1 hx
    obtain ⟨free₁, front₁, hp, hfree, hfront⟩ : ∃ free₁ front₁,
        Parts b₁ free₁ (front₁ ++ back) owned ∧
        ((seg :: back).filter (b.CachedFor store ·)).reverse ++ free =
          (back.filter (b₁.CachedFor store ·)).reverse ++ free₁ ∧
        front ++ (seg :: back).filter (¬ b.CachedFor store ·) =
          front₁ ++ back.filter (¬ b₁.CachedFor store ·) := by
      have hkept : back.filter (b₁.CachedFor store ·) = back.filter (b.CachedFor store ·) :=
        List.filter_congr fun x hx => by simp [hsame x hx]
      have hleft : back.filter (¬ b₁.CachedFor store ·) = back.filter (¬ b.CachedFor store ·) :=
        List.filter_congr fun x hx => by simp [hsame x hx]
      rw [hkept, hleft]
      rcases hcases with ⟨hc, hp⟩ | ⟨hc, rfl⟩
      · exact ⟨seg :: free, front, hp, by simp [hc], by simp [hc]⟩
      · exact ⟨free, front ++ [seg], by simpa using h, by simp [hc], by simp [hc]⟩
    cases back with
    | nil =>
      obtain rfl : seg = last := Option.some.inj hlast
      rw [if_pos rfl, hfree, hfront]
      exact ⟨b₁, rfl, hflushed, by simpa using hp⟩
    | cons next back =>
      have hne : seg ≠ last := by
        rintro rfl
        exact (List.nodup_cons.mp hnodup).1 (List.mem_of_getLast? hlast)
      have hnext : b.next seg = some next := h.ring.next_eq
      obtain ⟨b', hb', hflushed', hp'⟩ := ih hp hlast (by simpa using hr)
      rw [if_neg hne, hnext, Option.bind_some, hfree, hfront]
      refine ⟨b', hb', hflushed.append hflushed' fun x hx => ?_, hp'⟩
      rw [List.mem_singleton.mp hx]
      exact (List.nodup_cons.mp hnodup).1

end Parts

namespace ServerStreamBuffer

/-- For every standby list and store, the flush comes to an end. It takes exactly the segments that
are cached for the store out of the ring and of the index, and puts each of them on the free list
once. All others keep their order and what they hold. -/
theorem flushStandbyList_exact (h : Parts b free standby owned) (store : StoreId) :
    ∃ b', b.flushStandbyList store = some b' ∧
      Parts b' ((standby.filter (b.CachedFor store ·)).reverse ++ free)
        (standby.filter (¬ b.CachedFor store ·)) owned ∧
      (∀ e, e ∈ b'.standbyIndex ↔ e ∈ b.standbyIndex ∧ ¬ b.CachedFor store e.2) ∧
      (∀ x ∈ standby.filter (¬ b.CachedFor store ·) ++ owned,
        (b'.segments x).data = (b.segments x).data) ∧
      (store = invalidStoreId → b'.standbyHead = none ∧ b'.standbyIndex = []) := by
  obtain ⟨b', hb, hflushed, hp⟩ : ∃ b', b.flushStandbyList store = some b' ∧
      Flushed b store standby b' ∧
      Parts b' ((standby.filter (b.CachedFor store ·)).reverse ++ free)
        (standby.filter (¬ b.CachedFor store ·)) owned := by
    rw [ServerStreamBuffer.flushStandbyList]
    have hring := h.ring
    cases hhead : b.standbyHead with
    | none =>
      rw [hhead] at hring
      obtain rfl := LinkedList.Ring.nil_iff.mp hring
      exact ⟨b, rfl, .nil, h⟩
    | some head =>
      rw [hhead] at hring
      obtain ⟨rest, rfl⟩ := hring.head_cases
      obtain ⟨last, hlast⟩ : ∃ last, (head :: rest).getLast? = some last :=
        Option.isSome_iff_exists.mp (by simp)
      dsimp only
      rw [hring.prev_head, hlast, Option.bind_some]
      have hlength := h.parts.length_eq
      simp only [List.length_append, List.length_cons, List.length_finRange] at hlength
      exact Parts.flushFrom_eq (show Parts b free ([] ++ head :: rest) owned from h) hlast
        (by omega)
  refine ⟨b', hb, hp, fun e => ?_, fun x hx => hflushed.data x ?_, ?_⟩
  · rw [hflushed.index]
    refine and_congr_right fun he => not_congr ⟨And.right, fun hc => ⟨?_, hc⟩⟩
    exact h.mem_standby he
  · rintro ⟨hmem, hc⟩
    rcases List.mem_append.mp hx with hx | hx
    · simp [hc] at hx
    · exact h.ne_of_mem_standby hx hmem rfl
  · rintro rfl
    have hall (x : Fin n) (hx : x ∈ standby) : b.CachedFor invalidStoreId x := by
      obtain ⟨link, hlink⟩ := Parts.exists_linkOf h.toArranged hx
      exact ⟨link, hlink, Or.inl rfl⟩
    have hnil : standby.filter (¬ b.CachedFor invalidStoreId ·) = [] :=
      List.filter_eq_nil_iff.mpr fun x hx => by simp [hall x hx]
    rw [hnil] at hp
    refine ⟨hp.ring.head_eq, List.map_eq_nil_iff.mp (List.Perm.eq_nil hp.indexed)⟩

def mixedCalls : List (Call 5) :=
  [.openSegment ⟨1, 0, 8, false⟩ ⟨false, false⟩ ⟨0, some 1, 1⟩, .readReturned 0,
    .openSegment ⟨2, 0, 8, false⟩ ⟨false, false⟩ ⟨0, some 1, 1⟩, .readReturned 1,
    .openSegment ⟨1, 0, 8, false⟩ ⟨false, false⟩ ⟨1, some 1, 1⟩, .readReturned 2,
    .openSegment ⟨1, 0, 8, false⟩ ⟨false, false⟩ ⟨2, some 1, 1⟩, .readReturned 3,
    .freeSegment 0 false, .freeSegment 1 false, .freeSegment 2 false]

theorem exists_mixed : ∃ u, (Usage.initial 5 64 true).run mixedCalls = some u ∧
    u.buffer.standbyIndex = [(⟨1, ⟨0, 1⟩⟩, 2), (⟨2, ⟨0, 0⟩⟩, 1), (⟨1, ⟨0, 0⟩⟩, 0)] ∧
    u.owned = [3] := by
  have h : ((Usage.initial 5 64 true).run mixedCalls).map
      (fun u => (u.buffer.standbyIndex, u.owned)) =
        some ([(⟨1, ⟨0, 1⟩⟩, 2), (⟨2, ⟨0, 0⟩⟩, 1), (⟨1, ⟨0, 0⟩⟩, 0)], [3]) := by decide +kernel
  obtain ⟨u, hu, he⟩ := Option.map_eq_some_iff.mp h
  exact ⟨u, hu, congrArg Prod.fst he, congrArg Prod.snd he⟩

theorem flushStandbyList_exact_mixed : ∃ u b', (Usage.initial 5 64 true).run mixedCalls = some u ∧
    u.buffer.standbyIndex = [(⟨1, ⟨0, 1⟩⟩, 2), (⟨2, ⟨0, 0⟩⟩, 1), (⟨1, ⟨0, 0⟩⟩, 0)] ∧
    u.buffer.flushStandbyList 1 = some b' ∧ (b'.segments 3).data = (u.buffer.segments 3).data ∧
    ∀ e, e ∈ b'.standbyIndex ↔ e = (⟨2, ⟨0, 0⟩⟩, 1) := by
  obtain ⟨u, hu, hindex, howned⟩ := exists_mixed
  obtain ⟨u', hu', hinv⟩ := (Usage.initial_inv 5 64 true).run mixedCalls
  obtain rfl := Option.some.inj (hu.symm.trans hu')
  obtain ⟨free, standby, hparts⟩ := hinv.parts
  obtain ⟨b', hb, -, hindex', hdata, -⟩ := flushStandbyList_exact hparts 1
  have hlinked : ∀ e ∈ u.buffer.standbyIndex, u.buffer.CachedFor 1 e.2 ↔ e.1.store = 1 := by
    intro e he
    rw [CachedFor, hparts.linked e he]
    simp [invalidStoreId]
  refine ⟨u, b', hu, hindex, hb, hdata 3 (by simp [howned]), fun e => ?_⟩
  rw [hindex']
  constructor
  · rintro ⟨he, hnot⟩
    rw [hlinked e he] at hnot
    rw [hindex] at he
    rcases List.mem_cons.mp he with rfl | he
    · exact absurd rfl hnot
    · rcases List.mem_cons.mp he with rfl | he
      · rfl
      · exact absurd (List.mem_singleton.mp he ▸ rfl) hnot
  · rintro rfl
    have he : (⟨2, ⟨0, 0⟩⟩, 1) ∈ u.buffer.standbyIndex := by simp [hindex]
    refine ⟨he, ?_⟩
    rw [hlinked _ he]
    decide

end ServerStreamBuffer

end Simutrace.Buffer
