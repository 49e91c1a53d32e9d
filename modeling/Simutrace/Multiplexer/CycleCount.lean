import Simutrace.Multiplexer.HandleContext

/-! # The cycle count rule

The list of the input streams is sorted by the cycle counts of their next
entries. An entry that is returned is replaced by its successor, which finds its
place behind the smaller ones, so that the first entry is always the next one.
-/

namespace Simutrace

open Interleaving

namespace StreamMultiplexer

variable {α : Type*} {m : StreamMultiplexer α} {ctx : HandleContext α}
  {sctx : HandleStreamContext α} {list : List (HandleStreamContext α)}

def SortedList (list : List (HandleStreamContext α)) : Prop :=
  list.Pairwise fun a b => a.entry.cycleCount ≤ b.entry.cycleCount

/-- What is left of an input stream is temporally ordered, and the cycle count of its next entry is
known. -/
structure TemporallyOrdered (m : StreamMultiplexer α) (sctx : HandleStreamContext α) : Prop where
  cycleCount : sctx.entry.cycleCount = m.cycleCount sctx.entry.entry
  ordered : (sctx.entry.entry :: sctx.rest).Pairwise fun a b => m.cycleCount a ≤ m.cycleCount b

theorem sortedList_reinsert (sorted : SortedList list) : SortedList (reinsert sctx list) := by
  induction list with
  | nil => exact List.pairwise_singleton _ _
  | cons next list ih =>
    obtain ⟨hnext, hlist⟩ := List.pairwise_cons.mp sorted
    rw [reinsert]
    split
    · rename_i hle
      refine List.pairwise_cons.mpr ⟨fun c hc => ?_, sorted⟩
      rcases List.mem_cons.mp hc with rfl | hc
      · exact hle
      · exact hle.trans (hnext c hc)
    · rename_i hlt
      refine List.pairwise_cons.mpr ⟨fun c hc => ?_, ih hlist⟩
      rcases List.mem_cons.mp ((reinsert_perm sctx list).mem_iff.mp hc) with rfl | hc
      · exact (not_le.mp hlt).le
      · exact hnext c hc

theorem TemporallyOrdered.update {sctx' : HandleStreamContext α} (h : m.TemporallyOrdered sctx)
    (updated : m.update sctx = some sctx') : m.TemporallyOrdered sctx' := by
  unfold StreamMultiplexer.update at updated
  split at updated
  · cases updated
  · rename_i entry rest hrest
    obtain rfl := Option.some.inj updated
    have hordered := h.ordered
    rw [hrest] at hordered
    exact ⟨rfl, (List.pairwise_cons.mp hordered).2⟩

theorem sorted_advance (rule : m.rule = .mxrCycleCount) (sorted : SortedList (sctx :: list))
    (ordered : ∀ c ∈ sctx :: list, m.TemporallyOrdered c) (index : Option ℕ) :
    SortedList (m.advance ⟨sctx :: list, index⟩ 0 sctx).list ∧
      ∀ c ∈ (m.advance ⟨sctx :: list, index⟩ 0 sctx).list, m.TemporallyOrdered c := by
  have htail := (List.pairwise_cons.mp sorted).2
  have hordered (c : HandleStreamContext α) (hc : c ∈ list) : m.TemporallyOrdered c :=
    ordered c (List.mem_cons_of_mem _ hc)
  unfold advance
  rcases hupdate : m.update sctx with _ | sctx'
  · dsimp only
    split <;> exact ⟨htail, hordered⟩
  · dsimp only
    rw [rule]
    refine ⟨sortedList_reinsert htail, fun c hc => ?_⟩
    rcases List.mem_cons.mp ((reinsert_perm sctx' list).mem_iff.mp hc) with rfl | hc
    · exact (ordered sctx List.mem_cons_self).update hupdate
    · exact hordered c hc

theorem Delivers.sorted {output : List (MultiplexerEntry α)} (h : m.Delivers ctx output)
    (rule : m.rule = .mxrCycleCount) (selects : m.Selects ctx) (sorted : SortedList ctx.list)
    (ordered : ∀ c ∈ ctx.list, m.TemporallyOrdered c) :
    (output.Pairwise fun a b => a.cycleCount ≤ b.cycleCount) ∧
      ∀ e ∈ output, e.cycleCount = m.cycleCount e.entry := by
  induction h with
  | ended => exact ⟨.nil, fun e he => by cases he⟩
  | @next ctx i sctx output index selected rest ih =>
    obtain rfl := selects.first rule i index
    obtain ⟨list, index'⟩ := ctx
    rcases list with _ | ⟨sctx', list⟩
    · cases selected
    obtain rfl : sctx' = sctx := Option.some.inj selected
    have hselects := selects_advance selects index selected
    obtain ⟨hsorted, hordered⟩ := sorted_advance rule sorted ordered index'
    obtain ⟨hpairwise, hcounts⟩ := ih hselects hsorted hordered
    have hhead := ordered sctx' List.mem_cons_self
    -- every entry that follows was left in one of the contexts, none of which starts earlier
    have hle (c : HandleStreamContext α) (hc : c ∈ sctx' :: list) (a : α)
        (ha : a ∈ c.entry.entry :: c.rest) : sctx'.entry.cycleCount ≤ m.cycleCount a := by
      have hc' := ordered c hc
      have hfirst : sctx'.entry.cycleCount ≤ c.entry.cycleCount := by
        rcases List.mem_cons.mp hc with rfl | hc
        · exact le_rfl
        · exact (List.pairwise_cons.mp sorted).1 c hc
      rcases List.mem_cons.mp ha with rfl | ha
      · rwa [← hc'.cycleCount]
      · refine (hfirst.trans_eq hc'.cycleCount).trans ?_
        exact (List.pairwise_cons.mp hc'.ordered).1 a ha
    have hmerges := (Delivers.next index selected rest).merges selects
    refine ⟨List.pairwise_cons.mpr ⟨fun e he => ?_, hpairwise⟩, fun e he => ?_⟩
    · have hkey : e.key ∈ (sctx'.entry :: output).map MultiplexerEntry.key :=
        List.mem_map_of_mem (List.mem_cons_of_mem _ he)
      obtain ⟨s, hs, hmem⟩ := hmerges.mem_snd hkey
      obtain ⟨c, hc, rfl⟩ := List.mem_map.mp hs
      rw [hcounts e he]
      exact hle c hc e.entry hmem
    · rcases List.mem_cons.mp he with rfl | he
      · exact hhead.cycleCount
      · exact hcounts e he

theorem temporallyOrdered_firstEntries
    (ordered : ∀ s ∈ m.inputStreams, s.entries.Pairwise fun a b => m.cycleCount a ≤ m.cycleCount b)
    (h : sctx ∈ m.firstEntries) : m.TemporallyOrdered sctx := by
  unfold firstEntries at h
  obtain ⟨⟨s, i⟩, hs, hfirst⟩ := List.mem_filterMap.mp h
  have hmem : s ∈ m.inputStreams := List.fst_mem_of_mem_zipIdx hs
  have hordered := ordered s hmem
  dsimp only at hfirst
  split at hfirst
  · cases hfirst
  · rename_i entry rest hentries
    obtain rfl := Option.some.inj hfirst
    exact ⟨rfl, hentries ▸ hordered⟩

/-- With the cycle count rule, temporally ordered input streams are merged into a temporally ordered
stream, which ends when all of them have ended. -/
theorem cycleCount_merges (rule : m.rule = .mxrCycleCount)
    (ordered : ∀ s ∈ m.inputStreams, s.entries.Pairwise fun a b => m.cycleCount a ≤ m.cycleCount b)
    (opens : m.Opens ctx) : ∃ output, Enumeration.Yields m.getNextEntry ctx output ∧
      Interleaves (m.inputStreams.map (·.entries)) (output.map MultiplexerEntry.key) ∧
      (output.Pairwise fun a b => a.cycleCount ≤ b.cycleCount) ∧
      ∀ e ∈ output, e.cycleCount = m.cycleCount e.entry := by
  obtain ⟨output, hdelivers, hyields, hinterleaves⟩ := opens.exists_yields
  have hsorted : SortedList ctx.list := by
    have hlist := opens.2
    rw [rule] at hlist
    exact hlist.2
  refine ⟨output, hyields, hinterleaves, hdelivers.sorted rule (selects_start ctx) hsorted ?_⟩
  intro c hc
  exact temporallyOrdered_firstEntries ordered (opens.perm.mem_iff.mp hc)

/-- The entries are their time stamps. The first stream ends before the second one. -/
def twoStreams : StreamMultiplexer ℕ where
  inputStreams := [⟨1, [3, 5]⟩, ⟨2, [2, 5, 9]⟩]
  rule := .mxrCycleCount
  temporal := true
  timestamp := id
  ordered := fun _ => rfl

theorem opens_twoStreams : twoStreams.Opens
    ⟨[⟨⟨2, 2, 1, 2⟩, [5, 9]⟩, ⟨⟨3, 1, 0, 3⟩, [5]⟩], none⟩ := by
  refine ⟨rfl, ?_, by simp⟩
  exact List.Perm.swap _ _ []

theorem twoStreams_merges : ∃ output,
    Enumeration.Yields twoStreams.getNextEntry
      ⟨[⟨⟨2, 2, 1, 2⟩, [5, 9]⟩, ⟨⟨3, 1, 0, 3⟩, [5]⟩], none⟩ output ∧
      Interleaves (twoStreams.inputStreams.map (·.entries)) (output.map MultiplexerEntry.key) ∧
      (output.Pairwise fun a b => a.cycleCount ≤ b.cycleCount) ∧
      ∀ e ∈ output, e.cycleCount = twoStreams.cycleCount e.entry :=
  cycleCount_merges rfl (by decide) opens_twoStreams

end StreamMultiplexer

end Simutrace
