import Mathlib.Data.List.Perm.Basic
import Mathlib.Data.List.Nodup

/-! # Interleavings

A number of sequences is merged into one by taking, again and again, the first
element of one of them. Every sequence that is made in this way is an
interleaving: it has the elements of each sequence in their order.
-/

namespace Interleaving

variable {α : Type*}

/-- What is left of a sequence, with its number. -/
abbrev Source (α : Type*) := ℕ × List α

/-- What is left of the sequence with a number. -/
def remaining (sources : List (Source α)) (i : ℕ) : List α :=
  (sources.filter fun s => s.1 = i).flatMap (·.2)

/-- A sequence without elements is not kept. -/
def keep (s : Source α) : List (Source α) := if s.2 = [] then [] else [s]

inductive Merges : List (Source α) → List (ℕ × α) → Prop
  | nil : Merges [] []
  | cons {sources rest next : List (Source α)} {i : ℕ} {a : α} {s : List α}
      {merged : List (ℕ × α)} (taken : sources.Perm ((i, a :: s) :: rest))
      (left : next.Perm (keep (i, s) ++ rest)) (merges : Merges next merged) :
      Merges sources ((i, a) :: merged)

/-- Each sequence is merged with all its elements in their order, and there is nothing else. -/
def Interleaves (inputs : List (List α)) (merged : List (ℕ × α)) : Prop :=
  (∀ e ∈ merged, e.1 < inputs.length) ∧
    ∀ i, (merged.filter fun e => e.1 = i).map Prod.snd = inputs.getD i []

variable {sources sources' : List (Source α)} {merged : List (ℕ × α)} {i : ℕ} {s : List α}

theorem remaining_cons (s : Source α) (sources : List (Source α)) (i : ℕ) :
    remaining (s :: sources) i = if s.1 = i then s.2 ++ remaining sources i
      else remaining sources i := by
  unfold remaining
  split
  · rename_i h
    rw [List.filter_cons_of_pos (by simpa using h), List.flatMap_cons]
  · rename_i h
    rw [List.filter_cons_of_neg (by simpa using h)]

theorem remaining_of_notMem (h : i ∉ sources.map Prod.fst) : remaining sources i = [] := by
  unfold remaining
  rw [List.filter_eq_nil_iff.mpr, List.flatMap_nil]
  intro s hs hi
  exact h (List.mem_map.mpr ⟨s, hs, by simpa using hi⟩)

theorem remaining_perm (perm : sources.Perm sources') (nodup : (sources.map Prod.fst).Nodup)
    (i : ℕ) : remaining sources i = remaining sources' i := by
  have nodup' := (perm.map Prod.fst).nodup_iff.mp nodup
  by_cases h : i ∈ sources.map Prod.fst
  · obtain ⟨s, hs, rfl⟩ := List.mem_map.mp h
    have hone {l : List (Source α)} (hl : s ∈ l) (hnodup : (l.map Prod.fst).Nodup) :
        remaining l s.1 = s.2 := by
      obtain ⟨l₁, l₂, rfl⟩ := List.append_of_mem hl
      rw [List.map_append, List.map_cons, List.nodup_middle, List.nodup_cons,
        List.mem_append, not_or] at hnodup
      have h₁ := remaining_of_notMem hnodup.1.1
      have h₂ := remaining_of_notMem hnodup.1.2
      unfold remaining at h₁ h₂ ⊢
      rw [List.filter_append, List.flatMap_append, h₁, List.nil_append,
        List.filter_cons_of_pos (by simp), List.flatMap_cons, h₂, List.append_nil]
    rw [hone hs nodup, hone (perm.mem_iff.mp hs) nodup']
  · rw [remaining_of_notMem h, remaining_of_notMem]
    rwa [← (perm.map Prod.fst).mem_iff]

theorem remaining_keep (s : Source α) (sources : List (Source α)) (j : ℕ) :
    remaining (keep s ++ sources) j = remaining (s :: sources) j := by
  unfold keep
  split
  · rename_i h
    rw [List.nil_append, remaining_cons]
    split <;> simp [h]
  · rfl

theorem nodup_keep {rest : List (Source α)} (h : (((i, s) :: rest).map Prod.fst).Nodup) :
    ((keep (i, s) ++ rest).map Prod.fst).Nodup := by
  unfold keep
  split
  · exact (List.nodup_cons.mp h).2
  · exact h

theorem Merges.filter_eq (h : Merges sources merged) (nodup : (sources.map Prod.fst).Nodup)
    (j : ℕ) : (merged.filter fun e => e.1 = j).map Prod.snd = remaining sources j := by
  induction h with
  | nil => rfl
  | @cons sources rest next i a s merged taken left _ ih =>
    have hnodup := (taken.map Prod.fst).nodup_iff.mp nodup
    have hkeep : ((keep (i, s) ++ rest).map Prod.fst).Nodup := nodup_keep hnodup
    have hnext := (left.map Prod.fst).nodup_iff.mpr hkeep
    have hrest := ih hnext
    rw [remaining_perm left hnext, remaining_keep, remaining_cons] at hrest
    rw [remaining_perm taken nodup, remaining_cons]
    by_cases hj : i = j
    · rw [if_pos hj] at hrest ⊢
      rw [List.filter_cons_of_pos (by simpa using hj), List.map_cons, hrest]
      rfl
    · rw [if_neg hj] at hrest ⊢
      rw [List.filter_cons_of_neg (by simpa using hj), hrest]

theorem Merges.mem_fst (h : Merges sources merged) {e : ℕ × α} (he : e ∈ merged) :
    e.1 ∈ sources.map Prod.fst := by
  induction h with
  | nil => cases he
  | @cons sources rest next i a s merged taken left _ ih =>
    rw [(taken.map Prod.fst).mem_iff]
    rcases List.mem_cons.mp he with rfl | he
    · exact List.mem_cons_self
    · have hnext := (left.map Prod.fst).mem_iff.mp (ih he)
      unfold keep at hnext
      split at hnext
      · exact List.mem_cons_of_mem _ hnext
      · exact hnext

theorem Merges.mem_snd (h : Merges sources merged) {e : ℕ × α} (he : e ∈ merged) :
    ∃ s ∈ sources, e.2 ∈ s.2 := by
  induction h with
  | nil => cases he
  | @cons sources rest next i a s merged taken left _ ih =>
    have htaken {t : Source α} (ht : t ∈ (i, a :: s) :: rest) : t ∈ sources :=
      taken.mem_iff.mpr ht
    rcases List.mem_cons.mp he with rfl | he
    · exact ⟨_, htaken List.mem_cons_self, List.mem_cons_self⟩
    · obtain ⟨t, ht, hmem⟩ := ih he
      rcases List.mem_append.mp (left.mem_iff.mp ht) with hkeep | hrest
      · unfold keep at hkeep
        split at hkeep
        · cases hkeep
        · obtain rfl := List.mem_singleton.mp hkeep
          exact ⟨_, htaken List.mem_cons_self, List.mem_cons_of_mem _ hmem⟩
      · exact ⟨t, htaken (List.mem_cons_of_mem _ hrest), hmem⟩

/-- The sources of the given sequences, numbered in their order. -/
def sourcesOf (inputs : List (List α)) : List (Source α) :=
  (inputs.zipIdx.map fun s => (s.2, s.1)).flatMap keep

theorem mem_sourcesOf {inputs : List (List α)} {t : Source α} :
    t ∈ sourcesOf inputs ↔ inputs[t.1]? = some t.2 ∧ t.2 ≠ [] := by
  unfold sourcesOf
  simp only [List.mem_flatMap, List.mem_map, Prod.exists, keep]
  constructor
  · rintro ⟨i, s, ⟨s', i', hmem, heq⟩, ht⟩
    obtain ⟨rfl, rfl⟩ := Prod.mk.inj heq
    split at ht
    · cases ht
    · obtain rfl := List.mem_singleton.mp ht
      exact ⟨List.mem_zipIdx_iff_getElem?.mp hmem, ‹_›⟩
  · rintro ⟨hget, hne⟩
    refine ⟨t.1, t.2, ⟨t.2, t.1, List.mem_zipIdx_iff_getElem?.mpr hget, rfl⟩, ?_⟩
    rw [if_neg hne]
    exact List.mem_singleton.mpr rfl

theorem nodup_sourcesOf (inputs : List (List α)) :
    ((sourcesOf inputs).map Prod.fst).Nodup := by
  have hsub : ((sourcesOf inputs).map Prod.fst).Sublist
      ((inputs.zipIdx.map fun s => (s.2, s.1)).map Prod.fst) := by
    unfold sourcesOf
    refine List.Sublist.map _ ?_
    induction inputs.zipIdx.map fun s => (s.2, s.1) with
    | nil => exact List.Sublist.refl _
    | cons s l ih =>
      rw [List.flatMap_cons]
      have hone : (keep s).Sublist [s] := by
        unfold keep
        split
        · exact List.nil_sublist _
        · exact List.Sublist.refl _
      exact hone.append ih
  refine hsub.nodup ?_
  rw [List.map_map]
  change (inputs.zipIdx.map Prod.snd).Nodup
  rw [List.zipIdx_map_snd]
  exact List.nodup_range'

theorem remaining_sourcesOf (inputs : List (List α)) (i : ℕ) :
    remaining (sourcesOf inputs) i = inputs.getD i [] := by
  by_cases h : i ∈ (sourcesOf inputs).map Prod.fst
  · obtain ⟨t, ht, rfl⟩ := List.mem_map.mp h
    obtain ⟨l₁, l₂, hl⟩ := List.append_of_mem ht
    have hnodup := nodup_sourcesOf inputs
    have hperm : (sourcesOf inputs).Perm (t :: (l₁ ++ l₂)) := by
      rw [hl]
      exact List.perm_middle
    have hcons := (hperm.map Prod.fst).nodup_iff.mp hnodup
    rw [List.map_cons, List.nodup_cons] at hcons
    rw [remaining_perm hperm hnodup, remaining_cons, if_pos rfl, remaining_of_notMem hcons.1,
      List.append_nil, List.getD, (mem_sourcesOf.mp ht).1]
    rfl
  · rw [remaining_of_notMem h, List.getD]
    rcases hget : inputs[i]? with _ | s
    · rfl
    · by_contra hne
      exact h (List.mem_map.mpr ⟨(i, s), mem_sourcesOf.mpr ⟨hget, fun hs => hne hs.symm⟩, rfl⟩)

theorem Merges.interleaves {inputs : List (List α)} (h : Merges sources merged)
    (perm : sources.Perm (sourcesOf inputs)) : Interleaves inputs merged := by
  have nodup := (perm.map Prod.fst).nodup_iff.mpr (nodup_sourcesOf inputs)
  refine ⟨fun e he => ?_, fun i => ?_⟩
  · obtain ⟨t, ht, heq⟩ := List.mem_map.mp ((perm.map Prod.fst).mem_iff.mp (h.mem_fst he))
    have hget := (mem_sourcesOf.mp ht).1
    rw [← heq]
    exact (List.getElem?_eq_some_iff.mp hget).1
  · rw [h.filter_eq nodup, remaining_perm perm nodup, remaining_sourcesOf]

end Interleaving
