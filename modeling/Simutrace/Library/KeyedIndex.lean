import Mathlib.Data.List.Perm.Basic
import Mathlib.Data.List.Nodup

/-! # Indices with a key function

An index stores entries under names that are compared by a key only. No two
entries have the same key, so that a name finds at most one of them.
-/

namespace KeyedIndex

variable {α β κ : Type*} {key : α → κ} {index : List (α × β)} {a a' : α} {b : β}

/-- No two entries have the same key. -/
def Unique (key : α → κ) (index : List (α × β)) : Prop := (index.map fun e => key e.1).Nodup

theorem key_ne_of_mem {e : α × β} (h : Unique key (e :: index)) (hm : (a, b) ∈ index)
    (hk : key a = key a') : key e.1 ≠ key a' := by
  intro he
  have hmem : key a ∈ index.map fun e => key e.1 := List.mem_map_of_mem (f := fun e => key e.1) hm
  rw [hk, ← he] at hmem
  exact (List.nodup_cons.mp h).1 hmem

variable [DecidableEq κ]

/-- Search for the entry whose name has the same key. -/
def find (key : α → κ) (index : List (α × β)) (a : α) : Option β :=
  (index.find? fun e => key e.1 = key a).map Prod.snd

/-- Remove the entry whose name has the same key. -/
def erase (key : α → κ) (index : List (α × β)) (a : α) : List (α × β) :=
  index.eraseP fun e => key e.1 = key a

theorem find_eq_none : find key index a = none ↔ ∀ e ∈ index, key e.1 ≠ key a := by
  simp [find]

theorem exists_of_find (h : find key index a = some b) :
    ∃ a', (a', b) ∈ index ∧ key a' = key a := by
  obtain ⟨⟨a', b'⟩, he, rfl⟩ := Option.map_eq_some_iff.mp h
  exact ⟨a', List.mem_of_find?_eq_some he, by simpa using List.find?_some he⟩

theorem perm_erase (h : Unique key index) (hm : (a, b) ∈ index) (hk : key a = key a') :
    index.Perm ((a, b) :: erase key index a') := by
  induction index with
  | nil => cases hm
  | cons e index ih =>
    rcases List.mem_cons.mp hm with rfl | hm
    · rw [erase, List.eraseP_cons_of_pos (by simpa using hk)]
    · rw [erase, List.eraseP_cons_of_neg (by simpa using key_ne_of_mem h hm hk)]
      exact ((ih (List.nodup_cons.mp h).2 hm).cons e).trans (List.Perm.swap _ _ _)

theorem find_of_mem (h : Unique key index) (hm : (a, b) ∈ index) (hk : key a = key a') :
    find key index a' = some b := by
  induction index with
  | nil => cases hm
  | cons e index ih =>
    rcases List.mem_cons.mp hm with rfl | hm
    · rw [find, List.find?_cons_of_pos (by simpa using hk)]
      rfl
    · rw [find, List.find?_cons_of_neg (by simpa using key_ne_of_mem h hm hk)]
      exact ih (List.nodup_cons.mp h).2 hm

theorem Unique.cons (h : Unique key index) (hf : find key index a = none) (b : β) :
    Unique key ((a, b) :: index) := by
  refine List.nodup_cons.mpr ⟨?_, h⟩
  rintro hm
  obtain ⟨e, he, hk⟩ := List.mem_map.mp hm
  exact find_eq_none.mp hf e he hk

theorem mem_of_mem_erase {e : α × β} (h : e ∈ erase key index a) : e ∈ index :=
  List.mem_of_mem_eraseP h

theorem Unique.erase (h : Unique key index) (a : α) : Unique key (erase key index a) :=
  h.sublist ((List.eraseP_sublist ..).map _)

end KeyedIndex
