import Mathlib.Data.List.Nodup
import Mathlib.Logic.Function.Basic
import Mathlib.Logic.Relation

/-! # Singly linked chains

A chain starts at a head and follows the next link of each node up to a node
that has none. A chain is determined by its head and does not depend on the
links of other nodes.
-/

namespace LinkedList

variable {α : Type*} {next next' : α → Option α} {head : Option α} {a b x : α} {l l' : List α}

/-- Following the links from the head visits exactly the nodes of the list. -/
def Chain (next : α → Option α) : Option α → List α → Prop
  | head, [] => head = none
  | head, a :: l => head = some a ∧ Chain next (next a) l

/-- A node that is found by following the links from the head. -/
def Reaches (next : α → Option α) (head : Option α) (x : α) : Prop :=
  ∃ a, head = some a ∧ Relation.ReflTransGen (fun a b => next a = some b) a x

theorem not_reaches_none : ¬ Reaches next none x := by
  rintro ⟨a, ⟨⟩, -⟩

theorem reaches_some : Reaches next (some a) x ↔ x = a ∨ Reaches next (next a) x := by
  constructor
  · rintro ⟨_, ⟨rfl⟩, h⟩
    rcases h.cases_head with rfl | ⟨b, hb, h⟩
    · exact Or.inl rfl
    · exact Or.inr ⟨b, hb, h⟩
  · rintro (rfl | ⟨b, hb, h⟩)
    · exact ⟨x, rfl, .refl⟩
    · exact ⟨a, rfl, .head hb h⟩

theorem Chain.reaches_iff (h : Chain next head l) : Reaches next head x ↔ x ∈ l := by
  induction l generalizing head with
  | nil =>
    obtain rfl : head = none := h
    exact iff_of_false not_reaches_none List.not_mem_nil
  | cons a l ih =>
    obtain ⟨rfl, h⟩ := h
    rw [reaches_some, ih h, List.mem_cons]

theorem Chain.head?_eq (h : Chain next head l) : head = l.head? := by
  cases l with
  | nil => exact h
  | cons a l => exact h.1

theorem Chain.congr (h : Chain next head l) (he : ∀ a ∈ l, next' a = next a) :
    Chain next' head l := by
  induction l generalizing head with
  | nil => exact h
  | cons a l ih =>
    refine ⟨h.1, ?_⟩
    rw [he a List.mem_cons_self]
    exact ih h.2 fun b hb => he b (List.mem_cons_of_mem _ hb)

theorem Chain.update [DecidableEq α] (h : Chain next head l) (ha : a ∉ l) (n : Option α) :
    Chain (Function.update next a n) head l :=
  h.congr fun _ hb => Function.update_of_ne (ne_of_mem_of_not_mem hb ha) _ _

theorem Chain.drop_of_append (h : Chain next head (l ++ a :: l')) :
    Chain next (some a) (a :: l') := by
  induction l generalizing head with
  | nil => exact ⟨rfl, h.2⟩
  | cons b l ih => exact ih h.2

theorem Chain.not_reaches_earlier (h : Chain next head (a :: l)) (hn : (a :: l).Nodup)
    (hb : b ∈ l) : ¬ Reaches next (some b) a := by
  obtain ⟨l₁, l₂, rfl⟩ := List.append_of_mem hb
  have hsuffix : Chain next (some b) (b :: l₂) := Chain.drop_of_append h.2
  rw [hsuffix.reaches_iff]
  intro ha
  exact (List.nodup_cons.mp hn).1 (List.mem_append_right _ ha)

theorem Chain.eq_of_reaches {head' : Option α} (h : Chain next head l) (hn : l.Nodup)
    (hr : ∀ x, Reaches next head' x ↔ x ∈ l) : head = head' := by
  cases l with
  | nil =>
    obtain rfl : head = none := h
    cases head' with
    | none => rfl
    | some b => exact absurd ((hr b).mp ⟨b, rfl, .refl⟩) List.not_mem_nil
  | cons a l =>
    obtain ⟨rfl, h⟩ := h
    have ha := (hr a).mpr List.mem_cons_self
    cases head' with
    | none => exact absurd ha not_reaches_none
    | some b =>
      rcases List.mem_cons.mp ((hr b).mp ⟨b, rfl, .refl⟩) with rfl | hb
      · rfl
      · exact absurd ha (Chain.not_reaches_earlier ⟨rfl, h⟩ hn hb)

end LinkedList
