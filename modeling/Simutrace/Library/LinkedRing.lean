import Mathlib.Data.List.Cycle

/-! # Doubly linked rings

A ring is a circular list whose nodes are linked in both directions. The nodes
are listed from the head on. Removing and inserting a node only changes the
links of its neighbours, which is stated for any two versions of the links.
-/

namespace LinkedList

variable {α : Type*} {next prev next' prev' : α → Option α} {head : Option α} {a b x z : α}
  {l l₁ l₂ : List α}

/-- The first node is followed by the second one. -/
def Linked (next prev : α → Option α) (a b : α) : Prop := next a = some b ∧ prev b = some a

structure Ring (next prev : α → Option α) (head : Option α) (l : List α) : Prop where
  head_eq : head = l.head?
  chain : Cycle.Chain (Linked next prev) (l : Cycle α)
  nodup : l.Nodup

namespace Ring

theorem nil_iff : Ring next prev none l ↔ l = [] := by
  constructor
  · intro h
    exact List.head?_eq_none_iff.mp h.head_eq.symm
  · rintro rfl
    exact ⟨rfl, Cycle.Chain.nil _, List.nodup_nil⟩

theorem rotate (l₁ : List α) (x : α) (l₂ : List α) :
    ((l₁ ++ x :: l₂ : List α) : Cycle α) = (x :: (l₂ ++ l₁) : List α) :=
  Cycle.coe_eq_coe.mpr List.isRotated_append

theorem links_of_mem (h : Ring next prev head (l₁ ++ x :: l₂)) :
    List.IsChain (Linked next prev) (x :: (l₂ ++ l₁ ++ [x])) := by
  have hchain := h.chain
  rwa [rotate, Cycle.chain_coe_cons] at hchain

theorem next_eq (h : Ring next prev head (l₁ ++ x :: l₂)) :
    next x = (l₂ ++ l₁ ++ [x]).head? := by
  have hlinks := h.links_of_mem
  generalize hs : l₂ ++ l₁ ++ [x] = s at hlinks
  cases s with
  | nil => simp at hs
  | cons b s => exact (List.isChain_cons_cons.mp hlinks).1.1

theorem prev_eq (h : Ring next prev head (l₁ ++ x :: l₂)) :
    prev x = (x :: (l₂ ++ l₁)).getLast? := by
  have hlinks := h.links_of_mem
  rw [← List.cons_append, List.isChain_append] at hlinks
  obtain ⟨z, hz⟩ : ∃ z, (x :: (l₂ ++ l₁)).getLast? = some z :=
    ⟨_, List.getLast?_eq_some_getLast (List.cons_ne_nil _ _)⟩
  rw [hz]
  exact (hlinks.2.2 z hz x rfl).2

theorem mem_of_next (h : Ring next prev head (l₁ ++ x :: l₂)) (hb : next x = some b) :
    b ∈ l₁ ++ x :: l₂ := by
  have hmem : b ∈ l₂ ++ l₁ ++ [x] := List.mem_of_head? (h.next_eq.symm.trans hb)
  simp only [List.mem_append, List.mem_cons, List.not_mem_nil] at hmem ⊢
  tauto

theorem mem_of_prev (h : Ring next prev head (l₁ ++ x :: l₂)) (hz : prev x = some z) :
    z ∈ l₁ ++ x :: l₂ := by
  have hmem : z ∈ x :: (l₂ ++ l₁) := List.mem_of_getLast? (h.prev_eq.symm.trans hz)
  simp only [List.mem_append, List.mem_cons] at hmem ⊢
  tauto

theorem linked_of_prev (h : Ring next prev head (l₁ ++ x :: l₂)) (hz : prev x = some z) :
    next z = some x := by
  have hlinks := h.links_of_mem
  rw [← List.cons_append, List.isChain_append] at hlinks
  exact (hlinks.2.2 z (h.prev_eq ▸ hz) x rfl).1

theorem linked_of_next (h : Ring next prev head (l₁ ++ x :: l₂)) (hb : next x = some b) :
    prev b = some x := by
  have hlinks := h.links_of_mem
  have hhead := h.next_eq
  generalize hs : l₂ ++ l₁ ++ [x] = s at hlinks hhead
  cases s with
  | nil => simp at hs
  | cons c s =>
    obtain rfl := Option.some.inj (hb.symm.trans hhead)
    exact (List.isChain_cons_cons.mp hlinks).1.2

theorem prev_head (h : Ring next prev head (a :: l)) : prev a = (a :: l).getLast? := by
  have hprev := @prev_eq _ _ _ _ _ [] _ h
  rwa [List.append_nil] at hprev

theorem mem_of_prev_head (h : Ring next prev head (a :: l)) (hz : prev a = some z) :
    z ∈ a :: l :=
  List.mem_of_getLast? (h.prev_head.symm.trans hz)

theorem linked_of_prev_head (h : Ring next prev head (a :: l)) (hz : prev a = some z) :
    next z = some a :=
  @linked_of_prev _ _ _ _ _ _ [] _ h hz

theorem congr (h : Ring next prev head l) (hn : ∀ a ∈ l, next' a = next a)
    (hp : ∀ a ∈ l, prev' a = prev a) : Ring next' prev' head l := by
  refine ⟨h.head_eq, ?_, h.nodup⟩
  cases l with
  | nil => exact Cycle.Chain.nil _
  | cons a l =>
    have hmem : ∀ c ∈ a :: (l ++ [a]), c ∈ a :: l := by
      intro c hc
      rcases List.mem_cons.mp hc with rfl | hc
      · exact List.mem_cons_self
      · rcases List.mem_append.mp hc with hc | hc
        · exact List.mem_cons_of_mem _ hc
        · exact List.mem_singleton.mp hc ▸ List.mem_cons_self
    have hchain := h.chain
    rw [Cycle.chain_coe_cons] at hchain ⊢
    refine hchain.imp_of_mem_imp fun c d hc hd hcd => ?_
    exact ⟨(hn c (hmem c hc)).trans hcd.1, (hp d (hmem d hd)).trans hcd.2⟩

theorem singleton (hn : next x = some x) (hp : prev x = some x) : Ring next prev (some x) [x] :=
  ⟨rfl, (Cycle.chain_singleton _ x).mpr ⟨hn, hp⟩, List.nodup_singleton x⟩

theorem head_cases (h : Ring next prev (some a) l) : ∃ m, l = a :: m := by
  cases l with
  | nil => cases h.head_eq
  | cons b m =>
    obtain rfl := Option.some.inj h.head_eq
    exact ⟨m, rfl⟩

theorem remove (h : Ring next prev head (l₁ ++ x :: l₂))
    (hn : ∀ z, prev x = some z → z ≠ x → next' z = next x)
    (hp : ∀ b, next x = some b → b ≠ x → prev' b = prev x)
    (hn' : ∀ c, c ≠ x → prev x ≠ some c → next' c = next c)
    (hp' : ∀ c, c ≠ x → next x ≠ some c → prev' c = prev c) :
    Ring next' prev' (l₁ ++ l₂).head? (l₁ ++ l₂) := by
  refine ⟨rfl, ?_, h.nodup.sublist (by simp)⟩
  have hcycle : ((l₁ ++ l₂ : List α) : Cycle α) = (l₂ ++ l₁ : List α) :=
    Cycle.coe_eq_coe.mpr List.isRotated_append
  rw [hcycle]
  have hlinks := h.links_of_mem
  have hnext := h.next_eq
  have hprev := h.prev_eq
  have hnot : x ∉ l₂ ++ l₁ := by
    have hnodup : (x :: (l₁ ++ l₂)).Nodup := List.perm_middle.nodup h.nodup
    intro hx
    exact (List.nodup_cons.mp hnodup).1 (List.mem_append.mpr (List.mem_append.mp hx).symm)
  generalize l₂ ++ l₁ = t at hlinks hnext hprev hnot
  cases t with
  | nil => exact Cycle.Chain.nil _
  | cons b m =>
    have hb : next x = some b := hnext
    rw [← List.cons_append, List.isChain_append] at hlinks
    obtain ⟨hfirst, -, -⟩ := hlinks
    have hxb : b ≠ x := fun he => hnot (he ▸ List.mem_cons_self)
    obtain ⟨-, hchain⟩ := List.isChain_cons_cons.mp hfirst
    rw [Cycle.chain_coe_cons, ← List.cons_append, List.isChain_append]
    refine ⟨hchain.imp_of_mem_imp fun c d hc hd hcd => ?_, List.isChain_singleton b, ?_⟩
    · have hcx : c ≠ x := ne_of_mem_of_not_mem hc hnot
      have hdx : d ≠ x := ne_of_mem_of_not_mem hd hnot
      constructor
      · rw [hn' c hcx fun hz => hdx ?_]
        · exact hcd.1
        · exact Option.some.inj (hcd.1.symm.trans (h.linked_of_prev hz))
      · rw [hp' d hdx fun hz => hcx ?_]
        · exact hcd.2
        · exact Option.some.inj (hcd.2.symm.trans (h.linked_of_next hz))
    · rintro z hz _ ⟨⟩
      have hz' : prev x = some z := hprev.trans hz
      have hzx : z ≠ x := ne_of_mem_of_not_mem (List.mem_of_getLast? hz) hnot
      exact ⟨(hn z hz' hzx).trans hb, (hp b hb hxb).trans hz'⟩

theorem insert (h : Ring next prev (some a) (a :: l)) (hx : x ∉ a :: l) (hz : prev a = some z)
    (hnx : next' x = some a) (hpx : prev' x = some z) (hnz : next' z = some x)
    (hpa : prev' a = some x) (hn : ∀ c, c ≠ x → c ≠ z → next' c = next c)
    (hp : ∀ c, c ≠ x → c ≠ a → prev' c = prev c) :
    Ring next' prev' (some a) (a :: l ++ [x]) := by
  have hlast : (a :: l).getLast? = some z := by
    exact h.prev_head.symm.trans hz
  have hnext : next z = some a := h.linked_of_prev_head hz
  have hchain := h.chain
  rw [Cycle.chain_coe_cons, ← List.cons_append, List.isChain_append] at hchain
  refine ⟨rfl, ?_, ?_⟩
  · rw [List.cons_append, Cycle.chain_coe_cons, List.append_assoc, ← List.cons_append,
      List.isChain_append]
    refine ⟨?_, List.isChain_pair.mpr ⟨hnx, hpa⟩, ?_⟩
    · refine hchain.1.imp_of_mem_tail_imp fun c d hc hd hcd => ?_
      have hda : d ≠ a := ne_of_mem_of_not_mem hd (List.nodup_cons.mp h.nodup).1
      have hcx : c ≠ x := ne_of_mem_of_not_mem hc hx
      have hdx : d ≠ x := ne_of_mem_of_not_mem (List.mem_of_mem_tail hd) hx
      have hcz : c ≠ z := by
        rintro rfl
        exact hda (Option.some.inj (hcd.1.symm.trans hnext))
      exact ⟨(hn c hcx hcz).trans hcd.1, (hp d hdx hda).trans hcd.2⟩
    · intro c hc d hd
      obtain rfl : z = c := Option.some.inj (hlast.symm.trans hc)
      obtain rfl : x = d := Option.some.inj hd
      exact ⟨hnz, hpx⟩
  · exact (List.perm_append_singleton x (a :: l)).nodup_iff.mpr (List.nodup_cons.mpr ⟨hx, h.nodup⟩)

theorem rotate_head (h : Ring next prev head (l ++ [x])) : Ring next prev (some x) (x :: l) := by
  refine ⟨rfl, ?_, (List.perm_append_singleton x l).nodup h.nodup⟩
  have hchain := h.chain
  rw [rotate] at hchain
  exact hchain

end Ring

end LinkedList
