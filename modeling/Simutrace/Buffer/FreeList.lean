import Simutrace.Library.LinkedChain
import Mathlib.Data.List.Basic
import Mathlib.Tactic.FinCases

/-! # The free list of a stream buffer

The free segments form a stack that threads share without a lock. A thread
reads the head and its link and then swaps the head if it is still the same.
It may be the same segment with another link by then.
-/

namespace Simutrace

open LinkedList

variable {S T : Type*}

/-- Where a thread is in `_dequeueFromFreeList` or `_enqueueToFreeList`. -/
inductive FreeListPc (S : Type*)
  | idle
  | loaded (seg : S)
  | read (seg : S) (next : Option S)
  | taken (seg : S)
  | prepared (seg : S) (head : Option S)
  | linked (seg : S)
  deriving DecidableEq, Repr

/-- The segments that a thread works on as their owner. -/
def FreeListPc.Holds : FreeListPc S → S → Prop
  | .taken seg, x | .prepared seg _, x | .linked seg, x => seg = x
  | _, _ => False

/-- The free list with the positions of the threads and the segments they own. -/
structure FreeList (S T : Type*) where
  freeHead : Option S
  next : S → Option S
  pc : T → FreeListPc S
  owned : List (T × S)

/-- The atomic steps of the threads. -/
inductive FreeListAction (S T : Type*)
  | loadHead (t : T)
  | readNext (t : T)
  | swapDequeue (t : T)
  | clearNext (t : T)
  | loadHeadFor (t : T) (seg : S)
  | writeNext (t : T)
  | swapEnqueue (t : T)
  | pass (t t' : T) (seg : S)
  deriving DecidableEq, Repr

namespace FreeList

/-- No segment is owned twice, and every segment is either owned or found on the free list. -/
structure Safe (s : FreeList S T) : Prop where
  owner : (s.owned.map Prod.snd).Nodup
  free : ∀ x, Reaches s.next s.freeHead x ↔ x ∉ s.owned.map Prod.snd

def Fresh (s : FreeList S T) : FreeListAction S T → Prop
  | .swapDequeue t => ∀ seg next, s.pc t = .read seg next → s.freeHead = some seg →
      s.next seg = next
  | _ => True

def Initial (s : FreeList S T) : Prop :=
  (∃ l, Chain s.next s.freeHead l ∧ l.Nodup ∧ ∀ x, x ∈ l) ∧ (∀ t, s.pc t = .idle) ∧ s.owned = []

/-- The free segments form a chain, and threads only work on segments they own. -/
structure Inv (s : FreeList S T) : Prop where
  chain : ∃ l, Chain s.next s.freeHead l ∧ l.Nodup ∧ ∀ x, x ∈ l ↔ x ∉ s.owned.map Prod.snd
  owner : (s.owned.map Prod.snd).Nodup
  held : ∀ t seg, (s.pc t).Holds seg → (t, seg) ∈ s.owned

section

variable {s : FreeList S T} {t : T} {seg : S}

theorem Inv.safe (h : Inv s) : Safe s := by
  obtain ⟨l, hl, -, hmem⟩ := h.chain
  refine ⟨h.owner, fun x => ?_⟩
  rw [hl.reaches_iff, hmem]

theorem Initial.inv (h : Initial s) : Inv s := by
  obtain ⟨⟨l, hl, hn, hall⟩, hidle, howned⟩ := h
  refine ⟨⟨l, hl, hn, fun x => ?_⟩, ?_, fun t seg hs => ?_⟩
  · simp [howned, hall x]
  · simp [howned]
  · rw [hidle t] at hs
    cases hs

theorem Inv.not_mem_chain {l : List S} (hmem : ∀ x, x ∈ l ↔ x ∉ s.owned.map Prod.snd)
    (ho : (t, seg) ∈ s.owned) : seg ∉ l :=
  fun hl => (hmem seg).mp hl (List.mem_map_of_mem ho)

end

section

variable [DecidableEq T] (s : FreeList S T)

def setPc (t : T) (pc : FreeListPc S) : FreeList S T := { s with pc := Function.update s.pc t pc }

/-- Go on with the head that was found, or return if the list is empty. -/
def retryDequeue (t : T) : FreeList S T :=
  match s.freeHead with
  | none => s.setPc t .idle
  | some seg => s.setPc t (.loaded seg)

variable {s : FreeList S T} {t : T} {seg : S}

theorem holds_setPc {pc : FreeListPc S} {u : T} {x : S} (h : ((s.setPc t pc).pc u).Holds x) :
    (u = t ∧ pc.Holds x) ∨ (u ≠ t ∧ (s.pc u).Holds x) := by
  change (Function.update s.pc t pc u).Holds x at h
  by_cases hu : u = t
  · subst hu
    rw [Function.update_self] at h
    exact Or.inl ⟨rfl, h⟩
  · rw [Function.update_of_ne hu] at h
    exact Or.inr ⟨hu, h⟩

theorem Inv.setPc {pc : FreeListPc S} (h : Inv s) (hp : ∀ x, pc.Holds x → (t, x) ∈ s.owned) :
    Inv (s.setPc t pc) := by
  refine ⟨h.chain, h.owner, fun u x hx => ?_⟩
  rcases holds_setPc hx with ⟨rfl, hheld⟩ | ⟨-, hheld⟩
  · exact hp x hheld
  · exact h.held u x hheld

theorem Inv.setPc_of_owned {pc : FreeListPc S} (h : Inv s) (ho : (t, seg) ∈ s.owned)
    (hp : ∀ x, pc.Holds x → seg = x) : Inv (s.setPc t pc) := by
  refine h.setPc fun x hx => ?_
  obtain rfl := hp x hx
  exact ho

theorem Inv.retryDequeue (h : Inv s) (t : T) : Inv (s.retryDequeue t) := by
  rw [FreeList.retryDequeue]
  split
  · exact h.setPc fun _ hx => hx.elim
  · exact h.setPc fun _ hx => hx.elim

theorem Inv.swapDequeue (h : Inv s) (hhead : s.freeHead = some seg) (t : T) :
    Inv { s.setPc t (.taken seg) with freeHead := s.next seg, owned := (t, seg) :: s.owned } := by
  obtain ⟨l, hl, hn, hmem⟩ := h.chain
  cases l with
  | nil => cases hhead.symm.trans hl
  | cons a l =>
    obtain ⟨ha, hl⟩ := hl
    obtain rfl := Option.some.inj (hhead.symm.trans ha)
    obtain ⟨hnot, hn⟩ := List.nodup_cons.mp hn
    have hfree : seg ∉ s.owned.map Prod.snd := (hmem seg).mp List.mem_cons_self
    refine ⟨⟨l, hl, hn, fun x => ?_⟩, List.nodup_cons.mpr ⟨hfree, h.owner⟩, fun u x hx => ?_⟩
    · rw [List.map_cons, List.mem_cons, not_or, ← hmem, List.mem_cons]
      constructor
      · intro hx
        exact ⟨ne_of_mem_of_not_mem hx hnot, Or.inr hx⟩
      · rintro ⟨hne, hx⟩
        exact hx.resolve_left hne
    · rcases holds_setPc hx with ⟨rfl, hheld⟩ | ⟨-, hheld⟩
      · obtain rfl : seg = x := hheld
        exact List.mem_cons_self
      · exact List.mem_cons_of_mem _ (h.held u x hheld)

end

variable [DecidableEq S] [DecidableEq T] (s : FreeList S T)

def step : FreeListAction S T → Option (FreeList S T)
  | .loadHead t =>
    match s.pc t with
    | .idle => some (s.retryDequeue t)
    | _ => none
  | .readNext t =>
    match s.pc t with
    | .loaded seg => some (s.setPc t (.read seg (s.next seg)))
    | _ => none
  | .swapDequeue t =>
    match s.pc t with
    | .read seg next =>
      if s.freeHead = some seg then
        some { s.setPc t (.taken seg) with freeHead := next, owned := (t, seg) :: s.owned }
      else some (s.retryDequeue t)
    | _ => none
  | .clearNext t =>
    match s.pc t with
    | .taken seg => some { s.setPc t .idle with next := Function.update s.next seg none }
    | _ => none
  | .loadHeadFor t seg =>
    match s.pc t with
    | .idle => if (t, seg) ∈ s.owned then some (s.setPc t (.prepared seg s.freeHead)) else none
    | _ => none
  | .writeNext t =>
    match s.pc t with
    | .prepared seg head =>
      some { s.setPc t (.linked seg) with next := Function.update s.next seg head }
    | _ => none
  | .swapEnqueue t =>
    match s.pc t with
    | .linked seg =>
      if s.freeHead = s.next seg then
        some { s.setPc t .idle with freeHead := some seg, owned := s.owned.erase (t, seg) }
      else some (s.setPc t (.prepared seg s.freeHead))
    | _ => none
  | .pass t t' seg =>
    match s.pc t with
    | .idle =>
      if (t, seg) ∈ s.owned then some { s with owned := (t', seg) :: s.owned.erase (t, seg) }
      else none
    | _ => none

/-- An interleaving of the threads, with the states in which their steps were executed. -/
inductive Run (s₀ : FreeList S T) : List (FreeList S T × FreeListAction S T) → FreeList S T → Prop
  | refl : Run s₀ [] s₀
  | step {trace : List (FreeList S T × FreeListAction S T)} {s s' : FreeList S T}
      {a : FreeListAction S T} (run : Run s₀ trace s) (step : s.step a = some s') :
      Run s₀ (trace ++ [(s, a)]) s'

variable {s : FreeList S T} {s' : FreeList S T} {a : FreeListAction S T} {t : T} {seg : S}

omit [DecidableEq T] in
theorem Inv.updateNext (h : Inv s) (ho : (t, seg) ∈ s.owned) (n : Option S) :
    Inv { s with next := Function.update s.next seg n } := by
  obtain ⟨l, hl, hn, hmem⟩ := h.chain
  exact ⟨⟨l, hl.update (not_mem_chain hmem ho) n, hn, hmem⟩, h.owner, h.held⟩

theorem perm_owned (ho : (t, seg) ∈ s.owned) :
    (s.owned.map Prod.snd).Perm (seg :: (s.owned.erase (t, seg)).map Prod.snd) :=
  (List.perm_cons_erase ho).map Prod.snd

theorem Inv.swapEnqueue (h : Inv s) (ho : (t, seg) ∈ s.owned) (hhead : s.freeHead = s.next seg) :
    Inv { s.setPc t .idle with freeHead := some seg, owned := s.owned.erase (t, seg) } := by
  obtain ⟨l, hl, hn, hmem⟩ := h.chain
  have hperm := perm_owned ho
  obtain ⟨hnot, hnodup⟩ := List.nodup_cons.mp (hperm.nodup h.owner)
  refine ⟨⟨seg :: l, ⟨rfl, hhead ▸ hl⟩, List.nodup_cons.mpr ⟨not_mem_chain hmem ho, hn⟩,
    fun x => ?_⟩, hnodup, fun u x hx => ?_⟩
  · rw [List.mem_cons, hmem, hperm.mem_iff, List.mem_cons, not_or]
    constructor
    · rintro (rfl | ⟨-, hx⟩)
      · exact hnot
      · exact hx
    · intro hx
      by_cases he : x = seg
      · exact Or.inl he
      · exact Or.inr ⟨he, hx⟩
  · rcases holds_setPc hx with ⟨-, hheld⟩ | ⟨hu, hheld⟩
    · cases hheld
    · exact (List.mem_erase_of_ne fun he => hu (Prod.mk.inj he).1).mpr (h.held u x hheld)

theorem Inv.pass (h : Inv s) (ho : (t, seg) ∈ s.owned) (hidle : s.pc t = .idle) (t' : T) :
    Inv { s with owned := (t', seg) :: s.owned.erase (t, seg) } := by
  obtain ⟨l, hl, hn, hmem⟩ := h.chain
  have hperm := perm_owned ho
  refine ⟨⟨l, hl, hn, fun x => ?_⟩, hperm.nodup h.owner, fun u x hx => ?_⟩
  · rw [hmem, hperm.mem_iff, List.map_cons]
  · have hu : u ≠ t := by
      rintro rfl
      rw [hidle] at hx
      cases hx
    exact List.mem_cons_of_mem _
      ((List.mem_erase_of_ne fun he => hu (Prod.mk.inj he).1).mpr (h.held u x hx))

theorem Inv.step_swapDequeue (h : Inv s) (hf : s.Fresh (.swapDequeue t))
    (e : s.step (.swapDequeue t) = some s') : Inv s' := by
  rw [FreeList.step] at e
  split at e
  · rename_i seg next hpc
    split at e
    · rename_i hhead
      obtain rfl := Option.some.inj e
      rw [← hf seg next hpc hhead]
      exact h.swapDequeue hhead t
    · obtain rfl := Option.some.inj e
      exact h.retryDequeue t
  · cases e

theorem Inv.step_clearNext (h : Inv s) (e : s.step (.clearNext t) = some s') : Inv s' := by
  rw [FreeList.step] at e
  split at e
  · rename_i seg hpc
    obtain rfl := Option.some.inj e
    have ho : (t, seg) ∈ s.owned := h.held t seg (by rw [hpc]; rfl)
    exact (h.updateNext ho none).setPc fun _ hx => hx.elim
  · cases e

theorem Inv.step_writeNext (h : Inv s) (e : s.step (.writeNext t) = some s') : Inv s' := by
  rw [FreeList.step] at e
  split at e
  · rename_i seg head hpc
    obtain rfl := Option.some.inj e
    have ho : (t, seg) ∈ s.owned := h.held t seg (by rw [hpc]; rfl)
    exact Inv.setPc_of_owned (h.updateNext ho head) ho fun _ hx => hx
  · cases e

theorem Inv.step_swapEnqueue (h : Inv s) (e : s.step (.swapEnqueue t) = some s') : Inv s' := by
  rw [FreeList.step] at e
  split at e
  · rename_i seg hpc
    have ho : (t, seg) ∈ s.owned := h.held t seg (by rw [hpc]; rfl)
    split at e
    · rename_i hhead
      obtain rfl := Option.some.inj e
      exact h.swapEnqueue ho hhead
    · obtain rfl := Option.some.inj e
      exact h.setPc_of_owned ho fun _ hx => hx
  · cases e

/-- Every step keeps the free list as long as no thread swaps in an old link. -/
theorem Inv.step (h : Inv s) (hf : s.Fresh a) (e : s.step a = some s') : Inv s' := by
  cases a with
  | loadHead t =>
    rw [FreeList.step] at e
    split at e
    · obtain rfl := Option.some.inj e
      exact h.retryDequeue t
    · cases e
  | readNext t =>
    rw [FreeList.step] at e
    split at e
    · obtain rfl := Option.some.inj e
      exact h.setPc fun _ hx => hx.elim
    · cases e
  | swapDequeue t => exact h.step_swapDequeue hf e
  | clearNext t => exact h.step_clearNext e
  | loadHeadFor t seg =>
    rw [FreeList.step] at e
    split at e
    · split at e
      · rename_i ho
        obtain rfl := Option.some.inj e
        exact h.setPc_of_owned ho fun _ hx => hx
      · cases e
    · cases e
  | writeNext t => exact h.step_writeNext e
  | swapEnqueue t => exact h.step_swapEnqueue e
  | pass t t' seg =>
    rw [FreeList.step] at e
    split at e
    · rename_i hidle
      split at e
      · rename_i ho
        obtain rfl := Option.some.inj e
        exact h.pass ho hidle t'
      · cases e
    · cases e

/-- A thread that swaps in an old link loses segments or takes one from its owner. -/
theorem Inv.not_safe (h : Inv s) (hf : ¬ s.Fresh a) (e : s.step a = some s') : ¬ Safe s' := by
  intro hs
  apply hf
  cases a with
  | swapDequeue t =>
    intro seg next hpc hhead
    rw [FreeList.step, hpc] at e
    dsimp only at e
    rw [if_pos hhead] at e
    obtain rfl := Option.some.inj e
    obtain ⟨l, hl, hn, hmem⟩ := h.chain
    cases l with
    | nil => cases hhead.symm.trans hl
    | cons a l =>
      obtain ⟨ha, hl⟩ := hl
      obtain rfl := Option.some.inj (hhead.symm.trans ha)
      obtain ⟨hnot, hn⟩ := List.nodup_cons.mp hn
      have hreach : ∀ x, Reaches s.next next x ↔ x ∈ l := by
        intro x
        have hfree : Reaches s.next next x ↔ x ∉ seg :: s.owned.map Prod.snd := hs.free x
        rw [hfree, List.mem_cons, not_or, ← hmem, List.mem_cons]
        constructor
        · rintro ⟨hne, hx⟩
          exact hx.resolve_left hne
        · intro hx
          exact ⟨ne_of_mem_of_not_mem hx hnot, Or.inr hx⟩
      exact hl.eq_of_reaches hn hreach
  | _ => trivial

variable {s₀ : FreeList S T} {trace : List (FreeList S T × FreeListAction S T)}

theorem Run.inv (hi : Initial s₀) (h : Run s₀ trace s) (hf : ∀ p ∈ trace, p.1.Fresh p.2) :
    Inv s ∧ ∀ p ∈ trace, Safe p.1 := by
  induction h with
  | refl => exact ⟨hi.inv, fun p hp => by cases hp⟩
  | step run e ih =>
    obtain ⟨hinv, hsafe⟩ := ih fun p hp => hf p (List.mem_append_left _ hp)
    refine ⟨hinv.step (hf _ List.mem_concat_self) e, fun p hp => ?_⟩
    rcases List.mem_append.mp hp with hp | hp
    · exact hsafe p hp
    · obtain rfl := List.mem_singleton.mp hp
      exact hinv.safe

/-- The free list is safe throughout a run if and only if no thread swaps in an old link. -/
theorem safe_iff_fresh (hi : Initial s₀) (h : Run s₀ trace s) :
    ((∀ p ∈ trace, Safe p.1) ∧ Safe s) ↔ ∀ p ∈ trace, p.1.Fresh p.2 := by
  constructor
  · rintro ⟨hsafe, hs⟩
    induction h with
    | refl => exact fun p hp => by cases hp
    | step run e ih =>
      have hf := ih (fun p hp => hsafe p (List.mem_append_left _ hp))
        (hsafe _ List.mem_concat_self)
      intro p hp
      rcases List.mem_append.mp hp with hp | hp
      · exact hf p hp
      · obtain rfl := List.mem_singleton.mp hp
        by_contra hnot
        exact (run.inv hi hf).1.not_safe hnot e hs
  · intro hf
    obtain ⟨hinv, hsafe⟩ := h.inv hi hf
    exact ⟨hsafe, hinv.safe⟩

inductive ThreeSegments | first | second | third
  deriving DecidableEq, Repr

def three : FreeList ThreeSegments Bool where
  freeHead := some .first
  next
    | .first => some .second
    | .second => some .third
    | .third => none
  pc := fun _ => .idle
  owned := []

theorem three_initial : Initial three :=
  ⟨⟨[.first, .second, .third], ⟨rfl, rfl, rfl, rfl⟩, by decide, fun x => by cases x <;> decide⟩,
    fun _ => rfl, rfl⟩

/-- A thread takes the first segment while the other one has found the same head. -/
theorem safe_iff_fresh_three : ∃ trace s, Run three trace s ∧ s.owned = [(true, .first)] ∧
    (∀ p ∈ trace, Safe p.1) ∧ Safe s := by
  have hrun := Run.step (Run.step (Run.step (Run.step (@Run.refl _ _ _ _ three)
    (a := .loadHead false) rfl) (a := .loadHead true) rfl) (a := .readNext true) rfl)
    (a := .swapDequeue true) rfl
  refine ⟨_, _, hrun, rfl, (safe_iff_fresh three_initial hrun).mpr ?_⟩
  intro p hp
  fin_cases hp
  · trivial
  · trivial
  · trivial
  · rintro seg next ⟨⟩ -
    rfl

def exec (s : FreeList S T) : List (FreeListAction S T) → Option (FreeList S T)
  | [] => some s
  | a :: as => (s.step a).bind fun s' => s'.exec as

theorem Run.exec {as : List (FreeListAction S T)} (h : Run s₀ trace s) (e : s.exec as = some s') :
    ∃ trace', Run s₀ trace' s' := by
  induction as generalizing s trace with
  | nil =>
    obtain rfl := Option.some.inj e
    exact ⟨trace, h⟩
  | cons a as ih =>
    obtain ⟨s₁, h₁, e⟩ := Option.bind_eq_some_iff.mp e
    exact ih (h.step h₁) e

/-- While a thread stands between its read and its swap, the other one takes two segments and
returns the first. The swap then makes the second one the head although it has an owner. -/
theorem not_safe_of_returned_head : ∃ trace s, Run three trace s ∧ ¬ Safe s := by
  have hexec : ∃ s, three.exec [.loadHead false, .readNext false,
      .loadHead true, .readNext true, .swapDequeue true, .clearNext true,
      .loadHead true, .readNext true, .swapDequeue true, .clearNext true,
      .loadHeadFor true .first, .writeNext true, .swapEnqueue true, .swapDequeue false] = some s ∧
      s.freeHead = some .second ∧ (true, .second) ∈ s.owned := ⟨_, rfl, rfl, by decide⟩
  obtain ⟨s, hexec, hhead, howned⟩ := hexec
  obtain ⟨trace, hrun⟩ := Run.refl.exec hexec
  refine ⟨trace, s, hrun, fun hs => ?_⟩
  exact (hs.free .second).mp ⟨.second, hhead, .refl⟩ (List.mem_map_of_mem howned)

end FreeList

end Simutrace
