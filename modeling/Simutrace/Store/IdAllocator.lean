import Mathlib.Algebra.Group.Nat.Defs
import Mathlib.Data.List.Induction
import Mathlib.Order.Lattice

/-! # Allocation of ids

An allocator hands out one id after the other. Opening a store steals the ids of
the streams that are loaded, in the order of the file. The allocator goes on
behind the id that was stolen last, also if greater ones are in use.
-/

namespace Simutrace

/-- The id that stands for none. -/
def invalidId (w : ℕ) : BitVec w := BitVec.allOnes w

abbrev ValidId (w : ℕ) := { id : BitVec w // id ≠ invalidId w }

structure IdAllocator (w : ℕ) where
  nextId : BitVec w

namespace IdAllocator

variable {w : ℕ}

def new : IdAllocator w := ⟨0⟩

def getNextId (a : IdAllocator w) : Option (BitVec w × IdAllocator w) :=
  if a.nextId = invalidId w then none else some (a.nextId, ⟨a.nextId + 1⟩)

def stealId (_ : IdAllocator w) (id : BitVec w) : IdAllocator w := ⟨id + 1⟩

def createStream (a : IdAllocator w) (id : BitVec w) : Option (BitVec w × IdAllocator w) :=
  if id = invalidId w then a.getNextId else some (id, a.stealId id)

inductive Call (w : ℕ)
  | getNextId
  | stealId (id : ValidId w)

def Call.createStream (id : BitVec w) : Call w :=
  if h : id = invalidId w then .getNextId else .stealId ⟨id, h⟩

/-- An allocator and the ids that it returned or that were stolen. -/
structure History (w : ℕ) where
  allocator : IdAllocator w
  used : List (BitVec w)

namespace History

def step (h : History w) : Call w → History w
  | .getNextId =>
    match h.allocator.getNextId with
    | none => h
    | some (id, a) => ⟨a, id :: h.used⟩
  | .stealId id => ⟨h.allocator.stealId id, id :: h.used⟩

def run (calls : List (Call w)) : History w := calls.foldl step ⟨new, []⟩

end History

open History

def ReturnsUnused (calls : List (Call w)) : Prop :=
  ∀ before after id a, calls = before ++ .getNextId :: after →
    (run before).allocator.getNextId = some (id, a) → id ∉ (run before).used

/-- Only ids that are not in use are stolen. -/
def StealsUnused (calls : List (Call w)) : Prop :=
  ∀ before id after, calls = before ++ .stealId id :: after → id.val ∉ (run before).used

/-- After an id is stolen, fewer ids are taken than there are up to any greater one that was stolen
before. -/
def StaysBelow (calls : List (Call w)) : Prop :=
  ∀ before id count after other,
    calls = before ++ .stealId id :: (List.replicate count .getNextId ++ after) →
    .stealId other ∈ before → id.val < other.val → id.val.toNat + count < other.val.toNat

variable {calls before after : List (Call w)} {c : Call w} {h : History w} {x : ValidId w}
  {k : ℕ} {u : BitVec w}

/-- The calls for the ids of streams are those of `createStream`. -/
theorem step_createStream (h : History w) (id : BitVec w) : h.step (.createStream id) =
    ((h.allocator.createStream id).map fun p => ⟨p.2, p.1 :: h.used⟩).getD h := by
  unfold Call.createStream IdAllocator.createStream
  split
  · unfold History.step
    cases h.allocator.getNextId <;> rfl
  · rfl

theorem run_append_singleton : run (calls ++ [c]) = (run calls).step c := by
  rw [run, List.foldl_append]
  rfl

theorem toNat_invalidId : (invalidId w).toNat = 2 ^ w - 1 :=
  BitVec.toNat_allOnes

theorem toNat_lt_invalidId (hx : u ≠ invalidId w) : u.toNat + 1 < 2 ^ w := by
  have hlt := u.isLt
  have hne : u.toNat ≠ 2 ^ w - 1 := fun he => hx (BitVec.eq_of_toNat_eq (by
    rw [he, toNat_invalidId]))
  omega

theorem toNat_succ (hx : u ≠ invalidId w) : (u + 1).toNat = u.toNat + 1 := by
  have hlt := toNat_lt_invalidId hx
  have hw : w ≠ 0 := by
    rintro rfl
    simp at hlt
  have hone : (1 : BitVec w).toNat = 1 := by
    rw [BitVec.ofNat_eq_ofNat, BitVec.toNat_ofNat, Nat.mod_eq_of_lt (Nat.one_lt_two_pow hw)]
  rw [BitVec.toNat_add, hone, Nat.mod_eq_of_lt hlt]

theorem getNextId_eq_some_iff {a a' : IdAllocator w} : a.getNextId = some (u, a') ↔
    a.nextId ≠ invalidId w ∧ a.nextId = u ∧ ⟨a.nextId + 1⟩ = a' := by
  unfold getNextId
  split <;> simp_all

theorem run_getNextId_of_invalid (h : (run calls).allocator.nextId = invalidId w) :
    run (calls ++ [.getNextId]) = run calls := by
  rw [run_append_singleton, History.step, IdAllocator.getNextId, if_pos h]

theorem run_getNextId (h : (run calls).allocator.nextId ≠ invalidId w) :
    run (calls ++ [.getNextId]) = ⟨⟨(run calls).allocator.nextId + 1⟩,
      (run calls).allocator.nextId :: (run calls).used⟩ := by
  rw [run_append_singleton, History.step, IdAllocator.getNextId, if_neg h]

theorem run_stealId :
    run (calls ++ [.stealId x]) = ⟨⟨x.val + 1⟩, x.val :: (run calls).used⟩ :=
  run_append_singleton

/-- Each used id was stolen or follows another one that is used, and so does the next id. -/
structure Chained (calls : List (Call w)) (h : History w) : Prop where
  used : ∀ u ∈ h.used, (∃ x, x.val = u ∧ .stealId x ∈ calls) ∨ u.toNat = 0 ∨
    ∃ v ∈ h.used, v.toNat + 1 = u.toNat
  next : h.allocator.nextId.toNat = 0 ∨ ∃ v ∈ h.used, v.toNat + 1 = h.allocator.nextId.toNat

theorem Chained.add (h : Chained calls (run calls)) {id : BitVec w} (valid : id ≠ invalidId w)
    (hid : (∃ x, x.val = id ∧ .stealId x ∈ calls ++ [c]) ∨ id.toNat = 0 ∨
      ∃ v ∈ (run calls).used, v.toNat + 1 = id.toNat) :
    Chained (calls ++ [c]) ⟨⟨id + 1⟩, id :: (run calls).used⟩ := by
  constructor
  · intro u hu
    have hprev (hv : ∃ v ∈ (run calls).used, v.toNat + 1 = u.toNat) :
        ∃ v ∈ id :: (run calls).used, v.toNat + 1 = u.toNat := by
      obtain ⟨v, hmem, hv⟩ := hv
      exact ⟨v, List.mem_cons_of_mem _ hmem, hv⟩
    rcases List.mem_cons.mp hu with rfl | hu
    · exact hid.imp_right (Or.imp_right hprev)
    · rcases h.used u hu with ⟨x, hx, hmem⟩ | hrest
      · exact Or.inl ⟨x, hx, List.mem_append_left _ hmem⟩
      · exact Or.inr (hrest.imp_right hprev)
  · exact Or.inr ⟨id, List.mem_cons_self, (toNat_succ valid).symm⟩

theorem chained (calls : List (Call w)) : Chained calls (run calls) := by
  induction calls using List.reverseRecOn with
  | nil => exact ⟨fun u hu => absurd hu List.not_mem_nil, Or.inl rfl⟩
  | append_singleton calls c ih =>
    cases c with
    | getNextId =>
      by_cases hnext : (run calls).allocator.nextId = invalidId w
      · rw [run_getNextId_of_invalid hnext]
        refine ⟨fun u hu => (ih.used u hu).imp_left ?_, ih.next⟩
        rintro ⟨x, hx, hmem⟩
        exact ⟨x, hx, List.mem_append_left _ hmem⟩
      · rw [run_getNextId hnext]
        exact ih.add hnext (Or.inr ih.next)
    | stealId x =>
      rw [run_stealId]
      exact ih.add x.property (Or.inl ⟨x, rfl, by simp⟩)

/-- The ids from the next one on are handed out, as long as there are any. -/
theorem run_append_replicate (before : List (Call w)) (k : ℕ) :
    (run (before ++ List.replicate k .getNextId)).allocator.nextId.toNat =
        min ((run before).allocator.nextId.toNat + k) (2 ^ w - 1) ∧
      ∀ u, u ∈ (run (before ++ List.replicate k .getNextId)).used ↔ u ∈ (run before).used ∨
        (run before).allocator.nextId.toNat ≤ u.toNat ∧
          u.toNat < min ((run before).allocator.nextId.toNat + k) (2 ^ w - 1) := by
  induction k with
  | zero =>
    have hlt := (run before).allocator.nextId.isLt
    rw [List.replicate_zero, List.append_nil]
    constructor
    · omega
    · intro u
      constructor
      · exact Or.inl
      · rintro (hu | hu)
        · exact hu
        · omega
  | succ k ih =>
    obtain ⟨hnext, hused⟩ := ih
    rw [List.replicate_succ', ← List.append_assoc]
    by_cases hvalid : (run (before ++ List.replicate k .getNextId)).allocator.nextId = invalidId w
    · rw [run_getNextId_of_invalid hvalid]
      rw [hvalid, toNat_invalidId] at hnext
      constructor
      · rw [hvalid, toNat_invalidId]
        omega
      · intro u
        rw [hused]
        constructor <;> exact Or.imp_right (by omega)
    · have hlast := toNat_lt_invalidId hvalid
      rw [run_getNextId hvalid]
      constructor
      · rw [toNat_succ hvalid]
        omega
      · intro u
        rw [List.mem_cons, hused, ← BitVec.toNat_inj, hnext]
        constructor
        · rintro (hu | hu | hu)
          · exact Or.inr (by omega)
          · exact Or.inl hu
          · exact Or.inr (by omega)
        · rintro (hu | hu)
          · exact Or.inr (Or.inl hu)
          · by_cases hlast : u.toNat = min ((run before).allocator.nextId.toNat + k) (2 ^ w - 1)
            · exact Or.inl hlast
            · exact Or.inr (Or.inr (by omega))

theorem stolen_mem_used (hx : .stealId x ∈ calls) : x.val ∈ (run calls).used := by
  induction calls using List.reverseRecOn with
  | nil => exact absurd hx List.not_mem_nil
  | append_singleton calls c ih =>
    have hrest (hc : .stealId x ≠ c) : x.val ∈ (run calls).used :=
      ih (by simpa [hc] using hx)
    cases c with
    | getNextId =>
      by_cases hnext : (run calls).allocator.nextId = invalidId w
      · rw [run_getNextId_of_invalid hnext]
        exact hrest (by simp)
      · rw [run_getNextId hnext]
        exact List.mem_cons_of_mem _ (hrest (by simp))
    | stealId y =>
      rw [run_stealId]
      by_cases hy : x = y
      · rw [hy]
        exact List.mem_cons_self
      · exact List.mem_cons_of_mem _ (hrest (by simpa using hy))

theorem eq_replicate_or_stealId (calls : List (Call w)) :
    (∃ k, calls = List.replicate k .getNextId) ∨
      ∃ before x k, calls = before ++ .stealId x :: List.replicate k .getNextId := by
  induction calls using List.reverseRecOn with
  | nil => exact Or.inl ⟨0, rfl⟩
  | append_singleton calls c ih =>
    cases c with
    | getNextId =>
      rcases ih with ⟨k, rfl⟩ | ⟨before, x, k, rfl⟩
      · exact Or.inl ⟨k + 1, List.replicate_succ'.symm⟩
      · exact Or.inr ⟨before, x, k + 1, by simp [List.replicate_succ']⟩
    | stealId x => exact Or.inr ⟨calls, x, 0, rfl⟩

/-- Below a used id there is a stolen one, or all ids are used. -/
theorem mem_used_of_not_stolen {d : ℕ} (hu : u ∈ (run calls).used)
    (hd : u.toNat = x.val.toNat + d)
    (hstolen : ∀ y, .stealId y ∈ calls → x.val < y.val → x.val.toNat + d < y.val.toNat) :
    x.val ∈ (run calls).used := by
  induction d generalizing u with
  | zero => rwa [← BitVec.eq_of_toNat_eq hd]
  | succ d ih =>
    rcases (chained calls).used u hu with ⟨y, rfl, hy⟩ | hzero | ⟨v, hv, hvu⟩
    · have := hstolen y hy (BitVec.lt_def.mpr (by omega))
      omega
    · omega
    · refine ih hv (by omega) fun y hy hlt => ?_
      have := hstolen y hy hlt
      omega

theorem returnsUnused_of_staysBelow (hs : StealsUnused calls) (hb : StaysBelow calls) :
    ReturnsUnused calls := by
  intro before after id a he hid hmem
  obtain ⟨hvalid, rfl, -⟩ := getNextId_eq_some_iff.mp hid
  have hlast := toNat_lt_invalidId hvalid
  rcases eq_replicate_or_stealId before with ⟨k, rfl⟩ | ⟨before, x, k, rfl⟩
  · obtain ⟨hnext, hused⟩ := run_append_replicate [] k
    rw [List.nil_append] at hnext hused
    have := ((hused _).mp hmem).resolve_left List.not_mem_nil
    omega
  · obtain ⟨hnext, hused⟩ := run_append_replicate (before ++ [.stealId x]) k
    have hx := toNat_lt_invalidId x.property
    rw [List.append_assoc, List.singleton_append, run_stealId] at hnext hused
    simp only [toNat_succ x.property, List.mem_cons] at hnext hused
    rcases (hused _).mp hmem with (heq | hbefore) | hafter
    · rw [heq] at hnext
      omega
    · have hcalls : calls =
          before ++ .stealId x :: (List.replicate (k + 1) .getNextId ++ after) := by
        simp [he, List.replicate_succ']
      refine hs before x _ hcalls (mem_used_of_not_stolen (d := k + 1) hbefore (by omega) ?_)
      intro y hy hlt
      exact hb before x (k + 1) after y hcalls hy hlt
    · omega

theorem staysBelow_of_returnsUnused (hr : ReturnsUnused calls) : StaysBelow calls := by
  intro before id count after other he hmem hlt
  by_contra hcount
  rw [BitVec.lt_def] at hlt
  obtain ⟨j, hj⟩ := Nat.exists_eq_add_of_lt hlt
  obtain ⟨rest, rfl⟩ := Nat.exists_eq_add_of_le (show j + 1 ≤ count by omega)
  obtain ⟨hnext, hused⟩ := run_append_replicate (before ++ [.stealId id]) j
  have hlast := toNat_lt_invalidId other.property
  rw [List.append_assoc, List.singleton_append, run_stealId] at hnext hused
  simp only [toNat_succ id.property] at hnext hused
  have hother : (run (before ++ .stealId id :: List.replicate j .getNextId)).allocator.nextId =
      other.val := BitVec.eq_of_toNat_eq (by omega)
  have hcalls : calls = (before ++ .stealId id :: List.replicate j .getNextId) ++
      .getNextId :: (List.replicate rest .getNextId ++ after) := by
    rw [he, ← List.replicate_append_replicate, List.replicate_succ']
    simp
  refine hr _ _ other.val _ hcalls (getNextId_eq_some_iff.mpr ⟨?_, hother, rfl⟩) ?_
  · rw [hother]
    exact other.property
  · exact (hused _).mpr (Or.inl (List.mem_cons_of_mem _ (stolen_mem_used hmem)))

/-- Ids are unique exactly if the allocator does not run into greater ids that were stolen
before. -/
theorem returnsUnused_iff (h : StealsUnused calls) : ReturnsUnused calls ↔ StaysBelow calls :=
  ⟨staysBelow_of_returnsUnused, returnsUnused_of_staysBelow h⟩

theorem staysBelow_of_ascending
    (h : calls.Pairwise fun c d => ∀ x y, c = .stealId x → d = .stealId y → x.val < y.val) :
    StaysBelow calls := by
  rintro before id count after other rfl hmem hlt
  have hasc := (List.pairwise_append.mp h).2.2 _ hmem _ List.mem_cons_self other id rfl rfl
  exact absurd hlt (BitVec.lt_asymm hasc)

theorem stealsUnused_nil : StealsUnused ([] : List (Call w)) := by
  intro before id after he
  simp at he

theorem StealsUnused.createStream (h : StealsUnused calls)
    (hu : u = invalidId w ∨ u ∉ (run calls).used) :
    StealsUnused (calls ++ [.createStream u]) := by
  intro before id after he
  rcases List.eq_nil_or_concat after with rfl | ⟨rest, d, rfl⟩
  · obtain ⟨rfl, hid⟩ := List.append_inj' he rfl
    unfold Call.createStream at hid
    split at hid
    · simp at hid
    · obtain rfl : ⟨u, _⟩ = id := by simpa using hid
      exact hu.resolve_left ‹_›
  · rw [List.concat_eq_append, ← List.cons_append, ← List.append_assoc] at he
    exact h before id rest (List.append_inj' he rfl).1

/-- The streams of a file are registered in a descending order, and then a new one is. -/
def descending : List (Call 32) :=
  [.createStream 1, .createStream 0, .createStream (invalidId 32)]

theorem not_returnsUnused_descending : StealsUnused descending ∧ ¬ ReturnsUnused descending := by
  constructor
  · exact ((stealsUnused_nil.createStream (u := 1) (by decide)).createStream
      (u := 0) (by decide)).createStream (by decide)
  · intro h
    exact h [.createStream 1, .createStream 0] [] 1 ⟨2⟩ rfl rfl (by decide)

def ascending : List (Call 32) :=
  [.createStream 0, .createStream 1, .createStream (invalidId 32)]

theorem returnsUnused_ascending : ReturnsUnused ascending := by
  refine (returnsUnused_iff ?_).mpr (staysBelow_of_ascending ?_)
  · exact ((stealsUnused_nil.createStream (u := 0) (by decide)).createStream
      (u := 1) (by decide)).createStream (by decide)
  · simp [ascending, Call.createStream, invalidId]
    rintro _ _ _ _ ⟨⟩ ⟨⟩
    exact (by decide : (0 : BitVec 32) < 1)

end IdAllocator

end Simutrace
