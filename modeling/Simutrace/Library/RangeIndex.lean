import Mathlib.Order.SuccPred.Basic
import Mathlib.Data.List.Induction

/-! # Indexes of ranges

An index keeps ranges in the order of their starts, one for each start. A value
is looked up by the range that starts there, or else by the last range that
starts before it. This finds all values that inserted ranges contain if and only
if no range in the index cuts off a range that it starts in.
-/

/-- A closed range with the value it is inserted for. -/
structure RangeEntry (α β : Type*) where
  start : α
  stop : α
  val : β

namespace RangeIndex

variable {α β : Type*} [LinearOrder α] {l acc : List (RangeEntry α β)} {e x r : RangeEntry α β}
  {v : α}

/-- Insert a range, unless there is one with the same start already. -/
def insert (e : RangeEntry α β) : List (RangeEntry α β) → List (RangeEntry α β)
  | [] => [e]
  | x :: xs =>
    if e.start < x.start then e :: x :: xs
    else if x.start < e.start then x :: insert e xs
    else x :: xs

def stepBack (v : α) (l : List (RangeEntry α β)) : Option (RangeEntry α β) :=
  match (l.takeWhile fun x => x.start < v).getLast? with
  | some x => if v ≤ x.stop then some x else none
  | none => none

def find (v : α) (l : List (RangeEntry α β)) : Option (RangeEntry α β) :=
  match l.dropWhile fun x => x.start < v with
  | x :: _ => if v = x.start then some x else stepBack v l
  | [] => stepBack v l

abbrev Sorted (l : List (RangeEntry α β)) : Prop := l.Pairwise fun x y => x.start < y.start

def build (acc : List (RangeEntry α β)) : List (RangeEntry α β) :=
  acc.foldl (fun l e => insert e l) []

theorem mem_insert (hs : Sorted l) :
    x ∈ insert e l ↔ x ∈ l ∨ x = e ∧ ∀ y ∈ l, y.start ≠ e.start := by
  induction l with
  | nil => simp [insert]
  | cons y ys ih =>
    obtain ⟨hy, hys⟩ := List.pairwise_cons.mp hs
    unfold insert
    split_ifs with h₁ h₂
    · have hne : ∀ z ∈ y :: ys, z.start ≠ e.start := by
        intro z hz
        rcases List.mem_cons.mp hz with rfl | hz
        · exact h₁.ne'
        · exact (h₁.trans (hy z hz)).ne'
      rw [List.mem_cons, or_comm]
      exact or_congr_right (iff_self_and.mpr fun _ => hne)
    · rw [List.mem_cons, ih hys, List.forall_mem_cons, List.mem_cons]
      have := h₂.ne
      tauto
    · have heq : y.start = e.start := le_antisymm (not_lt.mp h₁) (not_lt.mp h₂)
      simp [heq]

theorem sorted_insert (hs : Sorted l) (e : RangeEntry α β) : Sorted (insert e l) := by
  induction l with
  | nil => simp [insert]
  | cons y ys ih =>
    obtain ⟨hy, hys⟩ := List.pairwise_cons.mp hs
    unfold insert
    split_ifs with h₁ h₂
    · refine List.pairwise_cons.mpr ⟨fun z hz => ?_, hs⟩
      rcases List.mem_cons.mp hz with rfl | hz
      · exact h₁
      · exact h₁.trans (hy z hz)
    · refine List.pairwise_cons.mpr ⟨fun z hz => ?_, ih hys⟩
      rcases (mem_insert hys).mp hz with hz | ⟨rfl, -⟩
      · exact hy z hz
      · exact h₂
    · exact hs

theorem build_append (acc : List (RangeEntry α β)) (e : RangeEntry α β) :
    build (acc ++ [e]) = insert e (build acc) := by
  simp [build]

theorem sorted_build (acc : List (RangeEntry α β)) : Sorted (build acc) := by
  induction acc using List.reverseRecOn with
  | nil => exact .nil
  | append_singleton acc e ih => rw [build_append]; exact sorted_insert ih e

/-- Of the ranges with one start the index has the one that was inserted first. -/
theorem mem_build : x ∈ build acc ↔ acc.find? (fun r => r.start = x.start) = some x := by
  induction acc using List.reverseRecOn generalizing x with
  | nil => simp [build]
  | append_singleton acc e ih =>
    rw [build_append, mem_insert (sorted_build acc), ih, List.find?_append]
    cases hf : acc.find? (fun r => r.start = x.start) with
    | some y =>
      have hy : y.start = x.start := by simpa using List.find?_some hf
      rw [Option.some_or]
      refine or_iff_left fun ⟨hx, hne⟩ => hne y (ih.mpr ?_) (hx ▸ hy)
      rwa [hy]
    | none =>
      have hnone : ∀ y ∈ build acc, y.start ≠ x.start := fun y hy he => by
        rw [ih, he, hf] at hy
        cases hy
      rw [Option.none_or, List.find?_singleton]
      constructor
      · rintro (h | ⟨rfl, -⟩)
        · cases h
        · simp
      · intro h
        split_ifs at h with he
        obtain rfl := Option.some.inj h
        exact Or.inr ⟨rfl, hnone⟩

theorem exists_mem_build (hr : r ∈ acc) : ∃ x ∈ build acc, x.start = r.start := by
  obtain ⟨x, hx⟩ : ∃ x, acc.find? (fun y => y.start = r.start) = some x :=
    Option.isSome_iff_exists.mp (List.find?_isSome.mpr ⟨r, hr, by simp⟩)
  have he : x.start = r.start := by simpa using List.find?_some hx
  exact ⟨x, mem_build.mpr (he ▸ hx), he⟩

theorem mem_of_mem_build (hx : x ∈ build acc) : x ∈ acc :=
  List.mem_of_find?_eq_some (mem_build.mp hx)

/-- The entry of the index that is consulted for a value: the last one that does not start
behind it. -/
structure IsFloor (l : List (RangeEntry α β)) (v : α) (x : RangeEntry α β) : Prop where
  mem : x ∈ l
  le : x.start ≤ v
  max : ∀ y ∈ l, y.start ≤ v → y.start ≤ x.start

theorem exists_isFloor (hx : x ∈ l) (hv : x.start ≤ v) : ∃ y, IsFloor l v y := by
  induction l generalizing x with
  | nil => cases hx
  | cons z zs ih =>
    by_cases hzs : ∃ y ∈ zs, y.start ≤ v
    · obtain ⟨y, hy, hyv⟩ := hzs
      obtain ⟨w, hw, hwv, hmax⟩ := ih hy hyv
      by_cases hz : z.start ≤ v ∧ w.start < z.start
      · refine ⟨z, List.mem_cons_self, hz.1, fun u hu huv => ?_⟩
        rcases List.mem_cons.mp hu with rfl | hu
        · exact le_rfl
        · exact (hmax u hu huv).trans hz.2.le
      · refine ⟨w, List.mem_cons_of_mem _ hw, hwv, fun u hu huv => ?_⟩
        rcases List.mem_cons.mp hu with rfl | hu
        · exact not_lt.mp fun hlt => hz ⟨huv, hlt⟩
        · exact hmax u hu huv
    · rcases List.mem_cons.mp hx with rfl | hx
      · refine ⟨x, List.mem_cons_self, hv, fun u hu huv => ?_⟩
        rcases List.mem_cons.mp hu with rfl | hu
        · exact le_rfl
        · exact (hzs ⟨u, hu, huv⟩).elim
      · exact (hzs ⟨x, hx, hv⟩).elim

theorem dropWhile_of_le (h : ∀ x ∈ l, v ≤ x.start) :
    l.dropWhile (fun x => x.start < v) = l ∧ l.takeWhile (fun x => x.start < v) = [] := by
  cases l with
  | nil => exact ⟨rfl, rfl⟩
  | cons x xs =>
    have hx : ¬ x.start < v := not_lt.mpr (h x List.mem_cons_self)
    simp [hx]

theorem find_of_isFloor (hs : Sorted l) (hx : IsFloor l v x) :
    find v l = if v = x.start ∨ v ≤ x.stop then some x else none := by
  obtain ⟨hm, hle, hmax⟩ := hx
  obtain ⟨pre, post, rfl⟩ := List.append_of_mem hm
  obtain ⟨-, hxpost, hpre⟩ := List.pairwise_append.mp hs
  have hbefore : ∀ y ∈ pre, decide (y.start < v) = true := fun y hy =>
    decide_eq_true ((hpre y hy x List.mem_cons_self).trans_le hle)
  have hafter : ∀ y ∈ post, v < y.start := fun y hy => by
    by_contra hlt
    have := hmax y (by simp [hy]) (not_lt.mp hlt)
    exact this.not_gt ((List.pairwise_cons.mp hxpost).1 y hy)
  obtain ⟨hdrop, htake⟩ := dropWhile_of_le fun y hy => (hafter y hy).le
  rcases hle.eq_or_lt with heq | hlt
  · -- the range that starts at the value is the lower bound itself
    obtain ⟨hdrop', -⟩ := dropWhile_of_le (v := v) (l := x :: post) fun y hy => by
      rcases List.mem_cons.mp hy with rfl | hy
      · exact heq.ge
      · exact (hafter y hy).le
    rw [find, List.dropWhile_append_of_pos hbefore, hdrop', if_pos (Or.inl heq.symm)]
    exact if_pos heq.symm
  · have hback : stepBack v (pre ++ x :: post) = if v ≤ x.stop then some x else none := by
      have hx : (x :: post).takeWhile (fun y => y.start < v) = [x] := by simp [hlt, htake]
      rw [stepBack, List.takeWhile_append_of_pos hbefore, hx, List.getLast?_concat]
    have hor : (v = x.start ∨ v ≤ x.stop) ↔ v ≤ x.stop := or_iff_right hlt.ne'
    have hx : (x :: post).dropWhile (fun y => y.start < v) = post := by simp [hlt, hdrop]
    rw [find, List.dropWhile_append_of_pos hbefore, hx, hback]
    simp only [hor]
    cases post with
    | nil => rfl
    | cons y ys => exact if_neg (hafter y List.mem_cons_self).ne

theorem find_eq_none (h : ∀ x ∈ l, v < x.start) : find v l = none := by
  obtain ⟨hdrop, htake⟩ := dropWhile_of_le fun x hx => (h x hx).le
  rw [find, stepBack, hdrop, htake]
  cases l with
  | nil => rfl
  | cons x xs => exact if_neg (h x List.mem_cons_self).ne

/-! ## Which values are found -/

def Contains (r : RangeEntry α β) (v : α) : Prop := r.start ≤ v ∧ v ≤ r.stop

structure FindsAll (acc : List (RangeEntry α β)) (v : α) : Prop where
  sound : ∀ x, find v (build acc) = some x → x ∈ acc ∧ Contains x v
  complete : (∃ r ∈ acc, Contains r v) → find v (build acc) ≠ none

/-- No range of the index ends, within a range that it starts in, before the next start. -/
def Uncut [SuccOrder α] (acc : List (RangeEntry α β)) : Prop :=
  ∀ r ∈ acc, ∀ x ∈ acc, acc.find? (fun y => y.start = x.start) = some x →
    Contains r x.start → r.stop ≤ x.stop ∨
      ∃ y ∈ acc, x.start < y.start ∧ y.start ≤ Order.succ x.stop

theorem find_sound (hv : ∀ r ∈ acc, r.start ≤ r.stop) (h : find v (build acc) = some x) :
    x ∈ acc ∧ Contains x v := by
  by_cases hf : ∃ y ∈ build acc, y.start ≤ v
  · obtain ⟨y, hy, hyv⟩ := hf
    obtain ⟨z, hz⟩ := exists_isFloor hy hyv
    rw [find_of_isFloor (sorted_build acc) hz] at h
    split_ifs at h with hc
    obtain rfl := Option.some.inj h
    have hm := mem_of_mem_build hz.mem
    refine ⟨hm, hz.le, ?_⟩
    rcases hc with rfl | hc
    · exact hv z hm
    · exact hc
  · rw [find_eq_none fun y hy => not_le.mp fun hle => hf ⟨y, hy, hle⟩] at h
    cases h

/-- The index finds the values of all ranges if and only if it cuts none of them off. -/
theorem findsAll_iff_uncut [SuccOrder α] (hv : ∀ r ∈ acc, r.start ≤ r.stop) :
    (∀ v, FindsAll acc v) ↔ Uncut acc := by
  constructor
  · intro h r hr x hx hfirst hc
    by_contra hcut
    rw [not_or, not_le] at hcut
    obtain ⟨hlt, hgap⟩ := hcut
    have hsucc : x.stop < Order.succ x.stop := Order.lt_succ_of_not_isMax fun hm =>
      (hm.not_lt hlt).elim
    have hle : x.start ≤ Order.succ x.stop := (hv x hx).trans hsucc.le
    -- just behind the end of `x` the lookup steps back to `x`, which does not reach there
    have hfloor : IsFloor (build acc) (Order.succ x.stop) x := by
      refine ⟨mem_build.mpr hfirst, hle, fun y hy hyv => not_lt.mp fun hxy => hgap ?_⟩
      exact ⟨y, mem_of_mem_build hy, hxy, hyv⟩
    refine (h (Order.succ x.stop)).complete
      ⟨r, hr, hc.1.trans hle, Order.succ_le_of_lt hlt⟩ ?_
    rw [find_of_isFloor (sorted_build acc) hfloor, if_neg]
    rintro (heq | hle')
    · exact ((hv x hx).trans_lt hsucc).ne' heq
    · exact hle'.not_gt hsucc
  · intro h v
    refine ⟨fun x => find_sound hv, fun ⟨r, hr, hc⟩ => ?_⟩
    obtain ⟨w, hw, hwr⟩ := exists_mem_build hr
    obtain ⟨x, hx⟩ := exists_isFloor hw (hwr ▸ hc.1)
    have hrx : r.start ≤ x.start := hwr ▸ hx.max w hw (hwr ▸ hc.1)
    rw [find_of_isFloor (sorted_build acc) hx, if_pos (Or.inr ?_)]
    · simp
    · rcases h r hr x (mem_of_mem_build hx.mem) (mem_build.mp hx.mem) ⟨hrx, hx.le.trans hc.2⟩ with
        hle | ⟨y, hy, hxy, hyx⟩
      · exact hc.2.trans hle
      · obtain ⟨z, hz, hzy⟩ := exists_mem_build hy
        by_contra hlt
        have := hx.max z hz (hzy ▸ hyx.trans (Order.succ_le_of_lt (not_le.mp hlt)))
        exact (hzy ▸ this).not_gt hxy

end RangeIndex
