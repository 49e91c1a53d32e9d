import Mathlib.Data.List.Count
import Mathlib.Data.List.Find
import Mathlib.Data.List.Nodup
import Mathlib.Data.List.Range
import Mathlib.Order.Basic

/-! # Round robin

Participants take turns in a cyclic order, each of them until its quota is used
up. Between two turns of one participant all the others that have turns left
then have exactly one.
-/

namespace RoundRobin

variable (n : ℕ) (quota : ℕ → ℕ)

/-- The other participants, in their order after the given one. -/
def after (i : ℕ) : List ℕ := (List.range n).drop (i + 1) ++ (List.range n).take i

/-- The participant has turns left. -/
def Active (turns : List ℕ) (j : ℕ) : Prop := turns.count j < quota j

instance (turns : List ℕ) : DecidablePred (Active quota turns) :=
  fun _ => inferInstanceAs (Decidable (_ < _))

def successor (turns : List ℕ) (i : ℕ) : Option ℕ :=
  (after n i ++ [i]).find? fun j => Active quota turns j

def Follows (turns : List ℕ) : Prop :=
  ∀ before i j rest, turns = before ++ i :: j :: rest →
    successor n quota (before ++ [i]) i = some j

/-- Between two turns of one participant, the others that have turns left have one, in their cyclic
order. -/
def Alternates (turns : List ℕ) : Prop :=
  ∀ before i between rest, turns = before ++ i :: (between ++ i :: rest) → i ∉ between →
    between = (after n i).filter fun j => Active quota before j

/-- The participants before the one that has the next turn are one turn ahead of the others, as far
as their quotas allow. -/
def InRound (turns : List ℕ) (next round : ℕ) : Prop :=
  ∀ j < n, turns.count j = min (quota j) (if j < next then round + 1 else round)

variable {n quota} {turns before rest : List ℕ} {i j : ℕ}

theorem range_eq (h : i < n) :
    List.range n = (List.range n).take i ++ i :: (List.range n).drop (i + 1) := by
  have hlt : i < (List.range n).length := by rwa [List.length_range]
  conv_lhs => rw [← List.take_append_drop i (List.range n)]
  rw [List.drop_eq_getElem_cons hlt, List.getElem_range]

theorem after_eq {a b : List ℕ} (h : List.range n = a ++ i :: b) : after n i = b ++ a := by
  have hi : a.length = i := by
    have hlt : a.length < (List.range n).length := by
      rw [h, List.length_append, List.length_cons]
      omega
    have hget : (List.range n)[a.length] = i := by simp [h]
    simpa using hget
  unfold after
  rw [h, ← hi, List.take_left, ← List.drop_drop, List.drop_left]
  rfl

theorem after_rotated {a b : List ℕ} (hi : i < n) (h : i :: after n i = a ++ j :: b) :
    after n j = b ++ a := by
  have hrange := range_eq hi
  rcases a with _ | ⟨a₀, a⟩
  · obtain ⟨rfl, rfl⟩ := List.cons.inj h
    rw [List.append_nil]
  · obtain ⟨rfl, htail⟩ := List.cons.inj h
    -- the participant is either behind or before the one that the order begins with
    unfold after at htail
    rcases List.append_eq_append_iff.mp htail with ⟨c, ha, hc⟩ | ⟨c, hdrop, hc⟩
    · have hsplit : List.range n = c ++ j :: (b ++ i :: (List.range n).drop (i + 1)) := by
        conv_lhs => rw [hrange]
        rw [hc]
        simp
      rw [after_eq hsplit, ha]
      simp
    · rcases c with _ | ⟨c₀, c⟩
      · have hsplit : List.range n =
            [] ++ j :: (b ++ i :: (List.range n).drop (i + 1)) := by
          conv_lhs => rw [hrange]
          rw [show (List.range n).take i = j :: b from hc.symm]
          simp
        rw [after_eq hsplit, hdrop]
        simp
      · obtain ⟨rfl, hb⟩ := List.cons.inj hc
        have hsplit : List.range n = ((List.range n).take i ++ i :: a) ++ j :: c := by
          conv_lhs => rw [hrange]
          rw [hdrop]
          simp
        rw [after_eq hsplit, hb]
        simp

theorem notMem_after (hi : i < n) : i ∉ after n i := by
  have hnodup : (List.range n).Nodup := List.nodup_range
  rw [range_eq hi, List.nodup_middle, List.nodup_cons, List.mem_append, not_or] at hnodup
  unfold after
  rw [List.mem_append, not_or]
  exact ⟨hnodup.1.2, hnodup.1.1⟩

theorem mem_after (hi : i < n) : j ∈ after n i ↔ j < n ∧ j ≠ i := by
  have hmem : j ∈ i :: after n i ↔ j < n := by
    rw [← List.mem_range (m := j), range_eq hi]
    unfold after
    simp only [List.mem_cons, List.mem_append]
    tauto
  constructor
  · intro h
    exact ⟨hmem.mp (List.mem_cons_of_mem _ h), fun hji => notMem_after hi (hji ▸ h)⟩
  · rintro ⟨hj, hne⟩
    exact (List.mem_cons.mp (hmem.mpr hj)).resolve_left hne

theorem active_append_of_ne (h : j ≠ i) :
    Active quota (turns ++ [i]) j ↔ Active quota turns j := by
  unfold Active
  rw [List.count_append, List.count_singleton, if_neg (by simpa using Ne.symm h), Nat.add_zero]

theorem filter_append_of_notMem {l : List ℕ} (h : i ∉ l) :
    (l.filter fun j => Active quota (turns ++ [i]) j) = l.filter fun j => Active quota turns j := by
  refine List.filter_congr fun j hj => ?_
  rw [decide_eq_decide]
  exact active_append_of_ne fun hji => h (hji ▸ hj)

theorem Active.of_append {more : List ℕ} (h : Active quota (turns ++ more) j) :
    Active quota turns j := by
  unfold Active at h ⊢
  rw [List.count_append] at h
  omega

theorem active_of_successor (h : successor n quota turns i = some j) : Active quota turns j := by
  simpa using List.find?_some h

theorem Follows.active (h : Follows n quota turns) {between : List ℕ}
    (split : turns = before ++ i :: (between ++ j :: rest)) :
    Active quota (before ++ i :: between) j := by
  rcases List.eq_nil_or_concat between with rfl | ⟨between', k, rfl⟩
  · have := active_of_successor (h before i j rest split)
    simpa using this
  · have hsplit : turns = (before ++ i :: between') ++ k :: j :: rest := by simp [split]
    simpa using active_of_successor (h _ k j rest hsplit)

/-- The last of the participants in `u` that had turns left, and the ones behind it. -/
theorem exists_last (i : ℕ) (p : ℕ → Bool) (u : List ℕ) : ∃ a x b, i :: u = a ++ x :: b ∧
    (∀ j ∈ b, ¬ p j = true) ∧ (a ++ [x]).head? = some i ∧
    ∃ pre, i :: u.filter p = pre ++ [x] := by
  rcases List.eq_nil_or_concat (u.filter p) with hnil | ⟨pre, x, hu⟩
  · refine ⟨[], i, u, rfl, fun j hj => ?_, rfl, [], by rw [hnil]; rfl⟩
    exact List.filter_eq_nil_iff.mp hnil j hj
  · rw [List.concat_eq_append] at hu
    obtain ⟨l₁, l₂, rfl, h₁, h₂⟩ := List.filter_eq_append_iff.mp hu
    obtain ⟨c, b, rfl, -, -, hb⟩ := List.filter_eq_cons_iff.mp h₂
    refine ⟨i :: (l₁ ++ c), x, b, by simp, ?_, rfl, i :: pre, by rw [hu]; rfl⟩
    exact List.filter_eq_nil_iff.mp hb

/-- After a turn of `i` and of those in `u`, the next turn is of the first one in `v`, or of `i`. -/
theorem Follows.next (h : Follows n quota turns) (hi : i < n) {u v : List ℕ}
    (order : after n i = u ++ v)
    (split : turns = before ++ i :: ((u.filter fun j => Active quota before j) ++ j :: rest)) :
    (∀ z w, (v.filter fun j => Active quota before j) = z :: w → j = z) ∧
      ((v.filter fun j => Active quota before j) = [] →
        Active quota (before ++ i :: u.filter fun j => Active quota before j) i → j = i) := by
  obtain ⟨a, x, b, hu, hb, hhead, pre, hpre⟩ :=
    exists_last i (fun j => decide (Active quota before j)) u
  have hnodup : (i :: after n i).Nodup := by
    have hrange : (List.range n).Nodup := List.nodup_range
    rw [range_eq hi, List.nodup_middle, List.nodup_cons] at hrange
    rw [List.nodup_cons]
    refine ⟨notMem_after hi, ?_⟩
    exact (List.perm_append_comm.nodup_iff.mp hrange.2)
  have hring : i :: after n i = a ++ x :: (b ++ v) := by
    rw [order, ← List.cons_append, hu]
    simp
  have hsuccessor : successor n quota (before ++ (pre ++ [x])) x = some j := by
    rw [← List.append_assoc]
    refine h (before ++ pre) x j rest ?_
    rw [split, ← List.cons_append, hpre]
    simp
  have hturn (k : ℕ) (hk : k ∈ v) :
      Active quota (before ++ (pre ++ [x])) k ↔ Active quota before k := by
    have hnot : k ∉ pre ++ [x] := by
      rw [← hpre]
      intro hmem
      rw [order, ← List.cons_append] at hnodup
      refine List.disjoint_of_nodup_append hnodup ?_ hk
      rcases List.mem_cons.mp hmem with rfl | hmem
      · exact List.mem_cons_self
      · exact List.mem_cons_of_mem _ (List.mem_of_mem_filter hmem)
    unfold Active
    rw [List.count_append, List.count_eq_zero.mpr hnot, Nat.add_zero]
  have hb' : (b.find? fun k => decide (Active quota (before ++ (pre ++ [x])) k)) = none := by
    rw [List.find?_eq_none]
    intro k hk hactive
    exact hb k hk (decide_eq_true (of_decide_eq_true hactive).of_append)
  have hv : (v.find? fun k => decide (Active quota (before ++ (pre ++ [x])) k)) =
      (v.filter fun k => Active quota before k).head? := by
    rw [List.head?_filter]
    exact List.find?_congr fun k hk => decide_eq_decide.mpr (hturn k hk)
  unfold successor at hsuccessor
  rw [after_rotated hi hring, List.append_assoc, List.append_assoc, List.find?_append, hb',
    Option.none_or, List.find?_append, hv] at hsuccessor
  constructor
  · rintro z w hz
    rw [hz] at hsuccessor
    exact (Option.some.inj hsuccessor).symm
  · rintro hz hactive
    rw [hpre] at hactive
    rw [hz, List.head?_nil, Option.none_or] at hsuccessor
    rcases hax : a ++ [x] with _ | ⟨y, l⟩
    · simp at hax
    · rw [hax] at hhead hsuccessor
      obtain rfl := Option.some.inj hhead
      rw [List.find?_cons_of_pos (by simpa using hactive)] at hsuccessor
      exact (Option.some.inj hsuccessor).symm

/-- From one turn on, the others that have turns left follow in their order. Those of `u` have had
their turns. -/
theorem Follows.between (h : Follows n quota turns) (hi : i < n) {u v between : List ℕ}
    (order : after n i = u ++ v)
    (split : turns = before ++ i :: ((u.filter fun j => Active quota before j) ++
      (between ++ i :: rest)))
    (other : i ∉ between) : between = v.filter fun j => Active quota before j := by
  induction hv : (v.filter fun j => Active quota before j) generalizing u v between with
  | nil =>
    rcases between with _ | ⟨y, between⟩
    · rfl
    · have hsplit : turns = before ++ i ::
          (((u.filter fun j => Active quota before j) ++ y :: between) ++ i :: rest) := by
        rw [split]
        simp
      have hactive := h.active hsplit
      rw [← List.cons_append, ← List.append_assoc] at hactive
      obtain rfl := (h.next hi order (by rw [split]; rfl)).2 hv hactive.of_append
      exact absurd List.mem_cons_self other
  | cons z w ih =>
    obtain ⟨v₁, v₂, rfl, h₁, hz, rfl⟩ := List.filter_eq_cons_iff.mp hv
    rcases between with _ | ⟨y, between⟩
    · obtain rfl := (h.next hi order (by rw [split]; rfl)).1 z _ hv
      refine absurd ?_ (notMem_after hi)
      rw [order]
      simp
    · obtain rfl := (h.next hi order (by rw [split]; rfl)).1 z _ hv
      have hnil : (v₁.filter fun j => decide (Active quota before j)) = [] :=
        List.filter_eq_nil_iff.mpr h₁
      have hfilter : ((u ++ (v₁ ++ [y])).filter fun j => decide (Active quota before j)) =
          (u.filter fun j => decide (Active quota before j)) ++ [y] := by
        rw [List.filter_append, List.filter_append, hnil, List.nil_append]
        exact congrArg _ (List.filter_cons_of_pos (p := fun j => decide (Active quota before j)) hz)
      have hrest := @ih (u ++ (v₁ ++ [y])) v₂ between (by rw [order]; simp)
        (by rw [split, hfilter]; simp) (fun hmem => other (List.mem_cons_of_mem _ hmem)) rfl
      rw [hrest]

theorem Follows.alternates (h : Follows n quota turns) (bound : ∀ i ∈ turns, i < n) :
    Alternates n quota turns := by
  intro before i between rest split other
  have hi : i < n := bound i (by rw [split]; simp)
  exact h.between hi (u := []) (v := after n i) rfl split other

/-! ## Rounds -/

variable (n quota) in
inductive Turns : List ℕ → ℕ → Prop
  | start {i : ℕ} (first : ((List.range n).find? fun j => Active quota [] j) = some i) : Turns [] i
  | next {turns : List ℕ} {i j : ℕ} (so_far : Turns turns i)
      (follows : successor n quota (turns ++ [i]) i = some j) : Turns (turns ++ [i]) j

theorem successor_cases (hi : i < n) (h : successor n quota turns i = some j) :
    Active quota turns j ∧ j < n ∧
      (i < j ∧ (∀ k, i < k → k < j → ¬ Active quota turns k) ∨
        j ≤ i ∧ (∀ k, i < k → k < n → ¬ Active quota turns k) ∧
          ∀ k < j, ¬ Active quota turns k) := by
  refine ⟨active_of_successor h, ?_⟩
  have hmem : j < n := by
    have hj := List.mem_of_find?_eq_some h
    rcases List.mem_append.mp hj with hj | hj
    · exact ((mem_after hi).mp hj).1
    · exact List.mem_singleton.mp hj ▸ hi
  refine ⟨hmem, ?_⟩
  have htake : (List.range n).take i = List.range i := by
    rw [List.take_range, min_eq_left hi.le]
  have hdrop : (List.range n).drop (i + 1) = List.range' (i + 1) (n - (i + 1)) := by
    rw [List.range_eq_range', List.drop_range']
    simp
  unfold successor after at h
  rw [htake, hdrop, List.append_assoc, List.find?_append] at h
  rcases Option.or_eq_some_iff.mp h with h | ⟨hnone, h⟩
  · obtain ⟨-, hj, hbefore⟩ := List.find?_range'_eq_some.mp h
    have hlt : i < j := by
      have := (List.mem_range'_1.mp hj).1
      omega
    exact .inl ⟨hlt, fun k hk hkj hactive =>
      absurd (hbefore k hk hkj) (by simpa using hactive)⟩
  · have hrange : List.range i ++ [i] = List.range (i + 1) := List.range_succ.symm
    rw [hrange] at h
    obtain ⟨-, hj, hbefore⟩ := List.find?_range_eq_some.mp h
    refine .inr ⟨Nat.lt_succ_iff.mp (List.mem_range.mp hj), fun k hk hkn => ?_, fun k hk => ?_⟩
    · have := List.find?_eq_none.mp hnone k (List.mem_range'_1.mpr ⟨hk, by omega⟩)
      simpa using this
    · simpa using hbefore k hk

/-- The next turn is one of the same round or the first one of the next round. -/
theorem InRound.next {round : ℕ} (h : InRound n quota turns i round) (hi : i < n)
    (active : Active quota turns i) (follows : successor n quota (turns ++ [i]) i = some j) :
    ∃ round', InRound n quota (turns ++ [i]) j round' := by
  have hself : (turns ++ [i]).count i = turns.count i + 1 := by simp
  have hother {k : ℕ} (hk : k ≠ i) : (turns ++ [i]).count k = turns.count k := by
    rw [List.count_append, List.count_singleton, if_neg (by simpa using hk.symm), Nat.add_zero]
  have hi' := h i hi
  rw [if_neg (lt_irrefl i)] at hi'
  unfold Active at active
  obtain ⟨-, -, ⟨hlt, hbetween⟩ | ⟨hle, hbehind, hbefore⟩⟩ := successor_cases hi follows
  · refine ⟨round, fun k hk => ?_⟩
    by_cases hki : k = i
    · subst hki
      rw [hself, if_pos hlt]
      omega
    · have hk' := h k hk
      have hnot := hbetween k
      unfold Active at hnot
      rw [hother hki] at hnot ⊢
      split_ifs at hk' ⊢ <;> omega
  · refine ⟨round + 1, fun k hk => ?_⟩
    by_cases hki : k = i
    · subst hki
      rw [hself, if_neg (by omega)]
      omega
    · have hk' := h k hk
      have hnot := hbehind k
      have hnot' := hbefore k
      unfold Active at hnot hnot'
      rw [hother hki] at hnot hnot' ⊢
      split_ifs at hk' ⊢ <;> omega

theorem InRound.start (first : ((List.range n).find? fun j => Active quota [] j) = some i) :
    InRound n quota [] i 0 := by
  intro j hj
  rw [List.count_nil]
  split
  · rename_i hlt
    obtain ⟨-, -, hbefore⟩ := List.find?_range_eq_some.mp first
    have hnot : ¬ Active quota [] j := by simpa using hbefore j hlt
    unfold Active at hnot
    rw [List.count_nil] at hnot
    omega
  · omega

/-- The next turn is one of a participant that has turns left, in some round. -/
theorem Turns.inRound (h : Turns n quota turns i) :
    i < n ∧ Active quota turns i ∧ ∃ round, InRound n quota turns i round := by
  induction h with
  | start first =>
    refine ⟨?_, by simpa using List.find?_some first, 0, .start first⟩
    simpa using List.mem_of_find?_eq_some first
  | next _ follows ih =>
    obtain ⟨hi, hactive, round, hround⟩ := ih
    obtain ⟨hj, hlt, -⟩ := successor_cases hi follows
    exact ⟨hlt, hj, hround.next hi hactive follows⟩

theorem Turns.take {b : ℕ} (h : Turns n quota turns i) (split : turns = before ++ b :: rest) :
    Turns n quota before b := by
  induction h generalizing rest with
  | start => simp at split
  | next so_far _ ih =>
    rcases List.eq_nil_or_concat rest with rfl | ⟨rest, k, rfl⟩
    · obtain ⟨rfl, heq⟩ := List.append_inj' split rfl
      obtain rfl := (List.cons.inj heq).1
      exact so_far
    · rw [List.concat_eq_append, ← List.cons_append, ← List.append_assoc] at split
      exact ih (List.append_inj' split rfl).1

theorem Turns.follows (h : Turns n quota turns i) : Follows n quota (turns ++ [i]) := by
  induction h with
  | start =>
    intro before k l rest split
    have hlength := congrArg List.length split
    rw [List.nil_append, List.length_singleton, List.length_append, List.length_cons,
      List.length_cons] at hlength
    omega
  | @next turns i j _ follows ih =>
    intro before k l rest split
    rcases List.eq_nil_or_concat rest with rfl | ⟨rest, m, rfl⟩
    · rw [List.append_assoc] at split
      obtain ⟨rfl, heq⟩ := List.append_inj' split rfl
      obtain ⟨rfl, heq'⟩ := List.cons.inj heq
      obtain rfl := (List.cons.inj heq').1
      exact follows
    · refine ih before k l rest ?_
      rw [List.concat_eq_append, ← List.cons_append, ← List.cons_append, ← List.append_assoc]
        at split
      exact (List.append_inj' split rfl).1

/-! ## The last participant runs out -/

variable (n quota) in
/-- A participant behind which no one has turns left has its last turn, and at least two others go
on. -/
def LastRunsOut (turns : List ℕ) (i : ℕ) : Prop :=
  turns.count i + 1 = quota i ∧ (∀ j, i < j → j < n → ¬ Active quota turns j) ∧
    ∃ a b, a < b ∧ b < n ∧ Active quota (turns ++ [i]) a ∧ Active quota (turns ++ [i]) b

variable (n quota) in
/-- A participant has a larger quota than all of those behind it and a smaller one than at least two
others. -/
def RunsOutLast (i : ℕ) : Prop :=
  i < n ∧ 0 < quota i ∧ (∀ j, i < j → j < n → quota j < quota i) ∧
    ∃ a b, a < b ∧ b < n ∧ quota i < quota a ∧ quota i < quota b

theorem Turns.runsOutLast (h : Turns n quota turns i) (last : LastRunsOut n quota turns i) :
    RunsOutLast n quota i := by
  obtain ⟨hi, -, round, hround⟩ := h.inRound
  obtain ⟨hlast, hbehind, a, b, hab, hb, hactive, hactive'⟩ := last
  have hself := hround i hi
  rw [if_neg (lt_irrefl i)] at hself
  have hbehind' (j : ℕ) (hj : i < j) (hjn : j < n) : quota j < quota i := by
    have hj' := hround j hjn
    rw [if_neg (by omega)] at hj'
    have hnot := hbehind j hj hjn
    unfold Active at hnot
    omega
  have hother (j : ℕ) (hj : j < n) (hactive : Active quota (turns ++ [i]) j) :
      quota i < quota j := by
    have hne : j ≠ i := by
      rintro rfl
      unfold Active at hactive
      rw [List.count_append, List.count_singleton_self] at hactive
      omega
    rw [active_append_of_ne hne] at hactive
    have hlt : j < i := by
      by_contra hge
      exact hbehind j (by omega) hj hactive
    have hj' := hround j hj
    rw [if_pos hlt] at hj'
    unfold Active at hactive
    omega
  exact ⟨hi, by omega, hbehind', a, b, hab, hb, hother a (by omega) hactive, hother b hb hactive'⟩

theorem Turns.lastRunsOut (h : Turns n quota turns i) (runsOut : RunsOutLast n quota i)
    (last : turns.count i + 1 = quota i) : LastRunsOut n quota turns i := by
  obtain ⟨hi, -, round, hround⟩ := h.inRound
  obtain ⟨-, -, hbehind, a, b, hab, hb, ha', hb'⟩ := runsOut
  have hself := hround i hi
  rw [if_neg (lt_irrefl i)] at hself
  have hother (j : ℕ) (hj : j < n) (hlt : quota i < quota j) :
      Active quota (turns ++ [i]) j := by
    have hne : j ≠ i := by
      rintro rfl
      omega
    rw [active_append_of_ne hne]
    have hji : j < i := by
      by_contra hge
      have := hbehind j (by omega) hj
      omega
    have hj' := hround j hj
    rw [if_pos hji] at hj'
    unfold Active
    omega
  refine ⟨last, fun j hj hjn => ?_, a, b, hab, hb, hother a (by omega) ha', hother b hb hb'⟩
  have hj' := hround j hjn
  rw [if_neg (by omega)] at hj'
  have := hbehind j hj hjn
  unfold Active
  omega

/-- A participant that has the turn again instead of the first one takes it twice in a round. -/
theorem Turns.not_alternates {a b : ℕ} (h : Turns n quota turns i) (hab : a < b) (hbi : b < i)
    (ha : Active quota turns a) (hb : Active quota turns b) :
    ¬ Alternates n quota (turns ++ i :: b :: rest) := by
  obtain ⟨hi, -, round, hround⟩ := h.inRound
  have hcount (j : ℕ) (hj : j < i) (hactive : Active quota turns j) :
      turns.count j = round + 1 := by
    have hj' := hround j (hj.trans hi)
    rw [if_pos hj] at hj'
    unfold Active at hactive
    omega
  have hmem : b ∈ turns := by
    rw [← List.count_pos_iff, hcount b hbi hb]
    omega
  obtain ⟨u, v, hv, hturns⟩ := List.eq_append_cons_of_mem (List.mem_reverse.mpr hmem)
  have hsplit : turns = v.reverse ++ b :: u.reverse := by
    rw [← List.reverse_reverse turns, hv]
    simp
  obtain ⟨hbn, -, round', hround'⟩ := (h.take hsplit).inRound
  have hother : b ∉ u.reverse := fun hmem => hturns (List.mem_reverse.mp hmem)
  have hb' := hround' b hbn
  rw [if_neg (lt_irrefl b)] at hb'
  have ha' := hround' a (hab.trans hbn)
  rw [if_pos hab] at ha'
  have hcountb := hcount b hbi hb
  have hcounta := hcount a (hab.trans hbi) ha
  have hnotMem : a ∉ u.reverse := by
    rw [← List.count_eq_zero]
    rw [hsplit, List.count_append, List.count_cons_self, List.count_eq_zero.mpr hother]
      at hcountb
    rw [hsplit, List.count_append, List.count_cons_of_ne hab.ne'] at hcounta
    unfold Active at ha hb
    rw [hsplit, List.count_append] at ha hb
    omega
  intro halternates
  have hbetween := halternates v.reverse b (u.reverse ++ [i]) rest (by rw [hsplit]; simp)
    (by
      rw [List.mem_append, not_or]
      exact ⟨hother, fun hbi' => hbi.ne (List.mem_singleton.mp hbi')⟩)
  have hmem' : a ∈ u.reverse ++ [i] := by
    rw [hbetween, List.mem_filter]
    refine ⟨(mem_after hbn).mpr ⟨hab.trans hbn, hab.ne⟩, decide_eq_true ?_⟩
    rw [hsplit] at ha
    exact ha.of_append
  rcases List.mem_append.mp hmem' with hmem' | hmem'
  · exact hnotMem hmem'
  · exact (hab.trans hbi).ne (List.mem_singleton.mp hmem')

/-- The successor is the next one of those that have turns left, in their cyclic order. -/
theorem successor_eq (hi : i < n) {a b : List ℕ}
    (split : ((List.range n).filter fun j => Active quota turns j) = a ++ i :: b) :
    successor n quota (turns ++ [i]) i =
      ((b ++ a) ++ [i].filter fun j => Active quota (turns ++ [i]) j).head? := by
  have hactive : Active quota turns i := by
    have hmem : i ∈ (List.range n).filter fun j => Active quota turns j := by
      rw [split]
      simp
    exact of_decide_eq_true (List.mem_filter.mp hmem).2
  have hafter : ((after n i).filter fun j => Active quota turns j) = b ++ a := by
    rw [range_eq hi, List.filter_append, List.filter_cons_of_pos (by simpa using hactive)]
      at split
    have hnotMem : i ∉ (List.range n).take i := by
      simp [List.take_range]
    have hnotMem' : i ∉ (List.range n).drop (i + 1) := fun hmem =>
      notMem_after hi (List.mem_append_left _ hmem)
    obtain ⟨h₁, -, h₂⟩ := (List.append_cons_inj_of_notMem
      (fun hmem => hnotMem (List.mem_of_mem_filter hmem))
      (fun hmem => hnotMem' (List.mem_of_mem_filter hmem))).mp split
    unfold after
    rw [List.filter_append, h₁, h₂]
  unfold successor
  rw [← List.head?_filter, List.filter_append, filter_append_of_notMem (notMem_after hi), hafter]

end RoundRobin
