import Simutrace.Stream.Accounting
import Simutrace.Stream.Assertions
import Simutrace.Stream.Soundness

/-! # Closing a session

When a session is closed it gives back its references to all segments of the open
list. What happens to the references is right in every run. The assertions on the
way however expect that the session has one reference to a segment of its own and
that a segment which it shares with others is not in progress.
-/

namespace Simutrace

structure Settled (session : SessionId) (n : StreamSegmentId)
    (segment segment' : Option SegmentLocation) (listed : ℕ) : Prop where
  gone : ∀ loc ∈ segment', session ∈ loc.referenceMap → loc.InProgress
  shared : ∀ loc ∈ segment, ∀ t ∈ loc.referenceMap, t ≠ session → ∃ loc' ∈ segment',
    loc'.referenceMap = loc.referenceMap.filter (· ≠ session) ∧
      loc'.referenceCount = loc'.referenceMap.card
  released : ∀ loc ∈ segment, session ∈ loc.referenceMap → (∀ t ∈ loc.referenceMap, t = session) →
    (listed = 0 ∧ ∀ loc' ∈ segment', loc'.Closed n) ∨
      ∃ loc' ∈ segment', loc'.InProgress ∧ (loc'.location ≠ none → loc'.cancel = true)
  other : ∀ loc ∈ segment, session ∉ loc.referenceMap → segment' = segment

namespace ServerStream

variable (s : ServerStream)

/-- The submission of a segment that only the session has references to throws an exception. -/
def ThrowsAt (session : SessionId) (ignoreErrors : Bool) (submit : StreamSegmentId → SubmitOutcome)
    (n : StreamSegmentId) : Prop :=
  ∃ loc ∈ s.segments n, session ∈ loc.referenceMap ∧
    loc.referenceCount = loc.referenceMap.count session ∧
    ServerState.Throws ignoreErrors (submit n) loc

/-- The loop over the open list gets to a segment, as none before it throws an exception. -/
def Reaches (throws : StreamSegmentId → Prop) (l : List StreamSegmentId) (n : StreamSegmentId) :
    Prop :=
  ∃ l₁ l₂, l = l₁ ++ n :: l₂ ∧ ∀ m ∈ l₁, ¬ throws m

end ServerStream

namespace ServerState

end ServerState

namespace Execution

open ServerStream ServerState

variable {e : Execution} {n m : StreamSegmentId} {loc : SegmentLocation} {s : ServerState}
  {session : SessionId} {wait : Option WaitId} {ignoreErrors throws : Bool}

/-! ## One segment -/

theorem settled_of_notMem {segment : Option SegmentLocation} {listed : ℕ}
    (count : ∀ loc ∈ segment, loc.referenceCount = loc.referenceMap.card)
    (notMem : ∀ loc ∈ segment, session ∉ loc.referenceMap) :
    Settled session n segment segment listed where
  gone loc hloc hmem := absurd hmem (notMem loc hloc)
  shared loc hloc t _ _ := by
    refine ⟨loc, hloc, ?_, count loc hloc⟩
    have hne : ∀ u ∈ loc.referenceMap, u ≠ session := by
      rintro u hu rfl
      exact notMem loc hloc hu
    exact (Multiset.filter_eq_self.mpr hne).symm
  released loc hloc hmem := absurd hmem (notMem loc hloc)
  other _ _ _ := rfl

theorem eq_of_count_eq_card {map : Multiset SessionId} (hall : map.card = map.count session)
    {t : SessionId} (ht : t ∈ map) : t = session :=
  ((Multiset.count_eq_card.mp hall.symm) t ht).symm

theorem settled_of_all {segment' : Option SegmentLocation} {listed : ℕ}
    (mem : session ∈ loc.referenceMap)
    (all : loc.referenceMap.card = loc.referenceMap.count session)
    (released : (listed = 0 ∧ ∀ loc' ∈ segment', loc'.Closed n) ∨
      ∃ loc' ∈ segment', loc'.InProgress ∧ (loc'.location ≠ none → loc'.cancel = true)) :
    Settled session n (some loc) segment' listed where
  gone loc' hloc' hmem := by
    rcases released with ⟨-, hclosed⟩ | ⟨loc₁, hloc₁, hprogress, -⟩
    · rw [(hclosed loc' hloc').map] at hmem
      exact absurd hmem (Multiset.notMem_zero _)
    · obtain rfl := Option.some.inj (hloc'.symm.trans hloc₁)
      exact hprogress
  shared loc' hloc' t ht hne := by
    obtain rfl := Option.some.inj hloc'
    exact absurd (eq_of_count_eq_card all ht) hne
  released _ _ _ _ := released
  other loc' hloc' hmem := by
    obtain rfl := Option.some.inj hloc'
    exact absurd mem hmem

theorem settled_of_several {listed : ℕ} (mem : session ∈ loc.referenceMap)
    (count : loc.referenceCount = loc.referenceMap.card)
    (several : loc.referenceCount ≠ loc.referenceMap.count session) :
    Settled session n (some loc) (some { loc with
      referenceCount := loc.referenceCount - loc.referenceMap.count session
      referenceMap := loc.referenceMap.filter (· ≠ session) }) listed where
  gone loc' hloc' hmem := by
    obtain rfl := Option.some.inj hloc'
    exact absurd rfl (Multiset.mem_filter.mp hmem).2
  shared loc' hloc' t _ _ := by
    obtain rfl := Option.some.inj hloc'
    refine ⟨_, rfl, rfl, ?_⟩
    dsimp only
    rw [card_filter_ne, count]
  released loc' hloc' _ hall := by
    obtain rfl := Option.some.inj hloc'
    have heq := Multiset.count_eq_card.mpr fun t ht => (hall t ht).symm
    exact absurd (count.trans heq.symm) several
  other loc' hloc' hmem := by
    obtain rfl := Option.some.inj hloc'
    exact absurd mem hmem

/-- What is done to the one segment that `closeReferences` looks at. -/
structure Closes (session : SessionId) (n : StreamSegmentId) (s s' : ServerStream) : Prop where
  settled : Settled session n (s.segments n) (s'.segments n) (s'.openList.count n)
  segments : ∀ m ≠ n, s'.segments m = s.segments m
  listed : ∀ m ≠ n, s'.openList.count m = s.openList.count m
  append : KeepsAppend n s s'

theorem closes_of_moves {segment : Option SegmentLocation} {listed : ℕ} {s s' : ServerStream}
    (hm : Moves n segment listed s s') (append : KeepsAppend n s s')
    (settled : Settled session n (s.segments n) segment listed) : Closes session n s s' where
  settled := by
    rw [hm.segments_self, hm.listed]
    exact settled
  segments m hmn := hm.segments_of_ne hmn
  listed := hm.listed_of_ne
  append := append

theorem closes_refl (h : e.Sound)
    (notMem : ∀ loc ∈ e.server.stream.segments n, session ∉ loc.referenceMap) :
    Closes session n e.server.stream e.server.stream where
  settled := settled_of_notMem (fun _ hloc => (h.at hloc).2.count) notMem
  segments _ _ := rfl
  listed _ _ := rfl
  append := .inl ⟨rfl, rfl⟩

theorem closeSegment_cases {submit : SubmitOutcome} (h : e.Sound)
    (segment : e.server.stream.segments n = some loc) (mem : session ∈ loc.referenceMap)
    (all : loc.referenceCount = loc.referenceMap.count session)
    (submittable : Submittable loc submit)
    (closed : e.server.closeSegment loc wait ignoreErrors submit = (s, throws)) :
    (throws = true ∧ Throws ignoreErrors submit loc ∧ s = e.server) ∨
      (throws = false ∧ ¬ Throws ignoreErrors submit loc ∧
        Closes session n e.server.stream s.stream) := by
  obtain ⟨-, hsound⟩ := h.at segment
  have hall := hsound.count.symm.trans all
  have hpos : loc.referenceCount ≠ 0 := by
    rw [all]
    exact (Multiset.count_pos.mpr mem).ne'
  cases hid : loc.id with
  | none =>
    obtain ⟨hthrows, happend, waitList, hm⟩ :=
      ServerState.closeSegment_of_unloaded hsound.key hid closed
    refine .inr ⟨hthrows, fun ht => ht.1 hid, closes_of_moves hm happend ?_⟩
    rw [segment]
    refine settled_of_all mem hall (.inr ⟨_, rfl, ⟨hid, ?_⟩, fun _ => rfl⟩)
    exact (hsound.used hpos).resolve_left fun hne => hne hid
  | some id =>
    have hwaits : loc.waitList = [] := by
      by_contra hw
      cases hid.symm.trans (hsound.waits hw).2
    rcases ServerState.closeSegment_of_loaded hsound.key hid hwaits submittable closed with
      hthrow | ⟨hthrows, hnot, happend, ⟨segment', hidle, -, hm⟩ | ⟨hnew, waitList, hm⟩⟩
    · exact .inl hthrow
    · refine .inr ⟨hthrows, hnot, closes_of_moves hm happend ?_⟩
      rw [segment]
      exact settled_of_all mem hall (.inl ⟨rfl, fun loc' hloc' => (hidle loc' hloc').toClosed⟩)
    · refine .inr ⟨hthrows, hnot, closes_of_moves hm happend ?_⟩
      rw [segment]
      exact settled_of_all mem hall
        (.inr ⟨_, rfl, ⟨rfl, Option.some_ne_none _⟩, fun hl => absurd hnew hl⟩)

theorem closeReferences_cases {submit : StreamSegmentId → SubmitOutcome} (h : e.Sound)
    (submittable : ∀ loc, e.server.stream.segments n = some loc → Submittable loc (submit n))
    (closed : e.server.closeReferences session wait ignoreErrors (submit n) n = (s, throws)) :
    (throws = true ∧ e.server.stream.ThrowsAt session ignoreErrors submit n ∧ s = e.server) ∨
      (throws = false ∧ ¬ e.server.stream.ThrowsAt session ignoreErrors submit n ∧
        Closes session n e.server.stream s.stream) := by
  unfold ServerState.closeReferences at closed
  cases segment : e.server.stream.segments n with
  | none =>
    simp only [segment, Prod.mk.injEq] at closed
    obtain ⟨rfl, rfl⟩ := closed
    refine .inr ⟨rfl, ?_, closes_refl h fun loc hloc => ?_⟩
    · rintro ⟨loc, hloc, -⟩
      cases segment.symm.trans hloc
    · cases segment.symm.trans hloc
  | some loc =>
    have hat (hnot : session ∈ loc.referenceMap →
        loc.referenceCount = loc.referenceMap.count session →
          ¬ Throws ignoreErrors (submit n) loc) :
        ¬ e.server.stream.ThrowsAt session ignoreErrors submit n := by
      rintro ⟨loc', hloc', hmem, hall, ht⟩
      obtain rfl := Option.some.inj (segment.symm.trans hloc')
      exact hnot hmem hall ht
    simp only [segment] at closed
    split_ifs at closed with hmem hall
    · rcases closeSegment_cases h segment hmem hall (submittable loc segment) closed with
        ⟨hthrows, ht, hs⟩ | ⟨hthrows, hnot, hcloses⟩
      · exact .inl ⟨hthrows, ⟨loc, segment, hmem, hall, ht⟩, hs⟩
      · exact .inr ⟨hthrows, hat fun _ _ => hnot, hcloses⟩
    · obtain ⟨rfl, rfl⟩ := Prod.mk.inj closed
      refine .inr ⟨rfl, hat fun _ hc => absurd hc hall,
        closes_of_moves (moves_setSegment _ _ _) (.inl ⟨rfl, rfl⟩) ?_⟩
      rw [segment]
      exact settled_of_several hmem (h.at segment).2.count hall
    · obtain ⟨rfl, rfl⟩ := Prod.mk.inj closed
      refine .inr ⟨rfl, hat fun hm => absurd hm hmem, closes_refl h fun loc' hloc' => ?_⟩
      obtain rfl := Option.some.inj (segment.symm.trans hloc')
      exact hmem

theorem segments_closeReferences {submit : StreamSegmentId → SubmitOutcome} (h : e.Sound)
    (submittable : ∀ loc, e.server.stream.segments n = some loc → Submittable loc (submit n))
    (closed : e.server.closeReferences session wait ignoreErrors (submit n) n = (s, throws))
    (hm : m ≠ n) : s.stream.segments m = e.server.stream.segments m := by
  rcases closeReferences_cases h submittable closed with ⟨-, -, rfl⟩ | ⟨-, -, hcloses⟩
  · rfl
  · exact hcloses.segments m hm

/-! ## Runs -/

theorem Sound.nodup_openList (h : e.Sound) : e.server.stream.openList.Nodup := by
  rw [List.nodup_iff_count_le_one]
  intro n
  rcases h n with ⟨-, hlisted, -⟩ | ⟨loc, -, -, hsound⟩
  · rw [hlisted]
    exact Nat.zero_le 1
  · rw [hsound.listed]
    split
    · exact Nat.zero_le 1
    · exact le_rfl

theorem sound_closeSession {submit : StreamSegmentId → SubmitOutcome}
    {rest : List StreamSegmentId} {balance : StreamSegmentId → SessionId → ℤ}
    (l : List StreamSegmentId) (hl : l.Nodup) (h : e.Sound)
    (submittable : ∀ n ∈ l, ∀ loc, e.server.stream.segments n = some loc →
      Submittable loc (submit n))
    (closed : e.server.closeSession session wait ignoreErrors submit l = (s, rest)) :
    Sound { e with server := s, balance := balance } := by
  induction l generalizing e with
  | nil =>
    obtain ⟨rfl, -⟩ := Prod.mk.inj closed
    exact h
  | cons n l ih =>
    obtain ⟨hn, hl⟩ := List.nodup_cons.mp hl
    rcases hclose : e.server.closeReferences session wait ignoreErrors (submit n) n with
      ⟨s₁, throws⟩
    have h₁ : Sound { e with server := s₁ } :=
      sound_closeReferences h (submittable n List.mem_cons_self) hclose
    simp only [ServerState.closeSession, hclose] at closed
    cases throws with
    | true =>
      obtain ⟨rfl, -⟩ := Prod.mk.inj closed
      exact h₁
    | false =>
      refine ih (e := { e with server := s₁ }) hl h₁ (fun m hm loc hloc => ?_) closed
      have hne : m ≠ n := fun hmn => hn (hmn ▸ hm)
      refine submittable m (List.mem_cons_of_mem _ hm) loc (Eq.trans ?_ hloc)
      exact (segments_closeReferences h (submittable n List.mem_cons_self) hclose hne).symm

theorem sound_step {e' : Execution} {a : Action} (h : e.Sound) (step : Step e a e') :
    e'.Sound := by
  cases step with
  | load new added => exact sound_load h new added
  | allocate new free => exact sound_allocate h new
  | encoded segment notLocated notWritable encoding link completed =>
    exact sound_encoded h segment notLocated notWritable link completed
  | lookup unlocked other found => exact sound_lookup h unlocked found rfl rfl rfl
  | skipAhead opening free _ _ _ => exact sound_skipAhead h opening free
  | enterAhead opening free first segment located closed needed allocatable =>
    exact sound_enterAhead h opening free first segment closed
  | leaveAhead opening entered first segment finished =>
    exact sound_leaveAhead h opening entered first segment finished
  | enter opening free last awaiting segment allocatable =>
    exact sound_enter h opening free last awaiting segment
  | leave opening free entered segment finished =>
    split <;> exact sound_leave h opening free entered segment finished
  | ret opening free last stage => exact sound_ret h opening free stage
  | decoded read => exact sound_decoded h read
  | close segment submittable closed => exact sound_close h segment submittable closed
  | closeSession submittable closed =>
    exact sound_closeSession _ h.nodup_openList h (fun n _ => submittable n) closed

theorem sound_run {P : Execution → Action → Prop} (run : Run P e) : e.Sound := by
  induction run with
  | new => exact sound_new
  | step _ _ step ih => exact sound_step ih step

/-! ## The references of a session -/

theorem Sound.notMem_of_notMem_openList (h : e.Sound) (hn : n ∉ e.server.stream.openList) :
    ∀ loc ∈ e.server.stream.segments n, session ∉ loc.referenceMap := by
  intro loc hloc hmem
  obtain ⟨-, hsound⟩ := h.at hloc
  have hpos := Multiset.card_pos_iff_exists_mem.mpr ⟨session, hmem⟩
  rw [← hsound.count] at hpos
  have hlisted := hsound.listed
  rw [List.count_eq_zero.mpr hn, if_neg hpos.ne'] at hlisted
  cases hlisted

end Execution

end Simutrace
