import Simutrace.Stream.Opening

/-! # Closing segments keeps the phases

A session gives back one of its references to a segment, or all of its references
to all segments. The last reference submits the segment to the buffer.
-/

namespace Simutrace

namespace Execution

variable {e : Execution} {n : StreamSegmentId} {loc : SegmentLocation} {session : SessionId}
  {balance : StreamSegmentId → SessionId → ℤ}

theorem New.unload {id : SegmentId} {waitList : List WaitId} (new : loc.New n session) :
    SegmentLocation.New n session
      { loc with id := none, sideId := some id, waitList := waitList } :=
  ⟨new.key, new.new, new.count, new.map, new.prefetched⟩

theorem others_balance {s : ServerState} (hb : ∀ m ≠ n, balance m = e.balance m) :
    Others n e { e with server := s, balance := balance } :=
  ⟨hb, fun _ _ => rfl, fun _ _ => rfl, fun _ _ => .inl rfl⟩

theorem inv_closeSegment {wait : Option WaitId} {ignoreErrors throws : Bool}
    {submit : SubmitOutcome} {s : ServerState} (h : Inv e)
    (segment : e.server.stream.segments n = some loc) (pos : 0 < loc.referenceCount)
    (harmless : loc.location ≠ none → loc.id = none → loc.prefetched = true)
    (submittable : Submittable loc submit)
    (closed : e.server.closeSegment loc wait ignoreErrors submit = (s, throws))
    (hb : ∀ m ≠ n, balance m = e.balance m)
    (hzero : loc.location = none ∨ loc.id = none → e.balance n = 0 → balance n = 0)
    (hlast : loc.location ≠ none → loc.id ≠ none → throws = false → balance n = 0) :
    Inv { e with server := s, balance := balance } ∧
      ∀ m ≠ n, s.stream.segments m = e.server.stream.segments m := by
  let e' : Execution := { e with server := s, balance := balance }
  have ho : Others n e e' := others_balance hb
  cases h.phase segment with
  | closed free _ _ _ | entering free _ _ _ _ _ | entered free _ _ _ _ =>
    exact (pos.ne' free.count).elim
  | loading used unloaded _ _ =>
    cases used.prefetched.symm.trans (harmless used.located unloaded)
  | writing new loaded side view =>
    obtain ⟨hlisted, hheld, hbal, hread, hent, haw⟩ := view_eq view
    have hbal' : e'.balance n = 0 := hzero (.inl new.new) hbal
    have hread' : e'.reads n = false := hread
    have hent' : e'.entered n = none := hent
    have haw' : e'.awaited n = false := haw
    rcases ServerState.closeSegment_of_new new.key new.new loaded hheld submittable closed with
      hsame | hc | ⟨waitList, hc⟩
    · have hc := ServerState.changes_of_eq segment hsame
      refine h.move hc ho ?_
      exact .writing new loaded side (by rw [hlisted, hheld, hbal', hread', hent', haw'])
    · refine ⟨h.change_absent hc ho ?_, fun m hm => ?_⟩
      · rw [hbal', hread', hent', haw']
        rfl
      · rw [hc.segments, Function.update_of_ne hm]
    · refine h.move hc ho ?_
      exact .encoding (New.unload new) rfl rfl (by rw [hlisted, hbal', hread', hent', haw'])
  | encoding new unloaded side view =>
    obtain ⟨hlisted, hheld, hbal, hread, hent, haw⟩ := view_eq view
    have hbal' : e'.balance n = 0 := hzero (.inl new.new) hbal
    have hread' : e'.reads n = false := hread
    have hent' : e'.entered n = none := hent
    have haw' : e'.awaited n = false := haw
    obtain ⟨waitList, hc⟩ := ServerState.changes_closeSegment new.key unloaded closed
    refine h.move hc ho ?_
    have hnew : SegmentLocation.New n _ { loc with cancel := true, waitList := waitList } :=
      ⟨new.key, new.new, new.count, new.map, new.prefetched⟩
    exact .encoding hnew unloaded side (by rw [hlisted, hheld, hbal', hread', hent', haw'])
  | prefetching ahead unloaded side view =>
    obtain ⟨hlisted, hheld, hbal, hread, hent, haw⟩ := view_eq view
    have hbal' : e'.balance n = 0 := hzero (.inr unloaded) hbal
    have hent' : e'.entered n = none := hent
    have haw' : e'.awaited n = false := haw
    obtain ⟨waitList, hc⟩ := ServerState.changes_closeSegment ahead.key unloaded closed
    refine h.move hc ho ?_
    have hahead : SegmentLocation.Prefetched n _
        { loc with cancel := true, waitList := waitList } :=
      ⟨ahead.key, ahead.located, ahead.count, ahead.map, ahead.prefetched, rfl⟩
    exact .prefetching hahead unloaded side (by rw [hlisted, hheld, hbal', hent', haw'])
  | opened used loaded side view =>
    obtain ⟨-, hheld, -, hread, -, -⟩ := view_eq view
    have hread' : e'.reads n = false := hread
    obtain ⟨hthrows, loc', hclosed, hc⟩ := ServerState.closeSegment_of_located used.key used.located
      loaded used.cancel hheld submittable closed
    have hbal' : e'.balance n = 0 :=
      hlast used.located (by rw [loaded]; exact Option.some_ne_none _) hthrows
    refine h.move hc ho ?_
    exact .closed hclosed.toUnreferenced hclosed.unloaded hclosed.side (by rw [hbal', hread'])

theorem inv_release {referenceCount : ℕ} {referenceMap : Multiset SessionId} (h : Inv e)
    (segment : e.server.stream.segments n = some loc) (several : 1 < loc.referenceCount)
    (hb : ∀ m ≠ n, balance m = e.balance m) (pos : 0 < referenceCount)
    (count : referenceCount = referenceMap.card)
    (map : ∀ t, (referenceMap.count t : ℤ) = balance n t) :
    Inv { e with
      server := { e.server with stream := e.server.stream.setSegment n (some { loc with
        referenceCount := referenceCount, referenceMap := referenceMap }) }
      balance := balance } ∧
      ∀ m ≠ n, (e.server.stream.setSegment n (some { loc with
        referenceCount := referenceCount, referenceMap := referenceMap })).segments m =
          e.server.stream.segments m := by
  let loc' := { loc with referenceCount := referenceCount, referenceMap := referenceMap }
  let s := { e.server with stream := e.server.stream.setSegment n (some loc') }
  let e' : Execution := { e with server := s, balance := balance }
  have ho : Others n e e' := others_balance hb
  have hc := ServerState.changes_setSegment e.server n (some loc') e.server.waits
  refine h.move hc ho ?_
  cases h.phase segment with
  | closed free _ _ _ | entering free _ _ _ _ _ | entered free _ _ _ _ =>
    exact absurd (free.count ▸ several) (Nat.not_lt_zero 1)
  | writing new _ _ _ | encoding new _ _ _ =>
    exact absurd (new.count ▸ several) (Nat.lt_irrefl 1)
  | prefetching ahead _ _ _ => exact absurd (ahead.count ▸ several) (Nat.lt_irrefl 1)
  | loading used unloaded side view =>
    obtain ⟨hlisted, hheld, -, -, hent, haw⟩ := view_eq view
    have hent' : e'.entered n = none := hent
    have haw' : e'.awaited n = false := haw
    have href : SegmentLocation.Referenced n (e'.balance n) loc' :=
      ⟨used.key, used.located, pos, count, map, used.prefetched, used.cancel⟩
    exact .loading href unloaded side (by rw [hlisted, hheld, hent', haw'])
  | opened used loaded side view =>
    obtain ⟨hlisted, hheld, -, hread, hent, haw⟩ := view_eq view
    have hread' : e'.reads n = false := hread
    have hent' : e'.entered n = none := hent
    have haw' : e'.awaited n = false := haw
    have href : SegmentLocation.Referenced n (e'.balance n) loc' :=
      ⟨used.key, used.located, pos, count, map, used.prefetched, used.cancel⟩
    exact .opened href loaded side (by rw [hlisted, hheld, hread', hent', haw'])

theorem Inv.referenced (h : Inv e) (segment : e.server.stream.segments n = some loc)
    (located : loc.location ≠ none) (loaded : loc.id ≠ none) (pos : 0 < loc.referenceCount) :
    loc.Referenced n (e.balance n) := by
  cases h.phase segment with
  | closed free _ _ _ | entering free _ _ _ _ _ | entered free _ _ _ _ =>
    exact (pos.ne' free.count).elim
  | writing new _ _ _ | encoding new _ _ _ => exact (located new.new).elim
  | prefetching _ unloaded _ _ => exact (loaded unloaded).elim
  | loading used _ _ view | opened used _ _ view =>
    rwa [show e.balance n = _ from congrArg SegmentView.balance view]

theorem Inv.referenced_of_several (h : Inv e) (segment : e.server.stream.segments n = some loc)
    (several : 1 < loc.referenceCount) : loc.Referenced n (e.balance n) := by
  cases h.phase segment with
  | closed free _ _ _ | entering free _ _ _ _ _ | entered free _ _ _ _ =>
    exact absurd (free.count ▸ several) (Nat.not_lt_zero 1)
  | writing new _ _ _ | encoding new _ _ _ =>
    exact absurd (new.count ▸ several) (Nat.lt_irrefl 1)
  | prefetching ahead _ _ _ => exact absurd (ahead.count ▸ several) (Nat.lt_irrefl 1)
  | loading used _ _ view | opened used _ _ view =>
    rwa [show e.balance n = _ from congrArg SegmentView.balance view]

theorem inv_close {wait : Option WaitId} {ignoreErrors throws : Bool} {submit : SubmitOutcome}
    {s : ServerState} (h : Inv e) (segment : e.server.stream.segments n = some loc)
    (submittable : Submittable loc submit)
    (closed : e.server.close session n wait ignoreErrors submit = some (s, throws))
    (harmless : loc.location ≠ none → loc.referenceCount = 1 → session ∈ loc.referenceMap →
      loc.id ≠ none) :
    Inv { e with
      server := s
      balance :=
        if loc.location ≠ none ∧ throws = false then e.account n session (-1) else e.balance } := by
  have hb (m : StreamSegmentId) (hm : m ≠ n) : (if loc.location ≠ none ∧ throws = false then
      e.account n session (-1) else e.balance) m = e.balance m := by
    split
    · exact account_of_ne hm session (-1)
    · rfl
  simp only [ServerState.close, segment, Option.bind_eq_bind, Option.bind_some] at closed
  by_cases hnone : loc.referenceCount = 0 ∨ session ∉ loc.referenceMap
  · rw [if_pos hnone] at closed
    cases closed
  · rw [if_neg hnone] at closed
    obtain ⟨hcount, hmem⟩ := not_or.mp hnone
    rw [not_not] at hmem
    by_cases hone : loc.referenceCount = 1
    · rw [if_pos hone, Option.some.injEq] at closed
      refine (inv_closeSegment h segment (Nat.pos_of_ne_zero hcount)
        (fun hl hid => (harmless hl hone hmem hid).elim) submittable closed hb ?_ ?_).1
      · rintro (hnew | hid) hbal
        · rw [if_neg fun hc => hc.1 hnew, hbal]
        · rw [if_neg fun hc => harmless hc.1 hone hmem hid, hbal]
      · rintro hl hid ht
        rw [if_pos ⟨hl, ht⟩, account_self]
        have hused := h.referenced segment hl hid (Nat.pos_of_ne_zero hcount)
        obtain ⟨t, ht⟩ := Multiset.card_eq_one.mp (hused.count.symm.trans hone)
        rw [ht, Multiset.mem_singleton] at hmem
        funext u
        rw [← hused.map, ht, hmem, Multiset.count_singleton]
        split <;> rfl
    · rw [if_neg hone, Option.some.injEq, Prod.mk.injEq] at closed
      obtain ⟨rfl, rfl⟩ := closed
      have hseveral : 1 < loc.referenceCount := by omega
      have hused := h.referenced_of_several segment hseveral
      refine (inv_release h segment hseveral hb (by omega) ?_ fun t => ?_).1
      · rw [Multiset.card_erase_of_mem hmem, ← hused.count]
        rfl
      · rw [if_pos ⟨hused.located, rfl⟩, account_self]
        dsimp only
        rw [← hused.map]
        have hpos := Multiset.count_pos.mpr hmem
        by_cases ht : t = session
        · subst ht
          rw [Multiset.count_erase_self, if_pos rfl]
          omega
        · rw [Multiset.count_erase_of_ne ht, if_neg ht, add_zero]

/-! ## Sessions -/

def settleOne (e : Execution) (session : SessionId) (n : StreamSegmentId) :
    StreamSegmentId → SessionId → ℤ :=
  e.settle session (· = n)

theorem settleOne_of_ne {m : StreamSegmentId} (hm : m ≠ n) :
    e.settleOne session n m = e.balance m := by
  funext t
  simp [settleOne, settle, hm]

theorem settleOne_self (e : Execution) (session : SessionId) (n : StreamSegmentId) :
    e.settleOne session n n = fun t => if t = session then 0 else e.balance n t := by
  funext t
  simp [settleOne, settle]

theorem settleOne_of_zero (hzero : e.balance n session = 0) :
    e.settleOne session n = e.balance := by
  funext m t
  by_cases h : t = session ∧ m = n
  · simp [settleOne, settle, h, hzero]
  · simp [settleOne, settle, h]

theorem Inv.balance_of_notMem (h : Inv e) (segment : e.server.stream.segments n = some loc)
    (hmem : session ∉ loc.referenceMap) : e.balance n session = 0 := by
  cases h.phase segment with
  | writing _ _ _ view | encoding _ _ _ view | closed _ _ _ view | entering _ _ _ _ _ view
  | entered _ _ _ _ view | prefetching _ _ _ view =>
    exact congrFun (congrArg SegmentView.balance view) session
  | loading used _ _ view | opened used _ _ view =>
    have hbal := congrFun (congrArg SegmentView.balance view) session
    exact hbal.trans ((used.map session).symm.trans (by simp [Multiset.count_eq_zero.mpr hmem]))

theorem Inv.several (h : Inv e) (segment : e.server.stream.segments n = some loc)
    (hmem : session ∈ loc.referenceMap)
    (hne : loc.referenceCount ≠ loc.referenceMap.count session) : 1 < loc.referenceCount := by
  have hpos := Multiset.count_pos.mpr hmem
  have hle := Multiset.count_le_card session loc.referenceMap
  have hcard : loc.referenceCount = loc.referenceMap.card := by
    cases h.phase segment with
    | writing new _ _ _ | encoding new _ _ _ => rw [new.count, new.map, Multiset.card_singleton]
    | closed free _ _ _ | entering free _ _ _ _ _ | entered free _ _ _ _ =>
      rw [free.count, free.map, Multiset.card_zero]
    | prefetching ahead _ _ _ => rw [ahead.count, ahead.map, Multiset.card_singleton]
    | loading used _ _ _ | opened used _ _ _ => exact used.count
  omega

theorem count_of_ne {map : Multiset SessionId} (hall : map.card = map.count session) {t : SessionId}
    (ht : t ≠ session) : map.count t = 0 := by
  rw [Multiset.count_eq_zero]
  intro hmem
  have heq := (Multiset.count_eq_card.mp hall.symm) t hmem
  exact ht heq.symm

theorem card_filter_ne (map : Multiset SessionId) (session : SessionId) :
    (map.filter (· ≠ session)).card = map.card - map.count session := by
  have hsplit := congrArg Multiset.card (Multiset.filter_add_not (session = ·) map)
  rw [Multiset.card_add, ← Multiset.count_eq_card_filter_eq] at hsplit
  have hne : map.filter (· ≠ session) = map.filter fun t => ¬ session = t :=
    Multiset.filter_congr fun t _ => ne_comm
  rw [hne]
  omega

theorem inv_closeReferences {wait : Option WaitId} {ignoreErrors throws : Bool}
    {submit : SubmitOutcome} {s : ServerState} (h : Inv e)
    (submittable : ∀ loc, e.server.stream.segments n = some loc → Submittable loc submit)
    (closed : e.server.closeReferences session wait ignoreErrors submit n = (s, throws))
    (harmless : ∀ loc, e.server.stream.segments n = some loc → loc.location ≠ none →
      session ∈ loc.referenceMap → loc.referenceCount = loc.referenceMap.count session →
      loc.id = none → loc.prefetched = true) :
    Inv { e with
      server := s
      balance := if throws then e.balance else e.settleOne session n } ∧
      ∀ m ≠ n, s.stream.segments m = e.server.stream.segments m := by
  have hb (m : StreamSegmentId) (hm : m ≠ n) :
      (if throws then e.balance else e.settleOne session n) m = e.balance m := by
    split
    · rfl
    · exact settleOne_of_ne hm
  unfold ServerState.closeReferences at closed
  cases segment : e.server.stream.segments n with
  | none =>
    simp only [segment, Prod.mk.injEq] at closed
    obtain ⟨rfl, rfl⟩ := closed
    have hzero : e.balance n session = 0 :=
      congrFun (congrArg SegmentView.balance (h.absent segment)) session
    refine ⟨?_, fun _ _ => rfl⟩
    simpa only [Bool.false_eq_true, if_false, settleOne_of_zero hzero] using h
  | some loc =>
    simp only [segment] at closed
    by_cases hmem : session ∈ loc.referenceMap
    · rw [if_pos hmem] at closed
      have hpos := Multiset.count_pos.mpr hmem
      by_cases hall : loc.referenceCount = loc.referenceMap.count session
      · rw [if_pos hall] at closed
        refine inv_closeSegment h segment (hall ▸ hpos)
          (fun hl => harmless loc segment hl hmem hall) (submittable loc segment) closed hb ?_ ?_
        · rintro - hbal
          split
          · exact hbal
          · rw [settleOne_self, hbal]
            funext t
            simp
        · rintro hl hid ht
          have hused := h.referenced segment hl hid (hall ▸ hpos)
          rw [if_neg (by rw [ht]; exact Bool.false_ne_true), settleOne_self]
          funext t
          by_cases hts : t = session
          · simp [hts]
          · rw [if_neg hts, ← hused.map, count_of_ne (hused.count.symm.trans hall) hts]
            rfl
      · rw [if_neg hall, Prod.mk.injEq] at closed
        obtain ⟨rfl, rfl⟩ := closed
        have hseveral := h.several segment hmem hall
        have hused := h.referenced_of_several segment hseveral
        have hle := Multiset.count_le_card session loc.referenceMap
        have hcount := hused.count
        refine inv_release h segment hseveral hb (by omega) ?_ fun t => ?_
        · rw [card_filter_ne, hused.count]
        · rw [if_neg Bool.false_ne_true, settleOne_self]
          dsimp only
          by_cases hts : t = session
          · rw [if_pos hts, Multiset.count_filter, if_neg (not_not.mpr hts)]
            rfl
          · rw [if_neg hts, Multiset.count_filter, if_pos hts, hused.map]
    · rw [if_neg hmem, Prod.mk.injEq] at closed
      obtain ⟨rfl, rfl⟩ := closed
      have hzero := h.balance_of_notMem segment hmem
      refine ⟨?_, fun _ _ => rfl⟩
      simpa only [Bool.false_eq_true, if_false, settleOne_of_zero hzero] using h

structure Closable (e : Execution) (session : SessionId)
    (submit : StreamSegmentId → SubmitOutcome) (n : StreamSegmentId) : Prop where
  submittable : ∀ loc, e.server.stream.segments n = some loc → Submittable loc (submit n)
  harmless : ∀ loc, e.server.stream.segments n = some loc → loc.location ≠ none →
    session ∈ loc.referenceMap → loc.referenceCount = loc.referenceMap.count session →
    loc.id = none → loc.prefetched = true

theorem mem_of_mem_rest {wait : Option WaitId} {ignoreErrors : Bool}
    {submit : StreamSegmentId → SubmitOutcome} {s s' : ServerState} {l rest : List StreamSegmentId}
    (closed : s.closeSession session wait ignoreErrors submit l = (s', rest)) {m : StreamSegmentId}
    (hm : m ∈ rest) : m ∈ l := by
  induction l generalizing s with
  | nil =>
    obtain ⟨-, rfl⟩ := Prod.mk.inj closed
    exact hm
  | cons n l ih =>
    rcases hclose : s.closeReferences session wait ignoreErrors (submit n) n with ⟨s₁, throws⟩
    simp only [ServerState.closeSession, hclose] at closed
    cases throws with
    | true =>
      obtain ⟨-, rfl⟩ := Prod.mk.inj closed
      exact hm
    | false => exact List.mem_cons_of_mem _ (ih closed)

theorem inv_closeSession {wait : Option WaitId} {ignoreErrors : Bool}
    {submit : StreamSegmentId → SubmitOutcome} {s : ServerState} {rest : List StreamSegmentId}
    (l : List StreamSegmentId) (hl : l.Nodup) (h : Inv e)
    (hclosable : ∀ n ∈ l, Closable e session submit n)
    (closed : e.server.closeSession session wait ignoreErrors submit l = (s, rest)) :
    Inv { e with
      server := s
      balance := e.settle session fun n => n ∈ l ∧ n ∉ rest } := by
  induction l generalizing e with
  | nil =>
    obtain ⟨rfl, rfl⟩ := Prod.mk.inj closed
    have hsame : (e.settle session fun n => n ∈ [] ∧ n ∉ []) = e.balance := by
      funext m t
      simp [settle]
    rw [hsame]
    exact h
  | cons n l ih =>
    obtain ⟨hn, hl⟩ := List.nodup_cons.mp hl
    have hc := hclosable n List.mem_cons_self
    rcases hclose : e.server.closeReferences session wait ignoreErrors (submit n) n with
      ⟨s₁, throws⟩
    obtain ⟨h₁, hsegs⟩ := inv_closeReferences h hc.submittable hclose hc.harmless
    simp only [ServerState.closeSession, hclose] at closed
    cases throws with
    | true =>
      obtain ⟨rfl, rfl⟩ := Prod.mk.inj closed
      have hsame : (e.settle session fun m => m ∈ n :: l ∧ m ∉ n :: l) = e.balance := by
        funext m t
        exact if_neg fun hm => hm.2.2 hm.2.1
      rw [hsame]
      exact h₁
    | false =>
      have hclosable₁ (m : StreamSegmentId) (hm : m ∈ l) : Closable
          { e with server := s₁, balance := e.settleOne session n } session submit m := by
        have hne : m ≠ n := fun hmn => hn (hmn ▸ hm)
        have hcm := hclosable m (List.mem_cons_of_mem _ hm)
        exact ⟨fun loc hloc => hcm.submittable loc ((hsegs m hne).symm.trans hloc),
          fun loc hloc => hcm.harmless loc ((hsegs m hne).symm.trans hloc)⟩
      have hrest : n ∉ rest := fun hm => hn (mem_of_mem_rest closed hm)
      have hsame : (settle { e with server := s₁, balance := e.settleOne session n } session
          fun m => m ∈ l ∧ m ∉ rest) = e.settle session fun m => m ∈ n :: l ∧ m ∉ rest := by
        funext m t
        by_cases hm : m = n
        · simp [settle, settleOne, hm, hrest, hn]
        · simp [settle, settleOne, hm]
      rw [← hsame]
      exact ih hl h₁ hclosable₁ closed

end Execution

end Simutrace
