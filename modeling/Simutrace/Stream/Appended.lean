import Simutrace.Stream.AppendIndex

/-! # Appended entries

The calls of the sessions hand the entries of their segments to the encoder. In
any run, the indices of the segments tile exactly these entries, whatever order
the encodings end in.
-/

namespace Simutrace

def WriteAction.submits : WriteAction → StreamSegmentId → SubmitOutcome
  | .submitLast _ _ submit, _ | .close _ _ _ _ submit, _ => submit
  | .closeSession _ _ _ submit, n => submit n
  | .allocateNext _, _ | .encoded _ _, _ => .failed

namespace ServerStream

def holds (s : ServerStream) (session : SessionId) (n : StreamSegmentId) : Bool :=
  (s.segments n).any (session ∈ ·.referenceMap)

def handedOver (s : ServerStream) (closes : StreamSegmentId → Bool)
    (submits : StreamSegmentId → SubmitOutcome) : ℕ :=
  ((List.range s.size).map fun n =>
    if s.writable n && closes n then (submits n).entryCount else 0).sum

variable {s s' : ServerStream} {n : StreamSegmentId} {loc : SegmentLocation}
  {submits : StreamSegmentId → SubmitOutcome} {session : SessionId}
  {startIndex entryCount : StreamSegmentId → ℕ} {closes closes' : StreamSegmentId → Bool}
  {throws : Bool}

theorem holds_of_segment (hloc : s.segments n = some loc) :
    s.holds session n = decide (session ∈ loc.referenceMap) := by
  rw [holds, hloc, Option.any_some]

theorem holds_eq_false (h : ∀ loc ∈ s.segments n, session ∉ loc.referenceMap) :
    s.holds session n = false := by
  unfold holds
  cases hloc : s.segments n with
  | none => rfl
  | some loc =>
    rw [Option.any_some, decide_eq_false_iff_not]
    exact h loc hloc

theorem handedOver_congr (hsize : s'.size = s.size)
    (h : ∀ m, (s'.writable m && closes' m) = (s.writable m && closes m)) :
    s'.handedOver closes' submits = s.handedOver closes submits := by
  unfold handedOver
  rw [hsize]
  congr 2
  funext m
  rw [h]

theorem handedOver_eq_zero (h : ∀ m, s.writable m = true → closes m = false) :
    s.handedOver closes submits = 0 := by
  refine List.sum_eq_zero fun count hcount => ?_
  obtain ⟨m, -, rfl⟩ := List.mem_map.mp hcount
  refine if_neg fun hm => ?_
  obtain ⟨hw, hc⟩ := Bool.and_eq_true_iff.mp hm
  exact Bool.false_ne_true ((h m hw).symm.trans hc)

theorem Tiled.handedOver_eq (h : s.Tiled startIndex entryCount) (hw : s.writable n = true) :
    s.handedOver closes submits = if closes n then (submits n).entryCount else 0 := by
  obtain ⟨hlast, hsize, -⟩ := h.last n hw
  unfold handedOver
  rw [← hsize, List.range_succ, List.map_append, List.sum_append, List.map_singleton,
    List.sum_singleton, hw, Bool.true_and, Nat.add_eq_right]
  refine List.sum_eq_zero fun count hcount => ?_
  obtain ⟨m, hm, rfl⟩ := List.mem_map.mp hcount
  refine if_neg fun hclosed => ?_
  have hm' := (h.last m (Bool.and_eq_true_iff.mp hclosed).1).1
  exact (List.mem_range.mp hm).ne (Option.some.inj (hm'.symm.trans hlast))

theorem Tiled.handedOver_single (h : s.Tiled startIndex entryCount)
    (hcloses : ∀ m, closes m = true ↔ m = n) :
    s.handedOver closes submits = if s.writable n then (submits n).entryCount else 0 := by
  split_ifs with hw
  · rw [h.handedOver_eq hw, if_pos ((hcloses n).mpr rfl)]
  · refine handedOver_eq_zero fun m hm => ?_
    by_contra hc
    obtain rfl := (hcloses m).mp (Bool.eq_true_of_not_eq_false hc)
    exact hw hm

theorem Tiled.index_closesNew (h : s.Tiled startIndex entryCount)
    (hloc : s.segments n = some loc) (hnew : loc.New n session)
    (hc : s.ClosesNew n loc (submits n) throws s') : s'.lastAppendIndex =
      s.lastAppendIndex + if s.writable n then (submits n).entryCount else 0 := by
  have hw : s.writable n = true ↔ loc.id ≠ none := by
    rw [writable_of_segment hloc]
    exact writable_iff_of_new hnew
  cases hc with
  | threw _ same _ empty => rw [same, empty, ite_self, Nat.add_zero]
  | marked waitList id replaces keeps =>
    rw [keeps.index, if_neg fun hn => hw.mp hn id, Nat.add_zero]
  | dropped id replaces ends empty =>
    have hlast := (h.last n (hw.mpr id)).1
    rw [ends.index, if_pos hlast, empty, ite_self,
      Nat.mod_eq_of_lt (h.index_lt hlast (by decide)).2]
  | encoding waitList id pos lt replaces ends =>
    have hlast := (h.last n (hw.mpr id)).1
    rw [ends.index, if_pos hlast, if_pos (hw.mpr id),
      Nat.mod_eq_of_lt (h.index_lt hlast lt).2]

theorem ClosesNew.eq_of_not_writable {submit : SubmitOutcome}
    (hc : s.ClosesNew n loc submit throws s') (hloc : s.segments n = some loc)
    (hnew : loc.New n session) (hw : ¬ s.writable n = true) :
    throws = false ∧ s'.size = s.size ∧ (∀ m, s'.writable m = s.writable m) ∧
      ∀ session m, s'.holds session m = s.holds session m := by
  rw [writable_of_segment hloc, writable_iff_of_new hnew] at hw
  cases hc with
  | threw _ _ id => exact absurd id hw
  | marked waitList id replaces keeps returns =>
    refine ⟨returns, replaces.size, fun m => ?_, fun session m => ?_⟩
    · rw [writable_of_replaces replaces]
      split_ifs with hm
      · rw [hm, writable_of_segment hloc]
        rfl
      · rfl
    · by_cases hm : m = n
      · rw [hm, holds_of_segment replaces.self, holds_of_segment hloc]
      · rw [holds, replaces.of_ne hm, holds]
  | dropped id => exact absurd id hw
  | encoding _ id => exact absurd id hw

theorem Tiled.writable_eq_false (h : s.Tiled startIndex entryCount)
    (hlast : s.lastAppendSequenceNumber = none) (m : StreamSegmentId) : s.writable m = false := by
  by_contra hw
  cases hlast.symm.trans (h.last m (Bool.eq_true_of_not_eq_false hw)).1

end ServerStream

namespace ServerState

open ServerStream

variable {s s' : ServerState} {n : StreamSegmentId} {session : SessionId} {wait : Option WaitId}
  {ignoreErrors : Bool} {submits : StreamSegmentId → SubmitOutcome}
  {startIndex entryCount : StreamSegmentId → ℕ} {openList rest : List StreamSegmentId}

def closesFor (s : ServerState) (session : SessionId) (openList : List StreamSegmentId)
    (n : StreamSegmentId) : Bool :=
  decide (n ∈ openList) && s.stream.holds session n

theorem handedOver_cons (h : s.stream.writable n = true → s.stream.holds session n = false) :
    s.stream.handedOver (s.closesFor session (n :: openList)) submits =
      s.stream.handedOver (s.closesFor session openList) submits := by
  refine handedOver_congr rfl fun m => ?_
  unfold closesFor
  by_cases hm : m = n
  · subst hm
    cases hw : s.stream.writable m with
    | false => rfl
    | true => simp [h hw]
  · simp [hm]

/-- Closing a session hands over the entries of the segment that it writes. -/
theorem index_closeSession (h : s.stream.Tiled startIndex entryCount)
    (hpossible : ∀ n loc, s.stream.segments n = some loc → (submits n).Possible loc)
    (hc : closeSession session wait ignoreErrors submits openList s = (s', rest)) :
    s'.stream.lastAppendIndex = s.stream.lastAppendIndex +
      s.stream.handedOver (s.closesFor session openList) submits := by
  induction openList generalizing s entryCount with
  | nil =>
    obtain ⟨rfl, -⟩ := Prod.mk.inj hc
    rw [handedOver_eq_zero, Nat.add_zero]
    exact fun _ _ => rfl
  | cons n openList ih =>
    unfold closeSession at hc
    cases hclose : s.closeReferences session wait ignoreErrors (submits n) n with
    | mk s₁ throws =>
    rw [hclose] at hc
    rcases closesNew_closeReferences h.written (hpossible n) hclose with
      ⟨rfl, rfl, hother⟩ | ⟨loc, hloc, hnew, hcloses⟩
    · rw [handedOver_cons fun _ => holds_eq_false hother]
      exact ih h hpossible hc
    · have h₁ := h.closesNew hloc hnew hcloses
      have hpossible₁ := possible_of_closings (.of_closesNew hloc hnew hcloses) hpossible
      have hindex := h.index_closesNew hloc hnew hcloses
      by_cases hw : s.stream.writable n = true
      · have hcloses₁ : s.closesFor session (n :: openList) n = true := by
          rw [closesFor, holds_of_segment hloc, hnew.map]
          simp
        rw [if_pos hw] at hindex
        rw [h.handedOver_eq hw, if_pos hcloses₁, ← hindex]
        cases throws with
        | true =>
          obtain ⟨rfl, -⟩ := Prod.mk.inj hc
          rfl
        | false =>
          have hid : loc.id ≠ none := by
            rw [writable_of_segment hloc] at hw
            exact (writable_iff_of_new hnew).mp hw
          have hlast := hcloses.last_eq_none hid (h.last n hw).1
          rw [ih h₁ hpossible₁ hc, handedOver_eq_zero, Nat.add_zero]
          exact fun m hm => absurd hm (by rw [h₁.writable_eq_false hlast]; exact Bool.false_ne_true)
      · obtain ⟨rfl, hsame⟩ := hcloses.eq_of_not_writable hloc hnew hw
        rw [handedOver_cons fun hn => absurd hn hw, ih h₁ hpossible₁ hc, hindex, if_neg hw,
          Nat.add_zero, handedOver_congr hsame.1]
        intro m
        rw [hsame.2.1, closesFor, closesFor, hsame.2.2]

end ServerState

namespace Writing

variable {w w' : Writing} {a : WriteAction} {l : List (Transition.Taken Writing WriteAction)}

def closes (w : Writing) : WriteAction → StreamSegmentId → Bool
  | .submitLast _ _ _, n => decide (w.server.stream.lastAppendSequenceNumber = some n)
  | .close _ m _ _ _, n => decide (n = m)
  | .closeSession session _ _ _, n => w.server.closesFor session w.server.stream.openList n
  | .allocateNext _, _ | .encoded _ _, _ => false

def handedOver (w : Writing) (a : WriteAction) : ℕ :=
  w.server.stream.handedOver (w.closes a) a.submits

def appended (l : List (Transition.Taken Writing WriteAction)) : ℕ :=
  (l.map fun x => x.before.handedOver x.label).sum

def Succeeds (w : Writing) : WriteAction → Prop
  | .encoded n frame => ∃ f, frame = some f ∧
      w.server.stream.LocationAccepted (w.makeStorageLocation n f)
  | _ => True

def SuccessfulStep (w : Writing) (a : WriteAction) (w' : Writing) : Prop :=
  Step w a w' ∧ w.Succeeds a

/-- The indices tile the stream, and an `append` that is to add a segment has closed the last. -/
structure Tiled (w : Writing) : Prop where
  stream : w.server.stream.Tiled w.startIndex w.entryCount
  idle : w.appending ≠ none → w.server.stream.lastAppendSequenceNumber = none

theorem tiled_fresh : fresh.Tiled where
  stream := {
    written := initial_fresh.written
    tiles := rfl
    pos := fun _ h => by cases h
    zero := fun _ _ => rfl
    last := fun _ h => by cases h
    located := fun _ _ _ h => by cases h
    bound := by decide
    size := by decide }
  idle h := absurd rfl h

theorem Tiled.stores {n : StreamSegmentId} {frame : Option Frame} {loc : SegmentLocation}
    {s : ServerState} (h : w.Tiled) (segment : w.server.stream.segments n = some loc)
    (encoding : loc.location = none ∧ loc.id = none)
    (completed : w.server.writerMain n (frame.map (w.makeStorageLocation n)) = some s)
    (hsucceeds : w.Succeeds (.encoded n frame)) :
    ∃ f, w.server.stream.Stores n (w.makeStorageLocation n f) s.stream ∧
      w.server.stream.closed n = true ∧ (w.makeStorageLocation n f).ranges .qIndex =
        ⟨w.startIndex n, w.startIndex n + w.entryCount n - 1⟩ := by
  obtain ⟨f, rfl, haccepted⟩ := hsucceeds
  rcases encoded_cases h.stream.written segment encoding completed with
    ⟨f', hf, hstores⟩ | ⟨hrejected, -⟩
  · have hclosed : w.server.stream.closed n = true := by
      rw [ServerStream.closed_of_segment segment, SegmentLocation.writable, encoding.2]
      exact congrArg (!·) (Bool.and_false _)
    have hpos := h.stream.pos n hclosed
    have hlt := h.stream.index_lt_of_closed hclosed
    refine ⟨f', hstores, hclosed, if_pos ⟨hpos, ?_⟩⟩
    unfold invalidLargeObjectId
    omega
  · exact absurd haccepted (hrejected f rfl)

theorem tiled_step (h : w.Tiled) (step : SuccessfulStep w a w') : w'.Tiled := by
  obtain ⟨step, hsucceeds⟩ := step
  have hwritten := h.stream.written
  cases step with
  | @submitLast session wait submit s throws unlocked possible submitted =>
    rcases ServerState.closings_submitLast hwritten possible submitted with
      ⟨rfl, hlast⟩ | ⟨n, loc, owner, hlast, hloc, hnew, hid, hc⟩
    · refine ⟨?_, fun _ => hlast⟩
      have hcounts : w.server.stream.recordCounts w.server.stream (fun _ => submit) w.entryCount =
          w.entryCount := ServerStream.recordCounts_of_closed fun _ => rfl
      rw [record, hcounts]
      exact h.stream
    · refine ⟨@ServerStream.Tiled.closesNew _ _ _ _ (fun _ => submit) _ _ _ _ h.stream hloc hnew hc,
        fun happending => ?_⟩
      cases throws with
      | false => exact hc.last_eq_none hid hlast
      | true => exact absurd rfl happending
  | @allocateNext session id appending free =>
    have hlast := h.idle (by rw [appending]; exact Option.some_ne_none session)
    unfold allocateNext
    cases id with
    | none => exact ⟨h.stream, fun hn => absurd rfl hn⟩
    | some id =>
      rw [hwritten.slots.nextSequenceNumber]
      dsimp only
      split_ifs with hsize
      · exact ⟨h.stream, fun hn => absurd rfl hn⟩
      · exact ⟨h.stream.append hlast hsize session id, fun hn => absurd rfl hn⟩
  | close possible closed =>
    have hc := ServerState.closings_close hwritten possible closed
    exact ⟨h.stream.closings hc, fun happending => hc.last_eq_none (h.idle happending)⟩
  | closeSession possible closed =>
    have hc := ServerState.closings_closeSession hwritten possible closed
    exact ⟨h.stream.closings hc, fun happending => hc.last_eq_none (h.idle happending)⟩
  | encoded segment encoding completed =>
    obtain ⟨f, hstores, hclosed, hrange⟩ := h.stores segment encoding completed hsucceeds
    refine ⟨h.stream.stores hstores hclosed hrange, fun happending => ?_⟩
    rw [hstores.keeps.number]
    exact h.idle happending

theorem tiled_run {w : Writing} (run : Transition.Run (· = fresh) SuccessfulStep l w) :
    w.Tiled := by
  have hinvariant : Transition.Invariant (· = fresh) SuccessfulStep Tiled :=
    ⟨fun _ h => h ▸ tiled_fresh, fun _ _ _ h step => tiled_step h step⟩
  exact hinvariant.run run

theorem index_step (h : w.Tiled) (step : SuccessfulStep w a w') :
    w'.server.stream.lastAppendIndex = w.server.stream.lastAppendIndex + w.handedOver a := by
  obtain ⟨step, hsucceeds⟩ := step
  have hwritten := h.stream.written
  have hnone (hcloses : ∀ n, w.closes a n = false) : w.handedOver a = 0 :=
    ServerStream.handedOver_eq_zero fun n _ => hcloses n
  cases step with
  | @submitLast session wait submit s throws unlocked possible submitted =>
    rcases ServerState.closings_submitLast hwritten possible submitted with
      ⟨rfl, hlast⟩ | ⟨n, loc, owner, hlast, hloc, hnew, -, hc⟩
    · rw [hnone, Nat.add_zero]
      · rfl
      · exact fun n => decide_eq_false (by rw [hlast]; exact (Option.some_ne_none n).symm)
    · rw [handedOver, h.stream.handedOver_single (n := n)]
      · exact @ServerStream.Tiled.index_closesNew _ _ _ _ (fun _ => submit) _ _ _ _ h.stream hloc
          hnew hc
      · exact fun m => by rw [closes, decide_eq_true_iff, hlast, Option.some_inj, eq_comm]
  | @allocateNext session id appending free =>
    rw [hnone fun _ => rfl, Nat.add_zero]
    rcases server_allocateNext hwritten with heq | ⟨i, heq⟩ <;> rw [heq]
    rfl
  | @close session n wait ignoreErrors throws submit s possible closed =>
    obtain ⟨loc, hloc, hnew, hc⟩ := ServerState.closesNew_close hwritten possible closed
    rw [handedOver, h.stream.handedOver_single (n := n)]
    · exact @ServerStream.Tiled.index_closesNew _ _ _ _ (fun _ => submit) _ _ _ _ h.stream hloc
        hnew hc
    · exact fun m => by rw [closes, decide_eq_true_iff]
  | closeSession possible closed =>
    exact ServerState.index_closeSession h.stream possible closed
  | encoded segment encoding completed =>
    obtain ⟨f, hstores, -, -⟩ := h.stores segment encoding completed hsucceeds
    rw [hnone fun _ => rfl, Nat.add_zero]
    exact hstores.keeps.index

/-- The next index is the number of appended entries. -/
theorem index_run {w : Writing} (run : Transition.Run (· = fresh) SuccessfulStep l w) :
    w.server.stream.lastAppendIndex = appended l := by
  induction run with
  | start initial =>
    rw [initial]
    rfl
  | step run taken ih =>
    rw [index_step (tiled_run run) taken, ih, Nat.add_comm]
    rfl

/-- In any run in which the encodings succeed, the next index is the number of entries that the
calls have handed to the encoder. The indices of the stored segments do not overlap, and tile
those of all these entries when no encoding is in progress, whatever order the encodings ended
in. -/
theorem located_tile {w : Writing} (run : Transition.Run (· = fresh) SuccessfulStep l w) :
    w.server.stream.lastAppendIndex = appended l ∧
      (∃ ranges, w.server.stream.locatedRanges.Sublist ranges ∧
        RangeIndex.Tiles ranges 0 (appended l)) ∧
      ((∀ n, w.server.stream.closed n = true → w.server.stream.isLocated n = true) →
        RangeIndex.Tiles w.server.stream.locatedRanges 0 (appended l)) := by
  have htiled := (tiled_run run).stream
  have hindex := index_run run
  have htiles := htiled.tiles
  rw [hindex] at htiles
  refine ⟨hindex, ⟨_, htiled.locatedRanges_sublist, htiles⟩, fun hall => ?_⟩
  rw [htiled.locatedRanges_eq_closedRanges hall]
  exact htiles

instance (a : WriteAction) : Decidable (w.Succeeds a) :=
  match a with
  | .encoded n (some f) =>
    decidable_of_iff (w.server.stream.LocationAccepted (w.makeStorageLocation n f))
      ⟨fun h => ⟨f, rfl, h⟩, by rintro ⟨_, ⟨⟩, h⟩; exact h⟩
  | .encoded _ none => .isFalse (by rintro ⟨_, ⟨⟩, -⟩)
  | .submitLast _ _ _ | .allocateNext _ | .close _ _ _ _ _ | .closeSession _ _ _ _ =>
    .isTrue trivial

theorem successful_turns : Transition.Run (· = fresh) SuccessfulStep turns.1 turns.2 := by
  have hinvariant : Transition.Invariant (· = fresh) Step fun w => w.server.stream.Written :=
    ⟨fun _ h => h ▸ initial_fresh.written, invariant_written.step⟩
  refine (hinvariant.replay (fun _ _ _ h hperform => step_perform h.slots hperform) rfl
    (by decide)).restrict ?_
  decide

theorem located_turns (n : StreamSegmentId) (hn : turns.2.server.stream.closed n = true) :
    turns.2.server.stream.isLocated n = true := by
  obtain ⟨loc, hloc, -⟩ := ServerStream.closed_iff.mp hn
  have hlt : n < 3 := (tiled_run successful_turns).stream.written.lt_size hloc
  have hall : ∀ n < 3, turns.2.server.stream.closed n = true →
      turns.2.server.stream.isLocated n = true := by decide
  exact hall n hlt hn

theorem located_tile_turns : turns.2.server.stream.lastAppendIndex = 5 ∧
    RangeIndex.Tiles turns.2.server.stream.locatedRanges 0 5 := by
  obtain ⟨hindex, -, htiles⟩ := located_tile successful_turns
  exact ⟨hindex, htiles located_turns⟩

end Writing

end Simutrace
