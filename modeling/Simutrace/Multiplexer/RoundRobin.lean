import Simutrace.Library.RoundRobin
import Simutrace.Multiplexer.HandleContext

/-! # The round-robin rule

The index of the list goes from one input stream to the next one and back to the
first. An input stream that has ended leaves the list, so that the index is at
the next one, except for the last of the list, from where it goes back by one.
-/

namespace Simutrace

open Interleaving RoundRobin

namespace StreamMultiplexer

variable {α : Type*} (m : StreamMultiplexer α)

def quota (i : ℕ) : ℕ := ((m.inputStreams.map (·.entries)).getD i []).length

def selectedIdx (ctx : HandleContext α) : Option ℕ :=
  ctx.index.bind fun index => ctx.list[index]?.map (·.entry.streamIdx)

/-- After the given turns, the list has the input streams that are not exhausted. -/
structure ListHolds (turns : List ℕ) (list : List (HandleStreamContext α)) : Prop where
  streams : list.map (·.entry.streamIdx) =
    (List.range m.inputStreams.length).filter fun j => Active m.quota turns j
  left : ∀ sctx ∈ list,
    turns.count sctx.entry.streamIdx + sctx.rest.length + 1 = m.quota sctx.entry.streamIdx

variable {m} {ctx : HandleContext α} {sctx : HandleStreamContext α} {turns : List ℕ} {i : ℕ}
  {l₁ l₂ : List (HandleStreamContext α)}

theorem quota_of_getElem? {stream : InputStream α} (h : m.inputStreams[i]? = some stream) :
    m.quota i = stream.entries.length := by
  unfold quota
  rw [List.getD, List.getElem?_map, h]
  rfl

theorem listHolds_firstEntries : m.ListHolds [] m.firstEntries := by
  have hquota {s : InputStream α × ℕ} (hs : s ∈ m.inputStreams.zipIdx) :
      m.quota s.2 = s.1.entries.length :=
    quota_of_getElem? (List.mem_zipIdx_iff_getElem?.mp hs)
  constructor
  · have hfirst : m.firstEntries.map (·.entry.streamIdx) =
        (m.inputStreams.zipIdx.filter fun s => decide (Active m.quota [] s.2)).map Prod.snd := by
      have hmem := fun s => @hquota s
      unfold firstEntries
      generalize m.inputStreams.zipIdx = l at hmem
      induction l with
      | nil => rfl
      | cons s l ih =>
        have hl := ih fun s hs => hmem s (List.mem_cons_of_mem _ hs)
        have hs : Active m.quota [] s.2 ↔ s.1.entries ≠ [] := by
          unfold Active
          rw [hmem s List.mem_cons_self, List.count_nil, List.length_pos_iff]
        obtain ⟨⟨id, entries⟩, i⟩ := s
        cases entries with
        | nil =>
          rw [List.filter_cons_of_neg (by simpa using hs), ← hl]
          rfl
        | cons entry rest =>
          rw [List.filter_cons_of_pos (by simpa using hs), List.map_cons, ← hl]
          rfl
    rw [hfirst, List.range_eq_range', ← List.zipIdx_map_snd 0 m.inputStreams, List.filter_map]
    rfl
  · intro sctx hsctx
    unfold firstEntries at hsctx
    obtain ⟨⟨stream, i⟩, hs, hfirst⟩ := List.mem_filterMap.mp hsctx
    have := hquota hs
    dsimp only at hfirst this
    split at hfirst
    · cases hfirst
    · rename_i entry rest hentries
      obtain rfl := Option.some.inj hfirst
      rw [this, hentries, List.count_nil, List.length_cons, Nat.zero_add]

theorem exists_split (selected : ctx.list[i]? = some sctx) :
    ∃ l₁ l₂, ctx.list = l₁ ++ sctx :: l₂ ∧ l₁.length = i := by
  obtain ⟨hi, rfl⟩ := List.getElem?_eq_some_iff.mp selected
  refine ⟨ctx.list.take i, ctx.list.drop (i + 1), ?_, ?_⟩
  · rw [← List.drop_eq_getElem_cons hi, List.take_append_drop]
  · rw [List.length_take, min_eq_left hi.le]

theorem advance_of_nil (split : ctx.list = l₁ ++ sctx :: l₂) (h : sctx.rest = []) :
    m.advance ctx l₁.length sctx = if (l₁ ++ l₂).length = 0 then ⟨l₁ ++ l₂, none⟩ else
      ⟨l₁ ++ l₂, some (if l₁.length = (l₁ ++ l₂).length then l₁.length - 1 else l₁.length)⟩ := by
  have herase : (l₁ ++ sctx :: l₂).eraseIdx l₁.length = l₁ ++ l₂ := by
    rw [List.eraseIdx_append_of_length_le le_rfl, Nat.sub_self, List.eraseIdx_zero, List.tail_cons]
  unfold advance
  rw [update_of_nil h]
  dsimp only
  rw [split, herase]

theorem advance_of_cons (rule : m.rule = .mxrRoundRobin) (split : ctx.list = l₁ ++ sctx :: l₂)
    {sctx' : HandleStreamContext α} (h : m.update sctx = some sctx') :
    m.advance ctx l₁.length sctx =
      ⟨l₁ ++ sctx' :: l₂, some ((l₁.length + 1) % (l₁.length + (l₂.length + 1)))⟩ := by
  have hset : (l₁ ++ sctx :: l₂).set l₁.length sctx' = l₁ ++ sctx' :: l₂ := by
    rw [List.set_append_right _ _ le_rfl, Nat.sub_self, List.set_cons_zero]
  unfold advance
  rw [h, rule]
  dsimp only
  rw [split, hset, List.length_append, List.length_cons]

theorem ListHolds.split_eq (holds : m.ListHolds turns (l₁ ++ sctx :: l₂)) :
    ((List.range m.inputStreams.length).filter fun j => Active m.quota turns j) =
      l₁.map (·.entry.streamIdx) ++ sctx.entry.streamIdx :: l₂.map (·.entry.streamIdx) := by
  rw [← holds.streams, List.map_append, List.map_cons]

theorem ListHolds.sorted (holds : m.ListHolds turns (l₁ ++ sctx :: l₂)) :
    (l₁.map (·.entry.streamIdx) ++ sctx.entry.streamIdx ::
      l₂.map (·.entry.streamIdx)).Pairwise (· < ·) := by
  rw [← holds.split_eq]
  exact List.pairwise_lt_range.filter _

theorem ListHolds.mem {list : List (HandleStreamContext α)} (holds : m.ListHolds turns list)
    (mem : sctx ∈ list) : sctx.entry.streamIdx < m.inputStreams.length ∧
      Active m.quota turns sctx.entry.streamIdx := by
  have hmem : sctx.entry.streamIdx ∈ list.map (·.entry.streamIdx) :=
    List.mem_map.mpr ⟨sctx, mem, rfl⟩
  rw [holds.streams, List.mem_filter, List.mem_range, decide_eq_true_eq] at hmem
  exact hmem

theorem ListHolds.filter_eq (holds : m.ListHolds turns (l₁ ++ sctx :: l₂)) :
    ((List.range m.inputStreams.length).filter fun j =>
        Active m.quota (turns ++ [sctx.entry.streamIdx]) j) =
      l₁.map (·.entry.streamIdx) ++ ([sctx.entry.streamIdx].filter fun j =>
        Active m.quota (turns ++ [sctx.entry.streamIdx]) j) ++ l₂.map (·.entry.streamIdx) := by
  have hnodup := holds.sorted.imp (S := (· ≠ ·)) fun h => h.ne
  change List.Nodup _ at hnodup
  rw [List.nodup_middle, List.nodup_cons, List.mem_append, not_or] at hnodup
  have hactive {j : ℕ} (hj : j ∈ (List.range m.inputStreams.length).filter fun j =>
      Active m.quota turns j) (hne : j ≠ sctx.entry.streamIdx) :
      decide (Active m.quota (turns ++ [sctx.entry.streamIdx]) j) = true :=
    decide_eq_true ((active_append_of_ne hne).mpr (of_decide_eq_true (List.mem_filter.mp hj).2))
  have hsub : ((List.range m.inputStreams.length).filter fun j =>
      Active m.quota (turns ++ [sctx.entry.streamIdx]) j) =
      ((List.range m.inputStreams.length).filter fun j => Active m.quota turns j).filter fun j =>
        Active m.quota (turns ++ [sctx.entry.streamIdx]) j := by
    rw [List.filter_filter]
    refine List.filter_congr fun j _ => ?_
    rw [Bool.eq_iff_iff]
    simp only [decide_eq_true_eq, Bool.and_eq_true, iff_self_and]
    exact Active.of_append
  rw [holds.split_eq] at hactive hsub
  have h₁ : ((l₁.map (·.entry.streamIdx)).filter fun j =>
      Active m.quota (turns ++ [sctx.entry.streamIdx]) j) = l₁.map (·.entry.streamIdx) :=
    List.filter_eq_self.mpr fun j hj => hactive (by simp [hj]) fun h => hnodup.1.1 (h ▸ hj)
  have h₂ : ((l₂.map (·.entry.streamIdx)).filter fun j =>
      Active m.quota (turns ++ [sctx.entry.streamIdx]) j) = l₂.map (·.entry.streamIdx) :=
    List.filter_eq_self.mpr fun j hj => hactive (by simp [hj]) fun h => hnodup.1.2 (h ▸ hj)
  rw [hsub, List.append_cons (l₁.map _), List.filter_append, List.filter_append, h₁, h₂]

theorem ListHolds.left_of_ne (holds : m.ListHolds turns (l₁ ++ sctx :: l₂))
    {other : HandleStreamContext α} (mem : other ∈ l₁ ++ l₂) :
    (turns ++ [sctx.entry.streamIdx]).count other.entry.streamIdx + other.rest.length + 1 =
      m.quota other.entry.streamIdx := by
  have hmem : other ∈ l₁ ++ sctx :: l₂ :=
    List.perm_middle.mem_iff.mpr (List.mem_cons_of_mem _ mem)
  have hnodup := holds.sorted.imp (S := (· ≠ ·)) fun h => h.ne
  change List.Nodup _ at hnodup
  rw [List.nodup_middle, List.nodup_cons, ← List.map_append] at hnodup
  have hne : sctx.entry.streamIdx ≠ other.entry.streamIdx := fun h =>
    hnodup.1 (h ▸ List.mem_map.mpr ⟨other, mem, rfl⟩)
  rw [List.count_append, List.count_singleton, if_neg (by simpa using hne), Nat.add_zero]
  exact holds.left other hmem

theorem ListHolds.update {sctx' : HandleStreamContext α}
    (holds : m.ListHolds turns (l₁ ++ sctx :: l₂)) (updated : m.update sctx = some sctx') :
    m.ListHolds (turns ++ [sctx.entry.streamIdx]) (l₁ ++ sctx' :: l₂) := by
  have hself := holds.left sctx (by simp)
  have hcount : (turns ++ [sctx.entry.streamIdx]).count sctx.entry.streamIdx =
      turns.count sctx.entry.streamIdx + 1 := by
    rw [List.count_append, List.count_singleton_self]
  have hupdated : sctx'.entry.streamIdx = sctx.entry.streamIdx ∧
      sctx.rest.length = sctx'.rest.length + 1 := by
    rcases hrest : sctx.rest with _ | ⟨entry, rest⟩
    · rw [update_of_nil hrest] at updated
      cases updated
    · rw [update_of_cons hrest] at updated
      obtain rfl := Option.some.inj updated
      exact ⟨rfl, rfl⟩
  refine ⟨?_, fun other hother => ?_⟩
  · have hstays : Active m.quota (turns ++ [sctx.entry.streamIdx]) sctx.entry.streamIdx := by
      unfold Active
      rw [hcount]
      omega
    rw [holds.filter_eq, List.filter_cons_of_pos (by simpa using hstays), List.filter_nil,
      List.map_append, List.map_cons, hupdated.1, List.append_assoc, List.singleton_append]
  · rcases List.mem_cons.mp (List.perm_middle.mem_iff.mp hother) with rfl | hother
    · rw [hupdated.1, hcount]
      omega
    · exact holds.left_of_ne hother

theorem ListHolds.erase (holds : m.ListHolds turns (l₁ ++ sctx :: l₂)) (ended : sctx.rest = []) :
    m.ListHolds (turns ++ [sctx.entry.streamIdx]) (l₁ ++ l₂) := by
  have hself := holds.left sctx (by simp)
  rw [ended, List.length_nil] at hself
  have hends : ¬ Active m.quota (turns ++ [sctx.entry.streamIdx]) sctx.entry.streamIdx := by
    unfold Active
    rw [List.count_append, List.count_singleton_self]
    omega
  refine ⟨?_, fun other hother => holds.left_of_ne hother⟩
  rw [holds.filter_eq, List.filter_cons_of_neg (by simpa using hends), List.filter_nil,
    List.append_nil, List.map_append]

theorem ListHolds.advance (holds : m.ListHolds turns ctx.list) (rule : m.rule = .mxrRoundRobin)
    (split : ctx.list = l₁ ++ sctx :: l₂) : m.ListHolds (turns ++ [sctx.entry.streamIdx])
      (m.advance ctx l₁.length sctx).list := by
  rw [split] at holds
  rcases hrest : sctx.rest with _ | ⟨entry, rest⟩
  · rw [advance_of_nil split hrest]
    split_ifs <;> exact holds.erase hrest
  · have hupdate := update_of_cons (m := m) hrest
    rw [advance_of_cons rule split hupdate]
    exact holds.update hupdate

theorem lastRunsOut_of_nil {first other : HandleStreamContext α} {l : List (HandleStreamContext α)}
    (holds : m.ListHolds turns ((first :: l ++ [other]) ++ [sctx])) (ended : sctx.rest = []) :
    LastRunsOut m.inputStreams.length m.quota turns sctx.entry.streamIdx := by
  have hself := holds.left sctx (by simp)
  rw [ended, List.length_nil] at hself
  have hsorted := holds.sorted
  have hends := (holds.erase ended).streams
  refine ⟨by omega, fun j hj hjn hactive => ?_, first.entry.streamIdx, other.entry.streamIdx,
    ?_, ?_⟩
  · have hmem : j ∈ (List.range m.inputStreams.length).filter fun j => Active m.quota turns j :=
      List.mem_filter.mpr ⟨List.mem_range.mpr hjn, decide_eq_true hactive⟩
    rw [holds.split_eq] at hmem
    rcases List.mem_append.mp hmem with hmem | hmem
    · exact absurd ((List.pairwise_append.mp hsorted).2.2 j hmem _ List.mem_cons_self) (by omega)
    · exact hj.ne' (List.mem_singleton.mp hmem)
  · refine (List.pairwise_cons.mp (List.pairwise_append.mp hsorted).1).1 _ ?_
    exact List.mem_map.mpr ⟨other, by simp, rfl⟩
  · have hactive {c : HandleStreamContext α} (hc : c ∈ first :: l ++ [other] ++ []) :
        c.entry.streamIdx < m.inputStreams.length ∧
          Active m.quota (turns ++ [sctx.entry.streamIdx]) c.entry.streamIdx :=
      (holds.erase ended).mem hc
    have hfirst : first ∈ first :: l ++ [other] ++ [] := by simp
    have hother : other ∈ first :: l ++ [other] ++ [] := by simp
    exact ⟨(hactive hother).1, (hactive hfirst).2, (hactive hother).2⟩

/-- The stream at the end of the list runs out while at least two others go on. -/
theorem selectedIdx_of_lastRunsOut (holds : m.ListHolds turns ctx.list)
    (split : ctx.list = l₁ ++ sctx :: l₂)
    (last : LastRunsOut m.inputStreams.length m.quota turns sctx.entry.streamIdx) :
    ∃ a b, a < b ∧ b < sctx.entry.streamIdx ∧ Active m.quota turns a ∧ Active m.quota turns b ∧
      selectedIdx (m.advance ctx l₁.length sctx) = some b := by
  rw [split] at holds
  obtain ⟨hlast, hbehind, a, b, hab, hb, ha', hb'⟩ := last
  have hself := holds.left sctx (by simp)
  have hrest : sctx.rest = [] := List.length_eq_zero_iff.mp (by omega)
  have hsorted := holds.sorted
  have hnil : l₂ = [] := by
    refine List.eq_nil_iff_forall_not_mem.mpr fun other hother => ?_
    have hmem : other ∈ l₁ ++ sctx :: l₂ := by simp [hother]
    obtain ⟨hlt, hactive⟩ := holds.mem hmem
    refine hbehind _ ?_ hlt hactive
    exact (List.pairwise_cons.mp (List.pairwise_append.mp hsorted).2.1).1 _
      (List.mem_map.mpr ⟨other, hother, rfl⟩)
  subst hnil
  have hends := (holds.erase hrest).streams
  have hmem {j : ℕ} (hj : j < m.inputStreams.length)
      (hactive : Active m.quota (turns ++ [sctx.entry.streamIdx]) j) :
      j ∈ l₁.map (·.entry.streamIdx) := by
    rw [List.append_nil] at hends
    rw [hends, List.mem_filter, List.mem_range]
    exact ⟨hj, decide_eq_true hactive⟩
  have hsorted₁ := (List.pairwise_append.mp hsorted).1
  have ha := hmem (hab.trans hb) ha'
  have hb := hmem hb hb'
  rcases List.eq_nil_or_concat l₁ with rfl | ⟨l, other, rfl⟩
  · cases hb
  rw [List.concat_eq_append] at *
  rw [List.map_append] at hsorted₁ ha hb
  have hbefore := (List.pairwise_append.mp hsorted₁).2.2
  have hlt : a < other.entry.streamIdx := by
    rcases List.mem_append.mp hb with hb | hb
    · exact hab.trans (hbefore b hb _ List.mem_cons_self)
    · exact hab.trans_eq (List.mem_singleton.mp hb)
  have hmem' : other ∈ l ++ [other] ++ [sctx] := by simp
  have hother := holds.mem hmem'
  refine ⟨a, other.entry.streamIdx, hlt, ?_, ha'.of_append, hother.2, ?_⟩
  · exact (List.pairwise_append.mp hsorted).2.2 _ (by simp) _ List.mem_cons_self
  · rw [advance_of_nil split hrest, if_neg (by simp), List.append_nil, if_pos rfl]
    unfold selectedIdx
    simp

/-- In all other cases, the next entry is from the successor. -/
theorem selectedIdx_of_not_lastRunsOut (rule : m.rule = .mxrRoundRobin)
    (holds : m.ListHolds turns ctx.list) (split : ctx.list = l₁ ++ sctx :: l₂)
    (last : ¬ LastRunsOut m.inputStreams.length m.quota turns sctx.entry.streamIdx) :
    selectedIdx (m.advance ctx l₁.length sctx) = successor m.inputStreams.length m.quota
      (turns ++ [sctx.entry.streamIdx]) sctx.entry.streamIdx := by
  rw [split] at holds
  have hsctx : sctx ∈ l₁ ++ sctx :: l₂ := by simp
  obtain ⟨hlt, -⟩ := holds.mem hsctx
  have hself := holds.left sctx hsctx
  have hcount : (turns ++ [sctx.entry.streamIdx]).count sctx.entry.streamIdx =
      turns.count sctx.entry.streamIdx + 1 := by
    rw [List.count_append, List.count_singleton_self]
  rw [successor_eq hlt holds.split_eq]
  rcases hrest : sctx.rest with _ | ⟨entry, rest⟩
  · rw [hrest, List.length_nil] at hself
    have hends : ¬ Active m.quota (turns ++ [sctx.entry.streamIdx]) sctx.entry.streamIdx := by
      unfold Active
      omega
    rw [List.filter_cons_of_neg (by simpa using hends), List.filter_nil, List.append_nil,
      advance_of_nil split hrest]
    rcases l₂ with _ | ⟨next, l₂⟩
    · rcases List.eq_nil_or_concat l₁ with rfl | ⟨l, other, rfl⟩
      · rfl
      · rw [List.concat_eq_append] at *
        rcases l with _ | ⟨first, l⟩
        · rfl
        · exact absurd (lastRunsOut_of_nil holds hrest) last
    · rw [if_neg (by simp), if_neg (by simp)]
      unfold selectedIdx
      simp
  · rw [hrest, List.length_cons] at hself
    have hstays : Active m.quota (turns ++ [sctx.entry.streamIdx]) sctx.entry.streamIdx := by
      unfold Active
      omega
    rw [List.filter_cons_of_pos (by simpa using hstays), List.filter_nil,
      advance_of_cons rule split (update_of_cons hrest)]
    unfold selectedIdx
    rcases l₂ with _ | ⟨next, l₂⟩
    · rw [List.length_nil, Nat.zero_add, Nat.mod_self]
      rcases l₁ with _ | ⟨first, l₁⟩ <;> simp
    · rw [List.length_cons, Nat.mod_eq_of_lt (by omega)]
      simp

/-- The entries follow each other in turns if no input stream runs out last. -/
theorem Delivers.follows {output : List (MultiplexerEntry α)} (h : m.Delivers ctx output)
    (rule : m.rule = .mxrRoundRobin) (fair : ∀ i, ¬ RunsOutLast m.inputStreams.length m.quota i)
    (holds : m.ListHolds turns ctx.list)
    (next : ∀ c ∈ selectedIdx ctx, Turns m.inputStreams.length m.quota turns c)
    (so_far : Follows m.inputStreams.length m.quota turns) :
    Follows m.inputStreams.length m.quota (turns ++ output.map (·.streamIdx)) := by
  induction h generalizing turns with
  | ended => simpa using so_far
  | @next ctx i sctx output index selected rest ih =>
    have hturns := next sctx.entry.streamIdx (by simp [selectedIdx, index, selected])
    obtain ⟨l₁, l₂, hsplit, rfl⟩ := exists_split selected
    have hnext := selectedIdx_of_not_lastRunsOut rule holds hsplit fun hlast =>
      fair _ (hturns.runsOutLast hlast)
    have hrest := ih (holds.advance rule hsplit) (fun c hc => .next hturns (hnext ▸ hc))
      hturns.follows
    rwa [List.append_assoc] at hrest

/-- An input stream that runs out last breaks the order. -/
theorem Delivers.not_alternates {output : List (MultiplexerEntry α)} (h : m.Delivers ctx output)
    (rule : m.rule = .mxrRoundRobin) (runsOut : RunsOutLast m.inputStreams.length m.quota i)
    (left : Active m.quota turns i) (holds : m.ListHolds turns ctx.list)
    (next : ∀ c ∈ selectedIdx ctx, Turns m.inputStreams.length m.quota turns c) :
    ¬ Alternates m.inputStreams.length m.quota (turns ++ output.map (·.streamIdx)) := by
  induction h generalizing turns with
  | ended _ list =>
    have hmem : i ∈ (List.range m.inputStreams.length).filter fun j => Active m.quota turns j :=
      List.mem_filter.mpr ⟨List.mem_range.mpr runsOut.1, decide_eq_true left⟩
    rw [← holds.streams, list] at hmem
    cases hmem
  | @next ctx k sctx output index selected rest ih =>
    have hturns := next sctx.entry.streamIdx (by simp [selectedIdx, index, selected])
    obtain ⟨l₁, l₂, hsplit, rfl⟩ := exists_split selected
    by_cases hlast : LastRunsOut m.inputStreams.length m.quota turns sctx.entry.streamIdx
    · obtain ⟨a, b, hab, hb, hactive, hactive', hnext⟩ :=
        selectedIdx_of_lastRunsOut holds hsplit hlast
      cases rest with
      | ended index' =>
        unfold selectedIdx at hnext
        rw [index'] at hnext
        cases hnext
      | @next _ _ sctx' output' index' selected' _ =>
        unfold selectedIdx at hnext
        rw [index', Option.bind_some, selected'] at hnext
        obtain rfl := Option.some.inj hnext
        exact hturns.not_alternates hab hb hactive hactive'
    · have hnext := selectedIdx_of_not_lastRunsOut rule holds hsplit hlast
      have hleft : Active m.quota (turns ++ [sctx.entry.streamIdx]) i := by
        by_cases hi : i = sctx.entry.streamIdx
        · subst hi
          have hne : turns.count sctx.entry.streamIdx + 1 ≠ m.quota sctx.entry.streamIdx :=
            fun heq => hlast (hturns.lastRunsOut runsOut heq)
          unfold Active at left ⊢
          rw [List.count_append, List.count_singleton_self]
          omega
        · exact (active_append_of_ne hi).mpr left
      have hrest := ih hleft (holds.advance rule hsplit) (fun c hc => .next hturns (hnext ▸ hc))
      rwa [List.append_assoc] at hrest

theorem turns_start (opens : m.Opens ctx) (rule : m.rule = .mxrRoundRobin) :
    m.ListHolds [] (start ctx).list ∧
      ∀ c ∈ selectedIdx (start ctx), Turns m.inputStreams.length m.quota [] c := by
  have hlist : ctx.list = m.firstEntries := by
    have hlist := opens.2
    rwa [rule] at hlist
  have holds : m.ListHolds [] ctx.list := hlist ▸ listHolds_firstEntries
  refine ⟨holds, fun c hc => .start ?_⟩
  rw [← List.head?_filter, ← holds.streams, ← hc]
  unfold selectedIdx start
  rcases ctx.list with _ | ⟨sctx, list⟩ <;> rfl

/-- With the round-robin rule, the input streams alternate if and only if there is none with more
entries than each of those behind it and with fewer than at least two others. -/
theorem roundRobin_alternates_iff (rule : m.rule = .mxrRoundRobin) (opens : m.Opens ctx) :
    (∃ output, Enumeration.Yields m.getNextEntry ctx output ∧
      Interleaves (m.inputStreams.map (·.entries)) (output.map MultiplexerEntry.key) ∧
      Alternates m.inputStreams.length m.quota (output.map (·.streamIdx))) ↔
    ∀ i, ¬ RunsOutLast m.inputStreams.length m.quota i := by
  obtain ⟨output, hdelivers, hyields, hinterleaves⟩ := opens.exists_yields
  obtain ⟨holds, hturns⟩ := turns_start opens rule
  constructor
  · rintro ⟨output', hyields', -, halternates⟩ i hruns
    obtain rfl := hyields.unique hyields'
    have hactive : Active m.quota [] i := by
      unfold Active
      rw [List.count_nil]
      exact hruns.2.1
    exact hdelivers.not_alternates rule hruns hactive holds hturns halternates
  · intro hfair
    refine ⟨output, hyields, hinterleaves, ?_⟩
    have hfollows := hdelivers.follows rule hfair holds hturns
      fun before i j rest h => absurd (congrArg List.length h) (by simp)
    refine hfollows.alternates fun i hi => ?_
    obtain ⟨e, he, rfl⟩ := List.mem_map.mp hi
    have hlt := hinterleaves.1 e.key (List.mem_map_of_mem he)
    rwa [List.length_map] at hlt

/-- Two entries of the first two input streams, and one of the last. -/
def threeStreams : StreamMultiplexer ℕ where
  inputStreams := [⟨1, [10, 11]⟩, ⟨2, [20, 21]⟩, ⟨3, [30]⟩]
  rule := .mxrRoundRobin
  temporal := false
  timestamp := id
  ordered := fun h => absurd h (by decide)

/-- When the third stream has ended, the second one has two turns before the first has one. -/
theorem threeStreams_not_alternates : (∀ s ∈ threeStreams.inputStreams, s.entries ≠ []) ∧
    ∃ output,
      Enumeration.Yields threeStreams.getNextEntry ⟨threeStreams.firstEntries, none⟩ output ∧
      output.map (·.streamIdx) = [0, 1, 2, 1, 0] ∧
      ¬ Alternates 3 threeStreams.quota (output.map (·.streamIdx)) := by
  refine ⟨by decide, _, .cons rfl (.cons rfl (.cons rfl (.cons rfl (.cons rfl (.nil rfl))))), rfl,
    fun h => ?_⟩
  have hbetween := h [0] 1 [2] [0] rfl (by decide)
  revert hbetween
  decide

/-- The second input stream runs out first, while the last one still has entries. -/
def fairStreams : StreamMultiplexer ℕ where
  inputStreams := [⟨1, [10, 11]⟩, ⟨2, [20]⟩, ⟨3, [30, 31, 32]⟩]
  rule := .mxrRoundRobin
  temporal := false
  timestamp := id
  ordered := fun h => absurd h (by decide)

theorem roundRobin_alternates_fair : ∃ output,
    Enumeration.Yields fairStreams.getNextEntry ⟨fairStreams.firstEntries, none⟩ output ∧
    Interleaves (fairStreams.inputStreams.map (·.entries)) (output.map MultiplexerEntry.key) ∧
    Alternates 3 fairStreams.quota (output.map (·.streamIdx)) := by
  refine (roundRobin_alternates_iff rfl ⟨rfl, rfl⟩).mpr ?_
  rintro i ⟨hi, -, hbehind, a, b, hab, hb, ha, -⟩
  change i < 3 at hi
  change b < 3 at hb
  have hlongest : ∀ j < 3, fairStreams.quota j ≤ fairStreams.quota 2 := by decide
  rcases Nat.lt_or_ge i 2 with hlt | hge
  · exact (hbehind 2 hlt (by decide)).not_ge (hlongest i hi)
  · obtain rfl : i = 2 := by omega
    exact ha.not_ge (hlongest a (by omega))

end StreamMultiplexer

end Simutrace
