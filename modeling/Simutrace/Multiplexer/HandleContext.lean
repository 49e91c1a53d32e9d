import Simutrace.Library.Enumeration
import Simutrace.Library.Interleaving
import Simutrace.Stream.Types

/-! # Stream multiplexers

A multiplexer is a dynamic stream with the entries of a number of input streams.
A handle of it has a handle of each input stream with the entry that comes next,
as long as the input stream is not exhausted.
-/

namespace Simutrace

open Interleaving

inductive MultiplexingRule
  | mxrRoundRobin
  | mxrCycleCount
  deriving DecidableEq, Repr

structure InputStream (α : Type*) where
  id : ℕ
  entries : List α

/-- The cycle count rule is refused for streams that are not temporally ordered. -/
structure StreamMultiplexer (α : Type*) where
  inputStreams : List (InputStream α)
  rule : MultiplexingRule
  temporal : Bool
  timestamp : α → ℕ
  ordered : rule = .mxrCycleCount → temporal = true

structure MultiplexerEntry (α : Type*) where
  cycleCount : ℕ
  streamId : ℕ
  streamIdx : ℕ
  entry : α
  deriving DecidableEq, Repr

/-- The loaded entry of an input stream, and what its handle has not returned yet. -/
structure HandleStreamContext (α : Type*) where
  entry : MultiplexerEntry α
  rest : List α
  deriving DecidableEq, Repr

/-- The input streams that are not exhausted, and the one that the last entry is from. -/
structure HandleContext (α : Type*) where
  list : List (HandleStreamContext α)
  index : Option ℕ
  deriving DecidableEq, Repr

variable {α : Type*}

/-- What is left of an input stream, with its index. -/
def HandleStreamContext.source (sctx : HandleStreamContext α) : Source α :=
  (sctx.entry.streamIdx, sctx.entry.entry :: sctx.rest)

def MultiplexerEntry.key (e : MultiplexerEntry α) : ℕ × α := (e.streamIdx, e.entry)

namespace StreamMultiplexer

variable (m : StreamMultiplexer α)

def cycleCount (entry : α) : ℕ :=
  if m.temporal then m.timestamp entry % 2 ^ 48 else invalidLargeObjectId

def update (sctx : HandleStreamContext α) : Option (HandleStreamContext α) :=
  match sctx.rest with
  | [] => none
  | entry :: rest =>
    some ⟨{ sctx.entry with cycleCount := m.cycleCount entry, entry := entry }, rest⟩

/-- The first entries of the input streams that are not empty. -/
def firstEntries : List (HandleStreamContext α) :=
  m.inputStreams.zipIdx.filterMap fun (stream, i) =>
    match stream.entries with
    | [] => none
    | entry :: rest => some ⟨⟨m.cycleCount entry, stream.id, i, entry⟩, rest⟩

/-- The input streams are sorted with the cycle count rule. The order of equal cycle counts is left
open by the sort. -/
def Opens (ctx : HandleContext α) : Prop :=
  ctx.index = none ∧
    match m.rule with
    | .mxrRoundRobin => ctx.list = m.firstEntries
    | .mxrCycleCount => ctx.list.Perm m.firstEntries ∧
      ctx.list.Pairwise fun a b => a.entry.cycleCount ≤ b.entry.cycleCount

def reinsert (sctx : HandleStreamContext α) :
    List (HandleStreamContext α) → List (HandleStreamContext α)
  | [] => [sctx]
  | next :: list =>
    if sctx.entry.cycleCount ≤ next.entry.cycleCount then sctx :: next :: list
    else next :: reinsert sctx list

/-- Replace the entry that was returned last, and select the next one. -/
def advance (ctx : HandleContext α) (index : ℕ) (sctx : HandleStreamContext α) : HandleContext α :=
  match m.update sctx with
  | none =>
    let list := ctx.list.eraseIdx index
    if list.length = 0 then ⟨list, none⟩
    else ⟨list, some (if index = list.length then index - 1 else index)⟩
  | some sctx =>
    match m.rule with
    | .mxrRoundRobin => ⟨ctx.list.set index sctx, some ((index + 1) % ctx.list.length)⟩
    | .mxrCycleCount => ⟨reinsert sctx ctx.list.tail, some index⟩

def returnEntry (ctx : HandleContext α) : HandleContext α × Option (MultiplexerEntry α) :=
  (ctx, ctx.index.bind fun index => ctx.list[index]?.map (·.entry))

def getNextEntry (ctx : HandleContext α) : HandleContext α × Option (MultiplexerEntry α) :=
  match ctx.index with
  | none => if 0 < ctx.list.length then returnEntry ⟨ctx.list, some 0⟩ else (ctx, none)
  | some index =>
    match ctx.list[index]? with
    | none => (ctx, none)
    | some sctx => returnEntry (m.advance ctx index sctx)

/-- A context whose selected entry has yet to be returned. With the cycle count rule it is always
the first one. -/
structure Selects (ctx : HandleContext α) : Prop where
  ended : ctx.index = none → ctx.list = []
  selected : ∀ i ∈ ctx.index, i < ctx.list.length
  first : m.rule = .mxrCycleCount → ∀ i ∈ ctx.index, i = 0

inductive Delivers : HandleContext α → List (MultiplexerEntry α) → Prop
  | ended {ctx : HandleContext α} (index : ctx.index = none) (list : ctx.list = []) :
      Delivers ctx []
  | next {ctx : HandleContext α} {i : ℕ} {sctx : HandleStreamContext α}
      {output : List (MultiplexerEntry α)} (index : ctx.index = some i)
      (selected : ctx.list[i]? = some sctx) (rest : Delivers (m.advance ctx i sctx) output) :
      Delivers ctx (sctx.entry :: output)

variable {m} {ctx : HandleContext α} {sctx : HandleStreamContext α} {i : ℕ}
  {output : List (MultiplexerEntry α)}

theorem update_of_nil (h : sctx.rest = []) : m.update sctx = none := by
  unfold update
  rw [h]

theorem update_of_cons {entry : α} {rest : List α} (h : sctx.rest = entry :: rest) :
    m.update sctx = some ⟨{ sctx.entry with
      cycleCount := m.cycleCount entry, entry := entry }, rest⟩ := by
  unfold update
  rw [h]

theorem reinsert_perm (sctx : HandleStreamContext α) (list : List (HandleStreamContext α)) :
    (reinsert sctx list).Perm (sctx :: list) := by
  induction list with
  | nil => exact .refl _
  | cons next list ih =>
    rw [reinsert]
    split
    · exact .refl _
    · exact (ih.cons next).trans (.swap sctx next list)

theorem list_perm (selected : ctx.list[i]? = some sctx) :
    ctx.list.Perm (sctx :: ctx.list.eraseIdx i) := by
  obtain ⟨hi, rfl⟩ := List.getElem?_eq_some_iff.mp selected
  exact (List.getElem_cons_eraseIdx_perm hi).symm

theorem advance_perm (selects : m.Selects ctx) (index : ctx.index = some i)
    (selected : ctx.list[i]? = some sctx) :
    (m.advance ctx i sctx).list.Perm ((m.update sctx).toList ++ ctx.list.eraseIdx i) := by
  obtain ⟨hi, rfl⟩ := List.getElem?_eq_some_iff.mp selected
  unfold advance
  rcases hupdate : m.update ctx.list[i] with _ | sctx'
  · dsimp only
    split <;> exact .refl _
  · dsimp only
    rw [Option.toList_some, List.singleton_append]
    cases hrule : m.rule with
    | mxrRoundRobin => exact List.set_perm_cons_eraseIdx hi sctx'
    | mxrCycleCount =>
      obtain rfl := selects.first hrule i index
      rw [List.eraseIdx_zero]
      exact reinsert_perm sctx' _

theorem selects_advance (selects : m.Selects ctx) (index : ctx.index = some i)
    (selected : ctx.list[i]? = some sctx) : m.Selects (m.advance ctx i sctx) := by
  have hperm := advance_perm selects index selected
  have hi := selects.selected i index
  unfold advance at hperm ⊢
  rcases hupdate : m.update sctx with _ | sctx'
  · dsimp only
    split
    · rename_i hnil
      exact ⟨fun _ => List.length_eq_zero_iff.mp hnil, fun _ h => (by cases h),
        fun _ _ h => (by cases h)⟩
    · rename_i hne
      refine ⟨fun h => (by cases h), fun j hj => ?_, fun hrule j hj => ?_⟩
      · obtain rfl := Option.some.inj hj
        dsimp only
        rw [List.length_eraseIdx_of_lt hi] at hne ⊢
        split <;> omega
      · obtain rfl := Option.some.inj hj
        obtain rfl := selects.first hrule i index
        split <;> rfl
  · rw [hupdate] at hperm
    dsimp only at hperm ⊢
    cases hrule : m.rule with
    | mxrRoundRobin =>
      refine ⟨fun h => (by cases h), fun j hj => ?_, fun h => ?_⟩
      swap
      · rw [hrule] at h
        cases h
      obtain rfl := Option.some.inj hj
      dsimp only
      rw [List.length_set]
      exact Nat.mod_lt _ (by omega)
    | mxrCycleCount =>
      rw [hrule] at hperm
      refine ⟨fun h => (by cases h), fun j hj => ?_, fun _ j hj => ?_⟩
      · obtain rfl := Option.some.inj hj
        rw [hperm.length_eq, Option.toList_some, List.singleton_append, List.length_cons,
          List.length_eraseIdx_of_lt hi]
        omega
      · obtain rfl := Option.some.inj hj
        exact selects.first hrule i index

theorem source_update {rest : List (HandleStreamContext α)} :
    ((m.update sctx).toList ++ rest).map HandleStreamContext.source =
      keep (sctx.entry.streamIdx, sctx.rest) ++ rest.map HandleStreamContext.source := by
  rw [List.map_append]
  congr 1
  unfold keep
  rcases hrest : sctx.rest with _ | ⟨entry, rest⟩
  · rw [update_of_nil hrest]
    rfl
  · rw [update_of_cons hrest]
    rfl

def size (list : List (HandleStreamContext α)) : ℕ :=
  (list.flatMap fun sctx => sctx.entry.entry :: sctx.rest).length

theorem size_advance (selects : m.Selects ctx) (index : ctx.index = some i)
    (selected : ctx.list[i]? = some sctx) : size (m.advance ctx i sctx).list < size ctx.list := by
  unfold size
  rw [((advance_perm selects index selected).flatMap_right _).length_eq,
    ((list_perm selected).flatMap_right _).length_eq]
  rcases hrest : sctx.rest with _ | ⟨entry, rest⟩
  · rw [update_of_nil hrest]
    simp [hrest]
  · rw [update_of_cons hrest]
    simp [hrest]

theorem exists_delivers (selects : m.Selects ctx) : ∃ output, m.Delivers ctx output := by
  induction hn : size ctx.list using Nat.strong_induction_on generalizing ctx with
  | _ n ih =>
    rcases hindex : ctx.index with _ | i
    · exact ⟨[], .ended hindex (selects.ended hindex)⟩
    · have hi := selects.selected i hindex
      have hselected : ctx.list[i]? = some ctx.list[i] := List.getElem?_eq_getElem hi
      obtain ⟨output, hdelivers⟩ := ih _ (hn ▸ size_advance selects hindex hselected)
        (selects_advance selects hindex hselected) rfl
      exact ⟨_, .next hindex hselected hdelivers⟩

theorem Delivers.merges (h : m.Delivers ctx output) (selects : m.Selects ctx) :
    Merges (ctx.list.map HandleStreamContext.source) (output.map MultiplexerEntry.key) := by
  induction h with
  | ended index list =>
    rw [list]
    exact .nil
  | next index selected _ ih =>
    refine .cons ((list_perm selected).map _) ?_ (ih (selects_advance selects index selected))
    rw [← source_update (m := m)]
    exact (advance_perm selects index selected).map _

theorem yields_of_delivers {called : HandleContext α} (h : m.Delivers ctx output)
    (selects : m.Selects ctx) (call : m.getNextEntry called = returnEntry ctx) :
    Enumeration.Yields m.getNextEntry called output := by
  induction h generalizing called with
  | @ended ctx index list =>
    have hreturn : returnEntry ctx = (ctx, none) := by
      unfold returnEntry
      rw [index]
      rfl
    exact .nil (call.trans hreturn)
  | @next ctx i sctx output index selected rest ih =>
    have hreturn : returnEntry ctx = (ctx, some sctx.entry) := by
      unfold returnEntry
      rw [index, Option.bind_some, selected, Option.map_some]
    have hnext : m.getNextEntry ctx = returnEntry (m.advance ctx i sctx) := by
      unfold getNextEntry
      rw [index]
      dsimp only
      rw [selected]
    exact .cons (call.trans hreturn) (ih (selects_advance selects index selected) hnext)

theorem source_firstEntries : m.firstEntries.map HandleStreamContext.source =
    sourcesOf (m.inputStreams.map (·.entries)) := by
  unfold firstEntries sourcesOf
  rw [List.zipIdx_map, List.map_map]
  induction m.inputStreams.zipIdx with
  | nil => rfl
  | cons s l ih =>
    obtain ⟨⟨id, entries⟩, i⟩ := s
    rw [List.map_cons, List.flatMap_cons, ← ih]
    cases entries with
    | nil => rfl
    | cons entry rest => rfl

theorem Opens.perm (opens : m.Opens ctx) : ctx.list.Perm m.firstEntries := by
  obtain ⟨-, hlist⟩ := opens
  split at hlist
  · exact hlist ▸ .refl _
  · exact hlist.1

/-- The first call selects the first entry of the list. -/
def start (ctx : HandleContext α) : HandleContext α :=
  ⟨ctx.list, if ctx.list.length = 0 then none else some 0⟩

theorem selects_start (ctx : HandleContext α) : m.Selects (start ctx) := by
  unfold start
  split
  · rename_i hnil
    exact ⟨fun _ => List.length_eq_zero_iff.mp hnil, fun _ h => (by cases h),
      fun _ _ h => (by cases h)⟩
  · rename_i hne
    refine ⟨fun h => (by cases h), fun i hi => ?_, fun _ i hi => (Option.some.inj hi).symm⟩
    obtain rfl := Option.some.inj hi
    exact Nat.pos_of_ne_zero hne

theorem Opens.getNextEntry_eq (opens : m.Opens ctx) :
    m.getNextEntry ctx = returnEntry (start ctx) := by
  unfold getNextEntry start
  rw [opens.1]
  dsimp only
  split
  · rename_i hpos
    rw [if_neg (by omega)]
  · rename_i hnil
    rw [if_pos (by omega)]
    obtain ⟨list, index⟩ := ctx
    obtain rfl : index = none := opens.1
    rfl

/-- The entries that are returned are an interleaving of the input streams, and with the last of
them all input streams have ended. -/
theorem Opens.exists_yields (opens : m.Opens ctx) : ∃ output, m.Delivers (start ctx) output ∧
    Enumeration.Yields m.getNextEntry ctx output ∧
    Interleaves (m.inputStreams.map (·.entries)) (output.map MultiplexerEntry.key) := by
  have hselects : m.Selects (start ctx) := selects_start ctx
  obtain ⟨output, hdelivers⟩ := exists_delivers hselects
  refine ⟨output, hdelivers, yields_of_delivers hdelivers hselects opens.getNextEntry_eq, ?_⟩
  refine (hdelivers.merges hselects).interleaves ?_
  rw [← source_firstEntries]
  exact opens.perm.map _

end StreamMultiplexer

end Simutrace
