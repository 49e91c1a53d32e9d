import Simutrace.Library.UsageSelection
import Simutrace.Vpc4.Predictors
import Mathlib.Data.Fintype.Basic
import Mathlib.Data.List.Count
import Mathlib.Tactic.FinCases

/-! # The selection of predictions

A prediction context that went through all tables of a compound predictor holds
the correct prediction that the usage counters select. The ids and data that are
written depend on the selections and the encoded values only.
-/

namespace Simutrace.Vpc4

open UsageSelection

/-- The context holds the best prediction so far with its usage count. -/
structure PredictionContext.Tracks {κ : Type} {n : ℕ} (component : Fin n → κ)
    (counter : Fin n → ℕ) (context : PredictionContext κ) (best : Option (Fin n)) : Prop where
  predictor : context.predictor = best.map component
  predictorId : ∀ k ∈ best, context.predictorId = k
  usageCount : context.usageCount.toNat = best.elim 0 counter

namespace PredictionContext

variable {κ : Type} {n idBase w tableSize lineLength hTableSize hHashSize hOrder : ℕ}
  [NeZero lineLength] {p : FiniteContextMethodPredictor idBase w tableSize lineLength}
  {history : KeyedFcmHistory hTableSize hHashSize hOrder} {order : Fin hOrder} {self : κ}
  {component : Fin n → κ} {counter : Fin n → ℕ} {applies : Fin n → Bool}
  {context : PredictionContext κ} {best : Option (Fin n)} {value : BitVec w}

theorem tracks_new : (new : PredictionContext κ).Tracks component counter none :=
  ⟨rfl, nofun, rfl⟩

omit [NeZero lineLength] in
theorem Tracks.checkPrediction (h : context.Tracks component counter best) {k : Fin n}
    {i : Fin lineLength} (hself : component k = self) (hid : (k : ℕ) = i + idBase)
    (hcount : counter k = (p.usageCount i).toNat) {index : HashType}
    (happlies : applies k = decide (p.valueTable index i = value)) :
    (p.checkPrediction self index value context i).Tracks component counter
      (better counter applies best k) := by
  have hle : context.usageCount ≤ p.usageCount i ↔ best.elim 0 counter ≤ counter k := by
    rw [BitVec.le_def, h.usageCount, hcount]
  unfold FiniteContextMethodPredictor.checkPrediction better
  simp only [hle, happlies, decide_eq_true_eq]
  split
  · refine ⟨by rw [Option.map_some, hself], fun j hj => ?_, hcount.symm⟩
    obtain rfl := Option.some.inj hj
    exact hid.symm
  · exact h

theorem Tracks.predictValue (h : context.Tracks component counter best)
    (id : Fin lineLength → Fin n) (hself : ∀ i, component (id i) = self)
    (hid : ∀ i, (id i : ℕ) = i + idBase)
    (hcount : ∀ i, counter (id i) = (p.usageCount i).toNat)
    (happlies : ∀ i, applies (id i) = decide (p.getValue history order (i + idBase) = value)) :
    (p.predictValue history order self context value).1.Tracks component counter
      (((List.finRange lineLength).map id).foldl (better counter applies) best) := by
  rw [List.foldl_map]
  simp only [FiniteContextMethodPredictor.predictValue]
  induction List.finRange lineLength generalizing context best with
  | nil => exact h
  | cons i is ih =>
    refine ih (h.checkPrediction (hself i) (hid i) (hcount i) ?_)
    rw [happlies, FiniteContextMethodPredictor.getValue_of_line rfl]

end PredictionContext

namespace Channel

variable {π κ : Type} {w n : ℕ} {inc : κ → PredictorId → π → π} {context : PredictionContext κ}
  {component : Fin n → κ} {counter : Fin n → ℕ} {selected : Option (Fin n)} {c c' : Channel π}
  {data : BitVec w}

def emit (codeBuffer dataBuffer : Cursor) (selected : Option (Fin n)) (data : BitVec w) :
    Option (Cursor × Cursor) :=
  match selected with
  | some k => (writePredictorId codeBuffer k).map (·, dataBuffer)
  | none => do
    let dataBuffer ← writeData dataBuffer data
    let codeBuffer ← writePredictorId codeBuffer n
    return (codeBuffer, dataBuffer)

def accounted (inc : κ → PredictorId → π → π) (component : Fin n → κ) (selected : Option (Fin n))
    (p : π) : π :=
  selected.elim p fun k => inc (component k) k p

theorem buffers_evaluateContext (h : context.Tracks component counter selected) :
    (evaluateContext n inc c context data).map (fun c => (c.codeBuffer, c.dataBuffer)) =
      emit c.codeBuffer c.dataBuffer selected data := by
  have hp := h.predictor
  unfold evaluateContext emit
  cases selected with
  | none =>
    rw [Option.map_none] at hp
    rw [hp]
    cases writeData c.dataBuffer data <;> cases writePredictorId c.codeBuffer n <;> rfl
  | some k =>
    rw [Option.map_some] at hp
    rw [hp, h.predictorId k rfl]
    dsimp only
    cases writePredictorId c.codeBuffer k <;> rfl

theorem predictor_evaluateContext (h : context.Tracks component counter selected)
    (e : evaluateContext n inc c context data = some c') :
    c'.predictor = accounted inc component selected c.predictor := by
  have hp := h.predictor
  unfold evaluateContext at e
  cases selected with
  | none =>
    rw [Option.map_none] at hp
    simp only [hp, Option.bind_eq_bind, Option.bind_eq_some_iff] at e
    obtain ⟨_, -, _, -, he⟩ := e
    obtain rfl := Option.some.inj he
    rfl
  | some k =>
    rw [Option.map_some] at hp
    simp only [hp, h.predictorId k rfl, Option.bind_eq_bind, Option.bind_eq_some_iff] at e
    obtain ⟨_, -, he⟩ := e
    obtain rfl := Option.some.inj he
    rfl

theorem codeBuffer_emit {codeBuffer dataBuffer codeBuffer' dataBuffer' : Cursor}
    (e : emit codeBuffer dataBuffer selected data = some (codeBuffer', dataBuffer')) :
    writePredictorId codeBuffer (selected.elim n Fin.val) = some codeBuffer' := by
  unfold emit at e
  cases selected with
  | none =>
    simp only [Option.bind_eq_bind, Option.bind_eq_some_iff] at e
    obtain ⟨_, -, _, hw, he⟩ := e
    obtain ⟨rfl, rfl⟩ := Prod.mk.inj (Option.some.inj he)
    exact hw
  | some k =>
    obtain ⟨_, hw, he⟩ := Option.map_eq_some_iff.mp e
    obtain ⟨rfl, rfl⟩ := Prod.mk.inj he
    exact hw

end Channel

def selectedBy {π σ : Type} {n : ℕ} (usageCount : π → Fin n → BitVec 64)
    (predicts : π → σ → Fin n → Bool) (p : π) (s : σ) : Option (Fin n) :=
  select (fun k => (usageCount p k).toNat) (predicts p s)

/-- A compound predictor that encodes symbols: which of its predictions are correct for a symbol,
the data that are written if none is, and the tables after the symbol. Encoding writes the selected
prediction and increments its counter, which has no influence on the predictions. -/
structure Coding (π σ : Type) (w n : ℕ) where
  encode : Channel π → σ → Option (Channel π)
  predicts : π → σ → Fin n → Bool
  data : π → σ → BitVec w
  next : π → σ → π
  usageCount : π → Fin n → BitVec 64
  SameTables : π → π → Prop
  predicts_congr : ∀ {p q}, SameTables p q → ∀ s, predicts p s = predicts q s
  data_congr : ∀ {p q}, SameTables p q → ∀ s, data p s = data q s
  buffers_encode : ∀ c s, (encode c s).map (fun c => (c.codeBuffer, c.dataBuffer)) =
    Channel.emit c.codeBuffer c.dataBuffer (selectedBy usageCount predicts c.predictor s)
      (data c.predictor s)
  sameTables_encode : ∀ {c s c'}, encode c s = some c' → ∀ {q}, SameTables c.predictor q →
    SameTables c'.predictor (next q s)
  usageCount_encode : ∀ {c s c'}, encode c s = some c' → ∀ k, usageCount c'.predictor k =
    if selectedBy usageCount predicts c.predictor s = some k then usageCount c.predictor k + 1
    else usageCount c.predictor k

namespace Coding

variable {π σ : Type} {w n : ℕ} (C : Coding π σ w n)

/-- The correct predictions for symbols that are encoded one after another. -/
def predictions : π → List σ → List (Fin n → Bool)
  | _, [] => []
  | p, s :: symbols => C.predicts p s :: predictions (C.next p s) symbols

def base (p : π) (k : Fin n) : ℕ := (C.usageCount p k).toNat

def selections (p q : π) (symbols : List σ) : List (Option (Fin n)) :=
  UsageSelection.selections (2 ^ 64) (C.base p) (C.predictions q symbols)

/-- The id of a selection, or the one that stands for an unpredicted value. -/
def code (selected : Option (Fin n)) : UInt8 := UInt8.ofNat (selected.elim n Fin.val)

/-- The encoder has encoded some symbols. -/
structure Reached (start : Channel π) (q : π) (symbols : List σ) (c : Channel π) : Prop where
  tables : C.SameTables c.predictor (symbols.foldl C.next q)
  usageCount : ∀ k, (C.usageCount c.predictor k).toNat =
    counters (2 ^ 64) (C.base start.predictor) (C.selections start.predictor q symbols) k
  codes : c.codeBuffer.written =
    start.codeBuffer.written ++ (C.selections start.predictor q symbols).map code

variable {C} {p q : π} {s : σ} {symbols : List σ} {start start' c c' d : Channel π}

theorem predictions_append (before after : List σ) : C.predictions q (before ++ after) =
    C.predictions q before ++ C.predictions (before.foldl C.next q) after := by
  induction before generalizing q with
  | nil => rfl
  | cons s before ih =>
    rw [List.cons_append, predictions, ih, predictions, List.cons_append, List.foldl_cons]

theorem predictions_append_singleton : C.predictions q (symbols ++ [s]) =
    C.predictions q symbols ++ [C.predicts (symbols.foldl C.next q) s] :=
  predictions_append symbols [s]

@[simp] theorem length_predictions : (C.predictions q symbols).length = symbols.length := by
  induction symbols generalizing q with
  | nil => rfl
  | cons s symbols ih => rw [predictions, List.length_cons, ih, List.length_cons]

theorem selections_append_singleton : C.selections p q (symbols ++ [s]) =
    C.selections p q symbols ++ [UsageSelection.next (2 ^ 64) (C.base p) (C.selections p q symbols)
      (C.predicts (symbols.foldl C.next q) s)] := by
  rw [selections, predictions_append_singleton, UsageSelection.selections_append_singleton]
  rfl

theorem code_injective (hn : n < 256) : Function.Injective (code : Option (Fin n) → UInt8) := by
  intro a b h
  have hlt (o : Option (Fin n)) : o.elim n Fin.val < 256 := by
    cases o with
    | none => exact hn
    | some k => exact k.isLt.trans hn
  have hval := congrArg UInt8.toNat h
  simp only [code, UInt8.toNat_ofNat', Nat.mod_eq_of_lt (hlt _)] at hval
  cases a with
  | none =>
    cases b with
    | none => rfl
    | some k => exact absurd hval.symm k.isLt.ne
  | some j =>
    cases b with
    | none => exact absurd hval j.isLt.ne
    | some k => exact congrArg some (Fin.ext hval)

theorem Reached.selected_eq (h : C.Reached start q symbols c) (s : σ) :
    selectedBy C.usageCount C.predicts c.predictor s =
      UsageSelection.next (2 ^ 64) (C.base start.predictor)
        (C.selections start.predictor q symbols) (C.predicts (symbols.foldl C.next q) s) := by
  rw [selectedBy, C.predicts_congr h.tables]
  exact congrArg (select · _) (funext h.usageCount)

theorem reached_nil (same : C.SameTables start.predictor q) : C.Reached start q [] start where
  tables := same
  usageCount k := (Nat.mod_eq_of_lt (C.usageCount start.predictor k).isLt).symm
  codes := (List.append_nil _).symm

theorem codeBuffer_encode (e : C.encode c s = some c') :
    Channel.writePredictorId c.codeBuffer
      ((selectedBy C.usageCount C.predicts c.predictor s).elim n Fin.val) =
        some c'.codeBuffer := by
  have hbuffers := C.buffers_encode c s
  rw [e] at hbuffers
  exact Channel.codeBuffer_emit hbuffers.symm

theorem Reached.step (h : C.Reached start q symbols c) (e : C.encode c s = some c') :
    C.Reached start q (symbols ++ [s]) c' where
  tables := by
    rw [List.foldl_append]
    exact C.sameTables_encode e h.tables
  usageCount k := by
    have hk := h.usageCount k
    rw [C.usageCount_encode e, selections_append_singleton, ← h.selected_eq]
    unfold counters at hk ⊢
    rw [List.count_append, List.count_singleton]
    by_cases hs : selectedBy C.usageCount C.predicts c.predictor s = some k
    · have hone : (1 : BitVec 64).toNat = 1 := by decide
      rw [if_pos hs, hs, if_pos (beq_self_eq_true _), BitVec.toNat_add, hk, hone, Nat.mod_add_mod,
        Nat.add_assoc]
    · rw [if_neg hs, if_neg (by simpa using hs), Nat.add_zero, hk]
  codes := by
    rw [selections_append_singleton, ← h.selected_eq, List.map_append, ← List.append_assoc,
      ← h.codes]
    exact Cursor.written_put (codeBuffer_encode e)

theorem foldlM_append_singleton {α β : Type} {f : β → α → Option β} {l : List α} {a : α} {b r : β} :
    (l ++ [a]).foldlM f b = some r ↔ ∃ b', l.foldlM f b = some b' ∧ f b' a = some r := by
  simp [List.foldlM_append, Option.bind_eq_some_iff]

theorem reached_of_foldlM (same : C.SameTables start.predictor q)
    (e : symbols.foldlM C.encode start = some c) : C.Reached start q symbols c := by
  induction symbols using List.reverseRecOn generalizing c with
  | nil =>
    obtain rfl := Option.some.inj e
    exact reached_nil same
  | append_singleton symbols s ih =>
    obtain ⟨c₁, h₁, h₂⟩ := foldlM_append_singleton.mp e
    exact (ih h₁).step h₂

/-- Two encoders that select the same predictions write the same. -/
theorem buffers_eq_of_selections (hp : C.SameTables start.predictor q)
    (hp' : C.SameTables start'.predictor q) (hcode : start.codeBuffer = start'.codeBuffer)
    (hdata : start.dataBuffer = start'.dataBuffer)
    (same : C.selections start.predictor q symbols = C.selections start'.predictor q symbols)
    (e : symbols.foldlM C.encode start = some c) (e' : symbols.foldlM C.encode start' = some d) :
    c.codeBuffer = d.codeBuffer ∧ c.dataBuffer = d.dataBuffer := by
  induction symbols using List.reverseRecOn generalizing c d with
  | nil =>
    obtain rfl := Option.some.inj e
    obtain rfl := Option.some.inj e'
    exact ⟨hcode, hdata⟩
  | append_singleton symbols s ih =>
    obtain ⟨c₁, h₁, h₂⟩ := foldlM_append_singleton.mp e
    obtain ⟨d₁, h₁', h₂'⟩ := foldlM_append_singleton.mp e'
    rw [selections_append_singleton, selections_append_singleton] at same
    obtain ⟨hsame, hlast⟩ := List.append_inj' same (by simp)
    have hc₁ := reached_of_foldlM hp h₁
    have hd₁ := reached_of_foldlM hp' h₁'
    rw [← hc₁.selected_eq, ← hd₁.selected_eq] at hlast
    have hbuffers := C.buffers_encode c₁ s
    have hbuffers' := C.buffers_encode d₁ s
    obtain ⟨hcodes, hdatas⟩ := ih hsame h₁ h₁'
    rw [h₂] at hbuffers
    rw [h₂', ← hcodes, ← hdatas, ← (List.cons.inj hlast).1, C.data_congr hd₁.tables,
      ← C.data_congr hc₁.tables, ← hbuffers] at hbuffers'
    obtain ⟨h, h'⟩ := Prod.mk.inj (Option.some.inj hbuffers')
    exact ⟨h.symm, h'.symm⟩

theorem selections_eq_of_codeBuffer (hn : n < 256) (hp : C.SameTables start.predictor q)
    (hp' : C.SameTables start'.predictor q) (hcode : start.codeBuffer = start'.codeBuffer)
    (e : symbols.foldlM C.encode start = some c) (e' : symbols.foldlM C.encode start' = some d)
    (h : c.codeBuffer.written = d.codeBuffer.written) :
    C.selections start.predictor q symbols = C.selections start'.predictor q symbols := by
  rw [(reached_of_foldlM hp e).codes, (reached_of_foldlM hp' e').codes, hcode] at h
  exact List.map_injective_iff.mpr (code_injective hn) (List.append_cancel_left h)

theorem written_eq_of_bytes_eq (hp : C.SameTables start.predictor q)
    (hp' : C.SameTables start'.predictor q) (hcode : start.codeBuffer = start'.codeBuffer)
    (e : symbols.foldlM C.encode start = some c) (e' : symbols.foldlM C.encode start' = some d)
    (h : c.codeBuffer.bytes = d.codeBuffer.bytes) :
    c.codeBuffer.written = d.codeBuffer.written := by
  have hprefix : c.codeBuffer.written <+: d.codeBuffer.bytes := h ▸ Cursor.written_prefix _
  have hlen : c.codeBuffer.written.length = d.codeBuffer.written.length := by
    rw [(reached_of_foldlM hp e).codes, (reached_of_foldlM hp' e').codes, hcode]
    simp [selections]
  exact (List.prefix_of_prefix_length_le hprefix (Cursor.written_prefix _) hlen.le).eq_of_length
    hlen

/-- If encoders write the same ids whatever the memory of their counters held, all is settled. -/
theorem settled_of_same {cleared : Fin n → Prop} {ι : Type} (initial : ι → Channel π)
    (hn : n < 256) (length : symbols.length < 2 ^ 64)
    (tables : ∀ m, C.SameTables (initial m).predictor q)
    (code : ∀ m m', (initial m).codeBuffer = (initial m').codeBuffer)
    (memory : ∀ base, Start (2 ^ 64) cleared base → ∃ m, C.base (initial m).predictor = base)
    (same : ∀ m m', ∃ c d, symbols.foldlM C.encode (initial m) = some c ∧
      symbols.foldlM C.encode (initial m') = some d ∧ c.codeBuffer.bytes = d.codeBuffer.bytes) :
    UsageSelection.Settled (2 ^ 64) cleared (C.predictions q symbols) := by
  apply (selections_eq_iff (by rwa [length_predictions])).mp
  intro base hbase
  obtain ⟨m, rfl⟩ := memory base hbase
  obtain ⟨m', hm'⟩ := memory (fun _ => 0) (start_zero (Nat.two_pow_pos 64))
  obtain ⟨c, d, hc, hd, hbytes⟩ := same m m'
  have hwritten := written_eq_of_bytes_eq (tables m) (tables m') (code m m') hc hd hbytes
  have hselections :=
    selections_eq_of_codeBuffer hn (tables m) (tables m') (code m m') hc hd hwritten
  rw [selections, selections, hm'] at hselections
  exact hselections

theorem buffers_eq_of_settled {cleared : Fin n → Prop} (hp : C.SameTables start.predictor q)
    (hp' : C.SameTables start'.predictor q) (hcode : start.codeBuffer = start'.codeBuffer)
    (hdata : start.dataBuffer = start'.dataBuffer)
    (counters : Start (2 ^ 64) cleared (C.base start.predictor))
    (counters' : Start (2 ^ 64) cleared (C.base start'.predictor))
    (settled : UsageSelection.Settled (2 ^ 64) cleared (C.predictions q symbols))
    (e : symbols.foldlM C.encode start = some c) (e' : symbols.foldlM C.encode start' = some d) :
    c.codeBuffer = d.codeBuffer ∧ c.dataBuffer = d.dataBuffer := by
  apply buffers_eq_of_selections hp hp' hcode hdata _ e e'
  rw [selections, selections, settled.selections_eq counters.zero,
    settled.selections_eq counters'.zero]

/-- The id is that of a correct prediction which no other correct one was selected more often than,
or it tells that no prediction is correct. -/
def BestAt (correct : Fin n → Bool) (ids : List UInt8) (position : ℕ) : Prop :=
  ids[position]? = some (UInt8.ofNat n) ∧ (∀ k, ¬ correct k) ∨
    ∃ k : Fin n, ids[position]? = some (UInt8.ofNat k) ∧ correct k ∧ ∀ j : Fin n, correct j →
      (ids.take position).count (UInt8.ofNat j) ≤ (ids.take position).count (UInt8.ofNat k)

theorem bestAt_of_leads {correct : Fin n → Bool} {selected rest : List (Option (Fin n))}
    {o : Option (Fin n)} {ids : List UInt8} (hn : n < 256) (h : Leads selected correct o)
    (hids : (selected ++ o :: rest).map code <+: ids) : BestAt correct ids selected.length := by
  obtain ⟨after, rfl⟩ := hids
  have hlen : (selected.map code).length = selected.length := List.length_map _
  have hids : (selected ++ o :: rest).map code ++ after =
      selected.map code ++ code o :: (rest.map code ++ after) := by simp
  have hget : ((selected ++ o :: rest).map code ++ after)[selected.length]? = some (code o) := by
    rw [hids, List.getElem?_append_right hlen.le, hlen, Nat.sub_self]
    rfl
  have htake : ((selected ++ o :: rest).map code ++ after).take selected.length =
      selected.map code := by
    rw [hids, List.take_left' hlen]
  have hcount (k : Fin n) : (selected.map code).count (UInt8.ofNat k) = selected.count (some k) :=
    List.count_map_of_injective _ _ (code_injective hn) (some k)
  unfold BestAt
  rw [hget, htake]
  cases o with
  | none => exact Or.inl ⟨rfl, h⟩
  | some k =>
    refine Or.inr ⟨k, rfl, h.1, fun j hj => ?_⟩
    rw [hcount, hcount]
    exact h.2 j hj

/-- In a settled run, all ids are those of the best predictions. -/
theorem bestAt_of_settled {cleared : Fin n → Prop} {before after : List σ} {ids : List UInt8}
    (hn : n < 256) (same : C.SameTables start.predictor q)
    (counters : Start (2 ^ 64) cleared (C.base start.predictor))
    (settled : UsageSelection.Settled (2 ^ 64) cleared (C.predictions q (before ++ s :: after)))
    (length : before.length < 2 ^ 64) (empty : start.codeBuffer.written = [])
    (reached : before.foldlM C.encode start = some c)
    (e : (before ++ s :: after).foldlM C.encode start = some c')
    (written : c'.codeBuffer.written <+: ids) :
    BestAt (C.predicts c.predictor s) ids before.length := by
  have hc := reached_of_foldlM same reached
  have hcodes := (reached_of_foldlM same e).codes
  rw [empty, List.nil_append, selections, predictions_append, predictions] at hcodes
  rw [predictions_append, predictions] at settled
  rw [C.predicts_congr hc.tables]
  obtain ⟨rest, hrest⟩ := selections_eq_append (2 ^ 64) (C.base start.predictor)
    (C.predictions q before) (C.predicts (before.foldl C.next q) s)
    (C.predictions (C.next (before.foldl C.next q) s) after)
  have hlen : (UsageSelection.selections (2 ^ 64) (C.base start.predictor)
      (C.predictions q before)).length = before.length := by simp
  have hnext : UsageSelection.next (2 ^ 64) (C.base start.predictor) _ _ =
      UsageSelection.next (2 ^ 64) _ _ _ := (settled _ _ _ rfl).next_eq counters.zero
  have hleads : Leads _ _ (UsageSelection.next (2 ^ 64) (fun _ => 0)
      (UsageSelection.selections (2 ^ 64) (C.base start.predictor) (C.predictions q before))
      (C.predicts (before.foldl C.next q) s)) := leads_next (hlen.trans_lt length)
  rw [← settled.left.selections_eq counters.zero] at hnext
  rw [← hnext] at hleads
  rw [hrest] at hcodes
  rw [← hlen]
  exact bestAt_of_leads hn hleads (hcodes ▸ written)

end Coding

theorem FiniteContextMethodPredictor.usageCount_updateLine {idBase w tableSize lineLength : ℕ}
    [NeZero lineLength] (p : FiniteContextMethodPredictor idBase w tableSize lineLength)
    (index : HashType) (value : BitVec w) :
    (p.updateLine index value).usageCount = p.usageCount := by
  unfold updateLine
  dsimp only
  split <;> rfl

namespace FcmPair

variable {w : ℕ} {p q : FcmPair w}

/-- The predictor that the ids of predictions belong to. -/
def component (k : Fin 4) : FcmOrder := if k.val < 2 then .first else .third

def usageCount (p : FcmPair w) (k : Fin 4) : BitVec 64 :=
  if h : k.val < 2 then p.firstOrderFcmPredictor.usageCount ⟨k, h⟩
  else p.thirdOrderFcmPredictor.usageCount ⟨k - 2, by omega⟩

def predicts (p : FcmPair w) (value : BitVec w) (k : Fin 4) : Bool := p.getValue k = value

def selected (p : FcmPair w) (value : BitVec w) : Option (Fin 4) :=
  selectedBy usageCount predicts p value

theorem SameTables.getValue (h : SameTables p q) (id : PredictorId) :
    p.getValue id = q.getValue id := by
  rw [FcmPair.getValue, FcmPair.getValue, h.history, h.first.getValue, h.third.getValue]

theorem SameTables.predicts (h : SameTables p q) (value : BitVec w) :
    p.predicts value = q.predicts value := by
  ext k
  rw [FcmPair.predicts, FcmPair.predicts, h.getValue]

theorem finRange_four : List.finRange 4 =
    ((List.finRange 2).map fun i : Fin 2 => (⟨i, i.isLt.trans (by decide)⟩ : Fin 4)) ++
      (List.finRange 2).map fun i : Fin 2 => (⟨i + 2, Nat.add_lt_add_right i.isLt 2⟩ : Fin 4) := rfl

theorem tracks_predictValue (p : FcmPair w) (value : BitVec w) :
    (p.predictValue value).1.Tracks component (fun k => (p.usageCount k).toNat)
      (p.selected value) := by
  rw [selected, selectedBy, select, finRange_four, List.foldl_append]
  apply PredictionContext.Tracks.predictValue
  · apply PredictionContext.Tracks.predictValue PredictionContext.tracks_new
    · intro i; fin_cases i <;> rfl
    · intro i; rfl
    · intro i; fin_cases i <;> rfl
    · intro i; fin_cases i <;> rfl
  · intro i; fin_cases i <;> rfl
  · intro i; rfl
  · intro i; fin_cases i <;> rfl
  · intro i; fin_cases i <;> rfl

theorem usageCount_predictValue (p : FcmPair w) (value : BitVec w) :
    (p.predictValue value).2.usageCount = p.usageCount := by
  ext k
  simp only [usageCount, predictValue, FiniteContextMethodPredictor.predictValue,
    FiniteContextMethodPredictor.usageCount_updateLine]

theorem usageCount_accounted (p : FcmPair w) (selected : Option (Fin 4)) (j : Fin 4) :
    (Channel.accounted incrementUsageCount component selected p).usageCount j =
      if selected = some j then p.usageCount j + 1 else p.usageCount j := by
  cases selected with
  | none => rfl
  | some k => fin_cases k <;> fin_cases j <;> rfl

theorem SameTables.accounted (h : SameTables p q) (selected : Option (Fin 4)) :
    SameTables (Channel.accounted FcmPair.incrementUsageCount component selected p) q := by
  cases selected with
  | none => exact h
  | some k => exact h.incrementUsageCount _ _

/-- The ids with the counters that the constructor clears. -/
def cleared (k : Fin 4) : Prop := k.val = 0 ∨ k.val = 2

instance : DecidablePred cleared := fun _ => inferInstanceAs (Decidable (_ ∨ _))

theorem start_new (memory : FcmOrder → UsageMemory 2) :
    Start (2 ^ 64) cleared fun k => ((new memory : FcmPair w).usageCount k).toNat where
  lt _ := BitVec.isLt _
  zero k hk := by
    have hk : k = 0 ∨ k = 2 := hk.imp Fin.ext Fin.ext
    rcases hk with rfl | rfl <;> rfl

theorem exists_memory {base : Fin 4 → ℕ} (start : Start (2 ^ 64) cleared base) :
    ∃ memory, (fun k => ((new memory : FcmPair w).usageCount k).toNat) = base := by
  let memory (o : FcmOrder) (i : Fin 2) : BitVec 64 :=
    .ofNat 64 (if o = .first then base ⟨i, by omega⟩ else base ⟨i + 2, by omega⟩)
  refine ⟨memory, funext fun k => ?_⟩
  have hk : (BitVec.ofNat 64 (base k)).toNat = base k := BitVec.toNat_ofNat .. ▸
    Nat.mod_eq_of_lt (start.lt k)
  fin_cases k
  · exact (start.zero 0 (Or.inl rfl)).symm
  · exact hk
  · exact (start.zero 2 (Or.inr rfl)).symm
  · exact hk

end FcmPair

namespace IpPredictor

variable {w : ℕ} {c c' : Channel (FcmPair w)} {ip : BitVec w} {q : FcmPair w}

theorem encodeIp_eq (c : Channel (FcmPair w)) (ip : BitVec w) : encodeIp c ip =
    Channel.evaluateContext 4 FcmPair.incrementUsageCount
      ⟨(c.predictor.predictValue ip).2, c.codeBuffer, c.dataBuffer⟩
      (c.predictor.predictValue ip).1 ip := rfl

theorem buffers_encodeIp (c : Channel (FcmPair w)) (ip : BitVec w) :
    (encodeIp c ip).map (fun c => (c.codeBuffer, c.dataBuffer)) =
      Channel.emit c.codeBuffer c.dataBuffer (c.predictor.selected ip) ip := by
  rw [encodeIp_eq, Channel.buffers_evaluateContext (c.predictor.tracks_predictValue ip)]

theorem predictor_encodeIp (e : encodeIp c ip = some c') : c'.predictor =
    Channel.accounted FcmPair.incrementUsageCount FcmPair.component
      (c.predictor.selected ip) (c.predictor.predictValue ip).2 := by
  rw [encodeIp_eq] at e
  rw [Channel.predictor_evaluateContext (c.predictor.tracks_predictValue ip) e]

theorem sameTables_encodeIp (e : encodeIp c ip = some c') (h : c.predictor.SameTables q) :
    c'.predictor.SameTables (q.update ip) := by
  rw [predictor_encodeIp e]
  exact (h.predictValue ip).accounted _

theorem usageCount_encodeIp (e : encodeIp c ip = some c') (k : Fin 4) : c'.predictor.usageCount k =
    if c.predictor.selected ip = some k then c.predictor.usageCount k + 1
    else c.predictor.usageCount k := by
  rw [predictor_encodeIp e, FcmPair.usageCount_accounted, FcmPair.usageCount_predictValue]

def coding : Coding (FcmPair w) (BitVec w) w 4 where
  encode := encodeIp
  predicts := FcmPair.predicts
  data _ ip := ip
  next := FcmPair.update
  usageCount := FcmPair.usageCount
  SameTables := FcmPair.SameTables
  predicts_congr h := h.predicts
  data_congr _ _ := rfl
  buffers_encode := buffers_encodeIp
  sameTables_encode e _ := sameTables_encodeIp e
  usageCount_encode := usageCount_encodeIp

@[simp] theorem encode_coding (c : Channel (FcmPair w)) (ip : BitVec w) :
    coding.encode c ip = encodeIp c ip := by
  simp only [coding]

theorem start_coding (memory : FcmOrder → UsageMemory 2) :
    Start (2 ^ 64) FcmPair.cleared (coding.base (.new memory : FcmPair w)) := FcmPair.start_new _

end IpPredictor

namespace CyclePredictor

variable {w : ℕ}

def value (p : CyclePredictor) (s : BitVec 64 × BitVec w) : BitVec 64 :=
  s.1 - p.referenceCycleCount + s.2.setWidth 64

def predicts (p : CyclePredictor) (s : BitVec 64 × BitVec w) : Fin 4 → Bool :=
  p.fcm.predicts (p.value s)

def usageCount (p : CyclePredictor) : Fin 4 → BitVec 64 := p.fcm.usageCount

def selected (p : CyclePredictor) (s : BitVec 64 × BitVec w) : Option (Fin 4) :=
  selectedBy usageCount predicts p s

variable {c c' : Channel CyclePredictor} {s : BitVec 64 × BitVec w} {p q : CyclePredictor}

theorem tracks_selected (p : CyclePredictor) (s : BitVec 64 × BitVec w) :
    (p.fcm.predictValue (p.value s)).1.Tracks FcmPair.component
      (fun k => (p.usageCount k).toNat) (p.selected s) :=
  p.fcm.tracks_predictValue (p.value s)

theorem accounted_eq (p : FcmPair 64) (cycle : BitVec 64) (selected : Option (Fin 4)) :
    Channel.accounted incrementUsageCount FcmPair.component selected ⟨p, cycle⟩ =
      ⟨Channel.accounted FcmPair.incrementUsageCount FcmPair.component selected p, cycle⟩ := by
  cases selected <;> rfl

theorem encodeCycle_eq (c : Channel CyclePredictor) (s : BitVec 64 × BitVec w) :
    encodeCycle c s.1 s.2 = Channel.evaluateContext 4 incrementUsageCount
      ⟨⟨(c.predictor.fcm.predictValue (c.predictor.value s)).2, s.1⟩, c.codeBuffer, c.dataBuffer⟩
      (c.predictor.fcm.predictValue (c.predictor.value s)).1
      (s.1 - c.predictor.referenceCycleCount) := rfl

theorem buffers_encodeCycle (c : Channel CyclePredictor) (s : BitVec 64 × BitVec w) :
    (encodeCycle c s.1 s.2).map (fun c => (c.codeBuffer, c.dataBuffer)) =
      Channel.emit c.codeBuffer c.dataBuffer (c.predictor.selected s)
        (s.1 - c.predictor.referenceCycleCount) := by
  rw [encodeCycle_eq, Channel.buffers_evaluateContext (tracks_selected c.predictor s)]

theorem predictor_encodeCycle (e : encodeCycle c s.1 s.2 = some c') : c'.predictor =
    ⟨Channel.accounted FcmPair.incrementUsageCount FcmPair.component
      (c.predictor.selected s) (c.predictor.fcm.predictValue (c.predictor.value s)).2, s.1⟩ := by
  rw [encodeCycle_eq] at e
  rw [Channel.predictor_evaluateContext (tracks_selected c.predictor s) e, accounted_eq]

theorem SameTables.value_eq (h : SameTables p q) (s : BitVec 64 × BitVec w) :
    p.value s = q.value s := by
  rw [value, value, h.referenceCycleCount]

theorem sameTables_encodeCycle (e : encodeCycle c s.1 s.2 = some c')
    (h : c.predictor.SameTables q) : c'.predictor.SameTables ⟨q.fcm.update (q.value s), s.1⟩ := by
  rw [predictor_encodeCycle e, ← h.value_eq]
  exact ⟨(h.fcm.predictValue _).accounted _, rfl⟩

theorem usageCount_encodeCycle (e : encodeCycle c s.1 s.2 = some c') (k : Fin 4) :
    c'.predictor.usageCount k =
      if c.predictor.selected s = some k then c.predictor.usageCount k + 1
      else c.predictor.usageCount k := by
  rw [predictor_encodeCycle e, usageCount, FcmPair.usageCount_accounted,
    FcmPair.usageCount_predictValue, usageCount]

theorem SameTables.predicts (h : SameTables p q) (s : BitVec 64 × BitVec w) :
    p.predicts s = q.predicts s := by
  rw [CyclePredictor.predicts, CyclePredictor.predicts, h.fcm.predicts, h.value_eq]

theorem SameTables.data (h : SameTables p q) (s : BitVec 64 × BitVec w) :
    s.1 - p.referenceCycleCount = s.1 - q.referenceCycleCount := by
  rw [h.referenceCycleCount]

def coding : Coding CyclePredictor (BitVec 64 × BitVec w) 64 4 where
  encode c s := encodeCycle c s.1 s.2
  predicts := predicts
  data p s := s.1 - p.referenceCycleCount
  next p s := ⟨p.fcm.update (p.value s), s.1⟩
  usageCount := usageCount
  SameTables := SameTables
  predicts_congr h := h.predicts
  data_congr h := h.data
  buffers_encode := buffers_encodeCycle
  sameTables_encode e _ := sameTables_encodeCycle e
  usageCount_encode := usageCount_encodeCycle

@[simp] theorem encode_coding (c : Channel CyclePredictor) (s : BitVec 64 × BitVec w) :
    coding.encode c s = encodeCycle c s.1 s.2 := by
  simp only [coding]

theorem start_coding (memory : FcmOrder → UsageMemory 2) (cycle : BitVec 64) :
    Start (2 ^ 64) FcmPair.cleared ((coding (w := w)).base (.new memory cycle)) :=
  FcmPair.start_new _

end CyclePredictor

namespace ValuePredictor

variable {w : ℕ} {p q : ValuePredictor w}

/-- The predictor that the ids of predictions belong to. -/
def component (k : Fin 10) : ValueOrder :=
  if k.val < 2 then .firstDfcm
  else if k.val < 4 then .thirdDfcm
  else if k.val < 8 then .last4Value
  else .firstFcm

def usageCount (p : ValuePredictor w) (k : Fin 10) : BitVec 64 :=
  if h : k.val < 2 then p.firstOrderDfcmPredictor.usageCount ⟨k, h⟩
  else if h : k.val < 4 then p.thirdOrderDfcmPredictor.usageCount ⟨k - 2, by omega⟩
  else if h : k.val < 8 then p.last4ValuePredictor.fcm.usageCount ⟨k - 4, by omega⟩
  else p.firstOrderFcmPredictor.usageCount ⟨k - 8, by omega⟩

def predicts (p : ValuePredictor w) (value : BitVec w) (k : Fin 10) : Bool := p.getValue k = value

theorem SameTables.getValue (h : SameTables p q) (id : PredictorId) :
    p.getValue id = q.getValue id := by
  simp only [ValuePredictor.getValue, h.sharedHistory, h.firstDfcm.getValue, h.thirdDfcm.getValue,
    h.privateHistory, h.firstFcm.getValue, h.last4Value.getValue, h.getMostRecentValue]

theorem SameTables.predicts (h : SameTables p q) (value : BitVec w) :
    p.predicts value = q.predicts value := by
  ext k
  rw [ValuePredictor.predicts, ValuePredictor.predicts, h.getValue]

theorem finRange_ten : List.finRange 10 =
    ((List.finRange 2).map fun i : Fin 2 => (⟨i, i.isLt.trans (by decide)⟩ : Fin 10)) ++
      ((List.finRange 2).map fun i : Fin 2 =>
        (⟨i + 2, (Nat.add_lt_add_right i.isLt 2).trans (by decide)⟩ : Fin 10)) ++
      ((List.finRange 4).map fun i : Fin 4 =>
        (⟨i + 4, (Nat.add_lt_add_right i.isLt 4).trans (by decide)⟩ : Fin 10)) ++
      (List.finRange 2).map fun i : Fin 2 => (⟨i + 8, Nat.add_lt_add_right i.isLt 8⟩ : Fin 10) :=
  rfl

/-- A prediction on strides is correct for the value if it is correct for its stride. -/
theorem stride_eq_iff (p : ValuePredictor w) (value x : BitVec w) :
    x + p.last4ValuePredictor.getMostRecentValue = value ↔ x = p.stride value := by
  rw [stride, BitVec.eq_sub_iff_add_eq]

theorem tracks_predictValue (p : ValuePredictor w) (value : BitVec w) :
    (p.predictValue value).1.Tracks component (fun k => (p.usageCount k).toNat)
      (select (fun k => (p.usageCount k).toNat) (p.predicts value)) := by
  have hstride (k : Fin 10) (x : BitVec w)
      (h : p.getValue k = x + p.last4ValuePredictor.getMostRecentValue) :
      p.predicts value k = decide (x = p.stride value) := by
    rw [predicts, h, decide_eq_decide]
    exact p.stride_eq_iff value x
  rw [select, finRange_ten, List.foldl_append, List.foldl_append, List.foldl_append]
  apply PredictionContext.Tracks.predictValue
  · apply PredictionContext.Tracks.predictValue
    · apply PredictionContext.Tracks.predictValue
      · apply PredictionContext.Tracks.predictValue PredictionContext.tracks_new
        · intro i; fin_cases i <;> rfl
        · intro i; rfl
        · intro i; fin_cases i <;> rfl
        · intro i; exact hstride _ _ (by fin_cases i <;> rfl)
      · intro i; fin_cases i <;> rfl
      · intro i; rfl
      · intro i; fin_cases i <;> rfl
      · intro i; exact hstride _ _ (by fin_cases i <;> rfl)
    · intro i; fin_cases i <;> rfl
    · intro i; rfl
    · intro i; fin_cases i <;> rfl
    · intro i; fin_cases i <;> rfl
  · intro i; fin_cases i <;> rfl
  · intro i; rfl
  · intro i; fin_cases i <;> rfl
  · intro i; fin_cases i <;> rfl

theorem usageCount_predictValue (p : ValuePredictor w) (value : BitVec w) :
    (p.predictValue value).2.usageCount = p.usageCount := by
  ext k
  simp only [usageCount, predictValue, KeyedLastNValuePredictor.predictValue,
    FiniteContextMethodPredictor.predictValue,
    FiniteContextMethodPredictor.usageCount_updateLine]

theorem usageCount_accounted (p : ValuePredictor w) (selected : Option (Fin 10)) (j : Fin 10) :
    (Channel.accounted incrementUsageCount component selected p).usageCount j =
      if selected = some j then p.usageCount j + 1 else p.usageCount j := by
  cases selected with
  | none => rfl
  | some k => fin_cases k <;> fin_cases j <;> rfl

theorem SameTables.accounted (h : SameTables p q) (selected : Option (Fin 10)) :
    SameTables (Channel.accounted ValuePredictor.incrementUsageCount component selected p) q := by
  cases selected with
  | none => exact h
  | some k => exact h.incrementUsageCount _ _

/-- The ids with the counters that the constructor clears. -/
def cleared (k : Fin 10) : Prop := k.val = 0 ∨ k.val = 2 ∨ k.val = 4 ∨ k.val = 8

instance : DecidablePred cleared := fun _ => inferInstanceAs (Decidable (_ ∨ _))

theorem start_new (memory : (o : ValueOrder) → UsageMemory o.lineLength) :
    Start (2 ^ 64) cleared fun k => ((new memory : ValuePredictor w).usageCount k).toNat where
  lt _ := BitVec.isLt _
  zero k hk := by
    have hk : k = 0 ∨ k = 2 ∨ k = 4 ∨ k = 8 :=
      hk.imp Fin.ext fun hk => hk.imp Fin.ext fun hk => hk.imp Fin.ext Fin.ext
    rcases hk with rfl | rfl | rfl | rfl <;> rfl

theorem exists_memory {base : Fin 10 → ℕ} (start : Start (2 ^ 64) cleared base) :
    ∃ memory, (fun k => ((new memory : ValuePredictor w).usageCount k).toNat) = base := by
  let memory (o : ValueOrder) : UsageMemory o.lineLength := by
    cases o with
    | firstDfcm => exact fun i : Fin 2 => .ofNat 64 (base ⟨i, by omega⟩)
    | thirdDfcm => exact fun i : Fin 2 => .ofNat 64 (base ⟨i + 2, by omega⟩)
    | last4Value => exact fun i : Fin 4 => .ofNat 64 (base ⟨i + 4, by omega⟩)
    | firstFcm => exact fun i : Fin 2 => .ofNat 64 (base ⟨i + 8, by omega⟩)
  refine ⟨memory, funext fun k => ?_⟩
  have hk : (BitVec.ofNat 64 (base k)).toNat = base k := BitVec.toNat_ofNat .. ▸
    Nat.mod_eq_of_lt (start.lt k)
  fin_cases k
  case «0» => exact (start.zero 0 (Or.inl rfl)).symm
  case «2» => exact (start.zero 2 (Or.inr (Or.inl rfl))).symm
  case «4» => exact (start.zero 4 (Or.inr (Or.inr (Or.inl rfl)))).symm
  case «8» => exact (start.zero 8 (Or.inr (Or.inr (Or.inr rfl)))).symm
  all_goals exact hk

def predictsFor (p : ValuePredictor w) (s : BitVec w × BitVec w) : Fin 10 → Bool :=
  (p.setKey s.2).predicts s.1

def selected (p : ValuePredictor w) (s : BitVec w × BitVec w) : Option (Fin 10) :=
  selectedBy usageCount predictsFor p s

variable {c c' : Channel (ValuePredictor w)} {s : BitVec w × BitVec w}

theorem tracks_selected (p : ValuePredictor w) (s : BitVec w × BitVec w) :
    ((p.setKey s.2).predictValue s.1).1.Tracks component
      (fun k => ((p.setKey s.2).usageCount k).toNat) (p.selected s) :=
  (p.setKey s.2).tracks_predictValue s.1

theorem encodeValue_eq (c : Channel (ValuePredictor w)) (s : BitVec w × BitVec w) :
    encodeValue c s.1 s.2 = Channel.evaluateContext 10 incrementUsageCount
      ⟨((c.predictor.setKey s.2).predictValue s.1).2, c.codeBuffer, c.dataBuffer⟩
      ((c.predictor.setKey s.2).predictValue s.1).1 s.1 := rfl

theorem buffers_encodeValue (c : Channel (ValuePredictor w)) (s : BitVec w × BitVec w) :
    (encodeValue c s.1 s.2).map (fun c => (c.codeBuffer, c.dataBuffer)) =
      Channel.emit c.codeBuffer c.dataBuffer (c.predictor.selected s) s.1 := by
  rw [encodeValue_eq, Channel.buffers_evaluateContext (tracks_selected c.predictor s)]

theorem predictor_encodeValue (e : encodeValue c s.1 s.2 = some c') : c'.predictor =
    Channel.accounted incrementUsageCount component (c.predictor.selected s)
      ((c.predictor.setKey s.2).predictValue s.1).2 := by
  rw [encodeValue_eq] at e
  rw [Channel.predictor_evaluateContext (tracks_selected c.predictor s) e]

theorem sameTables_encodeValue (e : encodeValue c s.1 s.2 = some c')
    (h : c.predictor.SameTables q) :
    c'.predictor.SameTables ((q.setKey s.2).update s.1) := by
  rw [predictor_encodeValue e]
  exact ((h.setKey s.2).predictValue s.1).accounted _

theorem usageCount_encodeValue (e : encodeValue c s.1 s.2 = some c') (k : Fin 10) :
    c'.predictor.usageCount k =
      if c.predictor.selected s = some k then c.predictor.usageCount k + 1
      else c.predictor.usageCount k := by
  rw [predictor_encodeValue e, usageCount_accounted, usageCount_predictValue]
  rfl

def coding : Coding (ValuePredictor w) (BitVec w × BitVec w) w 10 where
  encode c s := encodeValue c s.1 s.2
  predicts := predictsFor
  data _ s := s.1
  next p s := (p.setKey s.2).update s.1
  usageCount := usageCount
  SameTables := SameTables
  predicts_congr h s := (h.setKey s.2).predicts s.1
  data_congr _ _ := rfl
  buffers_encode := buffers_encodeValue
  sameTables_encode e _ := sameTables_encodeValue e
  usageCount_encode := usageCount_encodeValue

@[simp] theorem encode_coding (c : Channel (ValuePredictor w)) (s : BitVec w × BitVec w) :
    coding.encode c s = encodeValue c s.1 s.2 := by
  simp only [coding]

theorem start_coding (memory : (o : ValueOrder) → UsageMemory o.lineLength) :
    Start (2 ^ 64) cleared (coding.base (.new memory : ValuePredictor w)) := start_new _

end ValuePredictor

end Simutrace.Vpc4
