import Mathlib.Data.List.FinRange
import Mathlib.Logic.Function.Basic
import Mathlib.Tactic.Ring

/-! # Finite context method predictors

A predictor table holds, for each hashed history of earlier values, the values
that followed it most recently. Several predictors can share one history, and
a prediction context is sent through all of them to find the best one.
-/

namespace Simutrace.Vpc4

abbrev HashType := BitVec 32

abbrev PredictorId := ℕ

/-- The `n` low bits are set, as in `(1 << n) - 1`. -/
def lowMask (w n : ℕ) : BitVec w := BitVec.ofNat w (2 ^ n - 1)

/-- Input histories of `order` hashes each, selected by a key. -/
structure KeyedFcmHistory (tableSize hashSize order : ℕ) where
  index : HashType
  historyTable : HashType → Fin order → HashType

namespace KeyedFcmHistory

variable {tableSize hashSize order w : ℕ}

def new : KeyedFcmHistory tableSize hashSize order := ⟨0, fun _ _ => 0⟩

-- The source folds while bits are left; `foldHash_stable` shows that `w` rounds are enough.
def foldHash (hashSize : ℕ) : ℕ → BitVec w → HashType → HashType
  | 0, _, hash => hash
  | n + 1, tmp, hash =>
    if tmp = 0 then hash else foldHash hashSize n (tmp >>> hashSize) (hash ^^^ tmp.setWidth 32)

def hash (_ : KeyedFcmHistory tableSize hashSize order) (value : BitVec w) : HashType :=
  foldHash hashSize w value 0 &&& lowMask 32 hashSize

def setKey (h : KeyedFcmHistory tableSize hashSize order) (key : BitVec w) :
    KeyedFcmHistory tableSize hashSize order :=
  { h with index := (key &&& lowMask w tableSize).setWidth 32 }

/-- The hash of the selected history; orders count from zero. -/
def get (h : KeyedFcmHistory tableSize hashSize order) (predictorOrder : Fin order) : HashType :=
  h.historyTable h.index predictorOrder

def set (h : KeyedFcmHistory tableSize hashSize order) (predictorOrder : Fin order)
    (value : HashType) : KeyedFcmHistory tableSize hashSize order :=
  let row := Function.update (h.historyTable h.index) predictorOrder value
  { h with historyTable := Function.update h.historyTable h.index row }

/-- Move the selected history on by one value; each order extends the hash of the one below. -/
def update (h : KeyedFcmHistory tableSize hashSize order) (value : BitVec w) :
    KeyedFcmHistory tableSize hashSize order :=
  let hash := h.hash value
  let row := h.historyTable h.index
  let row' : Fin order → HashType := fun i =>
    if i.val = 0 then hash else (row ⟨i.val - 1, by omega⟩ <<< 1) ^^^ hash
  { h with historyTable := Function.update h.historyTable h.index row' }

theorem foldHash_zero (hashSize n : ℕ) (hash : HashType) :
    foldHash hashSize n (0 : BitVec w) hash = hash := by
  cases n <;> simp [foldHash]

theorem foldHash_stable {hashSize n m : ℕ} {tmp : BitVec w} {hash : HashType}
    (ht : tmp.toNat < 2 ^ (n * hashSize)) (hn : n ≤ m) :
    foldHash hashSize m tmp hash = foldHash hashSize n tmp hash := by
  induction n generalizing m tmp hash with
  | zero =>
    have hz : tmp = 0 := BitVec.eq_of_toNat_eq (by simpa using ht)
    rw [hz, foldHash_zero, foldHash]
  | succ n ih =>
    obtain ⟨m, rfl⟩ : ∃ k, m = k + 1 := ⟨m - 1, by omega⟩
    have hs : (tmp >>> hashSize).toNat < 2 ^ (n * hashSize) := by
      rw [BitVec.toNat_ushiftRight, Nat.shiftRight_eq_div_pow]
      apply Nat.div_lt_of_lt_mul
      rwa [← pow_add, show hashSize + n * hashSize = (n + 1) * hashSize by ring]
    simp only [foldHash, ih hs (Nat.le_of_succ_le_succ hn)]

end KeyedFcmHistory

/-- The best prediction found so far, by predictor and usage count. -/
structure PredictionContext (κ : Type) where
  usageCount : BitVec 64
  predictor : Option κ
  predictorId : PredictorId

namespace PredictionContext

def new {κ : Type} : PredictionContext κ := ⟨0, none, 255⟩

structure Sound {κ : Type} (c : PredictionContext κ) (P : PredictorId → Prop) : Prop where
  of_predicted : c.predictor ≠ none → P c.predictorId

theorem sound_new {κ : Type} (P : PredictorId → Prop) : (new : PredictionContext κ).Sound P :=
  ⟨fun h => (h rfl).elim⟩

end PredictionContext

/-- A table of the last values seen after each hashed history. The ids of its predictions start
at `idBase`. -/
structure FiniteContextMethodPredictor (idBase : PredictorId) (w tableSize lineLength : ℕ) where
  usageCount : Fin lineLength → BitVec 64
  valueTable : HashType → Fin lineLength → BitVec w

namespace FiniteContextMethodPredictor

variable {idBase w tableSize lineLength hTableSize hHashSize hOrder : ℕ} [NeZero lineLength]
  {κ : Type}

/-- A fresh predictor. The constructor clears only the first usage counter; the other ones keep
what the allocated memory held. -/
def new (memory : Fin lineLength → BitVec 64) :
    FiniteContextMethodPredictor idBase w tableSize lineLength :=
  ⟨Function.update memory 0 0, fun _ i => BitVec.ofNat w i⟩

variable (p : FiniteContextMethodPredictor idBase w tableSize lineLength)

def mask (_ : FiniteContextMethodPredictor idBase w tableSize lineLength) (index : HashType) :
    HashType :=
  index &&& lowMask 32 tableSize

def shiftLine (line : Fin lineLength → BitVec w) (newValue : BitVec w) :
    Fin lineLength → BitVec w :=
  fun i => if i = 0 then newValue else line ⟨i.val - 1, by omega⟩

/-- Insert a value at the front of a line, unless it is there already. -/
def updateLine (index : HashType) (newValue : BitVec w) :
    FiniteContextMethodPredictor idBase w tableSize lineLength :=
  let line := shiftLine (p.valueTable index) newValue
  if p.valueTable index 0 = newValue then p
  else { p with valueTable := Function.update p.valueTable index line }

def checkPrediction (self : κ) (index : HashType) (value : BitVec w)
    (context : PredictionContext κ) (i : Fin lineLength) : PredictionContext κ :=
  if context.usageCount ≤ p.usageCount i ∧ p.valueTable index i = value then
    ⟨p.usageCount i, some self, i + idBase⟩
  else context

variable (history : KeyedFcmHistory hTableSize hHashSize hOrder) (order : Fin hOrder)

/-- Test the line of the current history against the value, then enter the value. -/
def predictValue (self : κ) (context : PredictionContext κ) (value : BitVec w) :
    PredictionContext κ × FiniteContextMethodPredictor idBase w tableSize lineLength :=
  let index := p.mask (history.get order)
  ((List.finRange lineLength).foldl (p.checkPrediction self index value) context,
    p.updateLine index value)

/-- The prediction with the given id, which lies between `idBase` and the end of the line. -/
def getValue (id : PredictorId) : BitVec w :=
  p.valueTable (p.mask (history.get order)) (Fin.ofNat lineLength (id - idBase))

def update (value : BitVec w) : FiniteContextMethodPredictor idBase w tableSize lineLength :=
  p.updateLine (p.mask (history.get order)) value

def incrementUsageCount (id : PredictorId) :
    FiniteContextMethodPredictor idBase w tableSize lineLength :=
  let i := Fin.ofNat lineLength (id - idBase)
  { p with usageCount := Function.update p.usageCount i (p.usageCount i + 1) }

/-- Two predictors give the same predictions; their usage counts may differ. -/
def Agrees (p q : FiniteContextMethodPredictor idBase w tableSize lineLength) : Prop :=
  p.valueTable = q.valueTable

variable {p history order} {q : FiniteContextMethodPredictor idBase w tableSize lineLength}

theorem Agrees.updateLine (h : Agrees p q) (index : HashType) (value : BitVec w) :
    Agrees (p.updateLine index value) (q.updateLine index value) := by
  unfold Agrees at h ⊢
  by_cases hv : q.valueTable index 0 = value <;>
    simp [FiniteContextMethodPredictor.updateLine, h, hv]

theorem Agrees.update (h : Agrees p q) (value : BitVec w) :
    Agrees (p.update history order value) (q.update history order value) :=
  h.updateLine _ _

theorem predictValue_snd (self : κ) (context : PredictionContext κ) (value : BitVec w) :
    (p.predictValue history order self context value).2 = p.update history order value := rfl

theorem Agrees.incrementUsageCount (h : Agrees p q) (id : PredictorId) :
    Agrees (p.incrementUsageCount id) q := h

theorem Agrees.getValue (h : Agrees p q) (id : PredictorId) :
    p.getValue history order id = q.getValue history order id := by
  unfold Agrees at h
  simp only [FiniteContextMethodPredictor.getValue, mask, h]

theorem getValue_of_line {index : HashType} (hi : index = p.mask (history.get order))
    (i : Fin lineLength) : p.getValue history order (i + idBase) = p.valueTable index i := by
  simp [FiniteContextMethodPredictor.getValue, hi]

theorem checkPrediction_sound {self : κ} {context : PredictionContext κ} {value : BitVec w}
    {P : PredictorId → Prop} (hc : context.Sound P)
    (hp : ∀ i : Fin lineLength, p.getValue history order (i + idBase) = value →
      P (i + idBase)) (i : Fin lineLength) :
    (p.checkPrediction self (p.mask (history.get order)) value context i).Sound P := by
  unfold checkPrediction
  split
  · rename_i hv
    exact ⟨fun _ => hp i ((getValue_of_line rfl i).trans hv.2)⟩
  · exact hc

/-- Sending a context through a predictor keeps a property of its id that the correct
predictions of this predictor have. -/
theorem predictValue_sound {self : κ} {context : PredictionContext κ} {value : BitVec w}
    {P : PredictorId → Prop} (hc : context.Sound P)
    (hp : ∀ i : Fin lineLength, p.getValue history order (i + idBase) = value →
      P (i + idBase)) :
    (p.predictValue history order self context value).1.Sound P := by
  simp only [predictValue]
  induction List.finRange lineLength generalizing context with
  | nil => exact hc
  | cons i is ih => exact ih (checkPrediction_sound hc hp i)

end FiniteContextMethodPredictor

/-- The last values for each key: a finite context method predictor whose history is the key. -/
structure KeyedLastNValuePredictor (idBase : PredictorId) (w tableSize lineLength : ℕ) where
  fcm : FiniteContextMethodPredictor idBase w tableSize lineLength
  history : KeyedFcmHistory 0 0 1

instance neZeroOrder : NeZero (1 : ℕ) := ⟨Nat.one_ne_zero⟩

namespace KeyedLastNValuePredictor

variable {idBase w tableSize lineLength : ℕ} [NeZero lineLength]

def new (memory : Fin lineLength → BitVec 64) :
    KeyedLastNValuePredictor idBase w tableSize lineLength :=
  ⟨.new memory, .new⟩

variable (p : KeyedLastNValuePredictor idBase w tableSize lineLength)

def setKey (key : BitVec w) : KeyedLastNValuePredictor idBase w tableSize lineLength :=
  { p with history := p.history.set 0 (key.setWidth 32) }

def predictValue {κ : Type} (self : κ) (context : PredictionContext κ) (value : BitVec w) :
    PredictionContext κ × KeyedLastNValuePredictor idBase w tableSize lineLength :=
  let fcm := p.fcm.predictValue p.history 0 self context value
  (fcm.1, { p with fcm := fcm.2 })

def getValue (id : PredictorId) : BitVec w := p.fcm.getValue p.history 0 id

def getMostRecentValue : BitVec w := p.getValue idBase

def update (value : BitVec w) : KeyedLastNValuePredictor idBase w tableSize lineLength :=
  { p with fcm := p.fcm.update p.history 0 value }

def incrementUsageCount (id : PredictorId) :
    KeyedLastNValuePredictor idBase w tableSize lineLength :=
  { p with fcm := p.fcm.incrementUsageCount id }

variable {p} in
theorem predictValue_sound {κ : Type} {self : κ} {context : PredictionContext κ} {value : BitVec w}
    {P : PredictorId → Prop} (hc : context.Sound P)
    (hp : ∀ i : Fin lineLength, p.getValue (i + idBase) = value → P (i + idBase)) :
    (p.predictValue self context value).1.Sound P :=
  FiniteContextMethodPredictor.predictValue_sound hc hp

structure SameTables (p q : KeyedLastNValuePredictor idBase w tableSize lineLength) : Prop where
  fcm : p.fcm.Agrees q.fcm
  history : p.history = q.history

variable {p} {q : KeyedLastNValuePredictor idBase w tableSize lineLength}

omit [NeZero lineLength] in
theorem SameTables.setKey (h : SameTables p q) (key : BitVec w) :
    SameTables (p.setKey key) (q.setKey key) :=
  ⟨h.fcm, by simp only [KeyedLastNValuePredictor.setKey, h.history]⟩

theorem SameTables.getValue (h : SameTables p q) (id : PredictorId) :
    p.getValue id = q.getValue id := by
  rw [KeyedLastNValuePredictor.getValue, KeyedLastNValuePredictor.getValue, h.history,
    h.fcm.getValue]

theorem SameTables.update (h : SameTables p q) (value : BitVec w) :
    SameTables (p.update value) (q.update value) := by
  refine ⟨?_, h.history⟩
  simp only [KeyedLastNValuePredictor.update, h.history]
  exact h.fcm.update value

end KeyedLastNValuePredictor

end Simutrace.Vpc4
