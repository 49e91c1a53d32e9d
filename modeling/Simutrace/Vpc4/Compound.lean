import Simutrace.Library.Cursor
import Simutrace.Vpc4.Predictor

/-! # Compound predictors

A compound predictor encodes a value by the id of a predictor that foresaw it,
and writes the value itself only if none did. The decoder runs the same tables
over the ids and data, so both sides stay in lock-step.
-/

namespace Simutrace.Vpc4

structure Channel (π : Type) where
  predictor : π
  codeBuffer : Cursor
  dataBuffer : Cursor

namespace Channel

variable {π κ : Type} {w maxPredictor : ℕ}

def writePredictorId (codeBuffer : Cursor) (id : PredictorId) : Option Cursor :=
  codeBuffer.put [UInt8.ofNat id]

def readPredictorId (codeBuffer : Cursor) : Option (PredictorId × Cursor) := do
  let (bs, codeBuffer) ← codeBuffer.get 1
  return (LittleEndian.value bs, codeBuffer)

def writeData (dataBuffer : Cursor) (data : BitVec w) : Option Cursor := dataBuffer.putWord data

def readData (w : ℕ) (dataBuffer : Cursor) : Option (BitVec w × Cursor) := dataBuffer.getWord w

/-- Account a prediction to its predictor, or write the data out; then write the id. Not predicted
values get the id `maxPredictor`. -/
def evaluateContext (maxPredictor : ℕ) (incrementUsageCount : κ → PredictorId → π → π)
    (c : Channel π) (context : PredictionContext κ) (data : BitVec w) : Option (Channel π) :=
  match context.predictor with
  | some predictor => do
    let codeBuffer ← writePredictorId c.codeBuffer context.predictorId
    return ⟨incrementUsageCount predictor context.predictorId c.predictor, codeBuffer, c.dataBuffer⟩
  | none => do
    let dataBuffer ← writeData c.dataBuffer data
    let codeBuffer ← writePredictorId c.codeBuffer maxPredictor
    return ⟨c.predictor, codeBuffer, dataBuffer⟩

/-- Read an id and take the predicted value or the next data word. The flag tells a prediction. -/
def readValue (maxPredictor : ℕ) (getValue : PredictorId → BitVec w) (c : Channel π) :
    Option ((BitVec w × Bool) × Channel π) := do
  let (id, codeBuffer) ← readPredictorId c.codeBuffer
  if id < maxPredictor then
    return ((getValue id, true), { c with codeBuffer })
  else
    let (data, dataBuffer) ← readData w c.dataBuffer
    return ((data, false), { c with codeBuffer, dataBuffer })

/-- A decoder stands where the encoder stands, with buffers that hold all the encoder will write
and predictors related to those of the encoder. -/
structure Follows (R : π → π → Prop) (codes data : List UInt8) (e d : Channel π) : Prop where
  predictor : R e.predictor d.predictor
  codeBuffer : d.codeBuffer = ⟨codes, e.codeBuffer.pos⟩
  dataBuffer : d.dataBuffer = ⟨data, e.dataBuffer.pos⟩

/-- What the encoder has written so far is found at the start of the final buffers. -/
structure WrittenTo (codes data : List UInt8) (e : Channel π) : Prop where
  codeBuffer : e.codeBuffer.written <+: codes
  dataBuffer : e.dataBuffer.written <+: data

/-- The buffers have room for `n` more values of width `w`. -/
structure Room (w n : ℕ) (e : Channel π) : Prop where
  codeBuffer : e.codeBuffer.pos + n ≤ e.codeBuffer.bytes.length
  dataBuffer : e.dataBuffer.pos + n * (w / 8) ≤ e.dataBuffer.bytes.length

/-- One channel grew out of another: the buffers kept their sizes and what was written. -/
structure Extends (e e' : Channel π) : Prop where
  codeLength : e'.codeBuffer.bytes.length = e.codeBuffer.bytes.length
  dataLength : e'.dataBuffer.bytes.length = e.dataBuffer.bytes.length
  codeBuffer : e.codeBuffer.written <+: e'.codeBuffer.written
  dataBuffer : e.dataBuffer.written <+: e'.dataBuffer.written

variable {e e' e'' d : Channel π} {codes data : List UInt8}

theorem Extends.refl (e : Channel π) : Extends e e :=
  ⟨rfl, rfl, List.prefix_rfl, List.prefix_rfl⟩

theorem Extends.trans (h : Extends e e') (h' : Extends e' e'') : Extends e e'' :=
  ⟨h'.codeLength.trans h.codeLength, h'.dataLength.trans h.dataLength,
    h.codeBuffer.trans h'.codeBuffer, h.dataBuffer.trans h'.dataBuffer⟩

theorem WrittenTo.of_extends (h : Extends e e') (hw : WrittenTo codes data e') :
    WrittenTo codes data e :=
  ⟨h.codeBuffer.trans hw.codeBuffer, h.dataBuffer.trans hw.dataBuffer⟩

theorem readPredictorId_of_write {c c' : Cursor} {id : PredictorId} {buf : List UInt8}
    (h : writePredictorId c id = some c') (hi : id < 256) (hp : c'.written <+: buf) :
    readPredictorId ⟨buf, c.pos⟩ = some (id, ⟨buf, c'.pos⟩) := by
  have hg : (⟨buf, c.pos⟩ : Cursor).get 1 = some ([UInt8.ofNat id], ⟨buf, c'.pos⟩) :=
    Cursor.get_of_put h hp
  simp [readPredictorId, hg, LittleEndian.value, Nat.mod_eq_of_lt hi]

variable {inc : κ → PredictorId → π → π} {context : PredictionContext κ} {x : BitVec w}

theorem extends_evaluateContext
    (h : evaluateContext maxPredictor inc e context x = some e') : Extends e e' := by
  unfold evaluateContext at h
  cases hc : context.predictor with
  | some p =>
    simp only [hc, Option.bind_eq_bind, Option.bind_eq_some_iff] at h
    obtain ⟨c, hw, he⟩ := h
    obtain rfl := Option.some.inj he
    exact ⟨Cursor.length_put hw, rfl, ⟨_, (Cursor.written_put hw).symm⟩, List.prefix_rfl⟩
  | none =>
    simp only [hc, Option.bind_eq_bind, Option.bind_eq_some_iff] at h
    obtain ⟨b, hd, c, hw, he⟩ := h
    obtain rfl := Option.some.inj he
    exact ⟨Cursor.length_put hw, Cursor.length_put hd, ⟨_, (Cursor.written_put hw).symm⟩,
      ⟨_, (Cursor.written_put hd).symm⟩⟩

theorem evaluateContext_of_room {n : ℕ} (hr : Room w (n + 1) e) :
    ∃ e', evaluateContext maxPredictor inc e context x = some e' ∧ Room w n e' := by
  have hb := hr.dataBuffer
  rw [Nat.succ_mul] at hb
  have hc := hr.codeBuffer
  have hid : ∀ id, ∃ c', writePredictorId e.codeBuffer id = some c' :=
    fun id => Cursor.put_of_fits (by simp; omega)
  unfold evaluateContext
  cases context.predictor with
  | some p =>
    obtain ⟨c', hw⟩ := hid context.predictorId
    have hp := Cursor.pos_put hw
    have hl := Cursor.length_put hw
    refine ⟨_, by simp [hw]; rfl, ?_, ?_⟩
    · simp only [List.length_singleton] at hp ⊢; omega
    · simp only; omega
  | none =>
    obtain ⟨c', hw⟩ := hid maxPredictor
    obtain ⟨d', hd, hp', hl'⟩ := Cursor.putWord_of_fits x
      (show e.dataBuffer.pos + w / 8 ≤ e.dataBuffer.bytes.length by omega)
    have hp := Cursor.pos_put hw
    have hl := Cursor.length_put hw
    refine ⟨_, by simp [hw, writeData, hd]; rfl, ?_, ?_⟩
    · simp only [List.length_singleton] at hp ⊢; omega
    · simp only; omega

theorem readValue_of_room {n : ℕ} (getValue : PredictorId → BitVec w) (hr : Room w (n + 1) e) :
    ∃ r e', readValue maxPredictor getValue e = some (r, e') ∧ Room w n e' := by
  have hb := hr.dataBuffer
  rw [Nat.succ_mul] at hb
  have hc := hr.codeBuffer
  obtain ⟨bs, hid⟩ := Cursor.get_of_fits (c := e.codeBuffer) (n := 1) (by omega)
  obtain ⟨x, hdata⟩ := Cursor.getWord_of_fits (c := e.dataBuffer) (w := w) (by omega)
  by_cases hlt : LittleEndian.value bs < maxPredictor
  · refine ⟨_, _, by simp [readValue, readPredictorId, hid, hlt]; exact ⟨rfl, rfl⟩, ?_, ?_⟩
    · simp only; omega
    · simp only; omega
  · refine ⟨_, _, by simp [readValue, readPredictorId, readData, hid, hlt, hdata]; exact ⟨rfl, rfl⟩,
      ?_, ?_⟩
    · simp only; omega
    · simp only; omega

theorem readValue_of_evaluateContext {R : π → π → Prop} {getValue : PredictorId → BitVec w}
    {v : BitVec w} (hw : 8 ∣ w) (hm : maxPredictor < 256)
    (h : evaluateContext maxPredictor inc e context x = some e')
    (hs : context.Sound fun id => id < maxPredictor ∧ getValue id = v)
    (hc : d.codeBuffer = ⟨codes, e.codeBuffer.pos⟩) (hd : d.dataBuffer = ⟨data, e.dataBuffer.pos⟩)
    (hwr : WrittenTo codes data e') (hi : ∀ p id, R (inc p id e.predictor) d.predictor)
    (hR : R e.predictor d.predictor) :
    ∃ d' r, readValue maxPredictor getValue d = some (r, d') ∧ (r = (v, true) ∨ r = (x, false)) ∧
      d'.predictor = d.predictor ∧ Follows R codes data e' d' := by
  unfold evaluateContext at h
  cases hp : context.predictor with
  | some p =>
    simp only [hp, Option.bind_eq_bind, Option.bind_eq_some_iff] at h
    obtain ⟨c, hwc, he⟩ := h
    obtain rfl := Option.some.inj he
    obtain ⟨hlt, hv⟩ := hs.of_predicted (by simp [hp])
    have hr := readPredictorId_of_write hwc (hlt.trans hm) hwr.codeBuffer
    refine ⟨⟨d.predictor, ⟨codes, c.pos⟩, d.dataBuffer⟩, _, ?_, Or.inl rfl, rfl, hi _ _,
      rfl, hd⟩
    simp [readValue, hc, hr, hlt, hv]
  | none =>
    simp only [hp, Option.bind_eq_bind, Option.bind_eq_some_iff] at h
    obtain ⟨b, hwd, c, hwc, he⟩ := h
    obtain rfl := Option.some.inj he
    have hr := readPredictorId_of_write hwc hm hwr.codeBuffer
    have hrd : readData w ⟨data, e.dataBuffer.pos⟩ = some (x, ⟨data, b.pos⟩) :=
      Cursor.getWord_of_putWord hw hwd hwr.dataBuffer
    refine ⟨⟨d.predictor, ⟨codes, c.pos⟩, ⟨data, b.pos⟩⟩, _, ?_, Or.inr rfl, rfl, hR, rfl, rfl⟩
    simp [readValue, hc, hd, hr, hrd]

end Channel

end Simutrace.Vpc4
