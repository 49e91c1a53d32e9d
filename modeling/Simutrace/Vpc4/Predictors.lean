import Simutrace.Vpc4.Compound

/-! # The predictors of the memory encoder

Instruction pointers and cycle counts are predicted by a first and a third
order table over one shared history, data values by five kinds of tables. For
each of them decoding what was encoded gives the value back and leaves both
sides with agreeing tables.
-/

namespace Simutrace.Vpc4

open FiniteContextMethodPredictor (Agrees predictValue_snd predictValue_sound)

/-- Storage for the usage counters of each component, as the allocator hands it out. -/
abbrev UsageMemory (lineLength : ℕ) := Fin lineLength → BitVec 64

inductive FcmOrder | first | third
  deriving DecidableEq, Repr

/-- A first and a third order predictor over a shared history of order three. -/
structure FcmPair (w : ℕ) where
  sharedFcmHistory : KeyedFcmHistory 0 17 3
  firstOrderFcmPredictor : FiniteContextMethodPredictor 0 w 17 2
  thirdOrderFcmPredictor : FiniteContextMethodPredictor 2 w 19 2

namespace FcmPair

variable {w : ℕ}

def new (memory : FcmOrder → UsageMemory 2) : FcmPair w :=
  ⟨.new, .new (memory .first), .new (memory .third)⟩

def predictValue (p : FcmPair w) (value : BitVec w) : PredictionContext FcmOrder × FcmPair w :=
  let history := p.sharedFcmHistory
  let first := p.firstOrderFcmPredictor.predictValue history 0 FcmOrder.first .new value
  let third := p.thirdOrderFcmPredictor.predictValue history 2 FcmOrder.third first.1 value
  (third.1, ⟨history.update value, first.2, third.2⟩)

def getValue (p : FcmPair w) (id : PredictorId) : BitVec w :=
  if id < 2 then p.firstOrderFcmPredictor.getValue p.sharedFcmHistory 0 id
  else p.thirdOrderFcmPredictor.getValue p.sharedFcmHistory 2 id

def update (p : FcmPair w) (value : BitVec w) : FcmPair w :=
  let history := p.sharedFcmHistory
  ⟨history.update value, p.firstOrderFcmPredictor.update history 0 value,
    p.thirdOrderFcmPredictor.update history 2 value⟩

def incrementUsageCount (order : FcmOrder) (id : PredictorId) (p : FcmPair w) : FcmPair w :=
  match order with
  | .first => { p with
      firstOrderFcmPredictor := p.firstOrderFcmPredictor.incrementUsageCount id }
  | .third => { p with
      thirdOrderFcmPredictor := p.thirdOrderFcmPredictor.incrementUsageCount id }

structure SameTables (p q : FcmPair w) : Prop where
  history : p.sharedFcmHistory = q.sharedFcmHistory
  first : Agrees p.firstOrderFcmPredictor q.firstOrderFcmPredictor
  third : Agrees p.thirdOrderFcmPredictor q.thirdOrderFcmPredictor

variable {p q : FcmPair w}

theorem sameTables_new (memory memory' : FcmOrder → UsageMemory 2) :
    SameTables (new memory : FcmPair w) (new memory') := ⟨rfl, rfl, rfl⟩

theorem SameTables.predictValue (h : SameTables p q) (value : BitVec w) :
    SameTables (p.predictValue value).2 (q.update value) := by
  obtain ⟨hh, hf, ht⟩ := h
  refine ⟨?_, ?_, ?_⟩
  · simp [FcmPair.predictValue, FcmPair.update, hh]
  · simpa only [FcmPair.predictValue, FcmPair.update, predictValue_snd, ← hh] using hf.update value
  · simpa only [FcmPair.predictValue, FcmPair.update, predictValue_snd, ← hh] using ht.update value

theorem SameTables.incrementUsageCount (h : SameTables p q) (order : FcmOrder)
    (id : PredictorId) : SameTables (p.incrementUsageCount order id) q := by
  cases order <;> exact ⟨h.history, h.first, h.third⟩

theorem SameTables.sound (h : SameTables p q) (value : BitVec w) :
    (p.predictValue value).1.Sound fun id => id < 4 ∧ q.getValue id = value := by
  obtain ⟨hh, hf, ht⟩ := h
  unfold FcmPair.predictValue
  refine predictValue_sound (predictValue_sound (PredictionContext.sound_new _) ?_) ?_
  · intro i hi
    have hlt : (i : ℕ) + 0 < 2 := i.isLt
    exact ⟨Nat.lt_trans hlt (by decide),
      by rw [FcmPair.getValue, if_pos hlt, ← hf.getValue, ← hh, hi]⟩
  · intro i hi
    have hge : ¬ (i : ℕ) + 2 < 2 := Nat.not_lt.mpr (Nat.le_add_left 2 i)
    exact ⟨Nat.add_lt_add_right i.isLt 2,
      by rw [FcmPair.getValue, if_neg hge, ← ht.getValue, ← hh, hi]⟩

end FcmPair

namespace IpPredictor

variable {w : ℕ} {e e' d : Channel (FcmPair w)} {ip : BitVec w}

def encodeIp (c : Channel (FcmPair w)) (ip : BitVec w) : Option (Channel (FcmPair w)) :=
  let r := c.predictor.predictValue ip
  Channel.evaluateContext 4 FcmPair.incrementUsageCount { c with predictor := r.2 } r.1 ip

def decodeIp (c : Channel (FcmPair w)) : Option (BitVec w × Channel (FcmPair w)) := do
  let ((result, _), c) ← c.readValue 4 c.predictor.getValue
  return (result, { c with predictor := c.predictor.update result })

theorem extends_encodeIp (h : encodeIp e ip = some e') : e.Extends e' := by
  obtain ⟨h₁, h₂, h₃, h₄⟩ := Channel.extends_evaluateContext h
  exact ⟨h₁, h₂, h₃, h₄⟩

theorem encodeIp_of_room {n : ℕ} (hr : e.Room w (n + 1)) (ip : BitVec w) :
    ∃ e', encodeIp e ip = some e' ∧ e'.Room w n :=
  Channel.evaluateContext_of_room ⟨hr.codeBuffer, hr.dataBuffer⟩

theorem decodeIp_of_room {n : ℕ} (hr : d.Room w (n + 1)) :
    ∃ ip d', decodeIp d = some (ip, d') ∧ d'.Room w n := by
  obtain ⟨r, c, hread, hroom⟩ : ∃ r c, d.readValue 4 d.predictor.getValue = some (r, c) ∧
      c.Room w n := Channel.readValue_of_room _ hr
  obtain ⟨x, p, hd⟩ : ∃ x p, decodeIp d = some (x, { c with predictor := p }) :=
    ⟨_, _, by rw [decodeIp, hread]; rfl⟩
  exact ⟨x, _, hd, hroom.codeBuffer, hroom.dataBuffer⟩

theorem decodeIp_of_encodeIp {codes data : List UInt8} (hw : 8 ∣ w)
    (h : encodeIp e ip = some e') (hf : Channel.Follows FcmPair.SameTables codes data e d)
    (hwr : e'.WrittenTo codes data) :
    ∃ d', decodeIp d = some (ip, d') ∧ Channel.Follows FcmPair.SameTables codes data e' d' := by
  have hp := hf.predictor.predictValue ip
  obtain ⟨d', r, hr, hv, hd, hf'⟩ := Channel.readValue_of_evaluateContext hw (by omega) h
    (hf.predictor.sound ip) hf.codeBuffer hf.dataBuffer hwr
    (R := fun p q => FcmPair.SameTables p (q.update ip))
    (fun o id => hp.incrementUsageCount o id) hp
  have hre : r.1 = ip := by rcases hv with rfl | rfl <;> rfl
  refine ⟨{ d' with predictor := d'.predictor.update ip }, ?_, ?_⟩
  · simp [decodeIp, hr, hre]
  · exact ⟨hd ▸ hf'.predictor, hf'.codeBuffer, hf'.dataBuffer⟩

end IpPredictor

/-- Predicts the distance to the last cycle count, shifted by the instruction pointer. -/
structure CyclePredictor where
  fcm : FcmPair 64
  referenceCycleCount : BitVec 64

namespace CyclePredictor

variable {w : ℕ} {p q : CyclePredictor} {e e' d : Channel CyclePredictor} {cycle : BitVec 64}
  {ip : BitVec w}

def new (memory : FcmOrder → UsageMemory 2) (referenceCycleCount : BitVec 64) : CyclePredictor :=
  ⟨.new memory, referenceCycleCount⟩

def incrementUsageCount (order : FcmOrder) (id : PredictorId) (p : CyclePredictor) :
    CyclePredictor :=
  { p with fcm := p.fcm.incrementUsageCount order id }

def encodeCycle (c : Channel CyclePredictor) (cycle : BitVec 64) (ip : BitVec w) :
    Option (Channel CyclePredictor) :=
  let stride := cycle - c.predictor.referenceCycleCount
  let value := stride + ip.setWidth 64
  let r := c.predictor.fcm.predictValue value
  Channel.evaluateContext 4 incrementUsageCount { c with predictor := ⟨r.2, cycle⟩ } r.1 stride

def decodeCycle (c : Channel CyclePredictor) (ip : BitVec w) :
    Option (BitVec 64 × Channel CyclePredictor) := do
  let ((value, predicted), c) ← c.readValue 4 c.predictor.fcm.getValue
  let update := if predicted then value else value + ip.setWidth 64
  let stride := if predicted then value - ip.setWidth 64 else value
  let cycle := c.predictor.referenceCycleCount + stride
  return (cycle, { c with predictor := ⟨c.predictor.fcm.update update, cycle⟩ })

structure SameTables (p q : CyclePredictor) : Prop where
  fcm : p.fcm.SameTables q.fcm
  referenceCycleCount : p.referenceCycleCount = q.referenceCycleCount

theorem sameTables_new (memory memory' : FcmOrder → UsageMemory 2) (cycle : BitVec 64) :
    SameTables (new memory cycle) (new memory' cycle) :=
  ⟨FcmPair.sameTables_new _ _, rfl⟩

theorem extends_encodeCycle (h : encodeCycle e cycle ip = some e') : e.Extends e' := by
  obtain ⟨h₁, h₂, h₃, h₄⟩ := Channel.extends_evaluateContext h
  exact ⟨h₁, h₂, h₃, h₄⟩

theorem encodeCycle_of_room {n : ℕ} (hr : e.Room 64 (n + 1)) (cycle : BitVec 64) (ip : BitVec w) :
    ∃ e', encodeCycle e cycle ip = some e' ∧ e'.Room 64 n :=
  Channel.evaluateContext_of_room ⟨hr.codeBuffer, hr.dataBuffer⟩

theorem decodeCycle_of_room {n : ℕ} (hr : d.Room 64 (n + 1)) (ip : BitVec w) :
    ∃ cycle d', decodeCycle d ip = some (cycle, d') ∧ d'.Room 64 n := by
  obtain ⟨r, c, hread, hroom⟩ : ∃ r c, d.readValue 4 d.predictor.fcm.getValue = some (r, c) ∧
      c.Room 64 n := Channel.readValue_of_room _ hr
  obtain ⟨x, p, hd⟩ : ∃ x p, decodeCycle d ip = some (x, { c with predictor := p }) :=
    ⟨_, _, by rw [decodeCycle, hread]; rfl⟩
  exact ⟨x, _, hd, hroom.codeBuffer, hroom.dataBuffer⟩

theorem decodeCycle_of_encodeCycle {codes data : List UInt8} (h : encodeCycle e cycle ip = some e')
    (hf : Channel.Follows SameTables codes data e d) (hwr : e'.WrittenTo codes data) :
    ∃ d', decodeCycle d ip = some (cycle, d') ∧ Channel.Follows SameTables codes data e' d' := by
  obtain ⟨⟨ht, hc⟩, hcb, hdb⟩ := hf
  have hp := ht.predictValue (cycle - e.predictor.referenceCycleCount + ip.setWidth 64)
  obtain ⟨d', r, hr, hv, hd, hf'⟩ := Channel.readValue_of_evaluateContext (by decide) (by omega) h
    (ht.sound _) hcb hdb hwr
    (R := fun p q => SameTables p ⟨q.fcm.update
      (cycle - e.predictor.referenceCycleCount + ip.setWidth 64), cycle⟩)
    (fun o id => ⟨hp.incrementUsageCount o id, rfl⟩) ⟨hp, rfl⟩
  refine ⟨{ d' with predictor := _ }, ?_, hf'.predictor, hf'.codeBuffer, hf'.dataBuffer⟩
  have hback (x c : BitVec 64) : c + (x - c) = x := by rw [BitVec.add_comm, BitVec.sub_add_cancel]
  have hcancel (x c : BitVec 64) : x + c - c = x := BitVec.add_sub_cancel x c
  rcases hv with rfl | rfl
  · simp only [decodeCycle, hr, hd, ← hc, Option.bind_eq_bind, Option.bind_some, if_true, hcancel,
      hback]
    rfl
  · simp only [decodeCycle, hr, hd, ← hc, Option.bind_eq_bind, Option.bind_some,
      Bool.false_eq_true, if_false, hback]
    rfl

end CyclePredictor

inductive ValueOrder | firstDfcm | thirdDfcm | last4Value | firstFcm
  deriving DecidableEq, Repr

abbrev ValueOrder.lineLength : ValueOrder → ℕ
  | .last4Value => 4
  | _ => 2

/-- Predicts a value by its distance to the last one with the same key, by the last four values
and by the value itself. -/
structure ValuePredictor (w : ℕ) where
  sharedDfcmHistory : KeyedFcmHistory 16 17 3
  firstOrderDfcmPredictor : FiniteContextMethodPredictor 0 w 17 2
  thirdOrderDfcmPredictor : FiniteContextMethodPredictor 2 w 19 2
  privateFcmHistory : KeyedFcmHistory 16 19 1
  firstOrderFcmPredictor : FiniteContextMethodPredictor 8 w 19 2
  last4ValuePredictor : KeyedLastNValuePredictor 4 w 16 4

namespace ValuePredictor

variable {w : ℕ} {p q : ValuePredictor w} {e e' d : Channel (ValuePredictor w)}
  {value key : BitVec w}

def new (memory : (o : ValueOrder) → UsageMemory o.lineLength) : ValuePredictor w :=
  ⟨.new, .new (memory .firstDfcm), .new (memory .thirdDfcm), .new, .new (memory .firstFcm),
    .new (memory .last4Value)⟩

def setKey (p : ValuePredictor w) (key : BitVec w) : ValuePredictor w :=
  { p with
    sharedDfcmHistory := p.sharedDfcmHistory.setKey key
    privateFcmHistory := p.privateFcmHistory.setKey key
    last4ValuePredictor := p.last4ValuePredictor.setKey key }

def stride (p : ValuePredictor w) (value : BitVec w) : BitVec w :=
  value - p.last4ValuePredictor.getMostRecentValue

def predictValue (p : ValuePredictor w) (value : BitVec w) :
    PredictionContext ValueOrder × ValuePredictor w :=
  let stride := p.stride value
  let dfcm₁ := p.firstOrderDfcmPredictor.predictValue p.sharedDfcmHistory 0
    ValueOrder.firstDfcm .new stride
  let dfcm₃ := p.thirdOrderDfcmPredictor.predictValue p.sharedDfcmHistory 2
    ValueOrder.thirdDfcm dfcm₁.1 stride
  let last4 := p.last4ValuePredictor.predictValue ValueOrder.last4Value dfcm₃.1 value
  let fcm := p.firstOrderFcmPredictor.predictValue p.privateFcmHistory 0
    ValueOrder.firstFcm last4.1 value
  (fcm.1, ⟨p.sharedDfcmHistory.update stride, dfcm₁.2, dfcm₃.2, p.privateFcmHistory.update value,
    fcm.2, last4.2⟩)

def getValue (p : ValuePredictor w) (id : PredictorId) : BitVec w :=
  if id < 2 then
    p.firstOrderDfcmPredictor.getValue p.sharedDfcmHistory 0 id +
      p.last4ValuePredictor.getMostRecentValue
  else if id < 4 then
    p.thirdOrderDfcmPredictor.getValue p.sharedDfcmHistory 2 id +
      p.last4ValuePredictor.getMostRecentValue
  else if id < 8 then p.last4ValuePredictor.getValue id
  else p.firstOrderFcmPredictor.getValue p.privateFcmHistory 0 id

def update (p : ValuePredictor w) (value : BitVec w) : ValuePredictor w :=
  let stride := p.stride value
  ⟨p.sharedDfcmHistory.update stride,
    p.firstOrderDfcmPredictor.update p.sharedDfcmHistory 0 stride,
    p.thirdOrderDfcmPredictor.update p.sharedDfcmHistory 2 stride,
    p.privateFcmHistory.update value,
    p.firstOrderFcmPredictor.update p.privateFcmHistory 0 value,
    p.last4ValuePredictor.update value⟩

def incrementUsageCount (order : ValueOrder) (id : PredictorId) (p : ValuePredictor w) :
    ValuePredictor w :=
  match order with
  | .firstDfcm => { p with
      firstOrderDfcmPredictor := p.firstOrderDfcmPredictor.incrementUsageCount id }
  | .thirdDfcm => { p with
      thirdOrderDfcmPredictor := p.thirdOrderDfcmPredictor.incrementUsageCount id }
  | .last4Value => { p with
      last4ValuePredictor := p.last4ValuePredictor.incrementUsageCount id }
  | .firstFcm => { p with
      firstOrderFcmPredictor := p.firstOrderFcmPredictor.incrementUsageCount id }

def encodeValue (c : Channel (ValuePredictor w)) (value key : BitVec w) :
    Option (Channel (ValuePredictor w)) :=
  let r := (c.predictor.setKey key).predictValue value
  Channel.evaluateContext 10 incrementUsageCount { c with predictor := r.2 } r.1 value

def decodeValue (c : Channel (ValuePredictor w)) (key : BitVec w) :
    Option (BitVec w × Channel (ValuePredictor w)) := do
  let predictor := c.predictor.setKey key
  let ((result, _), c) ← c.readValue 10 predictor.getValue
  return (result, { c with predictor := predictor.update result })

structure SameTables (p q : ValuePredictor w) : Prop where
  sharedHistory : p.sharedDfcmHistory = q.sharedDfcmHistory
  firstDfcm : Agrees p.firstOrderDfcmPredictor q.firstOrderDfcmPredictor
  thirdDfcm : Agrees p.thirdOrderDfcmPredictor q.thirdOrderDfcmPredictor
  privateHistory : p.privateFcmHistory = q.privateFcmHistory
  firstFcm : Agrees p.firstOrderFcmPredictor q.firstOrderFcmPredictor
  last4Value : p.last4ValuePredictor.SameTables q.last4ValuePredictor

theorem sameTables_new (memory memory' : (o : ValueOrder) → UsageMemory o.lineLength) :
    SameTables (new memory : ValuePredictor w) (new memory') :=
  ⟨rfl, rfl, rfl, rfl, rfl, rfl, rfl⟩

theorem SameTables.setKey (h : SameTables p q) (key : BitVec w) :
    SameTables (p.setKey key) (q.setKey key) := by
  obtain ⟨h₁, h₂, h₃, h₄, h₅, h₆⟩ := h
  refine ⟨?_, h₂, h₃, ?_, h₅, h₆.setKey key⟩
  · simp only [ValuePredictor.setKey, h₁]
  · simp only [ValuePredictor.setKey, h₄]

theorem SameTables.getMostRecentValue (h : SameTables p q) :
    p.last4ValuePredictor.getMostRecentValue = q.last4ValuePredictor.getMostRecentValue :=
  h.last4Value.getValue _

theorem SameTables.stride (h : SameTables p q) (value : BitVec w) :
    p.stride value = q.stride value := by
  rw [ValuePredictor.stride, ValuePredictor.stride, h.getMostRecentValue]

theorem SameTables.predictValue (h : SameTables p q) (value : BitVec w) :
    SameTables (p.predictValue value).2 (q.update value) := by
  have hs := h.stride value
  obtain ⟨h₁, h₂, h₃, h₄, h₅, h₆⟩ := h
  simp only [ValuePredictor.predictValue, ValuePredictor.update, hs, h₁, h₄, predictValue_snd]
  exact ⟨rfl, h₂.update _, h₃.update _, rfl, h₅.update _, h₆.update _⟩

theorem SameTables.incrementUsageCount (h : SameTables p q) (order : ValueOrder)
    (id : PredictorId) : SameTables (p.incrementUsageCount order id) q := by
  obtain ⟨h₁, h₂, h₃, h₄, h₅, h₆⟩ := h
  cases order <;> exact ⟨h₁, h₂, h₃, h₄, h₅, h₆.fcm, h₆.history⟩

/-- Every prediction is found by the decoder under the same id, also those on strides. -/
theorem SameTables.sound (h : SameTables p q) (value : BitVec w) :
    (p.predictValue value).1.Sound fun id => id < 10 ∧ q.getValue id = value := by
  have hstride : p.stride value + q.last4ValuePredictor.getMostRecentValue = value := by
    rw [h.stride, ValuePredictor.stride, BitVec.sub_add_cancel]
  simp only [ValuePredictor.predictValue]
  refine predictValue_sound ?_ ?firstFcm
  refine KeyedLastNValuePredictor.predictValue_sound ?_ ?last4Value
  refine predictValue_sound ?_ ?thirdDfcm
  refine predictValue_sound (PredictionContext.sound_new _) ?firstDfcm
  case firstDfcm =>
    intro i hi
    have hlt : (i : ℕ) + 0 < 2 := i.isLt
    refine ⟨Nat.lt_trans hlt (by decide), ?_⟩
    rw [ValuePredictor.getValue, if_pos hlt, ← h.firstDfcm.getValue, ← h.sharedHistory, hi, hstride]
  case thirdDfcm =>
    intro i hi
    have hlt : (i : ℕ) + 2 < 4 := Nat.add_lt_add_right i.isLt 2
    have hge : ¬ (i : ℕ) + 2 < 2 := Nat.not_lt.mpr (Nat.le_add_left 2 i)
    refine ⟨Nat.lt_trans hlt (by decide), ?_⟩
    rw [ValuePredictor.getValue, if_neg hge, if_pos hlt, ← h.thirdDfcm.getValue,
      ← h.sharedHistory, hi, hstride]
  case last4Value =>
    intro i hi
    have hlt : (i : ℕ) + 4 < 8 := Nat.add_lt_add_right i.isLt 4
    have hge : 4 ≤ (i : ℕ) + 4 := Nat.le_add_left 4 i
    refine ⟨Nat.lt_trans hlt (by decide), ?_⟩
    rw [ValuePredictor.getValue, if_neg (Nat.not_lt.mpr (Nat.le_trans (by decide) hge)),
      if_neg (Nat.not_lt.mpr hge), if_pos hlt, ← h.last4Value.getValue]
    exact hi
  case firstFcm =>
    intro i hi
    have hge : 8 ≤ (i : ℕ) + 8 := Nat.le_add_left 8 i
    refine ⟨Nat.add_lt_add_right i.isLt 8, ?_⟩
    rw [ValuePredictor.getValue, if_neg (Nat.not_lt.mpr (Nat.le_trans (by decide) hge)),
      if_neg (Nat.not_lt.mpr (Nat.le_trans (by decide) hge)), if_neg (Nat.not_lt.mpr hge),
      ← h.firstFcm.getValue, ← h.privateHistory, hi]

theorem extends_encodeValue (h : encodeValue e value key = some e') : e.Extends e' := by
  rw [encodeValue] at h
  obtain ⟨h₁, h₂, h₃, h₄⟩ := Channel.extends_evaluateContext h
  exact ⟨h₁, h₂, h₃, h₄⟩

theorem encodeValue_of_room {n : ℕ} (hr : e.Room w (n + 1)) (value key : BitVec w) :
    ∃ e', encodeValue e value key = some e' ∧ e'.Room w n := by
  unfold encodeValue
  exact Channel.evaluateContext_of_room ⟨hr.codeBuffer, hr.dataBuffer⟩

theorem decodeValue_of_room {n : ℕ} (hr : d.Room w (n + 1)) (key : BitVec w) :
    ∃ r, decodeValue d key = some r ∧ r.2.Room w n := by
  obtain ⟨r, c, hread, hroom⟩ : ∃ r c, d.readValue 10 (d.predictor.setKey key).getValue =
      some (r, c) ∧ c.Room w n := Channel.readValue_of_room _ hr
  obtain ⟨x, p, hd⟩ : ∃ x p, decodeValue d key = some (x, { c with predictor := p }) :=
    ⟨_, _, by simp only [decodeValue, hread]; rfl⟩
  exact ⟨_, hd, hroom.codeBuffer, hroom.dataBuffer⟩

theorem decodeValue_of_encodeValue {codes data : List UInt8} (hw : 8 ∣ w)
    (h : encodeValue e value key = some e') (hf : Channel.Follows SameTables codes data e d)
    (hwr : e'.WrittenTo codes data) :
    ∃ d', decodeValue d key = some (value, d') ∧ Channel.Follows SameTables codes data e' d' := by
  rw [encodeValue] at h
  have hk := hf.predictor.setKey key
  have hp := hk.predictValue value
  obtain ⟨d', r, hr, hv, hd, hf'⟩ := Channel.readValue_of_evaluateContext hw (by omega) h
    (hk.sound value) hf.codeBuffer hf.dataBuffer hwr
    (R := fun p q => SameTables p ((q.setKey key).update value))
    (fun o id => hp.incrementUsageCount o id) hp
  have hre : r.1 = value := by rcases hv with rfl | rfl <;> rfl
  refine ⟨{ d' with predictor := (d.predictor.setKey key).update value }, ?_, ?_⟩
  · simp [decodeValue, hr, hre]
  · exact ⟨hd ▸ hf'.predictor, hf'.codeBuffer, hf'.dataBuffer⟩

end ValuePredictor

end Simutrace.Vpc4
