import Simutrace.Multiplexer.HandleContext

/-! # The type of a multiplexer

A multiplexer has the type of its input streams if they share one, and otherwise
needs a type for indirect entries. The type of the first stream is remembered as
a pointer into the variable that every query is written to.
-/

namespace Simutrace

/-- The name is an array of bytes. -/
structure StreamTypeDescriptor where
  name : List UInt8
  id : BitVec 128
  flags : BitVec 32
  reserved₁ : BitVec 32
  entrySize : BitVec 32
  reserved₂ : BitVec 32
  deriving DecidableEq

namespace StreamTypeDescriptor

def stfTemporalOrder : BitVec 32 := 0x01

def temporalOrder (type : StreamTypeDescriptor) : Bool := type.flags &&& stfTemporalOrder ≠ 0

end StreamTypeDescriptor

inductive MultiplexerError
  | simutrace
  | notSupported
  | exception (message : String)
  deriving DecidableEq

structure DynamicStreamDescriptor where
  name : List UInt8
  type : StreamTypeDescriptor
  rule : MultiplexingRule
  indirect : Bool
  temporal : Bool
  deriving DecidableEq

namespace StreamMultiplexer

def maxStreamNameLength : ℕ := 256

/-- What the pointer `type` points to. -/
inductive TypePointer
  | null
  | query
  | multiplexerType (temporal : Bool)
  deriving DecidableEq

/-- The local variables of `_inferType`. The variable `query` has the same place in each iteration
of the loop. -/
structure TypeInference where
  type : TypePointer
  query : StreamTypeDescriptor
  sameType : Bool
  temporal : Bool

/-- A name in an array of bytes that is filled up with zeros. -/
def nameBytes (name : String) : List UInt8 :=
  let bytes := name.toUTF8.toList
  bytes ++ List.replicate (maxStreamNameLength - bytes.length) 0

/-- The types of indirect entries, with and without temporal order. -/
def multiplexerEntryTypes (temporal : Bool) : StreamTypeDescriptor :=
  if temporal then
    ⟨nameBytes "Multiplexer entry (temporal order)", 0x80c8c1bb32c94283b95fba37c62095cb,
      StreamTypeDescriptor.stfTemporalOrder, 0, 24, 0⟩
  else ⟨nameBytes "Multiplexer entry", 0xfa2583839ec84e0582399f260dda8ad2, 0, 0, 24, 0⟩

variable (streamQuery : ℕ → Option StreamTypeDescriptor)

/-- Read what `type` points to. -/
def TypeInference.read (s : TypeInference) : Option StreamTypeDescriptor :=
  match s.type with
  | .null => none
  | .query => some s.query
  | .multiplexerType temporal => some (multiplexerEntryTypes temporal)

/-- One iteration, after the query. -/
def TypeInference.visit (s : TypeInference) (i : ℕ) (descriptor : StreamTypeDescriptor) :
    TypeInference :=
  let s := { s with query := descriptor }
  let s :=
    if i = 0 then { s with type := .query }
    else if s.read ≠ some s.query then { s with sameType := false }
    else s
  if s.query.temporalOrder then s else { s with temporal := false }

def visitStreams (s : TypeInference) : ℕ → List ℕ → Except MultiplexerError TypeInference
  | _, [] => .ok s
  | i, id :: ids =>
    match streamQuery id with
    | none => .error .simutrace
    | some descriptor => visitStreams (s.visit i descriptor) (i + 1) ids

/-- A rule that is none of the known ones is not supported. -/
def getNextEntryHandler (rule : Option MultiplexingRule) (temporal : Bool) :
    Except MultiplexerError MultiplexingRule :=
  match rule with
  | some .mxrRoundRobin => .ok .mxrRoundRobin
  | some .mxrCycleCount =>
    if temporal then .ok .mxrCycleCount
    else .error (.exception
      "Cannot use cyclecount-based multiplexing for streams that are not temporally ordered.")
  | none => .error .notSupported

/-- `StMakeStreamDescriptorDynamicFromType` fails without a type and for a name that is too long. -/
def makeStreamDescriptor (name : List UInt8) (type : Option StreamTypeDescriptor)
    (rule : MultiplexingRule) (indirect temporal : Bool) :
    Except MultiplexerError DynamicStreamDescriptor :=
  match type with
  | none => .error .simutrace
  | some type =>
    let name := name.takeWhile (· ≠ 0)
    if maxStreamNameLength < name.length then .error .simutrace
    else .ok ⟨name, type, rule, indirect, temporal⟩

/-- The content of `query` before the loop is not defined. -/
def inferType (initial : StreamTypeDescriptor) (name : List UInt8)
    (rule : Option MultiplexingRule) (indirect : Bool) (inputStreams : List ℕ) :
    Except MultiplexerError DynamicStreamDescriptor := do
  let s ← visitStreams streamQuery ⟨.null, initial, true, true⟩ 0 inputStreams
  let handler ← getNextEntryHandler rule s.temporal
  if !s.sameType || indirect then
    if !indirect then
      .error (.exception ("The input streams posses different types. To build a multiplexer " ++
        "from this set of streams you must specify the MxfIndirect flag."))
    else
      let s := { s with type := .multiplexerType s.temporal }
      makeStreamDescriptor name (s.read) handler indirect s.temporal
  else makeStreamDescriptor name (s.read) handler indirect s.temporal

/-- The type of indirect entries is not needed only if all input streams have the same type. -/
def DetectsTypes (initial : StreamTypeDescriptor) (name : List UInt8)
    (rule : Option MultiplexingRule) (inputStreams : List ℕ) : Prop :=
  (inferType streamQuery initial name rule false inputStreams).isOk →
    ∀ i ∈ inputStreams, ∀ j ∈ inputStreams, streamQuery i = streamQuery j

variable {streamQuery} {s s' : TypeInference} {i : ℕ} {ids : List ℕ}
  {descriptor : StreamTypeDescriptor} {initial : StreamTypeDescriptor} {name : List UInt8}
  {rule : Option MultiplexingRule}

/-- As soon as `type` points to the variable, the variable is compared with itself. -/
theorem visit_eq (h : i = 0 ∨ s.type = .query) : s.visit i descriptor =
    ⟨.query, descriptor, s.sameType, s.temporal && descriptor.temporalOrder⟩ := by
  obtain ⟨type, query, sameType, temporal⟩ := s
  have hread (h : type = .query) : (⟨type, descriptor, sameType, temporal⟩ : TypeInference).read =
      some descriptor := by
    rw [h]
    rfl
  unfold TypeInference.visit
  dsimp only at h ⊢
  by_cases hi : i = 0
  · rw [if_pos hi]
    cases htemporal : descriptor.temporalOrder <;> simp
  · have htype := h.resolve_left hi
    rw [if_neg hi, hread htype, if_neg (not_not.mpr rfl)]
    cases htemporal : descriptor.temporalOrder <;> simp [htype]

def AllQueried (streamQuery : ℕ → Option StreamTypeDescriptor) (ids : List ℕ) : Prop :=
  ∀ id ∈ ids, streamQuery id ≠ none

def AllTemporal (streamQuery : ℕ → Option StreamTypeDescriptor) (ids : List ℕ) : Prop :=
  ∀ id ∈ ids, ∀ descriptor ∈ streamQuery id, descriptor.temporalOrder = true

theorem visitStreams_ok (h : AllQueried streamQuery ids) (first : i = 0 ∨ s.type = .query) :
    ∃ s', visitStreams streamQuery s i ids = .ok s' ∧
      s'.sameType = s.sameType ∧ (ids ≠ [] ∨ s.type = .query → s'.type = .query) ∧
      (s'.temporal = true ↔ s.temporal = true ∧ AllTemporal streamQuery ids) := by
  induction ids generalizing s i with
  | nil => exact ⟨s, rfl, rfl, fun h => h.resolve_left (not_not.mpr rfl), by simp [AllTemporal]⟩
  | cons id ids ih =>
    obtain ⟨descriptor, hquery⟩ :=
      Option.ne_none_iff_exists'.mp (h id List.mem_cons_self)
    have hrest : AllQueried streamQuery ids := fun id hid => h id (List.mem_cons_of_mem _ hid)
    rw [visitStreams, hquery]
    dsimp only
    rw [visit_eq first]
    obtain ⟨s', hs, hsame, htype, htemporal⟩ := ih
      (s := ⟨.query, descriptor, s.sameType, s.temporal && descriptor.temporalOrder⟩) (i := i + 1)
      hrest (.inr rfl)
    refine ⟨s', hs, hsame, fun _ => htype (.inr rfl), htemporal.trans ?_⟩
    simp only [AllTemporal, List.forall_mem_cons, hquery, Option.mem_some_iff, forall_eq',
      Bool.and_eq_true]
    exact and_assoc

theorem visitStreams_error (h : ¬ AllQueried streamQuery ids) :
    visitStreams streamQuery s i ids = .error .simutrace := by
  induction ids generalizing s i with
  | nil => exact absurd (fun id hid => absurd hid List.not_mem_nil) h
  | cons id ids ih =>
    rw [visitStreams]
    rcases hquery : streamQuery id with _ | descriptor
    · rfl
    · refine ih fun hrest => h (List.forall_mem_cons.mpr ⟨?_, hrest⟩)
      rw [hquery]
      exact Option.some_ne_none _

/-- The rule can be used with the streams. -/
def RuleFits (rule : Option MultiplexingRule) (temporal : Prop) : Prop :=
  rule = some .mxrRoundRobin ∨ rule = some .mxrCycleCount ∧ temporal

theorem getNextEntryHandler_isOk (rule : Option MultiplexingRule) (temporal : Bool) :
    (getNextEntryHandler rule temporal).isOk = true ↔ RuleFits rule (temporal = true) := by
  rcases rule with _ | _ | _ <;> cases temporal <;>
    simp [getNextEntryHandler, RuleFits, Except.isOk, Except.toBool]

/-- Without indirect entries, the inference succeeds whatever types the streams have. -/
theorem inferType_isOk (ids_ne : ids ≠ []) :
    (inferType streamQuery initial name rule false ids).isOk = true ↔
      AllQueried streamQuery ids ∧ RuleFits rule (AllTemporal streamQuery ids) ∧
        (name.takeWhile (· ≠ 0)).length ≤ maxStreamNameLength := by
  unfold inferType
  by_cases hall : AllQueried streamQuery ids
  · obtain ⟨s, hs, hsame, htype, htemporal⟩ := visitStreams_ok
      (s := ⟨.null, initial, true, true⟩) hall
      (.inl rfl)
    have hrule := getNextEntryHandler_isOk rule s.temporal
    have hread : s.read = some s.query := by
      rw [TypeInference.read, htype (.inl ids_ne)]
    have hordered : RuleFits rule (AllTemporal streamQuery ids) ↔
        (getNextEntryHandler rule s.temporal).isOk = true := by
      rw [hrule, htemporal, eq_self, true_and]
    rw [hs, hordered, and_iff_right hall]
    rcases hhandler : getNextEntryHandler rule s.temporal with e | handler
    · simp [hhandler, bind, Except.bind, Except.isOk, Except.toBool]
    · simp only [hhandler, bind, Except.bind, hsame, Bool.not_true, Bool.or_false, hread,
        Bool.false_eq_true, if_false, makeStreamDescriptor]
      split_ifs with hname
      · exact iff_of_false Bool.false_ne_true fun h => absurd h.2 (not_le.mpr hname)
      · exact iff_of_true rfl ⟨rfl, not_lt.mp hname⟩
  · rw [visitStreams_error hall]
    exact iff_of_false Bool.false_ne_true fun h => hall h.1

/-- Different types are detected only if they are not the reason: all types are the same, or the
inference fails for another one. -/
theorem detectsTypes_iff :
    DetectsTypes streamQuery initial name rule ids ↔
      (∀ i ∈ ids, ∀ j ∈ ids, streamQuery i = streamQuery j) ∨ ¬ AllQueried streamQuery ids ∨
        ¬ RuleFits rule (AllTemporal streamQuery ids) ∨
        maxStreamNameLength < (name.takeWhile (· ≠ 0)).length := by
  unfold DetectsTypes
  by_cases hids : ids = []
  · subst hids
    simp
  · rw [inferType_isOk hids]
    have hlen := not_le (a := (name.takeWhile (· ≠ 0)).length) (b := maxStreamNameLength)
    tauto

def twoTypes (id : ℕ) : Option StreamTypeDescriptor :=
  some ⟨[], .ofNat 128 id, 0, 0, .ofNat 32 (16 + 8 * id), 0⟩

theorem not_detectsTypes_twoTypes : ¬ ∀ (initial : StreamTypeDescriptor) (name : List UInt8)
    (rule : Option MultiplexingRule) (ids : List ℕ), 2 ≤ ids.length →
      DetectsTypes twoTypes initial name rule ids := by
  intro hall
  have heq := hall ⟨[], 0, 0, 0, 0, 0⟩ [] (some .mxrRoundRobin) [0, 1] le_rfl rfl 0
    List.mem_cons_self 1 (List.mem_cons_of_mem _ List.mem_cons_self)
  exact absurd heq (by decide)

end StreamMultiplexer

end Simutrace
