import Simutrace.Buffer.Usage

/-! # Failed submissions

A submission that throws leaves the segment with its owner, who may submit it
again. The failure to drop an empty segment is the only one that is not undone.
-/

namespace Simutrace.Buffer

variable {n : ℕ}

def Locked (seg : Fin n) (b b' : ServerStreamBuffer n) : Prop :=
  b'.segments seg = b.segments seg ∧ b'.segmentSize = b.segmentSize

/-- What the encoder of a stream does with a segment and with the buffer. The result of `drop`
tells if it returned, and a `write` that throws has no result. -/
structure StreamEncoder (n : ℕ) where
  drop : ServerStreamBuffer n → Fin n → Bool × ServerStreamBuffer n
  write : ServerStreamBuffer n → Fin n → Option WriteResult × ServerStreamBuffer n
  drop_locked : ∀ b seg, Locked seg b (drop b seg).2
  write_locked : ∀ b seg, Locked seg b (write b seg).2

inductive SubmitResult
  | threw
  | returned (completed : Bool)
  deriving DecidableEq, Repr

namespace ServerStreamBuffer

variable (b : ServerStreamBuffer n) (seg : Fin n)

def finishDrop : Bool × ServerStreamBuffer n → Option (SubmitResult × ServerStreamBuffer n)
  | (true, b) => some (.returned true, b.purgeUnchecked seg)
  | (false, b) => some (.threw, b)

def finishWrite :
    Option WriteResult × ServerStreamBuffer n → Option (SubmitResult × ServerStreamBuffer n)
  | (some .located, b) => (b.freeUnchecked seg false).map fun b => (.returned true, b)
  | (some .discarded, b) => some (.returned true, b.purgeUnchecked seg)
  | (some .pending, b) => some (.returned false, b)
  | (none, b) => some (.threw, b.modify seg fun s => { s with isSubmitted := false })

/-- The rest of `_submitSegment` from the call of the encoder. -/
def finishSubmit (encoder : StreamEncoder n) :
    Submission × ServerStreamBuffer n → Option (SubmitResult × ServerStreamBuffer n)
  | (.rejected, b) => some (.threw, b)
  | (.completed, b) => some (.returned true, b)
  | (.dropping, b) => finishDrop seg (encoder.drop b seg)
  | (.writing, b) => finishWrite seg (encoder.write b seg)

def submitSegment (encoder : StreamEncoder n) (client : ClientSegment) :
    Option (SubmitResult × ServerStreamBuffer n) :=
  if b.Submittable seg then (b.submitUnchecked seg client).bind (finishSubmit seg encoder)
  else some (.threw, b)

/-- The control element that users of a segment get; `shared` is the one next to the data. -/
def getControlElement (shared : SegmentControlElement) : SegmentControlElement :=
  if (b.segments seg).isSubmitted ∨ (b.segments seg).flags.readOnly then (b.segments seg).control
  else shared

def handed (client : ClientSegment) : Option (Submission × Segment n) :=
  (b.submitUnchecked seg client).map fun r => (r.1, r.2.segments seg)

end ServerStreamBuffer

/-- A segment is as it was, so that the next submission hands over what this one would have. -/
structure Retryable (seg : Fin n) (b b' : ServerStreamBuffer n) : Prop where
  segment : b'.segments seg = { b.segments seg with control := (b'.segments seg).control }
  shared : ∀ shared, b'.getControlElement seg shared = b.getControlElement seg shared
  handed : ∀ client, b'.handed seg client = b.handed seg client
  returns : ∃ encoder client b'', b'.submitSegment seg encoder client = some (.returned true, b'')

namespace ServerStreamBuffer

variable {b b' : ServerStreamBuffer n} {seg : Fin n} {stream : ServerStream}
  {client : ClientSegment} {encoder : StreamEncoder n} {control : SegmentControlElement}

/-- The segment has another private control element, which a submission replaces. -/
def Recontrolled (seg : Fin n) (b b' : ServerStreamBuffer n) : Prop :=
  (∃ control, b'.segments seg = { b.segments seg with control := control }) ∧
    b'.segmentSize = b.segmentSize

theorem entriesValid_congr (h : b'.segmentSize = b.segmentSize) :
    b'.entriesValid stream control = b.entriesValid stream control := by
  unfold entriesValid
  rw [h]

theorem handed_writable (hs : (b.segments seg).stream = some stream)
    (hw : (b.segments seg).flags.readOnly = false) : b.handed seg client =
      let copied := b.copyControl stream seg client
      let control := fixEntryCount stream copied
      if client.cookieValid = false then some (.rejected, { b.segments seg with control := copied })
      else if copied.rawEntryCount = 0 then
        some (.dropping, { b.segments seg with control := copied, isSubmitted := true })
      else if b.entriesValid stream control && cyclesValid stream client then
        some (.writing, { b.segments seg with control := control, isSubmitted := true })
      else some (.rejected, { b.segments seg with control := control, isSubmitted := false }) := by
  unfold handed submitUnchecked
  rw [hs, Option.bind_some, hw, if_neg Bool.false_ne_true]
  dsimp only
  split_ifs <;> simp only [Option.map_some, segments_modify_self]

/-- An encoder that takes everything. -/
def acceptingEncoder (n : ℕ) : StreamEncoder n where
  drop b _ := (true, b)
  write b _ := (some .pending, b)
  drop_locked _ _ := ⟨rfl, rfl⟩
  write_locked _ _ := ⟨rfl, rfl⟩

theorem submitUnchecked_empty (hs : (b.segments seg).stream = some stream)
    (hw : (b.segments seg).flags.readOnly = false) (hc : client.cookieValid = true)
    (he : client.rawEntryCount = 0) :
    b.submitUnchecked seg client = some (.dropping, b.modify seg fun s =>
      { s with control := b.copyControl stream seg client, isSubmitted := true }) := by
  have hcopied : (b.copyControl stream seg client).rawEntryCount = 0 := he
  unfold submitUnchecked
  rw [hs, Option.bind_some, hw, if_neg Bool.false_ne_true]
  dsimp only
  rw [hc, if_neg (fun h => by cases h), if_pos hcopied]

theorem exists_returned (hb : b.Submittable seg) (hw : (b.segments seg).flags.readOnly = false) :
    ∃ encoder client b', b.submitSegment seg encoder client = some (.returned true, b') := by
  obtain ⟨stream, hs⟩ := Option.isSome_iff_exists.mp hb.1
  refine ⟨acceptingEncoder n, ⟨0, 0, true, 0, 0⟩, ?_⟩
  unfold submitSegment
  rw [if_pos hb, submitUnchecked_empty hs hw rfl rfl]
  exact ⟨_, rfl⟩

theorem Recontrolled.submittable (h : Recontrolled seg b b') (hb : b.Submittable seg) :
    b'.Submittable seg := by
  obtain ⟨⟨control, hseg⟩, -⟩ := h
  unfold Submittable next
  rw [hseg]
  exact hb

theorem Recontrolled.retryable (h : Recontrolled seg b b') (hb : b.Submittable seg)
    (hw : (b.segments seg).flags.readOnly = false) : Retryable seg b b' := by
  have hb' := h.submittable hb
  obtain ⟨⟨control, hseg⟩, hsize⟩ := h
  obtain ⟨stream, hs⟩ := Option.isSome_iff_exists.mp hb.1
  have hs' : (b'.segments seg).stream = some stream := by rw [hseg, hs]
  have hw' : (b'.segments seg).flags.readOnly = false := by rw [hseg, hw]
  constructor
  · rw [hseg]
  · intro shared
    unfold getControlElement
    rw [hw, hw', hb.2.2.2, hb'.2.2.2]
    simp
  · intro client
    rw [handed_writable hs hw, handed_writable hs' hw']
    unfold copyControl
    simp only [hseg, entriesValid_congr hsize]
  · exact exists_returned hb' hw'

theorem not_retryable (hs : (b'.segments seg).isSubmitted = true) : ¬ Retryable seg b b' := by
  intro h
  obtain ⟨encoder, client, b'', hreturned⟩ := h.returns
  unfold submitSegment at hreturned
  rw [if_neg (fun hb => by cases hs.symm.trans hb.2.2.2)] at hreturned
  cases hreturned

theorem recontrolled_of_rejected (control : SegmentControlElement) {f : Segment n → Segment n}
    (hf : f (b.segments seg) = { b.segments seg with control := control })
    (h : some (SubmitResult.threw, b.modify seg f) = some (.threw, b')) :
    Recontrolled seg b b' := by
  have hb : b.modify seg f = b' := congrArg Prod.snd (Option.some.inj h)
  rw [← hb]
  exact ⟨⟨control, segments_modify_self.trans hf⟩, rfl⟩

theorem isSubmitted_of_drop {r : Bool × ServerStreamBuffer n}
    (hs : (r.2.segments seg).isSubmitted = true) (h : finishDrop seg r = some (.threw, b')) :
    (b'.segments seg).isSubmitted = true := by
  obtain ⟨returned, b₂⟩ := r
  cases returned with
  | true => cases h
  | false =>
    obtain rfl := congrArg Prod.snd (Option.some.inj h)
    exact hs

theorem recontrolled_of_write {r : Option WriteResult × ServerStreamBuffer n}
    (hb : (b.segments seg).isSubmitted = false)
    (hr : Locked seg (b.modify seg fun s => { s with control := control, isSubmitted := true }) r.2)
    (h : finishWrite seg r = some (.threw, b')) : Recontrolled seg b b' := by
  obtain ⟨result, b₂⟩ := r
  cases result with
  | some result =>
    cases result with
    | located =>
      obtain ⟨b₃, -, hb₃⟩ := Option.map_eq_some_iff.mp h
      cases hb₃
    | discarded => cases h
    | pending => cases h
  | none =>
    obtain rfl := congrArg Prod.snd (Option.some.inj h)
    refine ⟨⟨control, ?_⟩, hr.2⟩
    rw [segments_modify_self, hr.1, segments_modify_self, ← hb]

/-- If a submission throws, the segment can be submitted again unless it is an empty one. -/
theorem retryable_iff (hb : b.Submittable seg) (hw : (b.segments seg).flags.readOnly = false)
    (h : b.submitSegment seg encoder client = some (.threw, b')) :
    Retryable seg b b' ↔ client.cookieValid = false ∨ client.rawEntryCount ≠ 0 := by
  obtain ⟨stream, hs⟩ := Option.isSome_iff_exists.mp hb.1
  unfold submitSegment at h
  rw [if_pos hb] at h
  by_cases hempty : client.cookieValid = true ∧ client.rawEntryCount = 0
  · rw [submitUnchecked_empty hs hw hempty.1 hempty.2, Option.bind_some] at h
    refine iff_of_false (not_retryable (isSubmitted_of_drop ?_ h)) ?_
    · rw [(encoder.drop_locked _ seg).1, segments_modify_self]
    · rintro (hc | he)
      · cases hempty.1.symm.trans hc
      · exact he hempty.2
  · refine iff_of_true (Recontrolled.retryable ?_ hb hw) ?_
    · unfold submitUnchecked at h
      rw [hs, Option.bind_some, hw, if_neg Bool.false_ne_true] at h
      dsimp only at h
      split_ifs at h with hc he hv
      · exact recontrolled_of_rejected (b.copyControl stream seg client) rfl h
      · exact absurd ⟨Bool.eq_true_of_not_eq_false hc, he⟩ hempty
      · exact recontrolled_of_write hb.2.2.2 (encoder.write_locked _ seg) h
      · refine recontrolled_of_rejected (fixEntryCount stream (b.copyControl stream seg client))
          ?_ h
        rw [← hb.2.2.2]
    · by_cases hc : client.cookieValid = false
      · exact .inl hc
      · exact .inr fun he => hempty ⟨Bool.eq_true_of_not_eq_false hc, he⟩

def requested : ServerStreamBuffer 1 :=
  match (initial 1 64 true).requestUnchecked (some ⟨0, 1, 16, false⟩) 0 ⟨false, false⟩ none with
  | some (_, b) => b
  | none => initial 1 64 true

/-- An encoder that throws whenever it is called. -/
def failingEncoder (n : ℕ) : StreamEncoder n where
  drop b _ := (false, b)
  write b _ := (none, b)
  drop_locked _ _ := ⟨rfl, rfl⟩
  write_locked _ _ := ⟨rfl, rfl⟩

theorem requested_submittable : requested.Submittable 0 := by decide

def attempted (rawEntryCount : BitVec 32) : ServerStreamBuffer 1 :=
  match requested.submitSegment 0 (failingEncoder 1) ⟨0, rawEntryCount, true, 0, 0⟩ with
  | some (_, b) => b
  | none => requested

theorem retryable_attempted : Retryable 0 requested (attempted 1) ↔
    true = false ∨ (1 : BitVec 32) ≠ 0 :=
  @retryable_iff 1 requested (attempted 1) 0 ⟨0, 1, true, 0, 0⟩ (failingEncoder 1)
    requested_submittable rfl rfl

theorem not_retryable_attempted : ¬ ∀ (n : ℕ) (b b' : ServerStreamBuffer n) (seg : Fin n)
    (encoder : StreamEncoder n) (client : ClientSegment), b.Submittable seg →
      (b.segments seg).flags.readOnly = false →
        b.submitSegment seg encoder client = some (.threw, b') → Retryable seg b b' :=
  fun hall => not_retryable rfl
    (hall 1 requested (attempted 0) 0 (failingEncoder 1) ⟨0, 0, true, 0, 0⟩
      requested_submittable rfl rfl)

end ServerStreamBuffer

end Simutrace.Buffer
