import Simutrace.Buffer.Ownership

/-! # Using a buffer

The users of a buffer call its operations in any order. A call that has handed
its segment to the encoder holds the lock of the segment until the encoder
returns or throws. Other calls, also those of the encoder, may come in between.
-/

namespace Simutrace.Buffer

variable {n : ℕ}

inductive EncoderCall | read | drop | write
  deriving DecidableEq, Repr

/-- The calls that a buffer sees, and what its encoders do. -/
inductive Call (n : ℕ)
  | requestSegment (stream : ServerStream) (sequenceNumber : StreamSegmentId)
  | requestScratchSegment
  | openSegment (stream : ServerStream) (flags : StreamAccessFlags) (location : StorageLocation)
  | readReturned (seg : Fin n)
  | readThrew (seg : Fin n)
  | freeSegment (segment : ℕ) (prefetch : Bool)
  | purgeSegment (segment : ℕ)
  | submitSegment (segment : ℕ) (client : ClientSegment)
  | dropReturned (seg : Fin n)
  | dropThrew (seg : Fin n)
  | writeReturned (seg : Fin n) (result : WriteResult)
  | writeThrew (seg : Fin n)
  | flushStandbyList (store : StoreId)
  deriving DecidableEq, Repr

namespace ServerStreamBuffer

variable (b : ServerStreamBuffer n) (seg : Fin n)

/-- Free and cached segments must not be freed, and neither must written ones that were not
submitted. -/
def Freeable : Prop :=
  (b.segments seg).flags.inUse ∧ b.next seg = none ∧
    ((b.segments seg).flags.readOnly ∨ (b.segments seg).isSubmitted)

def Purgeable : Prop := (b.segments seg).flags.inUse ∧ b.next seg = none

def Submittable : Prop :=
  (b.segments seg).stream.isSome ∧ (b.segments seg).flags.inUse ∧ b.next seg = none ∧
    (b.segments seg).isSubmitted = false

instance : Decidable (b.Freeable seg) := inferInstanceAs (Decidable (_ ∧ _ ∧ _))

instance : Decidable (b.Purgeable seg) := inferInstanceAs (Decidable (_ ∧ _))

instance : Decidable (b.Submittable seg) := inferInstanceAs (Decidable (_ ∧ _ ∧ _ ∧ _))

end ServerStreamBuffer

/-- A buffer with the segments that it has handed out, and the calls that wait for an encoder. -/
structure Usage (n : ℕ) where
  buffer : ServerStreamBuffer n
  owned : List (Fin n)
  encoding : Fin n → Option EncoderCall

namespace Usage

def initial (n segmentSize : ℕ) (enableCache : Bool) : Usage n :=
  ⟨.initial n segmentSize enableCache, [], fun _ => none⟩

variable (u : Usage n)

def setCall (seg : Fin n) (call : Option EncoderCall) : Usage n :=
  { u with encoding := Function.update u.encoding seg call }

/-- A segment goes back to the buffer. -/
def release (seg : Fin n) (b : ServerStreamBuffer n) : Usage n :=
  ⟨b, u.owned.erase seg, Function.update u.encoding seg none⟩

/-- A request ends with the segment that was found. -/
def request : Request n × ServerStreamBuffer n → Usage n
  | (.exhausted, b) => { u with buffer := b }
  | (.served seg, b) | (.allocated seg, b) => { u with buffer := b, owned := seg :: u.owned }

/-- A segment that was allocated to load data is handed to the encoder. -/
def load : Request n × ServerStreamBuffer n → Usage n
  | (.allocated seg, b) => (u.request (.allocated seg, b)).setCall seg (some .read)
  | r => u.request r

def submit (seg : Fin n) : Submission × ServerStreamBuffer n → Usage n
  | (.completed, b) => u.release seg b
  | (.rejected, b) => { u with buffer := b }
  | (.dropping, b) => { u with buffer := b }.setCall seg (some .drop)
  | (.writing, b) => { u with buffer := b }.setCall seg (some .write)

/-- Call an operation on an existing segment that is not locked. -/
def lock (segment : ℕ) (operation : Fin n → Option (Usage n)) : Option (Usage n) :=
  if h : segment < n then
    if u.encoding ⟨segment, h⟩ = none then operation ⟨segment, h⟩ else some u
  else some u

def resume (seg : Fin n) (call : EncoderCall) (rest : Option (Usage n)) : Option (Usage n) :=
  if u.encoding seg = some call then rest else some u

/-- Execute a call. Calls that throw and calls that have to wait leave everything as it is. -/
def step : Call n → Option (Usage n)
  | .requestSegment stream sequenceNumber =>
    if sequenceNumber = invalidStreamSegmentId then some u
    else (u.buffer.requestUnchecked (some stream) sequenceNumber ⟨false, false⟩ none).map u.request
  | .requestScratchSegment =>
    (u.buffer.requestUnchecked none invalidStreamSegmentId ⟨false, false⟩ none).map u.request
  | .openSegment stream flags location =>
    (u.buffer.requestUnchecked (some stream) location.sequenceNumber flags (some location)).map
      u.load
  | .readReturned seg => u.resume seg .read (some (u.setCall seg none))
  | .readThrew seg => u.resume seg .read (some (u.release seg (u.buffer.purgeUnchecked seg)))
  | .freeSegment segment prefetch => u.lock segment fun seg =>
    if u.buffer.Freeable seg then (u.buffer.freeUnchecked seg prefetch).map (u.release seg)
    else some u
  | .purgeSegment segment => u.lock segment fun seg =>
    if u.buffer.Purgeable seg then some (u.release seg (u.buffer.purgeUnchecked seg)) else some u
  | .submitSegment segment client => u.lock segment fun seg =>
    if u.buffer.Submittable seg then (u.buffer.submitUnchecked seg client).map (u.submit seg)
    else some u
  | .dropReturned seg => u.resume seg .drop (some (u.release seg (u.buffer.purgeUnchecked seg)))
  | .dropThrew seg => u.resume seg .drop (some (u.setCall seg none))
  | .writeReturned seg .located =>
    u.resume seg .write ((u.buffer.freeUnchecked seg false).map (u.release seg))
  | .writeReturned seg .discarded =>
    u.resume seg .write (some (u.release seg (u.buffer.purgeUnchecked seg)))
  | .writeReturned seg .pending => u.resume seg .write (some (u.setCall seg none))
  | .writeThrew seg =>
    let buffer := u.buffer.modify seg fun s => { s with isSubmitted := false }
    u.resume seg .write (some ({ u with buffer := buffer }.setCall seg none))
  | .flushStandbyList store => (u.buffer.flushStandbyList store).map fun b => { u with buffer := b }

/-- Execute calls one after the other. -/
def run (calls : List (Call n)) : Option (Usage n) := calls.foldlM step u

/-- The segments are accounted for, and the encoder works on owned ones only. -/
structure Inv (u : Usage n) : Prop where
  parts : ∃ free standby, Parts u.buffer free standby u.owned
  held : ∀ seg, u.encoding seg ≠ none → seg ∈ u.owned

variable {u : Usage n} {seg : Fin n}

theorem Inv.owned (h : Inv u) (hs : seg ∈ u.owned) :
    ∃ free standby, Parts u.buffer free standby (seg :: u.owned.erase seg) := by
  obtain ⟨free, standby, hp⟩ := h.parts
  exact ⟨free, standby, hp.erase hs⟩

theorem Inv.mem_owned (h : Inv u) (hs : u.buffer.Purgeable seg) : seg ∈ u.owned := by
  obtain ⟨free, standby, hp⟩ := h.parts
  have hmem := hp.parts.mem_iff.mpr (List.mem_finRange seg)
  rcases List.mem_append.mp hmem with hmem | hmem
  · rcases List.mem_append.mp hmem with hmem | hmem
    · have hused := hs.1
      rw [(hp.isFree seg hmem).flags] at hused
      cases hused
    · obtain ⟨front, back, rfl⟩ := List.append_of_mem hmem
      have hnext := hp.ring.next_eq.symm.trans hs.2
      simp at hnext
  · exact hmem

theorem Inv.setCall (h : Inv u) {call : Option EncoderCall} (hc : call ≠ none → seg ∈ u.owned) :
    Inv (u.setCall seg call) := by
  refine ⟨h.parts, fun x hx => ?_⟩
  by_cases he : x = seg
  · subst he
    exact hc fun hn => hx (by rw [Usage.setCall, hn]; exact Function.update_self ..)
  · exact h.held x fun hn => hx ((Function.update_of_ne he ..).trans hn)

theorem Inv.release (h : Inv u) {b : ServerStreamBuffer n}
    (hp : ∃ free standby, Parts b free standby (u.owned.erase seg)) : Inv (u.release seg b) := by
  refine ⟨hp, fun x hx => ?_⟩
  by_cases he : x = seg
  · subst he
    exact absurd (Function.update_self ..) hx
  · exact (List.mem_erase_of_ne he).mpr
      (h.held x fun hn => hx ((Function.update_of_ne he ..).trans hn))

theorem Inv.purge (h : Inv u) (hs : seg ∈ u.owned) :
    Inv (u.release seg (u.buffer.purgeUnchecked seg)) := by
  obtain ⟨free, standby, hp⟩ := h.owned hs
  exact h.release ⟨_, _, hp.purgeUnchecked⟩

theorem Inv.free (h : Inv u) (hs : seg ∈ u.owned) (prefetch : Bool) :
    ∃ u', (u.buffer.freeUnchecked seg prefetch).map (u.release seg) = some u' ∧ Inv u' := by
  obtain ⟨free, standby, hp⟩ := h.owned hs
  obtain ⟨b, free', standby', hb, hp⟩ := hp.freeUnchecked prefetch
  rw [hb]
  exact ⟨_, rfl, h.release ⟨free', standby', hp⟩⟩

theorem Inv.request (h : Inv u) {r : Request n × ServerStreamBuffer n}
    (hr : Parts.Requested u.owned r) : Inv (u.request r) := by
  obtain ⟨r, b⟩ := r
  cases r with
  | exhausted => exact ⟨hr, h.held⟩
  | served seg => exact ⟨hr, fun x hx => List.mem_cons_of_mem _ (h.held x hx)⟩
  | allocated seg => exact ⟨hr, fun x hx => List.mem_cons_of_mem _ (h.held x hx)⟩

theorem Inv.load (h : Inv u) {r : Request n × ServerStreamBuffer n}
    (hr : Parts.Requested u.owned r) : Inv (u.load r) := by
  have hrequest := h.request hr
  obtain ⟨r, b⟩ := r
  cases r with
  | exhausted => exact hrequest
  | served seg => exact hrequest
  | allocated seg => exact hrequest.setCall fun _ => List.mem_cons_self

theorem Inv.submit (h : Inv u) (hs : seg ∈ u.owned) {r : Submission × ServerStreamBuffer n}
    (hr : Parts.Submitted seg (u.owned.erase seg) r) : Inv (u.submit seg r) := by
  obtain ⟨r, b⟩ := r
  have hparts : (∃ free standby, Parts b free standby (seg :: u.owned.erase seg)) →
      Inv { u with buffer := b } := by
    rintro ⟨free, standby, hp⟩
    exact ⟨⟨free, standby, hp.toArranged.perm (List.perm_cons_erase hs).symm, fun x hx =>
      hp.isOwned x ((List.perm_cons_erase hs).mem_iff.mp hx)⟩, h.held⟩
  cases r with
  | rejected => exact hparts hr
  | completed => exact h.release hr
  | dropping => exact (hparts hr).setCall fun _ => hs
  | writing => exact (hparts hr).setCall fun _ => hs

theorem Inv.lock (h : Inv u) {segment : ℕ} {operation : Fin n → Option (Usage n)}
    (ho : ∀ seg, ∃ u', operation seg = some u' ∧ Inv u') :
    ∃ u', u.lock segment operation = some u' ∧ Inv u' := by
  rw [Usage.lock]
  split
  · split
    · exact ho _
    · exact ⟨u, rfl, h⟩
  · exact ⟨u, rfl, h⟩

theorem Inv.resume (h : Inv u) {call : EncoderCall} {rest : Option (Usage n)}
    (hr : seg ∈ u.owned → ∃ u', rest = some u' ∧ Inv u') :
    ∃ u', u.resume seg call rest = some u' ∧ Inv u' := by
  rw [Usage.resume]
  split
  · rename_i he
    exact hr (h.held seg (by rw [he]; exact Option.some_ne_none call))
  · exact ⟨u, rfl, h⟩

theorem Inv.requestUnchecked (h : Inv u) (stream : Option ServerStream)
    (sequenceNumber : StreamSegmentId) :
    ∃ u', (u.buffer.requestUnchecked stream sequenceNumber ⟨false, false⟩ none).map u.request =
      some u' ∧ Inv u' := by
  obtain ⟨free, standby, hp⟩ := h.parts
  obtain ⟨r, hr, hq⟩ := hp.requestUnchecked stream sequenceNumber ⟨false, false⟩ none nofun
  rw [hr]
  exact ⟨_, rfl, h.request hq⟩

theorem Inv.openSegment (h : Inv u) (stream : ServerStream) (flags : StreamAccessFlags)
    (location : StorageLocation) :
    ∃ u', u.step (.openSegment stream flags location) = some u' ∧ Inv u' := by
  obtain ⟨free, standby, hp⟩ := h.parts
  obtain ⟨r, hr, hq⟩ := hp.requestUnchecked (some stream) location.sequenceNumber flags
    (some location) fun _ => rfl
  rw [Usage.step, hr]
  exact ⟨_, rfl, h.load hq⟩

theorem Inv.freeSegment (h : Inv u) (segment : ℕ) (prefetch : Bool) :
    ∃ u', u.step (.freeSegment segment prefetch) = some u' ∧ Inv u' := by
  rw [Usage.step]
  refine h.lock fun seg => ?_
  split
  · rename_i hf
    exact h.free (h.mem_owned ⟨hf.1, hf.2.1⟩) prefetch
  · exact ⟨u, rfl, h⟩

theorem Inv.purgeSegment (h : Inv u) (segment : ℕ) :
    ∃ u', u.step (.purgeSegment segment) = some u' ∧ Inv u' := by
  rw [Usage.step]
  refine h.lock fun seg => ?_
  split
  · rename_i hf
    exact ⟨_, rfl, h.purge (h.mem_owned hf)⟩
  · exact ⟨u, rfl, h⟩

theorem Inv.submitSegment (h : Inv u) (segment : ℕ) (client : ClientSegment) :
    ∃ u', u.step (.submitSegment segment client) = some u' ∧ Inv u' := by
  obtain ⟨free, standby, hp⟩ := h.parts
  rw [Usage.step]
  refine h.lock fun seg => ?_
  split
  · rename_i hf
    have hs := h.mem_owned ⟨hf.2.1, hf.2.2.1⟩
    obtain ⟨r, hr, hq⟩ := (hp.erase hs).submitUnchecked client hf.1
    rw [hr]
    exact ⟨_, rfl, h.submit hs hq⟩
  · exact ⟨u, rfl, h⟩

theorem Inv.writeThrew (h : Inv u) (seg : Fin n) :
    ∃ u', u.step (.writeThrew seg) = some u' ∧ Inv u' := by
  obtain ⟨free, standby, hp⟩ := h.parts
  refine h.resume fun hs => ⟨_, rfl, ?_⟩
  have hq := hp.erase hs
  have ho := hq.isOwned seg List.mem_cons_self
  have hmodify := hq.modify (f := fun s => { s with isSubmitted := false })
    ⟨ho.inUse, ho.next, ho.prev, ho.cacheable, ho.named⟩
  exact (h.submit hs (r := (.rejected, _)) ⟨free, standby, hmodify⟩).setCall
    fun hn => absurd rfl hn

/-- Every call comes to an end and keeps the invariant. -/
theorem Inv.step (h : Inv u) (call : Call n) : ∃ u', u.step call = some u' ∧ Inv u' := by
  cases call with
  | requestSegment stream sequenceNumber =>
    rw [Usage.step]
    split
    · exact ⟨u, rfl, h⟩
    · exact h.requestUnchecked (some stream) sequenceNumber
  | requestScratchSegment => exact h.requestUnchecked none invalidStreamSegmentId
  | openSegment stream flags location => exact h.openSegment stream flags location
  | readReturned seg => exact h.resume fun _ => ⟨_, rfl, h.setCall fun hn => absurd rfl hn⟩
  | readThrew seg => exact h.resume fun hs => ⟨_, rfl, h.purge hs⟩
  | freeSegment segment prefetch => exact h.freeSegment segment prefetch
  | purgeSegment segment => exact h.purgeSegment segment
  | submitSegment segment client => exact h.submitSegment segment client
  | dropReturned seg => exact h.resume fun hs => ⟨_, rfl, h.purge hs⟩
  | dropThrew seg => exact h.resume fun _ => ⟨_, rfl, h.setCall fun hn => absurd rfl hn⟩
  | writeReturned seg result =>
    cases result with
    | located => exact h.resume fun hs => h.free hs false
    | discarded => exact h.resume fun hs => ⟨_, rfl, h.purge hs⟩
    | pending => exact h.resume fun _ => ⟨_, rfl, h.setCall fun hn => absurd rfl hn⟩
  | writeThrew seg => exact h.writeThrew seg
  | flushStandbyList store =>
    obtain ⟨free, standby, hp⟩ := h.parts
    obtain ⟨b, free', standby', hb, hq⟩ := hp.flushStandbyList store
    rw [Usage.step, hb]
    exact ⟨_, rfl, ⟨free', standby', hq⟩, h.held⟩

theorem Inv.run (h : Inv u) (calls : List (Call n)) : ∃ u', u.run calls = some u' ∧ Inv u' := by
  induction calls generalizing u with
  | nil => exact ⟨u, rfl, h⟩
  | cons call calls ih =>
    obtain ⟨u₁, h₁, hinv⟩ := h.step call
    obtain ⟨u₂, h₂, hinv⟩ := ih hinv
    refine ⟨u₂, ?_, hinv⟩
    rw [Usage.run, List.foldlM_cons, h₁]
    exact h₂

theorem initial_chain (b : ServerStreamBuffer n) (hb : ∀ i : Fin n,
    b.next i = if h : i + 1 < n then some ⟨i + 1, h⟩ else none) (k : ℕ) :
    LinkedList.Chain b.next (if h : k < n then some ⟨k, h⟩ else none)
      ((List.finRange n).drop k) := by
  induction hm : n - k generalizing k with
  | zero =>
    have hk : n ≤ k := by omega
    rw [dif_neg (by omega), List.drop_eq_nil_of_le (by simpa using hk)]
    rfl
  | succ m ih =>
    have hk : k < n := by omega
    rw [dif_pos hk, List.drop_eq_getElem_cons (by simpa using hk), List.getElem_finRange]
    refine ⟨rfl, ?_⟩
    have hnext := ih (k + 1) (by omega)
    rwa [hb]

theorem initial_inv (n segmentSize : ℕ) (enableCache : Bool) :
    Inv (initial n segmentSize enableCache) := by
  refine ⟨⟨List.finRange n, [], ⟨⟨?_, ?_, ?_, ?_, ?_, ?_, ?_, ?_⟩, ?_⟩⟩, fun seg hs => ?_⟩
  · simp [initial]
  · have hchain := initial_chain (ServerStreamBuffer.initial n segmentSize enableCache)
      (fun _ => rfl) 0
    rwa [hchain.head?_eq, List.drop_zero] at hchain
  · exact LinkedList.Ring.nil_iff.mpr rfl
  · exact List.Perm.nil
  · intro e he
    cases he
  · exact List.nodup_nil
  · intro seg _
    exact ⟨rfl, rfl, rfl⟩
  · intro seg hs
    cases hs
  · intro seg hs
    cases hs
  · exact absurd rfl hs

/-- After any sequence of calls, also when encoders throw, every segment is on the free list, on
the standby list, or in use by one owner, and the standby list is a ring of exactly the segments
that the index holds under their own links. -/
theorem run_parts (n segmentSize : ℕ) (enableCache : Bool) (calls : List (Call n)) :
    ∃ u, (initial n segmentSize enableCache).run calls = some u ∧
      ∃ free standby, Parts u.buffer free standby u.owned := by
  obtain ⟨u, hu, hinv⟩ := (initial_inv n segmentSize enableCache).run calls
  exact ⟨u, hu, hinv.parts⟩

@[simp] theorem buffer_request (r : Request n × ServerStreamBuffer n) :
    (u.request r).buffer = r.2 := by
  obtain ⟨r, b⟩ := r
  cases r <;> rfl

@[simp] theorem buffer_load (r : Request n × ServerStreamBuffer n) : (u.load r).buffer = r.2 := by
  obtain ⟨r, b⟩ := r
  cases r <;> rfl

@[simp] theorem buffer_submit (r : Submission × ServerStreamBuffer n) :
    (u.submit seg r).buffer = r.2 := by
  obtain ⟨r, b⟩ := r
  cases r <;> rfl

/-- What a call does to the buffer. Only `freeSegment` marks a segment as prefetched. -/
inductive Changes (u : Usage n) : Call n → ServerStreamBuffer n → Prop
  | same {call : Call n} : Changes u call u.buffer
  | request {stream : ServerStream} {sequenceNumber : StreamSegmentId}
      {r : Request n × ServerStreamBuffer n}
      (h : u.buffer.requestUnchecked (some stream) sequenceNumber ⟨false, false⟩ none = some r) :
      Changes u (.requestSegment stream sequenceNumber) r.2
  | requestScratch {r : Request n × ServerStreamBuffer n}
      (h : u.buffer.requestUnchecked none invalidStreamSegmentId ⟨false, false⟩ none = some r) :
      Changes u .requestScratchSegment r.2
  | load {stream : ServerStream} {flags : StreamAccessFlags} {location : StorageLocation}
      {r : Request n × ServerStreamBuffer n}
      (h : u.buffer.requestUnchecked (some stream) location.sequenceNumber flags (some location) =
        some r) : Changes u (.openSegment stream flags location) r.2
  | purge {call : Call n} (seg : Fin n) : Changes u call (u.buffer.purgeUnchecked seg)
  | free {seg : Fin n} {prefetch : Bool} {b : ServerStreamBuffer n}
      (unlocked : u.encoding seg = none) (freeable : u.buffer.Freeable seg)
      (h : u.buffer.freeUnchecked seg prefetch = some b) :
      Changes u (.freeSegment seg prefetch) b
  | submit {seg : Fin n} {client : ClientSegment} {r : Submission × ServerStreamBuffer n}
      (h : u.buffer.submitUnchecked seg client = some r) : Changes u (.submitSegment seg client) r.2
  | written {seg : Fin n} {b : ServerStreamBuffer n}
      (h : u.buffer.freeUnchecked seg false = some b) : Changes u (.writeReturned seg .located) b
  | unsubmit (seg : Fin n) : Changes u (.writeThrew seg)
      (u.buffer.modify seg fun s => { s with isSubmitted := false })
  | flush {store : StoreId} {b : ServerStreamBuffer n}
      (h : u.buffer.flushStandbyList store = some b) : Changes u (.flushStandbyList store) b

theorem Changes.lock {segment : ℕ} {operation : Fin n → Option (Usage n)} {call : Call n}
    {u' : Usage n} (hu : u.lock segment operation = some u')
    (ho : ∀ seg : Fin n, segment = seg → u.encoding seg = none → operation seg = some u' →
      Changes u call u'.buffer) : Changes u call u'.buffer := by
  rw [Usage.lock] at hu
  split at hu
  · split at hu
    · exact ho _ rfl ‹_› hu
    · cases hu
      exact .same
  · cases hu
    exact .same

theorem Changes.resume {call : Call n} {encoderCall : EncoderCall} {rest : Option (Usage n)}
    {u' : Usage n} (hu : u.resume seg encoderCall rest = some u')
    (hr : rest = some u' → Changes u call u'.buffer) : Changes u call u'.buffer := by
  rw [Usage.resume] at hu
  split at hu
  · exact hr hu
  · cases hu
    exact .same

theorem Changes.resume_some {call : Call n} {encoderCall : EncoderCall} {u₁ u' : Usage n}
    (hu : u.resume seg encoderCall (some u₁) = some u') (h : Changes u call u₁.buffer) :
    Changes u call u'.buffer := by
  refine .resume hu ?_
  rintro ⟨⟩
  exact h

theorem Changes.of_request {stream : Option ServerStream} {sequenceNumber : StreamSegmentId}
    {call : Call n} {u' : Usage n}
    (hu : (u.buffer.requestUnchecked stream sequenceNumber ⟨false, false⟩ none).map u.request =
      some u')
    (h : ∀ r, u.buffer.requestUnchecked stream sequenceNumber ⟨false, false⟩ none = some r →
      Changes u call r.2) : Changes u call u'.buffer := by
  obtain ⟨r, hr, rfl⟩ := Option.map_eq_some_iff.mp hu
  rw [buffer_request]
  exact h r hr

theorem Changes.of_freeSegment {segment : ℕ} {prefetch : Bool} {u' : Usage n}
    (hu : u.step (.freeSegment segment prefetch) = some u') :
    Changes u (.freeSegment segment prefetch) u'.buffer := by
  rw [Usage.step] at hu
  refine .lock hu ?_
  rintro seg rfl hcall ho
  split at ho
  · rename_i hf
    obtain ⟨b, hb, rfl⟩ := Option.map_eq_some_iff.mp ho
    exact .free hcall hf hb
  · cases ho
    exact .same

theorem Changes.of_purgeSegment {segment : ℕ} {u' : Usage n}
    (hu : u.step (.purgeSegment segment) = some u') :
    Changes u (.purgeSegment segment) u'.buffer := by
  rw [Usage.step] at hu
  refine .lock hu fun seg _ _ ho => ?_
  split at ho
  · cases ho
    exact .purge seg
  · cases ho
    exact .same

theorem Changes.of_submitSegment {segment : ℕ} {client : ClientSegment} {u' : Usage n}
    (hu : u.step (.submitSegment segment client) = some u') :
    Changes u (.submitSegment segment client) u'.buffer := by
  rw [Usage.step] at hu
  refine .lock hu ?_
  rintro seg rfl hcall ho
  split at ho
  · obtain ⟨r, hr, rfl⟩ := Option.map_eq_some_iff.mp ho
    rw [buffer_submit]
    exact .submit hr
  · cases ho
    exact .same

theorem Changes.of_writeReturned {result : WriteResult} {u' : Usage n}
    (hu : u.step (.writeReturned seg result) = some u') :
    Changes u (.writeReturned seg result) u'.buffer := by
  cases result with
  | located =>
    refine .resume hu fun hr => ?_
    obtain ⟨b, hb, rfl⟩ := Option.map_eq_some_iff.mp hr
    exact .written hb
  | discarded => exact .resume_some hu (.purge seg)
  | pending => exact .resume_some hu .same

theorem step_changes {call : Call n} {u' : Usage n} (hu : u.step call = some u') :
    Changes u call u'.buffer := by
  cases call with
  | requestSegment stream sequenceNumber =>
    rw [Usage.step] at hu
    split at hu
    · cases hu
      exact .same
    · exact .of_request hu fun _ => .request
  | requestScratchSegment => exact .of_request hu fun _ => .requestScratch
  | openSegment stream flags location =>
    obtain ⟨r, hr, rfl⟩ := Option.map_eq_some_iff.mp hu
    rw [buffer_load]
    exact .load hr
  | readReturned seg => exact .resume_some hu .same
  | readThrew seg => exact .resume_some hu (.purge seg)
  | freeSegment segment prefetch => exact .of_freeSegment hu
  | purgeSegment segment => exact .of_purgeSegment hu
  | submitSegment segment client => exact .of_submitSegment hu
  | dropReturned seg => exact .resume_some hu (.purge seg)
  | dropThrew seg => exact .resume_some hu .same
  | writeReturned seg result => exact .of_writeReturned hu
  | writeThrew seg => exact .resume_some hu (.unsubmit seg)
  | flushStandbyList store =>
    obtain ⟨b, hb, rfl⟩ := Option.map_eq_some_iff.mp hu
    exact .flush hb

end Usage

end Simutrace.Buffer
