import Simutrace.Buffer.Segments

/-! # The operations of a server stream buffer

An operation has no result if it would follow a null pointer. The operations
that call the encoder end where they do, and go on when it has returned. The
encoder may use the buffer in between.
-/

namespace Simutrace.Buffer

/-- The result of a request for a segment. -/
inductive Request (n : ℕ)
  | exhausted
  | served (seg : Fin n)
  | allocated (seg : Fin n)
  deriving DecidableEq, Repr

/-- How far a submission gets: it fails, ends, or hands the segment to the encoder. -/
inductive Submission | rejected | completed | dropping | writing
  deriving DecidableEq, Repr

/-- The result of writing a segment: stored, done without a location, or not yet done. -/
inductive WriteResult | located | discarded | pending
  deriving DecidableEq, Repr

namespace ServerStreamBuffer

variable {n : ℕ} (b : ServerStreamBuffer n)

def dequeueFromFreeList : Option (Fin n) × ServerStreamBuffer n :=
  match b.freeHead with
  | none => (none, b)
  | some seg => (some seg, { b with freeHead := b.next seg }.modify seg fun s =>
      { s with isSubmitted := false, flags := .used, next := none })

def enqueueToFreeList (seg : Fin n) : ServerStreamBuffer n :=
  { b.modify seg fun s =>
      { s with stream := none, sequenceNumber := invalidStreamSegmentId, flags := .free,
               next := b.freeHead } with freeHead := some seg }

def prepareSegment (seg : Fin n) (stream : Option ServerStream)
    (sequenceNumber : StreamSegmentId) : ServerStreamBuffer n :=
  b.modify seg fun s =>
    { s with control := ⟨⟨(stream.map ServerStream.id).getD invalidStreamId, sequenceNumber⟩, 0, 0⟩
             stream := stream
             sequenceNumber := sequenceNumber }

/-- Link the neighbours of a segment of the standby list with each other. -/
def unlink (seg : Fin n) : Option (ServerStreamBuffer n) :=
  (b.next seg).bind fun next =>
    if next = seg then some { b with standbyHead := none }
    else (b.prev seg).map fun prev =>
      { (b.setNext prev (some next)).setPrev next (some prev) with
        standbyHead := if b.standbyHead = some seg then some next else b.standbyHead }

def resetLinks (seg : Fin n) : ServerStreamBuffer n :=
  ((b.modify seg fun s => { s with isSubmitted := false }).setNext seg none).setPrev seg none

def dequeueFromStandbyList (seg : Fin n) : Option (ServerStreamBuffer n) :=
  (b.unlink seg).map fun b => b.resetLinks seg

def clearPrefetch (seg : Fin n) : ServerStreamBuffer n :=
  b.modify seg fun s => { s with flags := { s.flags with prefetch := false } }

/-- A segment that is likely to be used again becomes the head, so that it is not the next one
to be evicted. -/
def promote (seg : Fin n) : ServerStreamBuffer n :=
  let flags := (b.segments seg).flags
  if flags.lowPriority = false ∨ flags.prefetch then
    { b.clearPrefetch seg with standbyHead := some seg }
  else b

def linkBetween (seg last head : Fin n) : ServerStreamBuffer n :=
  (((b.setNext seg (some head)).setPrev seg (some last)).setNext last (some seg)).setPrev head
    (some seg)

def enqueueToStandbyList (seg : Fin n) : Option (ServerStreamBuffer n) :=
  match b.standbyHead with
  | none =>
    some { (b.setNext seg (some seg)).setPrev seg (some seg) with standbyHead := some seg }
  | some head =>
    (b.prev head).map fun last => (b.linkBetween seg last head).promote seg

def findStandbySegment (link : StoreStreamSegmentLink) : Option (Fin n) :=
  KeyedIndex.find LinkHash.key b.standbyIndex link

def eraseStandbySegment (link : StoreStreamSegmentLink) : ServerStreamBuffer n :=
  { b with standbyIndex := KeyedIndex.erase LinkHash.key b.standbyIndex link }

def evictFromStandbyList : Option (Option (Fin n) × ServerStreamBuffer n) :=
  match b.standbyHead with
  | none => some (none, b)
  | some head =>
    (b.prev head).bind fun seg =>
      (b.linkOf seg).bind fun link =>
        ((b.eraseStandbySegment link).dequeueFromStandbyList seg).map fun b =>
          (some seg, b.modify seg fun s => { s with flags := .used })

def removeStandbySegment (link : StoreStreamSegmentLink) :
    Option (Option (Fin n) × ServerStreamBuffer n) :=
  match b.findStandbySegment link with
  | none => some (none, b)
  | some seg =>
    ((b.eraseStandbySegment link).dequeueFromStandbyList seg).map fun b => (some seg, b)

def purgeUnchecked (seg : Fin n) : ServerStreamBuffer n := b.enqueueToFreeList seg

/-- Only one copy of the same data is kept. -/
def addStandbySegment (seg : Fin n) : Option (ServerStreamBuffer n) :=
  (b.linkOf seg).bind fun link =>
    match b.findStandbySegment link with
    | some _ => some (b.purgeUnchecked seg)
    | none =>
      { b with standbyIndex := (link, seg) :: b.standbyIndex }.enqueueToStandbyList seg

def freeUnchecked (seg : Fin n) (prefetch : Bool) : Option (ServerStreamBuffer n) :=
  let s := b.segments seg
  if s.flags.cacheable ∧ b.enableCache ∧ s.control.rawEntryCount > 0 then
    (b.modify seg fun s =>
      { s with isSubmitted := true
               flags := { s.flags with prefetch := s.flags.prefetch || prefetch
                                       readOnly := true } }).addStandbySegment seg
  else
    some ((b.modify seg fun s => { s with isSubmitted := true }).purgeUnchecked seg)

def tryAllocateFreeSegment (stream : Option ServerStream) (sequenceNumber : StreamSegmentId) :
    Option (Option (Fin n) × ServerStreamBuffer n) :=
  match b.dequeueFromFreeList with
  | (some seg, b) => some (some seg, b.prepareSegment seg stream sequenceNumber)
  | (none, b) =>
    b.evictFromStandbyList.map fun
      | (some seg, b) => (some seg, b.prepareSegment seg stream sequenceNumber)
      | (none, b) => (none, b)

def setupSegment (seg : Fin n) (stream : Option ServerStream) (flags : StreamAccessFlags)
    (location : Option StorageLocation) : ServerStreamBuffer n :=
  b.modify seg fun s =>
    match location, stream with
    | some location, _ =>
      let lowPriority := b.enableCache && (flags.randomAccess || flags.sequentialScan)
      { s with
        flags := { s.flags with
          readOnly := true
          cacheable := s.flags.cacheable || b.enableCache
          lowPriority := s.flags.lowPriority || lowPriority }
        control := { s.control with
          entryCount := location.entryCount.getD s.control.entryCount
          rawEntryCount := location.rawEntryCount } }
    | none, none => { s with flags := { s.flags with scratch := true } }
    | none, some _ =>
      { s with flags := { s.flags with
          cacheable := s.flags.cacheable || b.enableCache
          lowPriority := s.flags.lowPriority || b.enableCache } }

def allocateUnchecked (stream : Option ServerStream) (sequenceNumber : StreamSegmentId)
    (flags : StreamAccessFlags) (location : Option StorageLocation) :
    Option (Request n × ServerStreamBuffer n) :=
  (b.tryAllocateFreeSegment stream sequenceNumber).map fun
    | (some seg, b) => (.allocated seg, b.setupSegment seg stream flags location)
    | (none, b) => (.exhausted, b)

/-- Get a segment from the standby list or allocate one, up to the call of the encoder. -/
def requestUnchecked (stream : Option ServerStream) (sequenceNumber : StreamSegmentId)
    (flags : StreamAccessFlags) (location : Option StorageLocation) :
    Option (Request n × ServerStreamBuffer n) :=
  match stream with
  | none => b.allocateUnchecked none sequenceNumber flags location
  | some stream =>
    (b.removeStandbySegment ⟨stream.store, ⟨stream.id, sequenceNumber⟩⟩).bind fun
      | (some seg, b) => some (.served seg, b)
      | (none, b) => b.allocateUnchecked (some stream) sequenceNumber flags location

/-- The number of entries is possible for the stream and the buffer. The product is of 32 bits. -/
def entriesValid (stream : ServerStream) (control : SegmentControlElement) : Bool :=
  decide ((stream.getEntrySize * control.rawEntryCount).toNat ≤ b.segmentSize) &&
    (stream.isVariableEntrySize || control.entryCount == control.rawEntryCount) &&
    decide (control.entryCount ≤ control.rawEntryCount)

def cyclesValid (stream : ServerStream) (client : ClientSegment) : Bool :=
  let startCycle := client.firstCycle &&& temporalOrderCycleCountMask
  let endCycle := client.lastCycle &&& temporalOrderCycleCountMask
  !stream.temporalOrder || (startCycle != invalidCycleCount && endCycle != invalidCycleCount &&
    decide (startCycle ≤ endCycle))

def copyControl (stream : ServerStream) (seg : Fin n) (client : ClientSegment) :
    SegmentControlElement :=
  ⟨⟨stream.id, (b.segments seg).sequenceNumber⟩, client.entryCount, client.rawEntryCount⟩

def fixEntryCount (stream : ServerStream) (control : SegmentControlElement) :
    SegmentControlElement :=
  if stream.isVariableEntrySize then control
  else { control with entryCount := control.rawEntryCount }

def submitUnchecked (seg : Fin n) (client : ClientSegment) :
    Option (Submission × ServerStreamBuffer n) :=
  (b.segments seg).stream.bind fun stream =>
    if (b.segments seg).flags.readOnly then
      if client.cookieValid then (b.freeUnchecked seg false).map fun b => (.completed, b)
      else some (.rejected, b)
    else
      let copied := b.copyControl stream seg client
      let control := fixEntryCount stream copied
      if client.cookieValid = false then
        some (.rejected, b.modify seg fun s => { s with control := copied })
      else if copied.rawEntryCount = 0 then
        some (.dropping, b.modify seg fun s => { s with control := copied, isSubmitted := true })
      else if b.entriesValid stream control && cyclesValid stream client then
        some (.writing, b.modify seg fun s => { s with control := control, isSubmitted := true })
      else some (.rejected, b.modify seg fun s =>
        { s with control := control, isSubmitted := false })

/-- One round of `flushStandbyList`, unless the segment belongs to another store. -/
def flushSegment (store : StoreId) (seg : Fin n) : Option (ServerStreamBuffer n) :=
  (b.linkOf seg).bind fun link =>
    if store = invalidStoreId ∨ link.store = store then
      ((b.eraseStandbySegment link).dequeueFromStandbyList seg).map fun b => b.purgeUnchecked seg
    else some b

/-- The loop of `flushStandbyList`; the first argument bounds the number of rounds. -/
def flushFrom : ℕ → ServerStreamBuffer n → StoreId → Fin n → Fin n → Option (ServerStreamBuffer n)
  | 0, _, _, _, _ => none
  | rounds + 1, b, store, last, seg =>
    (b.flushSegment store seg).bind fun b' =>
      if seg = last then some b'
      else (b.next seg).bind fun next => flushFrom rounds b' store last next

def flushStandbyList (store : StoreId) : Option (ServerStreamBuffer n) :=
  match b.standbyHead with
  | none => some b
  | some head => (b.prev head).bind fun last => flushFrom n b store last head

end ServerStreamBuffer

end Simutrace.Buffer
