import Simutrace.Library.KeyedIndex
import Mathlib.Logic.Function.Basic

/-! # The segments of a server stream buffer

A buffer has a fixed number of segments. The free ones are on a stack. The
cached ones are on the standby list, which is also indexed by the link of the
data.
-/

namespace Simutrace.Buffer

abbrev StoreId := BitVec 32

abbrev StreamId := BitVec 32

abbrev StreamSegmentId := BitVec 32

def invalidStoreId : StoreId := BitVec.allOnes 32

def invalidStreamId : StreamId := BitVec.allOnes 32

def invalidStreamSegmentId : StreamSegmentId := BitVec.allOnes 32

def invalidCycleCount : BitVec 64 := BitVec.allOnes 64

def variableEntrySizeFlag : BitVec 32 := 0x80000000

def temporalOrderCycleCountMask : BitVec 64 := 0xFFFFFFFFFFFF

/-- The state of a segment; no flag is set for a free one. -/
structure SegmentFlags where
  inUse : Bool
  readOnly : Bool
  scratch : Bool
  cacheable : Bool
  lowPriority : Bool
  prefetch : Bool
  deriving DecidableEq, Repr

namespace SegmentFlags

def free : SegmentFlags := ⟨false, false, false, false, false, false⟩

def used : SegmentFlags := { free with inUse := true }

end SegmentFlags

structure StreamSegmentLink where
  stream : StreamId
  sequenceNumber : StreamSegmentId
  deriving DecidableEq, Repr

structure StoreStreamSegmentLink where
  store : StoreId
  link : StreamSegmentLink
  deriving DecidableEq, Repr

/-- The loop that folds the store into the lower bits of the hash. -/
def foldStore (triple : BitVec 64) (store : ℕ) : BitVec 64 :=
  if store > 0 then foldStore (triple ^^^ BitVec.ofNat 64 (store &&& 0xFFFF)) (store >>> 16)
  else triple
termination_by store
decreasing_by rw [Nat.shiftRight_eq_div_pow]; omega

def linkHash (seg : StoreStreamSegmentLink) : BitVec 64 :=
  foldStore (seg.link.sequenceNumber.setWidth 64 <<< 32 |||
    (seg.link.stream.setWidth 64 &&& 0xFFFF) <<< 16) seg.store.toNat

/-- Two links are the same for the index if their hashes are and the inherited operator finds
no difference. It does not know about the store. -/
def LinkHash.key (seg : StoreStreamSegmentLink) : BitVec 64 × StreamSegmentLink :=
  (linkHash seg, seg.link)

/-- The part of a stream that a buffer uses. -/
structure ServerStream where
  store : StoreId
  id : StreamId
  entrySize : BitVec 32
  temporalOrder : Bool
  deriving DecidableEq, Repr

namespace ServerStream

def isVariableEntrySize (s : ServerStream) : Bool := s.entrySize &&& variableEntrySizeFlag ≠ 0

def getEntrySize (s : ServerStream) : BitVec 32 := s.entrySize &&& ~~~variableEntrySizeFlag

end ServerStream

structure SegmentControlElement where
  link : StreamSegmentLink
  entryCount : BitVec 32
  rawEntryCount : BitVec 32
  deriving DecidableEq, Repr

/-- A segment; the links are used by the free list and the standby list. -/
structure Segment (n : ℕ) where
  next : Option (Fin n)
  prev : Option (Fin n)
  flags : SegmentFlags
  isSubmitted : Bool
  stream : Option ServerStream
  sequenceNumber : StreamSegmentId
  control : SegmentControlElement
  deriving DecidableEq, Repr

/-- What a segment holds, apart from its place in the lists. -/
def Segment.data {n : ℕ} (s : Segment n) :
    SegmentFlags × Option ServerStream × StreamSegmentId × SegmentControlElement :=
  (s.flags, s.stream, s.sequenceNumber, s.control)

abbrev StandbyIndex (n : ℕ) := List (StoreStreamSegmentLink × Fin n)

structure ServerStreamBuffer (n : ℕ) where
  segmentSize : ℕ
  enableCache : Bool
  segments : Fin n → Segment n
  freeHead : Option (Fin n)
  standbyHead : Option (Fin n)
  standbyIndex : StandbyIndex n

/-- A stored segment. It has no entry count if its entries have no index. -/
structure StorageLocation where
  sequenceNumber : StreamSegmentId
  entryCount : Option (BitVec 32)
  rawEntryCount : BitVec 32
  deriving DecidableEq, Repr

structure StreamAccessFlags where
  randomAccess : Bool
  sequentialScan : Bool
  deriving DecidableEq, Repr

/-- The control element and the data as a client has left them. -/
structure ClientSegment where
  entryCount : BitVec 32
  rawEntryCount : BitVec 32
  cookieValid : Bool
  firstCycle : BitVec 64
  lastCycle : BitVec 64
  deriving DecidableEq, Repr

namespace ServerStreamBuffer

variable {n : ℕ} (b : ServerStreamBuffer n) (x y : Fin n)

def modify (f : Segment n → Segment n) : ServerStreamBuffer n :=
  { b with segments := Function.update b.segments x (f (b.segments x)) }

def next : Option (Fin n) := (b.segments x).next

def prev : Option (Fin n) := (b.segments x).prev

def setNext (next : Option (Fin n)) : ServerStreamBuffer n :=
  b.modify x fun s => { s with next := next }

def setPrev (prev : Option (Fin n)) : ServerStreamBuffer n :=
  b.modify x fun s => { s with prev := prev }

def linkOf : Option StoreStreamSegmentLink :=
  (b.segments x).stream.map fun stream => ⟨stream.store, (b.segments x).control.link⟩

def initial (n segmentSize : ℕ) (enableCache : Bool) : ServerStreamBuffer n where
  segmentSize := segmentSize
  enableCache := enableCache
  segments := fun i =>
    { next := if h : i + 1 < n then some ⟨i + 1, h⟩ else none
      prev := none
      flags := .free
      isSubmitted := false
      stream := none
      sequenceNumber := invalidStreamSegmentId
      control := ⟨⟨0, 0⟩, 0, 0⟩ }
  freeHead := (List.finRange n).head?
  standbyHead := none
  standbyIndex := []

section

variable {b x y} {f : Segment n → Segment n} {link : Option (Fin n)}

@[simp] theorem segments_modify_self : (b.modify x f).segments x = f (b.segments x) :=
  Function.update_self ..

theorem segments_modify_of_ne (h : y ≠ x) : (b.modify x f).segments y = b.segments y :=
  Function.update_of_ne h ..

@[simp] theorem freeHead_modify : (b.modify x f).freeHead = b.freeHead := rfl

@[simp] theorem standbyHead_modify : (b.modify x f).standbyHead = b.standbyHead := rfl

@[simp] theorem standbyIndex_modify : (b.modify x f).standbyIndex = b.standbyIndex := rfl

@[simp] theorem freeHead_setNext : (b.setNext x link).freeHead = b.freeHead := rfl

@[simp] theorem standbyHead_setNext : (b.setNext x link).standbyHead = b.standbyHead := rfl

@[simp] theorem standbyIndex_setNext : (b.setNext x link).standbyIndex = b.standbyIndex := rfl

@[simp] theorem freeHead_setPrev : (b.setPrev x link).freeHead = b.freeHead := rfl

@[simp] theorem standbyHead_setPrev : (b.setPrev x link).standbyHead = b.standbyHead := rfl

@[simp] theorem standbyIndex_setPrev : (b.setPrev x link).standbyIndex = b.standbyIndex := rfl

theorem next_modify (hf : (f (b.segments x)).next = (b.segments x).next) :
    (b.modify x f).next = b.next := by
  ext1 y
  by_cases h : y = x
  · subst h
    rw [next, segments_modify_self, hf]
    rfl
  · rw [next, segments_modify_of_ne h]
    rfl

theorem prev_modify (hf : (f (b.segments x)).prev = (b.segments x).prev) :
    (b.modify x f).prev = b.prev := by
  ext1 y
  by_cases h : y = x
  · subst h
    rw [prev, segments_modify_self, hf]
    rfl
  · rw [prev, segments_modify_of_ne h]
    rfl

theorem data_modify (hf : (f (b.segments x)).data = (b.segments x).data) :
    ((b.modify x f).segments y).data = (b.segments y).data := by
  by_cases h : y = x
  · subst h
    rw [segments_modify_self, hf]
  · rw [segments_modify_of_ne h]

@[simp] theorem next_setNext : (b.setNext x link).next = Function.update b.next x link := by
  ext1 y
  by_cases h : y = x
  · subst h
    rw [Function.update_self, next, setNext, segments_modify_self]
  · rw [Function.update_of_ne h, next, setNext, segments_modify_of_ne h]
    rfl

@[simp] theorem prev_setNext : (b.setNext x link).prev = b.prev := prev_modify rfl

@[simp] theorem next_setPrev : (b.setPrev x link).next = b.next := next_modify rfl

@[simp] theorem prev_setPrev : (b.setPrev x link).prev = Function.update b.prev x link := by
  ext1 y
  by_cases h : y = x
  · subst h
    rw [Function.update_self, prev, setPrev, segments_modify_self]
  · rw [Function.update_of_ne h, prev, setPrev, segments_modify_of_ne h]
    rfl

@[simp] theorem data_setNext : ((b.setNext x link).segments y).data = (b.segments y).data :=
  data_modify rfl

@[simp] theorem data_setPrev : ((b.setPrev x link).segments y).data = (b.segments y).data :=
  data_modify rfl

end

end ServerStreamBuffer

end Simutrace.Buffer
