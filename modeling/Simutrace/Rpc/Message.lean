import Simutrace.Library.LittleEndian
import Simutrace.Rpc.SocketChannel

/-! # Messages

A message has a header of 16 bytes. Its last 8 bytes are a parameter, or another
parameter and the length of a payload that follows the header.
-/

namespace Simutrace.Rpc

/-- The fields that are sent over the wire. -/
structure MessageHeader where
  sequenceNumber : BitVec 8
  payloadType : BitVec 2
  flags : BitVec 6
  code : BitVec 16
  parameter0 : BitVec 32
  parameter1 : BitVec 32
  payloadLength : BitVec 32
  deriving DecidableEq

def messageSize : ℕ := 16

def mptEmbedded : BitVec 2 := 0

def mptData : BitVec 2 := 1

def mptHandles : BitVec 2 := 2

def mfResponse : BitVec 6 := 1

def scSuccess : BitVec 16 := 0

def scFailed : BitVec 16 := 1

/-- The last parts of a message. The length of a data payload has 32 bits. -/
inductive Payload
  | embedded (parameter1 : BitVec 64)
  | data (parameter1 : BitVec 32) (bytes : List UInt8) (bound : bytes.length < 2 ^ 32)
  | handles (parameter1 : BitVec 32) (handleCount : BitVec 32)

structure Message where
  sequenceNumber : BitVec 8
  flags : BitVec 6
  code : BitVec 16
  parameter0 : BitVec 32
  payload : Payload

namespace MessageHeader

def encode (h : MessageHeader) : List UInt8 :=
  LittleEndian.pack [1, 1, 2, 4, 4, 4] [h.sequenceNumber.toNat,
    h.payloadType.toNat + 4 * h.flags.toNat, h.code.toNat, h.parameter0.toNat,
    h.parameter1.toNat, h.payloadLength.toNat]

def decode (bytes : List UInt8) : MessageHeader :=
  let fields := LittleEndian.unpack [1, 1, 2, 4, 4, 4] bytes
  { sequenceNumber := .ofNat 8 (fields.getD 0 0)
    payloadType := .ofNat 2 (fields.getD 1 0)
    flags := .ofNat 6 (fields.getD 1 0 / 4)
    code := .ofNat 16 (fields.getD 2 0)
    parameter0 := .ofNat 32 (fields.getD 3 0)
    parameter1 := .ofNat 32 (fields.getD 4 0)
    payloadLength := .ofNat 32 (fields.getD 5 0) }

theorem length_encode (h : MessageHeader) : h.encode.length = messageSize :=
  LittleEndian.length_pack rfl

theorem decode_encode (h : MessageHeader) : decode h.encode = h := by
  have hunpack : LittleEndian.unpack [1, 1, 2, 4, 4, 4] h.encode = [h.sequenceNumber.toNat,
      h.payloadType.toNat + 4 * h.flags.toNat, h.code.toNat, h.parameter0.toNat,
      h.parameter1.toNat, h.payloadLength.toNat] := by
    have htype := h.payloadType.isLt
    have hflags := h.flags.isLt
    rw [← List.append_nil h.encode]
    refine LittleEndian.unpack_pack (.cons h.sequenceNumber.isLt (.cons (by omega)
      (.cons h.code.isLt (.cons h.parameter0.isLt (.cons h.parameter1.isLt
        (.cons h.payloadLength.isLt .nil)))))) []
  have htype : BitVec.ofNat 2 (h.payloadType.toNat + 4 * h.flags.toNat) = h.payloadType := by
    apply BitVec.eq_of_toNat_eq
    rw [BitVec.toNat_ofNat]
    have := h.payloadType.isLt
    omega
  have hflags : BitVec.ofNat 6 ((h.payloadType.toNat + 4 * h.flags.toNat) / 4) = h.flags := by
    apply BitVec.eq_of_toNat_eq
    rw [BitVec.toNat_ofNat]
    have := h.payloadType.isLt
    have := h.flags.isLt
    omega
  unfold decode
  rw [hunpack]
  simp [htype, hflags]

end MessageHeader

namespace Message

/-- The header of a message. The parameter of an embedded payload takes the place of the other
parameter and the length. -/
def header (m : Message) : MessageHeader :=
  match m.payload with
  | .embedded parameter1 =>
    ⟨m.sequenceNumber, mptEmbedded, m.flags, m.code, m.parameter0, parameter1.extractLsb' 0 32,
      parameter1.extractLsb' 32 32⟩
  | .data parameter1 bytes _ =>
    ⟨m.sequenceNumber, mptData, m.flags, m.code, m.parameter0, parameter1,
      .ofNat 32 bytes.length⟩
  | .handles parameter1 handleCount =>
    ⟨m.sequenceNumber, mptHandles, m.flags, m.code, m.parameter0, parameter1, handleCount⟩

/-- The bytes that follow the header. -/
def payloadBytes (m : Message) : List UInt8 :=
  match m.payload with
  | .data _ bytes _ => bytes
  | .embedded _ | .handles _ _ => []

def Transferable (m : Message) : Prop :=
  match m.payload with
  | .handles _ handleCount => handleCount = 0
  | .embedded _ | .data _ _ _ => True

instance (m : Message) : Decidable m.Transferable := by
  unfold Transferable
  cases m.payload <;> infer_instance

def encode (m : Message) : List UInt8 := m.header.encode ++ m.payloadBytes

def ofHeader (h : MessageHeader) (payload : Payload) : Message :=
  ⟨h.sequenceNumber, h.flags, h.code, h.parameter0, payload⟩

theorem ofHeader_header (m : Message) : ofHeader m.header m.payload = m := by
  obtain ⟨sequenceNumber, flags, code, parameter0, payload⟩ := m
  cases payload <;> rfl

theorem sequenceNumber_header (m : Message) : m.header.sequenceNumber = m.sequenceNumber := by
  obtain ⟨sequenceNumber, flags, code, parameter0, payload⟩ := m
  cases payload <;> rfl

end Message

end Simutrace.Rpc
