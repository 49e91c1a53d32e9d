import Simutrace.Rpc.Port

/-! # Framing

The stream between two ports is cut into pieces at arbitrary places. The port at
its end finds the same messages in it, because it asks for the bytes of a header
and of the payload that the header announces.
-/

namespace Simutrace.Rpc

open SocketChannel

variable {m : Message} {messages : List Message} {calls : List CallResult} {p : Port}
  {a : Allocators} {stream missing more : List UInt8}

namespace Port

theorem prefix_sendPayload (calls : List CallResult) (m : Message) :
    (sendPayload calls m.payload).wire <+: m.payloadBytes := by
  unfold sendPayload Message.payloadBytes
  cases m.payload with
  | embedded parameter1 => exact List.prefix_rfl
  | data parameter1 bytes bound =>
    dsimp only
    split_ifs
    · exact List.nil_prefix
    · exact prefix_send calls bytes
  | handles parameter1 handleCount =>
    dsimp only
    split_ifs <;> exact List.prefix_rfl

theorem sendPayload_ok {calls' : List CallResult}
    (h : (sendPayload calls m.payload).result = .ok calls') :
    (sendPayload calls m.payload).wire = m.payloadBytes := by
  unfold sendPayload Message.payloadBytes at *
  cases hpayload : m.payload with
  | embedded parameter1 => rfl
  | data parameter1 bytes bound =>
    rw [hpayload] at h
    dsimp only at h ⊢
    split_ifs at h ⊢ with hnil
    · exact hnil.symm
    · exact send_ok h
  | handles parameter1 handleCount =>
    dsimp only
    split_ifs <;> rfl

theorem exists_sendPayload (hr : Reliable calls) (ht : m.Transferable)
    (henough : m.payloadBytes.length ≤ transfers calls) :
    ∃ calls', (sendPayload calls m.payload).result = .ok calls' ∧ Reliable calls' ∧
      transfers calls ≤ transfers calls' + m.payloadBytes.length := by
  unfold sendPayload Message.payloadBytes Message.Transferable at *
  cases hpayload : m.payload with
  | embedded parameter1 => exact ⟨calls, rfl, hr, Nat.le_add_right _ _⟩
  | data parameter1 bytes bound =>
    rw [hpayload] at henough
    dsimp only at henough ⊢
    split_ifs with hnil
    · exact ⟨calls, rfl, hr, Nat.le_add_right _ _⟩
    · exact exists_send hr (List.length_pos_iff.mpr hnil) henough
  | handles parameter1 handleCount =>
    rw [hpayload] at ht
    dsimp only at ht ⊢
    rw [if_pos ht]
    exact ⟨calls, rfl, hr, Nat.le_add_right _ _⟩

theorem prefix_send_encode (p : Port) (calls : List CallResult) (m : Message) :
    (p.send calls m).2.wire <+: m.encode := by
  unfold send Message.encode
  dsimp only
  cases hheader : (SocketChannel.send calls m.header.encode).result with
  | error e => exact (prefix_send calls _).trans (List.prefix_append _ _)
  | ok calls' =>
    dsimp only
    rw [send_ok hheader]
    have hpayload := (List.prefix_append_right_inj m.header.encode).mpr
      (prefix_sendPayload calls' m)
    cases (sendPayload calls' m.payload).result with
    | error e => exact hpayload
    | ok calls'' => exact hpayload

theorem send_ok_encode {calls' : List CallResult} (h : (p.send calls m).2.result = .ok calls') :
    (p.send calls m).2.wire = m.encode := by
  unfold send Message.encode at *
  dsimp only at *
  cases hheader : (SocketChannel.send calls m.header.encode).result with
  | error e =>
    rw [hheader] at h
    cases h
  | ok calls'' =>
    rw [hheader] at h
    dsimp only at h ⊢
    cases hpayload : (sendPayload calls'' m.payload).result with
    | error e =>
      rw [hpayload] at h
      cases h
    | ok calls''' =>
      dsimp only
      rw [SocketChannel.send_ok hheader, sendPayload_ok hpayload]

theorem exists_send_message (hr : Reliable calls) (ht : m.Transferable)
    (henough : m.encode.length ≤ transfers calls) (p : Port) :
    ∃ calls', (p.send calls m).2.result = .ok calls' ∧ Reliable calls' ∧
      transfers calls ≤ transfers calls' + m.encode.length := by
  have hlength : m.encode.length = m.header.encode.length + m.payloadBytes.length :=
    List.length_append
  have hpos : 0 < m.header.encode.length := by
    rw [MessageHeader.length_encode]
    decide
  obtain ⟨calls₁, hheader, hreliable₁, htransfers₁⟩ := exists_send hr hpos (by omega)
  obtain ⟨calls₂, hpayload, hreliable₂, htransfers₂⟩ :=
    exists_sendPayload hreliable₁ ht (by omega)
  refine ⟨calls₂, ?_, hreliable₂, by omega⟩
  unfold send
  dsimp only
  rw [hheader]
  dsimp only
  rw [hpayload]

section Payload

variable {sequenceNumber : BitVec 8} {flags : BitVec 6} {code : BitVec 16}
  {parameter0 parameter1 payloadLength : BitVec 32}

theorem receivePayload_embedded : receivePayload a ⟨sequenceNumber, mptEmbedded, flags, code,
      parameter0, parameter1, payloadLength⟩ calls stream =
    .ok ⟨.embedded (payloadLength ++ parameter1), stream, calls⟩ :=
  if_pos rfl

theorem receivePayload_empty : receivePayload a ⟨sequenceNumber, mptData, flags, code,
      parameter0, parameter1, 0⟩ calls stream =
    .ok ⟨.data parameter1 [] (by decide), stream, calls⟩ := by
  unfold receivePayload
  rw [if_neg (show mptData ≠ mptEmbedded by decide), if_pos rfl, if_pos rfl]

theorem receivePayload_data (hlength : payloadLength ≠ 0) {received : Received (List UInt8)}
    (hreceive : SocketChannel.receive calls payloadLength.toNat stream = .ok received)
    (hbound : received.value.length < 2 ^ 32)
    (hallocate : a.allocate ⟨sequenceNumber, mptData, flags, code, parameter0, parameter1,
      payloadLength⟩ = true) :
    receivePayload a ⟨sequenceNumber, mptData, flags, code, parameter0, parameter1,
      payloadLength⟩ calls stream =
    .ok { received with value := .data parameter1 received.value hbound } := by
  unfold receivePayload
  rw [if_neg (show mptData ≠ mptEmbedded by decide), if_pos rfl]
  dsimp only
  rw [if_neg hlength, if_pos hallocate, hreceive]
  dsimp only
  rw [dif_pos (receive_ok hreceive).2]

theorem exists_of_receivePayload_data (hlength : payloadLength ≠ 0) {received : Received Payload}
    (h : receivePayload a ⟨sequenceNumber, mptData, flags, code, parameter0, parameter1,
      payloadLength⟩ calls stream = .ok received) :
    ∃ bytes, SocketChannel.receive calls payloadLength.toNat stream = .ok bytes ∧
      ∃ hbound, received = { bytes with value := .data parameter1 bytes.value hbound } := by
  unfold receivePayload at h
  rw [if_neg (show mptData ≠ mptEmbedded by decide), if_pos rfl] at h
  dsimp only at h
  rw [if_neg hlength] at h
  split_ifs at h
  cases hreceive : SocketChannel.receive calls payloadLength.toNat stream with
  | error e =>
    rw [hreceive] at h
    cases h
  | ok bytes =>
    rw [hreceive] at h
    dsimp only at h
    split_ifs at h
    exact ⟨bytes, rfl, _, (Except.ok.inj h).symm⟩

theorem receivePayload_handles : receivePayload a ⟨sequenceNumber, mptHandles, flags, code,
      parameter0, parameter1, payloadLength⟩ calls stream =
    if payloadLength = 0 then .ok ⟨.handles parameter1 0, stream, calls⟩
    else .error .notSupported := by
  unfold receivePayload
  rw [if_neg (show mptHandles ≠ mptEmbedded by decide),
    if_neg (show mptHandles ≠ mptData by decide)]
  simp

end Payload

theorem ofNat_length_ne_zero {bytes : List UInt8} (bound : bytes.length < 2 ^ 32)
    (hne : bytes ≠ []) : BitVec.ofNat 32 bytes.length ≠ 0 := by
  intro hzero
  have hmod := congrArg BitVec.toNat hzero
  rw [BitVec.toNat_ofNat, Nat.mod_eq_of_lt bound] at hmod
  exact hne (List.length_eq_zero_iff.mp hmod)

/-- The payload that the header announces is the one that was sent after it. -/
theorem receivePayload_ok {received : Received Payload}
    (h : receivePayload a m.header calls stream = .ok received)
    (hstream : stream ++ missing = m.payloadBytes ++ more) :
    received.value = m.payload ∧ received.stream ++ missing = more := by
  obtain ⟨sequenceNumber, flags, code, parameter0, payload⟩ := m
  cases payload with
  | embedded parameter1 =>
    obtain rfl := Except.ok.inj (receivePayload_embedded.symm.trans h)
    exact ⟨congrArg Payload.embedded BitVec.extractLsb'_append_extractLsb', hstream⟩
  | data parameter1 bytes bound =>
    by_cases hnil : bytes = []
    · subst hnil
      obtain rfl := Except.ok.inj (receivePayload_empty.symm.trans h)
      exact ⟨rfl, hstream⟩
    · obtain ⟨received', hreceive, hbound, rfl⟩ :=
        exists_of_receivePayload_data (ofNat_length_ne_zero bound hnil) h
      obtain ⟨hsplit, hlength⟩ := receive_ok hreceive
      rw [BitVec.toNat_ofNat, Nat.mod_eq_of_lt bound] at hlength
      rw [hsplit, List.append_assoc] at hstream
      obtain ⟨hvalue, hrest⟩ := List.append_inj hstream hlength
      refine ⟨?_, hrest⟩
      obtain ⟨value, rest, calls'⟩ := received'
      obtain rfl := hvalue
      rfl
  | handles parameter1 handleCount =>
    have hhandles := receivePayload_handles.symm.trans h
    split_ifs at hhandles with hzero
    obtain rfl := Except.ok.inj hhandles
    exact ⟨congrArg (Payload.handles parameter1) hzero.symm, hstream⟩

theorem exists_receivePayload (hr : Reliable calls) (ht : m.Transferable)
    (hallocate : a.allocate m.header = true) (harrived : m.payloadBytes.length ≤ stream.length)
    (henough : m.payloadBytes.length ≤ transfers calls) :
    ∃ received, receivePayload a m.header calls stream = .ok received ∧
      Reliable received.calls ∧
      transfers calls ≤ transfers received.calls + m.payloadBytes.length := by
  obtain ⟨sequenceNumber, flags, code, parameter0, payload⟩ := m
  cases payload with
  | embedded parameter1 => exact ⟨_, receivePayload_embedded, hr, Nat.le_add_right _ _⟩
  | data parameter1 bytes bound =>
    by_cases hnil : bytes = []
    · subst hnil
      exact ⟨_, receivePayload_empty, hr, Nat.le_add_right _ _⟩
    · have hlength : (BitVec.ofNat 32 bytes.length).toNat = bytes.length := by
        rw [BitVec.toNat_ofNat, Nat.mod_eq_of_lt bound]
      obtain ⟨received, hreceive, hreliable, htransfers⟩ :=
        exists_receive hr (List.length_pos_iff.mpr hnil) harrived henough
      have hvalue := (receive_ok hreceive).2
      rw [← hlength] at hreceive
      exact ⟨_, receivePayload_data (ofNat_length_ne_zero bound hnil) hreceive
        (hvalue.symm ▸ bound) hallocate, hreliable, htransfers⟩
  | handles parameter1 handleCount =>
    refine ⟨_, receivePayload_handles.trans (if_pos ht), hr, Nat.le_add_right _ _⟩

/-- The next message that is received is the next one that was sent. -/
theorem receive_message {p' : Port} {received : Received Message}
    (h : p.receive a calls stream = (p', .ok received))
    (hstream : stream ++ missing = m.encode ++ more) :
    received.value = m ∧ received.stream ++ missing = more ∧
      p'.lastSequenceNumber = m.sequenceNumber := by
  unfold receive at h
  cases hheader : SocketChannel.receive calls messageSize stream with
  | error e =>
    rw [hheader] at h
    cases h
  | ok header =>
    rw [hheader] at h
    dsimp only at h
    obtain ⟨hsplit, hlength⟩ := receive_ok hheader
    unfold Message.encode at hstream
    rw [hsplit, List.append_assoc, List.append_assoc] at hstream
    obtain ⟨hvalue, hrest⟩ :=
      List.append_inj hstream (hlength.trans (MessageHeader.length_encode _).symm)
    rw [hvalue, MessageHeader.decode_encode] at h
    cases hpayload : receivePayload a m.header header.calls header.stream with
    | error e =>
      rw [hpayload] at h
      cases h
    | ok payload =>
      rw [hpayload] at h
      obtain ⟨hvalue, hmore⟩ := receivePayload_ok hpayload hrest
      cases h
      refine ⟨?_, hmore, ?_⟩
      · dsimp only
        rw [hvalue]
        exact m.ofHeader_header
      · exact m.sequenceNumber_header

theorem exists_receive_message (hr : Reliable calls) (ht : m.Transferable)
    (hallocate : a.allocate m.header = true) (harrived : stream = m.encode ++ more)
    (henough : m.encode.length ≤ transfers calls) (p : Port) :
    ∃ p' received, p.receive a calls stream = (p', .ok received) ∧ Reliable received.calls ∧
      transfers calls ≤ transfers received.calls + m.encode.length := by
  have hlength : m.encode.length = messageSize + m.payloadBytes.length := by
    rw [Message.encode, List.length_append, MessageHeader.length_encode]
  have harrived' : stream.length = m.encode.length + more.length := by
    rw [harrived, List.length_append]
  obtain ⟨header, hheader, hreliable, htransfers⟩ :=
    exists_receive hr (show 0 < messageSize by decide) (show messageSize ≤ stream.length by omega)
      (by omega)
  obtain ⟨hsplit, hsize⟩ := receive_ok hheader
  have hrest : header.stream.length = m.payloadBytes.length + more.length := by
    have hsum := congrArg List.length hsplit
    rw [List.length_append] at hsum
    omega
  have hvalue : header.value = m.header.encode := by
    rw [hsplit, Message.encode, List.append_assoc] at harrived
    exact (List.append_inj harrived (hsize.trans (MessageHeader.length_encode _).symm)).1
  obtain ⟨payload, hpayload, hreliable', htransfers'⟩ :=
    exists_receivePayload hreliable ht hallocate (show _ ≤ header.stream.length by omega)
      (by omega)
  unfold receive
  rw [hheader]
  dsimp only
  rw [hvalue, MessageHeader.decode_encode, hpayload]
  exact ⟨_, _, rfl, hreliable', by dsimp only; omega⟩

/-- What was sent is a part of the messages, cut off at any byte. -/
theorem prefix_sendAll (p : Port) (calls : List CallResult) (messages : List Message) :
    (p.sendAll calls messages).2.wire <+: messages.flatMap Message.encode := by
  induction messages generalizing p calls with
  | nil => exact List.prefix_rfl
  | cons m messages ih =>
    unfold sendAll
    rw [List.flatMap_cons]
    have hpre := prefix_send_encode p calls m
    cases hsend : p.send calls m with
    | mk p' sent =>
      obtain ⟨wire, result⟩ := sent
      cases result with
      | error e =>
        rw [hsend] at hpre
        exact hpre.trans (List.prefix_append _ _)
      | ok calls' =>
        have hwire : (p.send calls m).2.wire = m.encode :=
          send_ok_encode (by rw [hsend])
        rw [hsend] at hwire
        dsimp only at hwire ⊢
        rw [hwire]
        exact (List.prefix_append_right_inj m.encode).mpr (ih p' calls')

theorem exists_sendAll (hr : Reliable calls) (ht : ∀ m ∈ messages, m.Transferable)
    (henough : (messages.flatMap Message.encode).length ≤ transfers calls) (p : Port) :
    ∃ calls', (p.sendAll calls messages).2 = ⟨messages.flatMap Message.encode, .ok calls'⟩ := by
  induction messages generalizing p calls with
  | nil => exact ⟨calls, rfl⟩
  | cons m messages ih =>
    rw [List.flatMap_cons, List.length_append] at henough
    obtain ⟨calls₁, hresult, hreliable, htransfers⟩ :=
      exists_send_message hr (ht m List.mem_cons_self) (Nat.le_of_add_right_le henough) p
    have hwire := send_ok_encode hresult
    obtain ⟨calls₂, hrest⟩ := ih hreliable (fun m' hm => ht m' (List.mem_cons_of_mem m hm))
      (by omega) (p.send calls m).1
    refine ⟨calls₂, ?_⟩
    have hsend : p.send calls m = ((p.send calls m).1, ⟨m.encode, .ok calls₁⟩) := by
      rw [← hwire, ← hresult]
    unfold sendAll
    rw [hsend]
    dsimp only
    rw [hrest, List.flatMap_cons]

theorem receive_nil {p' : Port} {received : Received Message} :
    p.receive a calls [] ≠ (p', .ok received) := by
  intro h
  unfold receive at h
  cases hheader : SocketChannel.receive calls messageSize [] with
  | error e =>
    rw [hheader] at h
    cases h
  | ok header =>
    obtain ⟨hsplit, hlength⟩ := receive_ok hheader
    rw [(List.append_eq_nil_iff.mp hsplit.symm).1] at hlength
    cases hlength

/-- The messages that are received are the first ones that were sent. -/
theorem prefix_receiveAll (hstream : stream <+: messages.flatMap Message.encode) (p : Port)
    (a : Allocators) (calls : List CallResult) (n : ℕ) :
    (p.receiveAll a calls stream n).1 <+: messages := by
  induction n generalizing p calls stream messages with
  | zero => exact List.nil_prefix
  | succ n ih =>
    unfold receiveAll
    cases hreceive : p.receive a calls stream with
    | mk p' result =>
      cases result with
      | error e => exact List.nil_prefix
      | ok received =>
        obtain ⟨missing, hmissing⟩ := hstream
        cases messages with
        | nil =>
          rw [(List.append_eq_nil_iff.mp hmissing).1] at hreceive
          exact absurd hreceive receive_nil
        | cons m messages =>
          obtain ⟨hvalue, hmore, -⟩ := receive_message hreceive hmissing
          dsimp only
          rw [hvalue]
          exact (List.prefix_cons_inj m).mpr (ih ⟨missing, hmore⟩ p' received.calls)

theorem exists_receiveAll (hr : Reliable calls) (ht : ∀ m ∈ messages, m.Transferable)
    (hallocate : ∀ m ∈ messages, a.allocate m.header = true)
    (henough : (messages.flatMap Message.encode).length ≤ transfers calls) (p : Port) :
    p.receiveAll a calls (messages.flatMap Message.encode) messages.length = (messages, none) := by
  induction messages generalizing p calls with
  | nil => rfl
  | cons m messages ih =>
    rw [List.flatMap_cons] at henough ⊢
    rw [List.length_append] at henough
    obtain ⟨p', received, hreceive, hreliable, htransfers⟩ :=
      exists_receive_message hr (ht m List.mem_cons_self) (hallocate m List.mem_cons_self) rfl
        (Nat.le_of_add_right_le henough) p
    obtain ⟨hvalue, hmore, -⟩ := @receive_message _ _ _ _ _ [] _ _ _ hreceive (List.append_nil _)
    rw [List.append_nil] at hmore
    rw [List.length_cons]
    unfold receiveAll
    rw [hreceive]
    dsimp only
    rw [hvalue, hmore, ih hreliable (fun m' hm => ht m' (List.mem_cons_of_mem m hm))
      (fun m' hm => hallocate m' (List.mem_cons_of_mem m hm)) (by omega)]

theorem lastSequenceNumber_of_receive {p' : Port} {received : Received Message}
    (h : p.receive a calls stream = (p', .ok received)) :
    p'.lastSequenceNumber = received.value.sequenceNumber := by
  unfold receive at h
  cases hheader : SocketChannel.receive calls messageSize stream with
  | error e =>
    rw [hheader] at h
    cases h
  | ok header =>
    rw [hheader] at h
    dsimp only at h
    cases hpayload : receivePayload a (MessageHeader.decode header.value) header.calls
        header.stream with
    | error e =>
      rw [hpayload] at h
      cases h
    | ok payload =>
      rw [hpayload] at h
      cases h
      rfl

end Port

theorem ServerPort.sequenceNumber_serve (answer : Message → Answer) (p : Port) (a : Allocators)
    (calls : List CallResult) (stream : List UInt8) (n : ℕ) :
    (serve a answer p calls stream n).map (·.sequenceNumber) =
      (p.receiveAll a calls stream n).1.map (·.sequenceNumber) := by
  induction n generalizing p calls stream with
  | zero => rfl
  | succ n ih =>
    unfold serve Port.receiveAll
    cases hreceive : p.receive a calls stream with
    | mk p' result =>
      cases result with
      | error e => rfl
      | ok received =>
        have hlast := Port.lastSequenceNumber_of_receive hreceive
        dsimp only
        rw [List.map_cons, List.map_cons, ih p' received.calls received.stream]
        congr 1
        cases answer received.value with
        | ret status result0 payload => rfl
        | acknowledgeSessionCreate id => exact hlast

/-- However the sends and the receives are fragmented and interrupted, the messages that a port
returns are the first ones that were given to the other port, and the responses have their numbers.
With enough calls all messages are returned. -/
theorem receiveAll_sendAll (messages : List Message) (p q : Port) (a : Allocators)
    (sends recvs : List CallResult) (answer : Message → Answer) :
    (∀ n stream, stream <+: (p.sendAll sends messages).2.wire →
      (q.receiveAll a recvs stream n).1 <+: messages ∧
      (ServerPort.serve a answer q recvs stream n).map (·.sequenceNumber) <+:
        messages.map (·.sequenceNumber)) ∧
    ((∀ m ∈ messages, m.Transferable ∧ a.allocate m.header = true) →
      Reliable sends → (messages.flatMap Message.encode).length ≤ transfers sends →
      Reliable recvs → (messages.flatMap Message.encode).length ≤ transfers recvs →
      ∃ wire calls, (p.sendAll sends messages).2 = ⟨wire, .ok calls⟩ ∧
        q.receiveAll a recvs wire messages.length = (messages, none) ∧
        (ServerPort.serve a answer q recvs wire messages.length).map (·.sequenceNumber) =
          messages.map (·.sequenceNumber)) := by
  constructor
  · intro n stream hstream
    have hpre := Port.prefix_receiveAll (hstream.trans (Port.prefix_sendAll p sends messages))
      q a recvs n
    refine ⟨hpre, ?_⟩
    rw [ServerPort.sequenceNumber_serve]
    exact hpre.map _
  · intro hmessages hsends hsent hrecvs hreceived
    obtain ⟨calls, hsend⟩ := Port.exists_sendAll hsends (fun m hm => (hmessages m hm).1) hsent p
    have hall := Port.exists_receiveAll hrecvs (fun m hm => (hmessages m hm).1)
      (fun m hm => (hmessages m hm).2) hreceived q
    refine ⟨_, calls, hsend, hall, ?_⟩
    rw [ServerPort.sequenceNumber_serve, hall]

/-- A request with a payload of three bytes, which is transferred byte by byte. -/
def request : Message := ⟨7, 0, 0x31, 1, .data 2 [10, 20, 30] (by decide)⟩

def byteCalls : List CallResult := .error eintr :: List.replicate 19 (.count 1)

theorem reliable_byteCalls : Reliable byteCalls := by
  intro call hcall
  rcases List.mem_cons.mp hcall with rfl | hcount
  · exact .inl rfl
  · exact .inr ⟨0, List.eq_of_mem_replicate hcount⟩

theorem receiveAll_sendAll_request : ∃ wire calls,
    ((⟨0, 0, 0⟩ : Port).sendAll byteCalls [request]).2 = ⟨wire, .ok calls⟩ ∧
      (⟨0, 0, 0⟩ : Port).receiveAll ⟨none, fun _ => true⟩ byteCalls wire 1 = ([request], none) ∧
      (ServerPort.serve ⟨none, fun _ => true⟩ (fun _ => .ret scSuccess 0 (.embedded 0))
        ⟨0, 0, 0⟩ byteCalls wire 1).map (·.sequenceNumber) = [7] :=
  (receiveAll_sendAll [request] ⟨0, 0, 0⟩ ⟨0, 0, 0⟩ ⟨none, fun _ => true⟩ byteCalls byteCalls
    fun _ => .ret scSuccess 0 (.embedded 0)).2
    (fun m hm => by obtain rfl := List.mem_singleton.mp hm; exact ⟨trivial, rfl⟩)
    reliable_byteCalls (by decide) reliable_byteCalls (by decide)

end Simutrace.Rpc
