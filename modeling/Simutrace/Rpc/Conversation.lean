import Simutrace.Rpc.Connection
import Simutrace.Rpc.Framing

/-! # Conversations

The requests of a client are handled in their order, each at most once, and each
call ends with the response to its own request. This holds as long as the client
gives up a port that failed, and the server's socket sends nothing more after it
failed.
-/

namespace Simutrace.Rpc

open SocketChannel Transition

namespace Event

def calls : Event → List Message
  | call m => [m]
  | outcome _ | served _ _ | lost _ | silent => []

def servings : Event → List Served
  | served v _ => [v]
  | call _ | outcome _ | lost _ | silent => []

def outcomes : Event → List Outcome
  | outcome o => [o]
  | call _ | served _ _ | lost _ | silent => []

/-- The bytes that the server sends after a transfer failed. -/
def again : Event → List UInt8
  | served _ again | lost again => again
  | call _ | outcome _ | silent => []

end Event

variable {σ : Type*} {peers : Peers σ} {s s' : Connection σ} {p : Port}
  {calls sends again : List CallResult} {m : Message} {stream missing more : List UInt8}

/-- What the events of a run add up to, in their order. -/
def history {β : Type*} (f : Event → List β) (l : List (Taken (Connection σ) Event)) : List β :=
  l.reverse.flatMap fun x => f x.label

theorem history_cons {β : Type*} (f : Event → List β) (x : Taken (Connection σ) Event)
    (l : List (Taken (Connection σ) Event)) :
    history f (x :: l) = history f l ++ f x.label := by
  simp [history]

/-- The client makes no call on a port that failed. As long as it waits for responses, the server
sends nothing after a transfer failed. -/
structure Regular (x : Taken (Connection σ) Event) : Prop where
  call : x.label.calls ≠ [] → x.before.failed = false
  again : x.before.failed = false → x.label.again = []

namespace Served

def response? : Served → Option Message
  | answered _ response | rejected response => some response
  | dropped _ => none

def bytes (v : Served) : List UInt8 := (v.response?.map Message.encode).getD []

end Served

def Answers (m : Message) : Served → Prop
  | .answered request response => request = m ∧ response.sequenceNumber = m.sequenceNumber
  | .dropped request => request = m
  | .rejected response => response.sequenceNumber = m.sequenceNumber

def Yields (v : Served) (o : Outcome) : Prop :=
  ∃ response, v.response? = some response ∧ o = ClientPort.checkStatus response

/-- Each request has been served, and each call has ended. -/
structure Matched (requests : List Message) (servings : List Served) (outcomes : List Outcome) :
    Prop where
  answered : List.Forall₂ Answers requests servings
  yielded : List.Forall₂ Yields servings outcomes

theorem Answers.sequenceNumber {v : Served} {response : Message} (h : Answers m v)
    (hresponse : v.response? = some response) :
    response.sequenceNumber = m.sequenceNumber := by
  cases v with
  | answered request response' =>
    obtain rfl := Option.some.inj hresponse
    exact h.2
  | dropped request => cases hresponse
  | rejected response' =>
    obtain rfl := Option.some.inj hresponse
    exact h

theorem checkStatus_ne_orderViolation (response : Message) :
    ClientPort.checkStatus response ≠ .orderViolation := by
  unfold ClientPort.checkStatus
  split_ifs
  · cases response.payload <;> exact fun h => by cases h
  · exact fun h => by cases h

theorem checkStatus_failed (p : Port) (m : Message) (e : Exception) :
    ClientPort.checkStatus (ServerPort.failed p m e) = .peer e := rfl

theorem encode_ne_nil (m : Message) : m.encode ≠ [] := by
  intro h
  have hlength := congrArg List.length h
  rw [Message.encode, List.length_append, MessageHeader.length_encode] at hlength
  simp [messageSize] at hlength

/-! ## The transfers -/

theorem Sent.exists_of_isOk {sent : Sent} (h : sent.isOk = true) :
    ∃ calls, sent.result = .ok calls := by
  unfold Sent.isOk at h
  cases hresult : sent.result with
  | ok calls => exact ⟨calls, rfl⟩
  | error e =>
    rw [hresult] at h
    cases h

theorem transmit_wire_prefix (p : Port) (m : Message) (sends : List CallResult) :
    (transmit p m sends).wire <+: m.encode :=
  Port.prefix_send_encode p sends m

theorem transmit_sent (h : (transmit p m sends).sent = true) :
    (transmit p m sends).wire = m.encode :=
  let ⟨_, hresult⟩ := Sent.exists_of_isOk h
  Port.send_ok_encode hresult

theorem transmit_wire_ne_nil (h : (transmit p m sends).sent = true) :
    (transmit p m sends).wire ≠ [] :=
  (transmit_sent h).symm ▸ encode_ne_nil m

theorem transferable_of_sent (h : (transmit p m sends).sent = true) : m.Transferable := by
  obtain ⟨calls, hresult⟩ := Sent.exists_of_isOk h
  unfold Port.send at hresult
  unfold Message.Transferable
  cases hpayload : m.payload with
  | embedded parameter1 | data parameter1 bytes bound => exact trivial
  | handles parameter1 handleCount =>
    by_contra hcount
    rw [hpayload] at hresult
    dsimp only at hresult
    cases hheader : (SocketChannel.send sends m.header.encode).result with
    | error e =>
      rw [hheader] at hresult
      cases hresult
    | ok calls' =>
      rw [hheader] at hresult
      dsimp only [Port.sendPayload] at hresult
      rw [if_neg hcount] at hresult
      cases hresult

/-- The response is sent as far as possible. If nothing is sent after a failure, the server goes on
only after it has sent all of it. -/
structure Transmits (v : Served) (t : Transmission) (goesOn : Bool) : Prop where
  isPrefix : t.wire <+: v.bytes
  complete : goesOn = true → t.again = [] → t.wire = v.bytes
  alive : goesOn = true → t.again = [] →
    ∃ response, v.response? = some response ∧ response.Transferable

theorem Transmits.transmit {v : Served} {response : Message} (hv : v.response? = some response)
    (p : Port) (sends : List CallResult) :
    Transmits v (transmit p response sends) (Rpc.transmit p response sends).sent := by
  have hbytes : v.bytes = response.encode := by rw [Served.bytes, hv]; rfl
  refine ⟨?_, fun h _ => ?_, fun h _ => ⟨response, hv, transferable_of_sent h⟩⟩
  · rw [hbytes]
    exact transmit_wire_prefix p response sends
  · rw [hbytes]
    exact transmit_sent h

theorem Transmits.ret {v : Served} {response : Message} (hv : v.response? = some response)
    (p : Port) (request : Message) (stop : Bool) (sends again : List CallResult) :
    Transmits v (peers.ret p request response stop sends again)
      (peers.ret p request response stop sends again).sent := by
  unfold Peers.ret
  dsimp only
  split
  · exact .transmit hv p sends
  · exact .transmit hv p sends
  · split_ifs
    · exact .transmit hv p sends
    · exact ⟨(Transmits.transmit hv p sends).isPrefix,
        fun hsent hagain => absurd hagain (transmit_wire_ne_nil hsent),
        fun hsent hagain => absurd hagain (transmit_wire_ne_nil hsent)⟩

theorem Transmits.mono {v : Served} {t : Transmission} {b b' : Bool} (h : Transmits v t b)
    (himp : b' = true → b = true) : Transmits v t b' :=
  ⟨h.isPrefix, fun hb => h.complete (himp hb), fun hb => h.alive (himp hb)⟩

theorem mainReply_spec {r : MainReply} {v : Served} {t : Transmission}
    (h : peers.mainReply p m sends again r = some (v, t)) :
    Answers m v ∧ Transmits v t false := by
  cases r with
  | answer result0 payload =>
    cases h
    exact ⟨⟨rfl, rfl⟩, (Transmits.ret rfl p m false sends again).mono fun h => by cases h⟩
  | session id => cases h
  | threw e =>
    cases h
    exact ⟨⟨rfl, rfl⟩, (Transmits.transmit rfl p sends).mono fun h => by cases h⟩
  | fatal =>
    cases h
    exact ⟨rfl, List.prefix_rfl, (fun h => by cases h), fun h => by cases h⟩

theorem reply_spec {r : Reply σ} {v : Served} {t : Transmission} {state state' : σ}
    {goesOn : Bool} (h : peers.reply p m state sends again r = (v, t, state', goesOn)) :
    Answers m v ∧ Transmits v t goesOn := by
  cases r with
  | done stop =>
    cases h
    exact ⟨⟨rfl, rfl⟩, (Transmits.ret rfl p m stop sends again).mono
      fun h => ((Bool.and_eq_true _ _).mp h).1⟩
  | answer result0 payload undo =>
    cases h
    exact ⟨⟨rfl, rfl⟩, .ret rfl p m false sends again⟩
  | threw e =>
    cases h
    exact ⟨⟨rfl, rfl⟩, .transmit rfl p sends⟩
  | fatal =>
    cases h
    exact ⟨rfl, List.prefix_rfl, (fun h => by cases h), fun h => by cases h⟩

theorem SocketChannel.receive_error {size : ℕ} {e : RpcError}
    (h : receive calls size stream = .error e) : e = .blocked ∨ ∃ code, e = .platform code := by
  induction calls generalizing size stream with
  | nil =>
    cases h
    exact .inl rfl
  | cons call calls ih =>
    cases call with
    | error code =>
      unfold receive at h
      split_ifs at h
      · exact ih h
      · cases h
        exact .inr ⟨code, rfl⟩
    | count n =>
      cases n with
      | zero =>
        cases h
        exact .inr ⟨econnreset, rfl⟩
      | succ n =>
        unfold receive at h
        dsimp only at h
        split_ifs at h
        · cases h
          exact .inl rfl
        · cases hrest : receive calls (size - min (min (n + 1) size) stream.length)
              (stream.drop (min (min (n + 1) size) stream.length)) with
          | error e' =>
            rw [hrest] at h
            cases h
            exact ih hrest
          | ok rest =>
            rw [hrest] at h
            cases h

/-- If no system call has failed, the header has been received. -/
theorem Port.lastSequenceNumber_of_error {a : Allocators} {p' : Port} {e : RpcError}
    (h : p.receive a calls stream = (p', .error e)) (hblocked : e ≠ .blocked)
    (hplatform : ∀ code, e ≠ .platform code) :
    stream ≠ [] ∧
      ∀ m : Message, stream <+: m.encode → p'.lastSequenceNumber = m.sequenceNumber := by
  unfold receive at h
  cases hheader : SocketChannel.receive calls messageSize stream with
  | error e' =>
    rw [hheader] at h
    cases h
    rcases receive_error hheader with hb | ⟨code, hp⟩
    · exact absurd hb hblocked
    · exact absurd hp (hplatform code)
  | ok header =>
    rw [hheader] at h
    dsimp only at h
    obtain ⟨hsplit, hlength⟩ := receive_ok hheader
    constructor
    · rintro rfl
      rw [(List.append_eq_nil_iff.mp hsplit.symm).1] at hlength
      cases hlength
    · rintro m ⟨missing, hmissing⟩
      unfold Message.encode at hmissing
      rw [hsplit, List.append_assoc] at hmissing
      obtain ⟨hvalue, -⟩ :=
        List.append_inj hmissing (hlength.trans (MessageHeader.length_encode _).symm)
      rw [hvalue, MessageHeader.decode_encode] at h
      cases hpayload : receivePayload a m.header header.calls header.stream with
      | error e' =>
        rw [hpayload] at h
        cases h
        exact m.sequenceNumber_header
      | ok payload =>
        rw [hpayload] at h
        cases h

/-- What is received from a part of one message is this message, and nothing is left. -/
theorem Port.receive_prefix {a : Allocators} {p' : Port} {received : Received Message}
    (h : p.receive a calls stream = (p', .ok received)) (hstream : stream <+: m.encode) :
    received.value = m ∧ received.stream = [] ∧ p'.lastSequenceNumber = m.sequenceNumber := by
  obtain ⟨missing, hmissing⟩ := hstream
  obtain ⟨hvalue, hrest, hnumber⟩ :=
    receive_message h (hmissing.trans (List.append_nil _).symm)
  exact ⟨hvalue, (List.append_eq_nil_iff.mp hrest).1, hnumber⟩

/-! ## The state between two events -/

namespace Phase

/-- The request was accepted for a session that does not serve it yet. -/
def IsStarting : Phase → Prop
  | starting _ _ _ => True
  | accepting | serving _ | gone => False

end Phase

/-- How the history of a connection and its state belong together. Either all calls have ended, or
the last one waits for its request to be received, to be completed by the worker of a session, or
for its response. -/
inductive Synced (requests : List Message) (servings : List Served) (outcomes : List Outcome)
    (s : Connection σ) : Prop
  | idle (matched : Matched requests servings outcomes) (pending : s.pending = none)
      (ok : s.failed = false) (received : s.phase ≠ .gone → s.requests = [])
      (responses : s.responses = []) (phase : ¬ s.phase.IsStarting)
  | sent {earlier : List Message} {m : Message} (last : requests = earlier ++ [m])
      (matched : Matched earlier servings outcomes) (pending : s.pending = some m)
      (isPrefix : s.phase ≠ .gone → s.requests <+: m.encode)
      (complete : s.phase ≠ .gone → s.failed = false → s.requests = m.encode)
      (transferable : s.failed = false → m.Transferable)
      (responses : s.failed = false → s.responses = []) (phase : ¬ s.phase.IsStarting)
  | starting {earlier : List Message} {m : Message} {version : BitVec 16} {id : BitVec 32}
      (last : requests = earlier ++ [m]) (matched : Matched earlier servings outcomes)
      (pending : s.pending = some m) (phase : s.phase = .starting m version id)
      (number : s.server.lastSequenceNumber = m.sequenceNumber) (received : s.requests = [])
      (transferable : s.failed = false → m.Transferable)
      (responses : s.failed = false → s.responses = [])
  | served {earlier : List Message} {m : Message} {before : List Served} {v : Served}
      (last : requests = earlier ++ [m]) (lastServed : servings = before ++ [v])
      (matched : Matched earlier before outcomes) (answers : Answers m v)
      (pending : s.pending = some m) (received : s.phase ≠ .gone → s.requests = [])
      (isPrefix : s.failed = false → s.responses <+: v.bytes)
      (complete : s.phase ≠ .gone → s.failed = false → s.responses = v.bytes)
      (alive : s.phase ≠ .gone → s.failed = false →
        ∃ response, v.response? = some response ∧ response.Transferable)
      (phase : ¬ s.phase.IsStarting)

namespace Synced

variable {requests : List Message} {servings : List Served} {outcomes : List Outcome}

theorem receives (h : Synced requests servings outcomes s) {a : Allocators} {p' : Port}
    {received : Received Message} (hgone : s.phase ≠ .gone)
    (hreceive : p.receive a calls s.requests = (p', .ok received)) :
    ∃ earlier, requests = earlier ++ [received.value] ∧ Matched earlier servings outcomes ∧
      s.pending = some received.value ∧ received.stream = [] ∧
      p'.lastSequenceNumber = received.value.sequenceNumber ∧
      (s.failed = false → received.value.Transferable) ∧
      (s.failed = false → s.responses = []) := by
  cases h with
  | idle _ _ _ hreceived _ _ =>
    rw [hreceived hgone] at hreceive
    exact absurd hreceive Port.receive_nil
  | sent hlast hmatched hpending hpart _ ht hresponses _ =>
    obtain ⟨rfl, hrest, hnumber⟩ := Port.receive_prefix hreceive (hpart hgone)
    exact ⟨_, hlast, hmatched, hpending, hrest, hnumber, ht, hresponses⟩
  | starting _ _ _ _ _ hreceived _ _ =>
    rw [hreceived] at hreceive
    exact absurd hreceive Port.receive_nil
  | served _ _ _ _ _ hreceived _ _ _ _ =>
    rw [hreceived hgone] at hreceive
    exact absurd hreceive Port.receive_nil

theorem serve {earlier : List Message} {v : Served} {t : Transmission} {goesOn : Bool}
    {phase : Phase} (hlast : requests = earlier ++ [m])
    (hmatched : Matched earlier servings outcomes) (hpending : s.pending = some m)
    (hresponses : s.failed = false → s.responses = []) (hv : Answers m v)
    (ht : Transmits v t goesOn) (hagain : s.failed = false → t.again = [])
    (hgoesOn : phase ≠ .gone → goesOn = true) (hphase : ¬ phase.IsStarting) {rest : List UInt8}
    (hrest : phase ≠ .gone → rest = []) (state : σ) :
    Synced requests (servings ++ [v]) outcomes
      { s.sent t with requests := rest, phase := phase, state := state } := by
  have hwire (hok : s.failed = false) : s.responses ++ (t.wire ++ t.again) = t.wire := by
    rw [hresponses hok, hagain hok, List.append_nil, List.nil_append]
  refine .served hlast rfl hmatched hv hpending hrest (fun hok => ?_) (fun hgone hok => ?_)
    (fun hgone hok => ht.alive (hgoesOn hgone) (hagain hok)) hphase
  · change s.responses ++ (t.wire ++ t.again) <+: v.bytes
    rw [hwire hok]
    exact ht.isPrefix
  · exact (hwire hok).trans (ht.complete (hgoesOn hgone) (hagain hok))

theorem call (h : Synced requests servings outcomes s) (hidle : s.pending = none)
    (sends : List CallResult) :
    Synced (requests ++ [m]) servings outcomes { s with
      client := (s.client.send sends m).1
      nextSequenceNumber := s.nextSequenceNumber + 1
      pending := some m
      failed := !(s.client.send sends m).2.isOk
      requests := s.requests ++ (s.client.send sends m).2.wire } := by
  cases h with
  | idle hmatched _ _ hreceived hresponses hphase =>
    refine .sent rfl hmatched rfl (fun hgone => ?_) (fun hgone hok => ?_)
      (fun hok => transferable_of_sent ((Bool.not_eq_false' _).mp hok)) (fun _ => hresponses) hphase
    · rw [hreceived hgone]
      exact Port.prefix_send_encode _ _ _
    · rw [hreceived hgone]
      exact transmit_sent ((Bool.not_eq_false' _).mp hok)
  | sent _ _ hpending _ _ _ _ _ | starting _ _ hpending _ _ _ _ _
  | served _ _ _ _ hpending _ _ _ _ _ =>
    rw [hidle] at hpending
    cases hpending

/-- The response that the client receives is the one to its call. -/
theorem returned (h : Synced requests servings outcomes s) (hpending : s.pending = some m)
    (hok : s.failed = false) {a : Allocators} {p' : Port} {received : Received Message}
    (hreceive : p.receive a calls s.responses = (p', .ok received)) :
    Synced requests servings (outcomes ++ [ClientPort.finishCall m received.value])
      { s with client := p', pending := none, responses := received.stream } := by
  have hnil (hnil : s.responses = []) : False := by
    rw [hnil] at hreceive
    exact Port.receive_nil hreceive
  cases h with
  | idle _ _ _ _ hresponses _ => exact (hnil hresponses).elim
  | sent _ _ _ _ _ _ hresponses _ | starting _ _ _ _ _ _ _ hresponses =>
    exact (hnil (hresponses hok)).elim
  | @served earlier m' before v hlast hserved hmatched hanswers hpending' hreceived hpart _
      _ hphase =>
    obtain rfl : m' = m := Option.some.inj (hpending'.symm.trans hpending)
    have hpart := hpart hok
    cases hresponse : v.response? with
    | none =>
      rw [Served.bytes, hresponse] at hpart
      exact (hnil (List.prefix_nil.mp hpart)).elim
    | some response =>
      rw [Served.bytes, hresponse] at hpart
      obtain ⟨rfl, hrest, -⟩ := Port.receive_prefix hreceive hpart
      have hfinish : ClientPort.finishCall m' received.value =
          ClientPort.checkStatus received.value :=
        if_neg (not_not_intro (hanswers.sequenceNumber hresponse))
      refine .idle ?_ rfl hok hreceived hrest hphase
      subst hlast hserved
      exact ⟨List.rel_append hmatched.answered (.cons hanswers .nil),
        List.rel_append hmatched.yielded (.cons ⟨_, hresponse, hfinish⟩ .nil)⟩

theorem callThrew (h : Synced requests servings outcomes s) (hpending : s.pending = some m)
    (p : Port) (responses : List UInt8) :
    Synced requests servings outcomes
      { s with client := p, failed := true, responses := responses } := by
  cases h with
  | idle _ hnone _ _ _ _ =>
    rw [hpending] at hnone
    cases hnone
  | sent hlast hmatched hpending' hpart _ _ _ hphase =>
    exact .sent hlast hmatched hpending' hpart (fun _ h => by cases h) (fun h => by cases h)
      (fun h => by cases h) hphase
  | starting hlast hmatched hpending' hphase hnumber hreceived _ _ =>
    exact .starting hlast hmatched hpending' hphase hnumber hreceived (fun h => by cases h)
      fun h => by cases h
  | served hlast hserved hmatched hanswers hpending' hreceived _ _ _ hphase =>
    exact .served hlast hserved hmatched hanswers hpending' hreceived (fun h => by cases h)
      (fun _ h => by cases h) (fun _ h => by cases h) hphase

theorem drop (h : Synced requests servings outcomes s) {s' : Connection σ}
    (hpending : s'.pending = s.pending) (hfailed : s'.failed = s.failed)
    (hresponses : s.failed = false → s'.responses = s.responses) (hphase : s'.phase = .gone) :
    Synced requests servings outcomes s' := by
  have hgone {P : Prop} (h : s'.phase ≠ .gone) : P := absurd hphase h
  have hstarting : ¬ s'.phase.IsStarting := by
    rw [hphase]
    exact fun h => h
  cases h with
  | idle hmatched hnone hok _ hnil _ =>
    exact .idle hmatched (hpending.trans hnone) (hfailed.trans hok) hgone
      ((hresponses hok).trans hnil) hstarting
  | sent hlast hmatched hsome _ _ ht hnil _ | starting hlast hmatched hsome _ _ _ ht hnil =>
    exact .sent hlast hmatched (hpending.trans hsome) hgone hgone (fun h => ht (hfailed ▸ h))
      (fun h => (hresponses (hfailed ▸ h)).trans (hnil (hfailed ▸ h))) hstarting
  | served hlast hserved hmatched hanswers hsome _ hpart _ _ _ =>
    exact .served hlast hserved hmatched hanswers (hpending.trans hsome) hgone
      (fun h => (hresponses (hfailed ▸ h)).symm ▸ hpart (hfailed ▸ h)) hgone hgone hstarting

theorem processed (h : Synced requests servings outcomes s) {a : Allocators} {p' : Port}
    {received : Received Message} {state : σ} {r : MainReply} {v : Served} {t : Transmission}
    (phase : s.phase = .accepting)
    (receives : p.receive a calls s.requests = (p', .ok received))
    (replied : peers.mainReply p' received.value sends again r = some (v, t))
    (hagain : s.failed = false → t.again = []) :
    Synced requests (servings ++ [v]) outcomes
      { s.sent t with requests := received.stream, phase := .gone, state := state } := by
  have hgone : s.phase ≠ .gone := by
    rw [phase]
    exact nofun
  obtain ⟨earlier, hlast, hmatched, hpending, _, _, _, hresponses⟩ := h.receives hgone receives
  obtain ⟨hanswers, htransmits⟩ := mainReply_spec replied
  exact serve hlast hmatched hpending hresponses hanswers htransmits hagain
    (fun h => absurd rfl h) (fun h => h) (fun h => absurd rfl h) state

theorem accepted (h : Synced requests servings outcomes s) {a : Allocators} {p' : Port}
    {received : Received Message} (phase : s.phase = .accepting)
    (receives : p.receive a calls s.requests = (p', .ok received)) (state : σ)
    (version : BitVec 16) (id : BitVec 32) :
    Synced requests servings outcomes { s with
      server := p'
      requests := received.stream
      phase := .starting received.value version id
      state := state } := by
  have hgone : s.phase ≠ .gone := by
    rw [phase]
    exact nofun
  obtain ⟨earlier, hlast, hmatched, hpending, hrest, hnumber, ht, hresponses⟩ :=
    h.receives hgone receives
  exact .starting hlast hmatched hpending rfl hnumber hrest ht hresponses

/-- The main server answers a request that it could not receive completely. -/
theorem rejected (h : Synced requests servings outcomes s) {a : Allocators} {p' : Port}
    {e : RpcError} {rest : List UInt8} (phase : s.phase = .accepting)
    (receives : p.receive a calls s.requests = (p', .error e)) (finished : e ≠ .blocked)
    (transferred : ∀ code, e ≠ .platform code)
    (hagain : s.failed = false → (transmit p'
      (Connection.rejection peers p' p'.lastSequenceNumber e) sends).again = []) :
    Synced requests
      (servings ++ [.rejected (Connection.rejection peers p' p'.lastSequenceNumber e)]) outcomes
      { s.sent (transmit p' (Connection.rejection peers p' p'.lastSequenceNumber e) sends) with
        requests := rest
        phase := .gone } := by
  obtain ⟨hne, hnumber⟩ := Port.lastSequenceNumber_of_error receives finished transferred
  have hgone : s.phase ≠ .gone := by
    rw [phase]
    exact nofun
  have hend {P : Prop} (hnil : s.requests = []) : P := absurd hnil hne
  cases h with
  | idle _ _ _ hreceived _ _ => exact hend (hreceived hgone)
  | starting _ _ _ _ _ hreceived _ _ => exact hend hreceived
  | served _ _ _ _ _ hreceived _ _ _ _ => exact hend (hreceived hgone)
  | @sent earlier m hlast hmatched hpending hpart _ _ hresponses _ =>
    have hanswers :
        Answers m (.rejected (Connection.rejection peers p' p'.lastSequenceNumber e)) :=
      hnumber m (hpart hgone)
    exact serve hlast hmatched hpending hresponses hanswers (.transmit rfl p' sends)
      hagain (fun h => absurd rfl h) (fun h => h) (fun h => absurd rfl h) s.state

theorem lost (h : Synced requests servings outcomes s) (t : Transmission) (rest : List UInt8)
    (again : t.again = []) (hagain : s.failed = false → t.wire = []) :
    Synced requests servings outcomes { s.sent t with requests := rest, phase := .gone } := by
  refine h.drop rfl rfl (fun hok => ?_) rfl
  change s.responses ++ (t.wire ++ t.again) = s.responses
  rw [again, List.append_nil, hagain hok, List.append_nil]

/-- The worker of the new session completes the request. -/
theorem acknowledged (h : Synced requests servings outcomes s) {version : BitVec 16}
    {id : BitVec 32} {response : Message} (phase : s.phase = .starting m version id)
    (acknowledges : ServerPort.respond s.server m (.acknowledgeSessionCreate id) = response)
    (hagain : s.failed = false → (transmit s.server response sends).again = []) :
    Synced requests (servings ++ [.answered m response]) outcomes
      { s.sent (transmit s.server response sends) with
        phase := if (transmit s.server response sends).sent then .serving version else .gone } := by
  cases h with
  | idle _ _ _ _ _ hnot | sent _ _ _ _ _ _ _ hnot | served _ _ _ _ _ _ _ _ _ hnot =>
    rw [phase] at hnot
    exact (hnot trivial).elim
  | @starting earlier m' version' id' hlast hmatched hpending phase' hnumber hreceived
      _ hresponses =>
    obtain ⟨rfl, rfl, rfl⟩ := Phase.starting.inj (phase.symm.trans phase')
    have hanswers : Answers m (.answered m response) := by
      refine ⟨rfl, ?_⟩
      rw [← acknowledges]
      exact hnumber
    refine serve hlast hmatched hpending hresponses hanswers (.transmit rfl s.server sends)
      hagain (fun hgone => ?_) ?_ (fun _ => hreceived) s.state
    · by_contra hsent
      exact hgone (if_neg hsent)
    · split_ifs <;> exact fun h => h

/-- The worker of a session serves a request. -/
theorem handled (h : Synced requests servings outcomes s) {a : Allocators} {p' : Port}
    {received : Received Message} {version : BitVec 16} {state state' : σ} {r : Reply σ}
    {v : Served} {t : Transmission} {goesOn : Bool} (phase : s.phase = .serving version)
    (receives : p.receive a calls s.requests = (p', .ok received))
    (replied : peers.reply p' received.value state sends again r = (v, t, state', goesOn))
    (hagain : s.failed = false → t.again = []) :
    Synced requests (servings ++ [v]) outcomes
      { s.sent t with
        requests := received.stream
        phase := if goesOn then .serving version else .gone
        state := state' } := by
  have hgone : s.phase ≠ .gone := by
    rw [phase]
    exact nofun
  obtain ⟨earlier, hlast, hmatched, hpending, hrest, _, _, hresponses⟩ := h.receives hgone receives
  obtain ⟨hanswers, htransmits⟩ := reply_spec replied
  refine serve hlast hmatched hpending hresponses hanswers htransmits hagain (fun hgone => ?_)
    ?_ (fun _ => hrest) state'
  · by_contra hgoesOn
    exact hgone (if_neg hgoesOn)
  · split_ifs <;> exact fun h => h

theorem other (h : Synced requests servings outcomes s) (state : σ) :
    Synced requests servings outcomes { s with state := state } := by
  cases h with
  | idle hmatched hpending hok hreceived hresponses hphase =>
    exact .idle hmatched hpending hok hreceived hresponses hphase
  | sent hlast hmatched hpending hpart hcomplete ht hresponses hphase =>
    exact .sent hlast hmatched hpending hpart hcomplete ht hresponses hphase
  | starting hlast hmatched hpending hphase hnumber hreceived ht hresponses =>
    exact .starting hlast hmatched hpending hphase hnumber hreceived ht hresponses
  | served hlast hserved hmatched hanswers hpending hreceived hpart hcomplete halive hphase =>
    exact .served hlast hserved hmatched hanswers hpending hreceived hpart hcomplete halive hphase

/-- One step of either side, in a run in which nothing is sent after a failure. -/
theorem step (h : Synced requests servings outcomes s) {e : Event}
    (hstep : Connection.Step peers s e s') (hregular : Regular ⟨s, e, s'⟩) :
    Synced (requests ++ e.calls) (servings ++ e.servings) (outcomes ++ e.outcomes) s' := by
  have hagain := hregular.again
  cases hstep with
  | @call m sends hidle _ =>
    have hok : s.failed = false := hregular.call (List.cons_ne_nil _ _)
    simp only [Event.calls, Event.servings, Event.outcomes, List.append_nil]
    refine h.call (hidle.resolve_right fun hfailed => ?_) sends
    rw [hok] at hfailed
    cases hfailed
  | returned hpending hok hreceive =>
    simp only [Event.calls, Event.servings, Event.outcomes, List.append_nil]
    exact h.returned hpending hok hreceive
  | callThrew hpending =>
    simp only [Event.calls, Event.servings, Event.outcomes, List.append_nil]
    exact h.callThrew hpending _ _
  | processed phase receives _ replied =>
    simp only [Event.calls, Event.servings, Event.outcomes, List.append_nil]
    exact h.processed phase receives replied hagain
  | accepted phase receives _ =>
    simp only [Event.calls, Event.servings, Event.outcomes, List.append_nil]
    exact h.accepted phase receives _ _ _
  | rejected phase receives finished transferred =>
    simp only [Event.calls, Event.servings, Event.outcomes, List.append_nil]
    exact h.rejected phase receives finished transferred hagain
  | lost _ _ replied =>
    simp only [Event.calls, Event.servings, Event.outcomes, List.append_nil]
    subst replied
    exact h.lost _ _ rfl hagain
  | acknowledged phase acknowledges replied =>
    simp only [Event.calls, Event.servings, Event.outcomes, List.append_nil]
    subst replied
    exact h.acknowledged phase acknowledges hagain
  | handled phase receives _ replied =>
    simp only [Event.calls, Event.servings, Event.outcomes, List.append_nil]
    exact h.handled phase receives replied hagain
  | dropped | closed =>
    simp only [Event.calls, Event.servings, Event.outcomes, List.append_nil]
    exact h.drop rfl rfl (fun _ => rfl) rfl
  | other =>
    simp only [Event.calls, Event.servings, Event.outcomes, List.append_nil]
    exact h.other _

theorem run {l : List (Taken (Connection σ) Event)}
    (run : Run Connection.Initial (Connection.Step peers) l s) (hregular : ∀ x ∈ l, Regular x) :
    Synced (history Event.calls l) (history Event.servings l) (history Event.outcomes l) s := by
  induction run with
  | start initial =>
    refine .idle ⟨.nil, .nil⟩ initial.pending initial.failed (fun _ => initial.requests)
      initial.responses ?_
    rw [initial.phase]
    exact fun h => h
  | step run taken ih =>
    rw [history_cons, history_cons, history_cons]
    exact (ih fun x hx => hregular x (List.mem_cons_of_mem _ hx)).step taken
      (hregular _ List.mem_cons_self)

end Synced

end Simutrace.Rpc
