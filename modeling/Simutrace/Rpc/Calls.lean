import Simutrace.Rpc.Conversation

/-! # Calls

A call ends with the result of the handler that its request was given to, or with
the exception that the handler threw. While the server keeps the connection, no
call waits for ever.
-/

namespace Simutrace.Rpc

open SocketChannel Transition

variable {σ : Type*} {peers : Peers σ} {s s' : Connection σ} {p : Port} {m response : Message}
  {sends again : List CallResult} {l : List (Taken (Connection σ) Event)}

/-- The caller learns what a handler of the main server has done. -/
def MainReply.Told (response : Message) : MainReply → Prop
  | answer result0 payload =>
    ClientPort.checkStatus response = .returned response ∧ response.parameter0 = result0 ∧
      response.payload = payload
  | threw e => ClientPort.checkStatus response = .peer e
  | session _ | fatal => False

/-- The caller learns what a handler of a worker has done. -/
def Reply.Told (response : Message) : Reply σ → Prop
  | done _ =>
    ClientPort.checkStatus response = .returned response ∧ response.parameter0 = 0 ∧
      response.payload = .embedded 0
  | answer result0 payload _ =>
    ClientPort.checkStatus response = .returned response ∧ response.parameter0 = result0 ∧
      response.payload = payload
  | threw e => ClientPort.checkStatus response = .peer e
  | fatal => False

/-- The response of an answered request is the one of its handler, which was called in the state of
the server at that time. -/
structure Told (peers : Peers σ) (s : Connection σ) (request response : Message) : Prop where
  main : s.phase = .accepting → (peers.mainHandle request s.state).1.Told response
  session : ∀ m version id, s.phase = .starting m version id → request = m ∧
    ClientPort.checkStatus response = .returned response ∧ response.parameter0 = id
  worker : ∀ version, s.phase = .serving version →
    (peers.handle version request s.state).1.Told response
  alive : s.phase ≠ .gone

theorem checkStatus_of_success (h : response.code = scSuccess) :
    ClientPort.checkStatus response = .returned response := by
  unfold ClientPort.checkStatus
  rw [h]
  exact if_neg (by decide)

theorem mainReply_told {r : MainReply} {t : Transmission}
    (h : peers.mainReply p m sends again r = some (.answered m response, t)) :
    r.Told response := by
  cases r with
  | answer result0 payload =>
    cases h
    exact ⟨checkStatus_of_success rfl, rfl, rfl⟩
  | session id | fatal => cases h
  | threw e =>
    cases h
    exact checkStatus_failed p m e

theorem reply_told {r : Reply σ} {t : Transmission} {state state' : σ} {goesOn : Bool}
    (h : peers.reply p m state sends again r = (.answered m response, t, state', goesOn)) :
    r.Told response := by
  cases r with
  | done stop =>
    cases h
    exact ⟨checkStatus_of_success rfl, rfl, rfl⟩
  | answer result0 payload undo =>
    cases h
    exact ⟨checkStatus_of_success rfl, rfl, rfl⟩
  | threw e =>
    cases h
    exact checkStatus_failed p m e
  | fatal => cases h

theorem told_of_step {e : Event} {request : Message} {bytes : List UInt8}
    (h : Connection.Step peers s e s') (he : e = .served (.answered request response) bytes) :
    Told peers s request response := by
  cases h with
  | call | returned | callThrew | accepted | rejected | lost | dropped | closed | other => cases he
  | @processed p calls sends again received state r v t hphase _ hhandled hreplied =>
    injection he with hv _
    subst hv
    obtain rfl := (mainReply_spec hreplied).1.1
    have htold := mainReply_told hreplied
    constructor
    · intro _
      rw [hhandled]
      exact htold
    all_goals simp [hphase]
  | @acknowledged m version id response' sends t hphase hacknowledges _ =>
    injection he with hv _
    obtain ⟨rfl, rfl⟩ := Served.answered.inj hv
    subst hacknowledges
    constructor
    · simp [hphase]
    · intro m' version' id' hphase'
      obtain ⟨rfl, rfl, rfl⟩ := Phase.starting.inj (hphase.symm.trans hphase')
      exact ⟨rfl, checkStatus_of_success rfl, rfl⟩
    all_goals simp [hphase]
  | @handled p calls sends again received version state state' r v t goesOn hphase _ hhandled
      hreplied =>
    injection he with hv _
    subst hv
    obtain rfl := (reply_spec hreplied).1.1
    have htold := reply_told hreplied
    refine ⟨?_, ?_, fun version' hphase' => ?_, ?_⟩
    · simp [hphase]
    · simp [hphase]
    · obtain rfl := Phase.serving.inj (hphase.symm.trans hphase')
      rw [hhandled]
      exact htold
    · simp [hphase]

/-- Each request is served at most once, in the order of the calls, and each call has ended with
the response to its own request, in the same order. No call has found a response of another one. The
client learns what the handler of its request has done. -/
structure Conversation (peers : Peers σ) (l : List (Taken (Connection σ) Event)) : Prop where
  served : ∃ requests, requests <+: history Event.calls l ∧
    List.Forall₂ Answers requests (history Event.servings l)
  ended : ∃ servings, servings <+: history Event.servings l ∧
    List.Forall₂ Yields servings (history Event.outcomes l)
  synchronous : (history Event.calls l).length ≤ (history Event.outcomes l).length + 1
  ordered : Outcome.orderViolation ∉ history Event.outcomes l
  told : ∀ x ∈ l, ∀ request response again,
    x.label = .served (.answered request response) again → Told peers x.before request response

theorem Matched.length {requests : List Message} {servings : List Served}
    {outcomes : List Outcome} (h : Matched requests servings outcomes) :
    requests.length = outcomes.length :=
  h.answered.length_eq.trans h.yielded.length_eq

theorem Matched.ordered {requests : List Message} {servings : List Served}
    {outcomes : List Outcome} (h : Matched requests servings outcomes) :
    Outcome.orderViolation ∉ outcomes := by
  intro hmem
  obtain ⟨i, hi, hget⟩ := List.mem_iff_getElem.mp hmem
  have hi' : i < servings.length := h.yielded.length_eq ▸ hi
  obtain ⟨response, -, houtcome⟩ := h.yielded.get hi' hi
  simp only [List.get_eq_getElem] at houtcome
  exact checkStatus_ne_orderViolation response (houtcome.symm.trans hget)

/-- Every run is such a conversation, as long as the client gives up a port that failed and the
server's socket sends nothing more after it failed. -/
theorem calls_matched (run : Run Connection.Initial (Connection.Step peers) l s)
    (regular : ∀ x ∈ l, Regular x) : Conversation peers l := by
  have hstep : Invariant Connection.Initial (Connection.Step peers) fun _ => True :=
    ⟨fun _ _ => trivial, fun _ _ _ _ _ => trivial⟩
  have htold : ∀ x ∈ l, ∀ request response again,
      x.label = .served (.answered request response) again →
        Told peers x.before request response :=
    fun x hx request response again he => told_of_step (hstep.taken run x hx).2 he
  cases Synced.run run regular with
  | idle hmatched _ _ _ _ _ =>
    exact ⟨⟨_, List.prefix_rfl, hmatched.answered⟩, ⟨_, List.prefix_rfl, hmatched.yielded⟩,
      hmatched.length.le.trans (Nat.le_succ _), hmatched.ordered, htold⟩
  | sent hlast hmatched _ _ _ _ _ _ | starting hlast hmatched _ _ _ _ _ _ =>
    refine ⟨⟨_, hlast ▸ List.prefix_append _ _, hmatched.answered⟩,
      ⟨_, List.prefix_rfl, hmatched.yielded⟩, ?_, hmatched.ordered, htold⟩
    rw [hlast, List.length_append, hmatched.length]
    rfl
  | served hlast hserved hmatched hanswers _ _ _ _ _ _ =>
    refine ⟨⟨_, List.prefix_rfl, ?_⟩, ⟨_, hserved ▸ List.prefix_append _ _, hmatched.yielded⟩,
      ?_, hmatched.ordered, htold⟩
    · rw [hlast, hserved]
      exact List.rel_append hmatched.answered (.cons hanswers .nil)
    · rw [hlast, List.length_append, hmatched.length]
      rfl

/-! ## Calls that end -/

def Payload.Transferable (payload : Payload) : Prop :=
  ∀ m : Message, m.payload = payload → m.Transferable

/-- The handler comes to an end with an answer that a socket can transfer. -/
def MainReply.Transfers : MainReply → Prop
  | answer _ payload => payload.Transferable
  | session _ | threw _ => True
  | fatal => False

def Reply.Transfers : Reply σ → Prop
  | answer _ payload _ => payload.Transferable
  | done _ | threw _ => True
  | fatal => False

/-- All handlers come to an end with an answer, and there is memory for the payloads. -/
structure Responsive (peers : Peers σ) : Prop where
  main : ∀ m state, (peers.mainHandle m state).1.Transfers
  worker : ∀ version m state, (peers.handle version m state).1.Transfers
  malloc : ∀ state n, (peers.allocators state).malloc n = true
  memory : ∀ state h, (peers.allocators state).allocate h = true
  client : ∀ h, peers.clientAllocators.allocate h = true

/-- A call that waits can end, in a few steps that transfer whatever there is to transfer. -/
def Ends (peers : Peers σ) (l : List (Taken (Connection σ) Event)) : Prop :=
  ∃ l' s', Run Connection.Initial (Connection.Step peers) (l' ++ l) s' ∧
    (∀ x ∈ l', Regular x) ∧ s'.pending = none ∧ s'.failed = false ∧
    ∃ o, history Event.outcomes (l' ++ l) = history Event.outcomes l ++ [o]

theorem Ends.step {x : Taken (Connection σ) Event} (h : Ends peers (x :: l)) (hregular : Regular x)
    (houtcomes : x.label.outcomes = []) : Ends peers l := by
  obtain ⟨l', s', hrun, hall, hpending, hok, o, houtcome⟩ := h
  refine ⟨l' ++ [x], s', ?_, ?_, hpending, hok, o, ?_⟩
  · rwa [List.append_assoc]
  · intro y hy
    rcases List.mem_append.mp hy with hy | hy
    · exact hall y hy
    · obtain rfl := List.mem_singleton.mp hy
      exact hregular
  · rw [List.append_assoc]
    rw [history_cons, houtcomes, List.append_nil] at houtcome
    exact houtcome

theorem reliable_replicate (n : ℕ) : Reliable (List.replicate n (.count 1)) :=
  fun _ hcall => .inr ⟨0, List.eq_of_mem_replicate hcall⟩

theorem transfers_replicate (n : ℕ) : transfers (List.replicate n (.count 1)) = n := by
  induction n with
  | zero => rfl
  | succ n ih => rw [List.replicate_succ, transfers_count, ih]

theorem exists_transmit (ht : m.Transferable) (p : Port) :
    ∃ sends, (transmit p m sends).sent = true := by
  obtain ⟨calls, hresult, -, -⟩ := Port.exists_send_message (reliable_replicate m.encode.length) ht
    (transfers_replicate _).ge p
  refine ⟨List.replicate m.encode.length (.count 1), ?_⟩
  unfold transmit Sent.isOk
  dsimp only
  rw [hresult]

theorem exists_receive_encode {a : Allocators} (ht : m.Transferable)
    (hallocate : a.allocate m.header = true) (p : Port) :
    ∃ calls p' received, p.receive a calls m.encode = (p', .ok received) ∧ received.value = m ∧
      received.stream = [] := by
  obtain ⟨p', received, hreceive, -, -⟩ :=
    Port.exists_receive_message (reliable_replicate m.encode.length) ht hallocate
      (List.append_nil _).symm (transfers_replicate _).ge p
  obtain ⟨hvalue, hrest, -⟩ := Port.receive_prefix hreceive List.prefix_rfl
  exact ⟨_, p', received, hreceive, hvalue, hrest⟩

theorem ret_of_sent {request : Message} {stop : Bool} {again : List CallResult}
    (h : (transmit p response sends).sent = true) :
    peers.ret p request response stop sends again = transmit p response sends := by
  obtain ⟨calls, hresult⟩ := Sent.exists_of_isOk h
  unfold Peers.ret
  dsimp only
  rw [hresult]

theorem transferable_failed (p : Port) (m : Message) (e : Exception) :
    (ServerPort.failed p m e).Transferable := trivial

/-- The response of a handler is sent as a whole. -/
def Sends (v : Served) (t : Transmission) : Prop :=
  t.again = [] ∧ ∃ response, v.response? = some response ∧ response.Transferable ∧
    t.wire = response.encode

theorem exists_mainReply {r : MainReply} (hr : r.Transfers) (hsession : ∀ id, r ≠ .session id)
    (p : Port) (m : Message) :
    ∃ sends again v t, peers.mainReply p m sends again r = some (v, t) ∧ Sends v t := by
  cases r with
  | answer result0 payload =>
    have ht := hr (ServerPort.respond p m (.ret scSuccess result0 payload)) rfl
    obtain ⟨sends, hsent⟩ := exists_transmit ht p
    refine ⟨sends, [], _, _, rfl, ?_, _, rfl, ht, ?_⟩
    · rw [ret_of_sent hsent]
      rfl
    · rw [ret_of_sent hsent]
      exact transmit_sent hsent
  | session id => exact absurd rfl (hsession id)
  | threw e =>
    obtain ⟨sends, hsent⟩ := exists_transmit (transferable_failed p m e) p
    exact ⟨sends, [], _, _, rfl, rfl, _, rfl, transferable_failed p m e, transmit_sent hsent⟩
  | fatal => exact hr.elim

theorem exists_reply {r : Reply σ} (hr : r.Transfers) (p : Port) (m : Message) (state : σ) :
    ∃ sends again, Sends (peers.reply p m state sends again r).1
      (peers.reply p m state sends again r).2.1 := by
  cases r with
  | done stop =>
    have ht : (ServerPort.respond p m (.ret scSuccess 0 (.embedded 0))).Transferable := trivial
    obtain ⟨sends, hsent⟩ := exists_transmit ht p
    refine ⟨sends, [], ?_, _, rfl, ht, ?_⟩
    · dsimp only [Peers.reply]
      rw [ret_of_sent hsent]
      rfl
    · dsimp only [Peers.reply]
      rw [ret_of_sent hsent]
      exact transmit_sent hsent
  | answer result0 payload undo =>
    have ht := hr (ServerPort.respond p m (.ret scSuccess result0 payload)) rfl
    obtain ⟨sends, hsent⟩ := exists_transmit ht p
    refine ⟨sends, [], ?_, _, rfl, ht, ?_⟩
    · dsimp only [Peers.reply]
      rw [ret_of_sent hsent]
      rfl
    · dsimp only [Peers.reply]
      rw [ret_of_sent hsent]
      exact transmit_sent hsent
  | threw e =>
    obtain ⟨sends, hsent⟩ := exists_transmit (transferable_failed p m e) p
    exact ⟨sends, [], rfl, _, rfl, transferable_failed p m e, transmit_sent hsent⟩
  | fatal => exact hr.elim

section Ends

variable (run : Run Connection.Initial (Connection.Step peers) l s) (hpending : s.pending = some m)
  (hok : s.failed = false) (hr : Responsive peers)

include run hpending hok hr

theorem ends_of_response (ht : response.Transferable) (hresponses : s.responses = response.encode) :
    Ends peers l := by
  obtain ⟨calls, p', received, hreceive, -, -⟩ :=
    exists_receive_encode ht (hr.client response.header) s.client
  rw [← hresponses] at hreceive
  have hstep := Connection.Step.returned hpending hok hreceive
  refine ⟨[_], _, run.step hstep, ?_, rfl, hok, _, history_cons Event.outcomes _ l⟩
  intro x hx
  obtain rfl := List.mem_singleton.mp hx
  exact ⟨fun h => absurd rfl h, fun _ => rfl⟩

theorem ends_of_sent {s₀ : Connection σ} {v : Served} {t : Transmission} (hsends : Sends v t)
    (hnil : s₀.responses = []) (hresponses : s.responses = s₀.responses ++ (t.wire ++ t.again)) :
    Ends peers l := by
  obtain ⟨hagain, response, -, ht, hwire⟩ := hsends
  rw [hnil, hagain, hwire, List.append_nil, List.nil_append] at hresponses
  exact ends_of_response run hpending hok hr ht hresponses

theorem ends_of_starting {request : Message} {version : BitVec 16} {id : BitVec 32}
    (hphase : s.phase = .starting request version id) (hnil : s.responses = []) :
    Ends peers l := by
  have ht : (ServerPort.respond s.server request (.acknowledgeSessionCreate id)).Transferable :=
    trivial
  obtain ⟨sends, hsent⟩ := exists_transmit ht s.server
  have hreplied : transmit s.server (ServerPort.respond s.server request
      (.acknowledgeSessionCreate id)) sends = _ := rfl
  have hstep : Connection.Step peers s _ _ := .acknowledged hphase rfl hreplied
  have hsends : Sends (.answered request _) _ := ⟨rfl, _, rfl, ht, transmit_sent hsent⟩
  exact Ends.step (ends_of_sent (run.step hstep) hpending hok hr hsends hnil rfl)
    ⟨fun h => absurd rfl h, fun _ => rfl⟩ rfl

theorem ends_of_request (hgone : s.phase ≠ .gone) (hstarting : ¬ s.phase.IsStarting)
    (ht : m.Transferable) (hrequests : s.requests = m.encode) (hnil : s.responses = []) :
    Ends peers l := by
  have hallocate : (s.allocators peers).allocate m.header = true := by
    unfold Connection.allocators
    cases s.phase with
    | serving version => exact hr.memory s.state m.header
    | accepting | starting _ _ _ | gone => exact hr.malloc s.state _
  obtain ⟨calls, p', received, hreceive, rfl, hrest⟩ :=
    exists_receive_encode ht hallocate s.server
  rw [← hrequests] at hreceive
  cases hphase : s.phase with
  | gone => exact absurd hphase hgone
  | starting _ _ _ =>
    rw [hphase] at hstarting
    exact (hstarting trivial).elim
  | accepting =>
    have htransfers := hr.main received.value s.state
    cases hhandle : peers.mainHandle received.value s.state with
    | mk r state =>
      rw [hhandle] at htransfers
      by_cases hsession : ∃ id, r = .session id
      · obtain ⟨id, rfl⟩ := hsession
        have hstep := Connection.Step.accepted hphase hreceive hhandle
        exact Ends.step (ends_of_starting (run.step hstep) hpending hok hr rfl hnil)
          ⟨fun h => absurd rfl h, fun _ => rfl⟩ rfl
      · obtain ⟨sends, again, v, t, hreplied, hsends⟩ :=
          exists_mainReply htransfers (fun id hid => hsession ⟨id, hid⟩) p' received.value
        have hstep := Connection.Step.processed hphase hreceive hhandle hreplied
        exact Ends.step (ends_of_sent (run.step hstep) hpending hok hr hsends hnil rfl)
          ⟨fun h => absurd rfl h, fun _ => hsends.1⟩ rfl
  | serving version =>
    have htransfers := hr.worker version received.value s.state
    cases hhandle : peers.handle version received.value s.state with
    | mk r state =>
      rw [hhandle] at htransfers
      obtain ⟨sends, again, hsends⟩ := exists_reply htransfers p' received.value state
      have hreplied : peers.reply p' received.value state sends again r = (_, _, _, _) := rfl
      have hstep := Connection.Step.handled hphase hreceive hhandle hreplied
      exact Ends.step (ends_of_sent (run.step hstep) hpending hok hr hsends hnil rfl)
        ⟨fun h => absurd rfl h, fun _ => hsends.1⟩ rfl

/-- As long as the server has not dropped the connection, a call that waits for its response can
end. -/
theorem call_ends (regular : ∀ x ∈ l, Regular x) (alive : s.phase ≠ .gone) : Ends peers l := by
  cases Synced.run run regular with
  | idle _ hnone _ _ _ _ =>
    rw [hpending] at hnone
    cases hnone
  | sent _ _ hpending' _ hcomplete ht hresponses hphase =>
    obtain rfl := Option.some.inj (hpending'.symm.trans hpending)
    exact ends_of_request run hpending hok hr alive hphase (ht hok) (hcomplete alive hok)
      (hresponses hok)
  | starting _ _ _ hphase _ _ _ hresponses =>
    exact ends_of_starting run hpending hok hr hphase (hresponses hok)
  | @served _ _ _ v _ _ _ _ _ _ _ hcomplete halive _ =>
    obtain ⟨response, hresponse, ht⟩ := halive alive hok
    refine ends_of_response run hpending hok hr ht ((hcomplete alive hok).trans ?_)
    rw [Served.bytes, hresponse]
    rfl

end Ends

/-- A server without handlers. -/
def emptyPeers : Peers Unit :=
  ⟨fun _ => none, fun _ => none, fun _ => ⟨none, fun _ => true⟩, ⟨none, fun _ => true⟩,
    fun _ => ⟨[], Nat.two_pow_pos 32⟩⟩

def connected : Connection Unit :=
  ⟨⟨0, 0, 0⟩, 0, none, false, [], [], ⟨0, 0, 0⟩, .accepting, ()⟩

def sessionCreate : Message := ⟨0, 0, 0x10, 0x302, .embedded 0⟩

def sessionCreateCalls : List CallResult := List.replicate 16 (.count 1)

def called : Connection Unit :=
  { connected with
    client := (connected.client.send sessionCreateCalls sessionCreate).1
    nextSequenceNumber := connected.nextSequenceNumber + 1
    pending := some sessionCreate
    failed := !(connected.client.send sessionCreateCalls sessionCreate).2.isOk
    requests := connected.requests ++
      (connected.client.send sessionCreateCalls sessionCreate).2.wire }

theorem run_called : Run Connection.Initial (Connection.Step emptyPeers)
    [⟨connected, .call sessionCreate, called⟩] called :=
  (Run.start ⟨rfl, rfl, rfl, rfl, rfl⟩).step (.call (.inl rfl) rfl)

theorem regular_called : ∀ x ∈ [(⟨connected, .call sessionCreate, called⟩ : Taken _ _)],
    Regular x := by
  intro x hx
  obtain rfl := List.mem_singleton.mp hx
  exact ⟨fun _ => rfl, fun _ => rfl⟩

theorem responsive_emptyPeers : Responsive emptyPeers :=
  ⟨fun _ _ => trivial, fun _ _ _ => trivial, fun _ _ => rfl, fun _ _ => rfl, fun _ => rfl⟩

theorem sent_called : (transmit connected.client sessionCreate sessionCreateCalls).sent = true := by
  decide

theorem calls_matched_called :
    ∃ l, Conversation emptyPeers l ∧ (history Event.outcomes l).length = 1 := by
  obtain ⟨l', s', hrun, hregular, -, -, o, houtcome⟩ :=
    ends_of_request run_called rfl ((Bool.not_eq_false' _).mpr sent_called) responsive_emptyPeers
      (fun h => by cases h) (fun h => h) trivial (transmit_sent sent_called) rfl
  refine ⟨_, calls_matched hrun fun x hx => ?_, ?_⟩
  · rcases List.mem_append.mp hx with hx | hx
    · exact hregular x hx
    · exact regular_called x hx
  · rw [houtcome]
    rfl

theorem call_ends_called : Ends emptyPeers [⟨connected, .call sessionCreate, called⟩] :=
  call_ends run_called rfl ((Bool.not_eq_false' _).mpr sent_called) responsive_emptyPeers
    regular_called fun h => by cases h

end Simutrace.Rpc
