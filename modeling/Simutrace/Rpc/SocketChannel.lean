import Mathlib.Data.List.Basic
import Mathlib.Tactic.Cases

/-! # Socket channels

A socket sends and receives as many bytes as it likes with each system call, and
a signal may interrupt the call. The channel repeats the calls until all bytes
of a buffer have been transferred.
-/

namespace Simutrace.Rpc

/-- What a system call on a socket returns: an error code, or how many bytes it transfers at
most. -/
inductive CallResult
  | error (code : ℕ)
  | count (n : ℕ)
  deriving DecidableEq, Repr

def eintr : ℕ := 4

def econnreset : ℕ := 104

/-- Why a transfer ends early. It is blocked as long as no further call returns. -/
inductive RpcError
  | blocked
  | platform (code : ℕ)
  | malformed
  | notSupported
  | allocation
  deriving DecidableEq, Repr

structure Sent where
  wire : List UInt8
  result : Except RpcError (List CallResult)

structure Received (α : Type*) where
  value : α
  stream : List UInt8
  calls : List CallResult

namespace SocketChannel

def send : List CallResult → List UInt8 → Sent
  | [], _ => ⟨[], .error .blocked⟩
  | .error code :: calls, data =>
    if code = eintr then send calls data else ⟨[], .error (.platform code)⟩
  | .count 0 :: _, _ => ⟨[], .error (.platform econnreset)⟩
  | .count (n + 1) :: calls, data =>
    if data.length ≤ n + 1 then ⟨data, .ok calls⟩
    else
      let rest := send calls (data.drop (n + 1))
      ⟨data.take (n + 1) ++ rest.wire, rest.result⟩

def receive : List CallResult → ℕ → List UInt8 → Except RpcError (Received (List UInt8))
  | [], _, _ => .error .blocked
  | .error code :: calls, size, stream =>
    if code = eintr then receive calls size stream else .error (.platform code)
  | .count 0 :: _, _, _ => .error (.platform econnreset)
  | .count (n + 1) :: calls, size, stream =>
    if stream = [] then .error .blocked
    else
      let bytesRead := min (min (n + 1) size) stream.length
      if bytesRead = size then .ok ⟨stream.take size, stream.drop size, calls⟩
      else
        (receive calls (size - bytesRead) (stream.drop bytesRead)).map fun rest =>
          { rest with value := stream.take bytesRead ++ rest.value }

/-- All calls transfer bytes or are interrupted. -/
def Reliable (calls : List CallResult) : Prop :=
  ∀ call ∈ calls, call = .error eintr ∨ ∃ n, call = .count (n + 1)

def transfers : List CallResult → ℕ
  | [] => 0
  | .error _ :: calls => transfers calls
  | .count _ :: calls => transfers calls + 1

variable {calls : List CallResult} {data stream : List UInt8} {size n code : ℕ}

@[simp] theorem transfers_count : transfers (.count n :: calls) = transfers calls + 1 := rfl

@[simp] theorem transfers_error : transfers (.error code :: calls) = transfers calls := rfl

theorem Reliable.tail {call : CallResult} (h : Reliable (call :: calls)) : Reliable calls :=
  fun call' hcall => h call' (List.mem_cons_of_mem call hcall)

theorem send_interrupted : send (.error eintr :: calls) data = send calls data := by
  rw [send, if_pos rfl]

theorem receive_interrupted :
    receive (.error eintr :: calls) size stream = receive calls size stream := by
  rw [receive, if_pos rfl]

theorem prefix_send (calls : List CallResult) (data : List UInt8) :
    (send calls data).wire <+: data := by
  induction calls generalizing data with
  | nil => exact List.nil_prefix
  | cons call calls ih =>
    cases call with
    | error code =>
      unfold send
      split_ifs
      · exact ih data
      · exact List.nil_prefix
    | count n =>
      cases n with
      | zero => exact List.nil_prefix
      | succ n =>
        unfold send
        split_ifs
        · exact List.prefix_rfl
        · obtain ⟨rest, hrest⟩ := ih (data.drop (n + 1))
          refine ⟨rest, ?_⟩
          rw [List.append_assoc, hrest, List.take_append_drop]

theorem send_ok {calls' : List CallResult} (h : (send calls data).result = .ok calls') :
    (send calls data).wire = data := by
  induction calls generalizing data with
  | nil => cases h
  | cons call calls ih =>
    cases call with
    | error code =>
      unfold send at h ⊢
      split_ifs at h ⊢
      · exact ih h
    | count n =>
      cases n with
      | zero => cases h
      | succ n =>
        unfold send at h ⊢
        dsimp only at h ⊢
        split_ifs at h ⊢
        · rfl
        · dsimp only at h ⊢
          rw [ih h, List.take_append_drop]

theorem exists_send (hr : Reliable calls) (hpos : 0 < data.length)
    (henough : data.length ≤ transfers calls) :
    ∃ calls', (send calls data).result = .ok calls' ∧ Reliable calls' ∧
      transfers calls ≤ transfers calls' + data.length := by
  induction calls generalizing data with
  | nil => exact absurd henough (Nat.not_le.mpr hpos)
  | cons call calls ih =>
    obtain rfl | ⟨n, rfl⟩ := hr call List.mem_cons_self
    · rw [transfers_error] at henough ⊢
      rw [send_interrupted]
      exact ih hr.tail hpos henough
    · rw [transfers_count] at henough ⊢
      unfold send
      split_ifs with hle
      · exact ⟨calls, rfl, hr.tail, by omega⟩
      · have hlength : (data.drop (n + 1)).length = data.length - (n + 1) := List.length_drop
        have hrest : 0 < (data.drop (n + 1)).length := by omega
        obtain ⟨calls', hresult, hreliable, htransfers⟩ := ih hr.tail hrest (by omega)
        exact ⟨calls', hresult, hreliable, by omega⟩

theorem receive_ok {received : Received (List UInt8)}
    (h : receive calls size stream = .ok received) :
    stream = received.value ++ received.stream ∧ received.value.length = size := by
  induction calls generalizing size stream received with
  | nil => cases h
  | cons call calls ih =>
    cases call with
    | error code =>
      unfold receive at h
      split_ifs at h
      exact ih h
    | count n =>
      cases n with
      | zero => cases h
      | succ n =>
        unfold receive at h
        dsimp only at h
        split_ifs at h with hnil hall
        · cases h
          refine ⟨(List.take_append_drop size stream).symm, ?_⟩
          rw [List.length_take]
          omega
        · cases hrest : receive calls (size - min (min (n + 1) size) stream.length)
              (stream.drop (min (min (n + 1) size) stream.length)) with
          | error e =>
            rw [hrest] at h
            cases h
          | ok rest =>
            rw [hrest] at h
            cases h
            obtain ⟨hstream, hlength⟩ := ih hrest
            constructor
            · rw [List.append_assoc, ← hstream, List.take_append_drop]
            · rw [List.length_append, hlength, List.length_take]
              omega

/-- With enough calls everything that has arrived is received, however it is fragmented. -/
theorem exists_receive (hr : Reliable calls) (hpos : 0 < size) (harrived : size ≤ stream.length)
    (henough : size ≤ transfers calls) :
    ∃ received, receive calls size stream = .ok received ∧ Reliable received.calls ∧
      transfers calls ≤ transfers received.calls + size := by
  induction calls generalizing size stream with
  | nil => exact absurd henough (Nat.not_le.mpr hpos)
  | cons call calls ih =>
    obtain rfl | ⟨n, rfl⟩ := hr call List.mem_cons_self
    · rw [transfers_error] at henough ⊢
      rw [receive_interrupted]
      exact ih hr.tail hpos harrived henough
    · rw [transfers_count] at henough ⊢
      have hnil : stream ≠ [] := by
        rintro rfl
        exact absurd harrived (Nat.not_le.mpr hpos)
      unfold receive
      dsimp only
      rw [if_neg hnil]
      split_ifs with hall
      · exact ⟨_, rfl, hr.tail, by dsimp only; omega⟩
      · have hlength : (stream.drop (min (min (n + 1) size) stream.length)).length =
            stream.length - min (min (n + 1) size) stream.length := List.length_drop
        obtain ⟨received, hreceived, hreliable, htransfers⟩ :=
          @ih (stream.drop (min (min (n + 1) size) stream.length))
            (size - min (min (n + 1) size) stream.length) hr.tail (by omega) (by omega) (by omega)
        rw [hreceived]
        exact ⟨_, rfl, hreliable, by dsimp only; omega⟩

end SocketChannel

end Simutrace.Rpc
