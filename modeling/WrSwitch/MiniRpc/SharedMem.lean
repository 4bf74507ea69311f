import WrSwitch.MiniRpc.Types
import Mathlib.Data.List.Basic
import Mathlib.Logic.Function.Basic

/-!
# Calls over shared memory

`minipc_call` on a memory-based link, `mpc_mem_request`, and the two versions of
`minipc_server_action` that serve it, one access to `struct mpc_shmem` at a time.
-/
namespace WrSwitch.MiniRpc

open Machine

/-! ### Client and server -/

/-- What a call puts into the request, and the type that it expects back. -/
structure MinipcCall where
  packet : Mem
  retval : Word
deriving DecidableEq

/-- How `minipc_call` returns once its request is out. -/
inductive CallReturn
  | ok (ret : Mem)
  | eremoteio (remoteerr : Word)
  | eproto
  | etimedout
deriving DecidableEq

/-- Where the client stands in `minipc_call`. -/
inductive ClientPc
  | idle
  /-- the first bytes of the request are stored -/
  | marshalling (call : MinipcCall) (stored : Nat)
  /-- in `mpc_mem_request`, before `nrequest` is incremented -/
  | prepared (call : MinipcCall) (prev : Word)
  | waiting (call : MinipcCall) (prev : Word)
  | checkingError (call : MinipcCall)
  | checkingType (call : MinipcCall)
  | sizing (call : MinipcCall)
  /-- in `memcpy` to `ret` -/
  | copying (call : MinipcCall) (asize : Nat) (got : Mem)
deriving DecidableEq

/-- Where the server stands in `minipc_server_action`, with its loads from the request. -/
inductive ServerPc
  | idle
  /-- between the two reads of `nrequest` -/
  | noting
  | serving (loads : List (Nat × Byte))
deriving DecidableEq

/-- `minipc-server.c`, or `minipc-mem-server.c`. -/
inductive ServerKind
  | hosted | freestanding
deriving DecidableEq

/-- A request that was served: what the server loaded from it and the reply it left. -/
structure Execution where
  serial : Nat
  loads : List (Nat × Byte)
  type : Word
  val : Nat → Byte

/-- A call that returned, with the number of its request. -/
structure Returned where
  serial : Nat
  quiet : Bool
  result : CallReturn
deriving DecidableEq

structure MemState where
  nrequest : Word
  nreply : Word
  request : Nat → Byte
  replyType : Word
  replyVal : Nat → Byte
  lastRequestId : Word
  client : ClientPc
  server : ServerPc
  /-- the calls that incremented `nrequest` -/
  requests : List MinipcCall
  /-- the number of requests when the server last started to serve one -/
  pickedUp : Nat
  executions : List Execution
  /-- the current call began with nothing of an earlier one under way -/
  quiet : Bool
  returns : List Returned

/-- The server has nothing to do. -/
def MemState.AtRest (s : MemState) : Prop := s.server = .idle ∧ s.pickedUp = s.requests.length

instance (s : MemState) : Decidable s.AtRest := inferInstanceAs (Decidable (_ ∧ _))

/-- The bytes from `reply.val` on. -/
def replyBytes (val : Nat → Byte) (len : Nat) : Mem := (List.range len).map val

def MemState.returned (s : MemState) (result : CallReturn) : MemState :=
  { s with client := .idle, returns := s.returns ++ [⟨s.requests.length, s.quiet, result⟩] }

/-- The next access of the client. -/
def clientStep (s : MemState) : MemState :=
  match s.client with
  | .idle => s
  | .marshalling call stored =>
    match call.packet[stored]? with
    | some b =>
      { s with request := Function.update s.request stored b,
               client := .marshalling call (stored + 1) }
    | none => { s with client := .prepared call s.nreply }
  | .prepared call prev =>
    { s with nrequest := s.nrequest + 1, client := .waiting call prev,
             requests := s.requests ++ [call] }
  | .waiting call prev => if s.nreply ≠ prev then { s with client := .checkingError call } else s
  | .checkingError call =>
    if minipcGetAtype s.replyType = some .error then
      s.returned (.eremoteio (loadBits 32 (replyBytes s.replyVal 4)))
    else { s with client := .checkingType call }
  | .checkingType call =>
    if s.replyType >>> 16 ≠ call.retval >>> 16 then s.returned .eproto
    else { s with client := .sizing call }
  | .sizing call => { s with client := .copying call (minipcGetAsize s.replyType) [] }
  | .copying call asize got =>
    if got.length < asize then
      { s with client := .copying call asize (got ++ [s.replyVal got.length]) }
    else s.returned (.ok got)

/-- The next look of the server at `nrequest`. The hosted server waits for a change in
`mpc_mem_request`, the freestanding one returns at once if there is none. -/
def serverStep (kind : ServerKind) (s : MemState) : MemState :=
  match s.server with
  | .idle =>
    if s.nrequest = s.lastRequestId then s
    else match kind with
      | .hosted => { s with server := .serving [], pickedUp := s.requests.length }
      | .freestanding => { s with server := .noting }
  | .noting =>
    { s with lastRequestId := s.nrequest, server := .serving [], pickedUp := s.requests.length }
  | .serving _ => s

/-- One access of one of the parties. While the server serves a request, the search for the
function, the handler and the code after it may load and store in any order. -/
inductive MemStep
  | call (call : MinipcCall)
  /-- the arguments do not fit -/
  | giveUp
  | client
  | timeout
  | server
  | load (a : Nat)
  | storeType (type : Word)
  | storeVal (a : Nat) (b : Byte)
  | reply
deriving DecidableEq

/-- An access by a party that is not at that point of its code changes nothing. -/
def memStep (kind : ServerKind) (s : MemState) : MemStep → MemState
  | .call call =>
    if s.client = .idle then
      { s with client := .marshalling call 0, quiet := decide s.AtRest }
    else s
  | .giveUp =>
    match s.client with
    | .marshalling _ _ => { s with client := .idle }
    | _ => s
  | .client => clientStep s
  | .timeout =>
    match s.client with
    | .waiting _ _ => s.returned .etimedout
    | _ => s
  | .server => serverStep kind s
  | .load a =>
    match s.server with
    | .serving loads => { s with server := .serving ((a, s.request a) :: loads) }
    | _ => s
  | .storeType type =>
    match s.server with
    | .serving _ => { s with replyType := type }
    | _ => s
  | .storeVal a b =>
    match s.server with
    | .serving _ => { s with replyVal := Function.update s.replyVal a b }
    | _ => s
  | .reply =>
    match s.server with
    | .serving loads =>
      { s with nreply := s.nreply + 1, server := .idle,
               executions := s.executions ++ [⟨s.pickedUp, loads, s.replyType, s.replyVal⟩] }
    | _ => s

/-- After `memset` by the server, before the first call. -/
def memStart : MemState where
  nrequest := 0
  nreply := 0
  request := fun _ => 0
  replyType := 0
  replyVal := fun _ => 0
  lastRequestId := 0
  client := .idle
  server := .idle
  requests := []
  pickedUp := 0
  executions := []
  quiet := false
  returns := []

/-! ### Counters -/

/-- The counters in memory count requests and replies; `last_request_id` follows them only in
the freestanding server. -/
structure Counters (kind : ServerKind) (s : MemState) : Prop where
  nrequest : s.nrequest = BitVec.ofNat 32 s.requests.length
  nreply : s.nreply = BitVec.ofNat 32 s.executions.length
  last : s.lastRequestId = match kind with
    | .hosted => 0
    | .freestanding => BitVec.ofNat 32 s.pickedUp
  single : kind = .hosted → s.server ≠ .noting

private theorem ofNat_succ (n : Nat) : BitVec.ofNat 32 n + 1 = BitVec.ofNat 32 (n + 1) :=
  (BitVec.ofNat_add n 1).symm

/-- The client writes to its part of the memory only. -/
theorem clientStep_frame (s : MemState) :
    (clientStep s).server = s.server ∧ (clientStep s).pickedUp = s.pickedUp ∧
      (clientStep s).nreply = s.nreply ∧ (clientStep s).executions = s.executions ∧
      (clientStep s).lastRequestId = s.lastRequestId := by
  unfold clientStep
  split
  · exact ⟨rfl, rfl, rfl, rfl, rfl⟩
  · split <;> exact ⟨rfl, rfl, rfl, rfl, rfl⟩
  · exact ⟨rfl, rfl, rfl, rfl, rfl⟩
  · split <;> exact ⟨rfl, rfl, rfl, rfl, rfl⟩
  · split <;> exact ⟨rfl, rfl, rfl, rfl, rfl⟩
  · split <;> exact ⟨rfl, rfl, rfl, rfl, rfl⟩
  · exact ⟨rfl, rfl, rfl, rfl, rfl⟩
  · split <;> exact ⟨rfl, rfl, rfl, rfl, rfl⟩

/-- Only the client that leaves `prepared` makes a request. -/
theorem clientStep_request (s : MemState) :
    ((clientStep s).nrequest = s.nrequest ∧ (clientStep s).requests = s.requests) ∨
      ∃ call prev, s.client = .prepared call prev ∧ (clientStep s).client = .waiting call prev ∧
        (clientStep s).nrequest = s.nrequest + 1 ∧
        (clientStep s).requests = s.requests ++ [call] := by
  unfold clientStep
  split
  next => exact .inl ⟨rfl, rfl⟩
  next => split <;> exact .inl ⟨rfl, rfl⟩
  next call prev prepared => exact .inr ⟨call, prev, prepared, rfl, rfl, rfl⟩
  next => split <;> exact .inl ⟨rfl, rfl⟩
  next => split <;> exact .inl ⟨rfl, rfl⟩
  next => split <;> exact .inl ⟨rfl, rfl⟩
  next => exact .inl ⟨rfl, rfl⟩
  next => split <;> exact .inl ⟨rfl, rfl⟩

private theorem counters_client {kind : ServerKind} {s : MemState} (counters : Counters kind s) :
    Counters kind (clientStep s) := by
  obtain ⟨server, pickedUp, nreply, executions, last⟩ := clientStep_frame s
  refine ⟨?_, ?_, ?_, ?_⟩
  · rcases clientStep_request s with ⟨nrequest, requests⟩ | ⟨call, _, _, _, nrequest, requests⟩
    · rw [nrequest, requests, counters.nrequest]
    · rw [nrequest, requests, counters.nrequest, ofNat_succ, List.length_append,
        List.length_singleton]
  · rw [nreply, executions, counters.nreply]
  · rw [last, pickedUp, counters.last]
  · rw [server]
    exact counters.single

private theorem counters_server {kind : ServerKind} {s : MemState} (counters : Counters kind s) :
    Counters kind (serverStep kind s) := by
  obtain ⟨nrequest, nreply, last, single⟩ := counters
  unfold serverStep
  split
  · split
    · exact ⟨nrequest, nreply, last, single⟩
    · cases kind with
      | hosted => exact ⟨nrequest, nreply, last, fun _ => by simp⟩
      | freestanding => exact ⟨nrequest, nreply, last, fun hosted => by cases hosted⟩
  next noting =>
    cases kind with
    | hosted => exact absurd noting (single rfl)
    | freestanding => exact ⟨nrequest, nreply, nrequest, fun hosted => by cases hosted⟩
  · exact ⟨nrequest, nreply, last, single⟩

/-- Every step keeps the counters in their relation. -/
theorem counters_step (kind : ServerKind) (s : MemState) (e : MemStep)
    (counters : Counters kind s) : Counters kind (memStep kind s e) := by
  obtain ⟨nrequest, nreply, last, single⟩ := id counters
  cases e with
  | client => exact counters_client counters
  | server => exact counters_server counters
  | call | giveUp | timeout | storeType | storeVal =>
    simp only [memStep]
    split <;> exact ⟨nrequest, nreply, last, single⟩
  | load =>
    simp only [memStep]
    split
    · exact ⟨nrequest, nreply, last, fun _ => by simp⟩
    · exact counters
  | reply =>
    simp only [memStep]
    split
    · refine ⟨nrequest, ?_, last, fun _ => by simp⟩
      simp only [List.length_append, List.length_singleton, nreply, ofNat_succ]
    · exact counters

/-- The counters of a cleared memory. -/
theorem memStart_counters (kind : ServerKind) : Counters kind memStart where
  nrequest := rfl
  nreply := rfl
  last := by cases kind <;> rfl
  single := fun _ => by simp [memStart]

/-- The freestanding server starts to serve only what it has not picked up yet. -/
theorem fresh_of_counters {s : MemState} (counters : Counters .freestanding s)
    (passes : s.nrequest ≠ s.lastRequestId) : s.pickedUp ≠ s.requests.length := by
  intro same
  rw [counters.nrequest, counters.last, same] at passes
  exact passes rfl

/-! ### A call that began quietly -/

/-- The first bytes of the packet are in the request. -/
def Stored (request : Nat → Byte) (packet : Mem) (n : Nat) : Prop :=
  ∀ i < n, packet[i]? = some (request i)

/-- What was loaded at the places of the packet was the packet. -/
def Agrees (loads : List (Nat × Byte)) (packet : Mem) : Prop :=
  ∀ x ∈ loads, ∀ b, packet[x.1]? = some b → x.2 = b

/-- The last request was served, and its reply is still in place. -/
structure Answered (s : MemState) (call : MinipcCall) : Prop where
  atRest : s.AtRest
  last : s.requests.getLast? = some call
  execution : ∃ x, s.executions.getLast? = some x ∧ x.serial = s.requests.length ∧
    Agrees x.loads call.packet ∧ x.type = s.replyType ∧ x.val = s.replyVal

/-- The server has not looked at the last request, or is serving it. -/
inductive Outstanding (s : MemState) (call : MinipcCall) : Prop
  | pending (server : s.server = .idle ∨ s.server = .noting)
      (behind : s.pickedUp + 1 = s.requests.length)
  | serving (loads : List (Nat × Byte)) (server : s.server = .serving loads)
      (current : s.pickedUp = s.requests.length) (agrees : Agrees loads call.packet)

/-- How client and server move together while nothing else is under way. -/
def Phase (s : MemState) : Prop :=
  match s.client with
  | .idle => s.AtRest
  | .marshalling call stored => s.AtRest ∧ Stored s.request call.packet stored
  | .prepared call prev =>
    s.AtRest ∧ Stored s.request call.packet call.packet.length ∧ s.nreply = prev
  | .waiting call prev =>
    Stored s.request call.packet call.packet.length ∧ s.requests.getLast? = some call ∧
      (s.nreply = prev ∧ Outstanding s call ∨ Answered s call)
  | .checkingError call | .checkingType call | .sizing call => Answered s call
  | .copying call asize got =>
    Answered s call ∧ asize = minipcGetAsize s.replyType ∧ got.length ≤ asize ∧
      got = replyBytes s.replyVal got.length

/-- Without a client that waits, nothing is under way. -/
theorem Phase.atRest {s : MemState} (phase : Phase s)
    (free : ∀ call prev, s.client ≠ .waiting call prev) :
    s.AtRest := by
  unfold Phase at phase
  split at phase
  · exact phase
  · exact phase.1
  · exact phase.1
  next call prev waiting => exact absurd waiting (free call prev)
  · exact phase.atRest
  · exact phase.atRest
  · exact phase.atRest
  · exact phase.1.atRest

private theorem stored_next {request : Nat → Byte} {packet : Mem} {n : Nat} {b : Byte}
    (stored : Stored request packet n) (next : packet[n]? = some b) :
    Stored (Function.update request n b) packet (n + 1) := by
  intro i below
  by_cases same : i = n
  · subst same
    rw [next, Function.update_self]
  · rw [stored i (by omega), Function.update_of_ne same]

private theorem replyBytes_succ (val : Nat → Byte) (len : Nat) :
    replyBytes val (len + 1) = replyBytes val len ++ [val len] := by
  simp [replyBytes, List.range_succ]

private theorem phase_client {s : MemState} (phase : Phase s) : Phase (clientStep s) := by
  -- what the client may rely on depends on its program counter
  cases pc : s.client with
  | idle =>
    simp only [clientStep, pc]
    exact phase
  | marshalling call stored =>
    simp only [Phase, pc] at phase
    simp only [clientStep, pc]
    split
    next b present => exact ⟨phase.1, stored_next phase.2 present⟩
    next past =>
      refine ⟨phase.1, ?_, rfl⟩
      intro i below
      have long := List.getElem?_eq_none_iff.mp past
      exact phase.2 i (by omega)
  | prepared call prev =>
    simp only [Phase, pc] at phase
    simp only [clientStep, pc]
    obtain ⟨⟨idle, caughtUp⟩, stored, prev⟩ := phase
    refine ⟨stored, List.getLast?_concat, .inl ⟨prev, .pending (.inl idle) ?_⟩⟩
    rw [List.length_append, List.length_singleton, caughtUp]
  | waiting call prev =>
    have waiting := phase
    simp only [Phase, pc] at waiting
    simp only [clientStep, pc]
    -- the counter has moved only once the reply is complete
    obtain ⟨_, _, ⟨unchanged, _⟩ | answered⟩ := waiting
    · rw [if_neg (not_not.mpr unchanged)]
      exact phase
    · split
      · exact ⟨answered.atRest, answered.last, answered.execution⟩
      · exact phase
  | checkingError call =>
    simp only [Phase, pc] at phase
    simp only [clientStep, pc]
    split
    · exact phase.atRest
    · exact ⟨phase.atRest, phase.last, phase.execution⟩
  | checkingType call =>
    simp only [Phase, pc] at phase
    simp only [clientStep, pc]
    split
    · exact phase.atRest
    · exact ⟨phase.atRest, phase.last, phase.execution⟩
  | sizing call =>
    simp only [Phase, pc] at phase
    simp only [clientStep, pc]
    exact ⟨⟨phase.atRest, phase.last, phase.execution⟩, rfl, Nat.zero_le _, rfl⟩
  | copying call asize got =>
    simp only [Phase, pc] at phase
    simp only [clientStep, pc]
    obtain ⟨answered, size, within, copied⟩ := phase
    split
    next short =>
      refine ⟨⟨answered.atRest, answered.last, answered.execution⟩, size, ?_, ?_⟩
      · rw [List.length_append, List.length_singleton]
        omega
      · rw [List.length_append, List.length_singleton, replyBytes_succ, ← copied]
    next => exact answered.atRest

/-- A server at rest is not woken. -/
theorem serverStep_atRest {kind : ServerKind} {s : MemState} (rest : s.AtRest)
    (fresh : s.server = .idle → s.nrequest ≠ s.lastRequestId → s.pickedUp ≠ s.requests.length) :
    serverStep kind s = s := by
  have unchanged : s.nrequest = s.lastRequestId := by
    by_contra passes
    exact fresh rest.1 passes rest.2
  simp only [serverStep, rest.1, unchanged, if_true]

/-- A request stays outstanding while the server works on it. -/
theorem Outstanding.server {kind : ServerKind} {s : MemState} {call : MinipcCall}
    (outstanding : Outstanding s call) : Outstanding (serverStep kind s) call := by
  cases outstanding with
  | pending server behind =>
    rcases server with idle | noting
    · simp only [serverStep, idle]
      split
      · exact .pending (.inl idle) behind
      · cases kind with
        | hosted => exact .serving [] rfl rfl fun _ impossible => by cases impossible
        | freestanding => exact .pending (.inr rfl) behind
    · simp only [serverStep, noting]
      exact .serving [] rfl rfl fun _ impossible => by cases impossible
  | serving loads serving current agrees =>
    simp only [serverStep, serving]
    exact .serving loads serving current agrees

/-- The server does not touch what belongs to the client. -/
theorem serverStep_frame (kind : ServerKind) (s : MemState) :
    (serverStep kind s).client = s.client ∧ (serverStep kind s).nreply = s.nreply ∧
      (serverStep kind s).request = s.request ∧ (serverStep kind s).requests = s.requests := by
  unfold serverStep
  split
  · split
    · exact ⟨rfl, rfl, rfl, rfl⟩
    · cases kind <;> exact ⟨rfl, rfl, rfl, rfl⟩
  · exact ⟨rfl, rfl, rfl, rfl⟩
  · exact ⟨rfl, rfl, rfl, rfl⟩

private theorem phase_server {kind : ServerKind} {s : MemState} (phase : Phase s)
    (fresh : s.server = .idle → s.nrequest ≠ s.lastRequestId → s.pickedUp ≠ s.requests.length) :
    Phase (serverStep kind s) := by
  by_cases rest : s.AtRest
  · rw [serverStep_atRest rest fresh]
    exact phase
  · obtain ⟨client, nreply, request, requests⟩ := serverStep_frame kind s
    cases pc : s.client with
    | waiting call prev =>
      simp only [Phase, pc] at phase
      simp only [Phase, client, pc, nreply, request, requests]
      obtain ⟨stored, last, ⟨unchanged, outstanding⟩ | answered⟩ := phase
      · exact ⟨stored, last, .inl ⟨unchanged, outstanding.server⟩⟩
      · exact absurd answered.atRest rest
    | idle | marshalling | prepared | checkingError | checkingType | sizing | copying =>
      refine absurd (phase.atRest ?_) rest
      intro _ _ waiting
      rw [pc] at waiting
      cases waiting

/-- While the server serves a request, the client waits for it. -/
theorem Phase.serving {s : MemState} {loads : List (Nat × Byte)} (phase : Phase s)
    (serving : s.server = .serving loads) :
    ∃ call prev, s.client = .waiting call prev ∧
      Stored s.request call.packet call.packet.length ∧ s.requests.getLast? = some call ∧
      s.nreply = prev ∧ s.pickedUp = s.requests.length ∧ Agrees loads call.packet := by
  -- a server at work excludes a client that waits for nothing
  have busy : ¬s.AtRest := by
    intro rest
    rw [rest.1] at serving
    cases serving
  cases pc : s.client with
  | waiting call prev =>
    simp only [Phase, pc] at phase
    obtain ⟨stored, last, ⟨unchanged, outstanding⟩ | answered⟩ := phase
    · cases outstanding with
      | pending server =>
        rcases server with idle | noting
        · rw [idle] at serving
          cases serving
        · rw [noting] at serving
          cases serving
      | serving now same current agrees =>
        rw [same] at serving
        cases serving
        exact ⟨call, prev, rfl, stored, last, unchanged, current, agrees⟩
    · exact absurd answered.atRest busy
  -- in the other states no request is outstanding
  | idle | marshalling | prepared | checkingError | checkingType | sizing | copying =>
    refine absurd (phase.atRest ?_) busy
    intro _ _ waiting
    rw [pc] at waiting
    cases waiting

private theorem phase_load {kind : ServerKind} {s : MemState} (phase : Phase s) (a : Nat) :
    Phase (memStep kind s (.load a)) := by
  simp only [memStep]
  split
  next loads serving =>
    obtain ⟨call, prev, pc, stored, last, unchanged, current, agrees⟩ := phase.serving serving
    simp only [Phase, pc]
    refine ⟨stored, last, .inl ⟨unchanged, .serving _ rfl current ?_⟩⟩
    intro x loaded b there
    rcases List.mem_cons.mp loaded with rfl | earlier
    · have inside : a < call.packet.length := by
        by_contra outside
        rw [List.getElem?_eq_none (by omega)] at there
        cases there
      rw [stored a inside] at there
      exact Option.some.inj there
    · exact agrees x earlier b there
  next => exact phase

private theorem phase_storeType {kind : ServerKind} {s : MemState} (phase : Phase s) (type : Word) :
    Phase (memStep kind s (.storeType type)) := by
  simp only [memStep]
  split
  next loads serving =>
    obtain ⟨call, prev, pc, stored, last, unchanged, current, agrees⟩ := phase.serving serving
    simp only [Phase, pc]
    exact ⟨stored, last, .inl ⟨unchanged, .serving loads serving current agrees⟩⟩
  next => exact phase

private theorem phase_storeVal {kind : ServerKind} {s : MemState} (phase : Phase s) (a : Nat)
    (b : Byte) :
    Phase (memStep kind s (.storeVal a b)) := by
  simp only [memStep]
  split
  next loads serving =>
    obtain ⟨call, prev, pc, stored, last, unchanged, current, agrees⟩ := phase.serving serving
    simp only [Phase, pc]
    exact ⟨stored, last, .inl ⟨unchanged, .serving loads serving current agrees⟩⟩
  next => exact phase

theorem phase_reply {kind : ServerKind} {s : MemState} (phase : Phase s) :
    Phase (memStep kind s .reply) := by
  simp only [memStep]
  split
  next loads serving =>
    obtain ⟨call, prev, pc, stored, last, _, current, agrees⟩ := phase.serving serving
    simp only [Phase, pc]
    refine ⟨stored, last, .inr ⟨⟨rfl, current⟩, last, _, List.getLast?_concat, current, agrees,
      rfl, rfl⟩⟩
  next => exact phase

/-- The side condition of the hosted server, whose `last_request_id` stays 0: it starts to
serve only what it has not picked up yet. -/
def Fresh (kind : ServerKind) (s : MemState) (e : MemStep) : Prop :=
  kind = .hosted → e = .server → s.server = .idle → s.nrequest ≠ s.lastRequestId →
    s.pickedUp ≠ s.requests.length

instance (kind : ServerKind) (s : MemState) (e : MemStep) : Decidable (Fresh kind s e) :=
  inferInstanceAs (Decidable (_ → _))

/-- The phases follow one another as long as no client gives up. -/
theorem phase_step {kind : ServerKind} {s : MemState} {e : MemStep} (counters : Counters kind s)
    (phase : Phase s) (fresh : Fresh kind s e) (patient : e ≠ .timeout) :
    Phase (memStep kind s e) := by
  -- the client and the server have lemmas of their own; the rest is the environment
  cases e with
  | call call =>
    simp only [memStep]
    split
    next idle =>
      have rest : s.AtRest := by
        simp only [Phase, idle] at phase
        exact phase
      exact ⟨rest, fun _ impossible => by omega⟩
    next => exact phase
  | giveUp =>
    simp only [memStep]
    split
    next call stored marshalling =>
      simp only [Phase, marshalling] at phase
      exact phase.1
    next => exact phase
  | client => exact phase_client phase
  | timeout => exact absurd rfl patient
  | server =>
    refine phase_server phase ?_
    cases kind with
    | hosted => exact fresh rfl rfl
    | freestanding => exact fun _ => fresh_of_counters counters
  | load a => exact phase_load phase a
  | storeType type => exact phase_storeType phase type
  | storeVal a b => exact phase_storeVal phase a b
  | reply => exact phase_reply phase

/-! ### The replies of quiet calls -/

/-- A call that returned 0 stored the reply of the execution of its own request. -/
def OwnReply (s : MemState) (r : Returned) : Prop :=
  ∀ ret, r.result = .ok ret → ∃ call x, s.requests[r.serial - 1]? = some call ∧
    x ∈ s.executions ∧ x.serial = r.serial ∧ Agrees x.loads call.packet ∧
    ret = replyBytes x.val (minipcGetAsize x.type)

/-- Requests and executions only become more. -/
structure Extends (s s' : MemState) : Prop where
  requests : s.requests <+: s'.requests
  executions : s.executions <+: s'.executions

/-- A step that adds no request and no execution. -/
theorem Extends.same {s s' : MemState} (requests : s'.requests = s.requests)
    (executions : s'.executions = s.executions) : Extends s s' :=
  ⟨requests ▸ List.prefix_rfl, executions ▸ List.prefix_rfl⟩

/-- A reply that was a client's own remains so. -/
theorem OwnReply.extend {s s' : MemState} {r : Returned} (own : OwnReply s r)
    (ext : Extends s s') : OwnReply s' r := by
  intro ret ok
  obtain ⟨call, x, request, member, rest⟩ := own ret ok
  obtain ⟨more, grown⟩ := ext.requests
  refine ⟨call, x, ?_, ext.executions.subset member, rest⟩
  rw [← grown, List.getElem?_append_left (List.getElem?_eq_some_iff.mp request).1, request]

/-- Requests and executions are only added. -/
theorem memStep_extends (kind : ServerKind) (s : MemState) (e : MemStep) :
    Extends s (memStep kind s e) := by
  cases e with
  | client =>
    obtain ⟨_, _, _, executions, _⟩ := clientStep_frame s
    -- the client adds at most the request it sends
    rcases clientStep_request s with ⟨_, requests⟩ | ⟨call, _, _, _, _, requests⟩
    · exact .same requests executions
    · exact ⟨⟨[call], requests.symm⟩, executions ▸ List.prefix_rfl⟩
  | server =>
    simp only [memStep, serverStep]
    split
    · split
      · exact .same rfl rfl
      · cases kind <;> exact .same rfl rfl
    · exact .same rfl rfl
    · exact .same rfl rfl
  | call | giveUp | timeout | load | storeType | storeVal =>
    simp only [memStep]
    split <;> exact .same rfl rfl
  | reply =>
    simp only [memStep]
    split
    · exact ⟨List.prefix_rfl, List.prefix_append _ _⟩
    · exact .same rfl rfl

/-- A client that has copied the reply to its last request returns it. -/
theorem Answered.own {s : MemState} {call : MinipcCall} {got : Mem} (answered : Answered s call)
    (copied : got = replyBytes s.replyVal (minipcGetAsize s.replyType)) :
    OwnReply s ⟨s.requests.length, s.quiet, .ok got⟩ := by
  rintro ret ⟨⟩
  obtain ⟨x, last, serial, agrees, type, val⟩ := answered.execution
  refine ⟨call, x, ?_, List.mem_of_getLast? last, serial, agrees, ?_⟩
  · rw [← List.getLast?_eq_getElem?]
    exact answered.last
  · rw [type, val, copied]

/-- What one step adds to the calls that returned. -/
theorem memStep_returns (kind : ServerKind) (s : MemState) (e : MemStep)
    (phase : s.quiet = true → s.client ≠ .idle → Phase s) :
    ∀ r ∈ (memStep kind s e).returns, r ∈ s.returns ∨ (r.quiet = true → OwnReply s r) := by
  -- a failed call returns nothing to be compared
  have failed (result : CallReturn) (other : ∀ ret, result ≠ .ok ret) :
      ∀ r ∈ (s.returned result).returns, r ∈ s.returns ∨ (r.quiet = true → OwnReply s r) := by
    intro r member
    rcases List.mem_append.mp member with old | new
    · exact .inl old
    · obtain rfl := List.mem_singleton.mp new
      exact .inr fun _ ret ok => absurd ok (other ret)
  cases e with
  | client =>
    simp only [memStep]
    cases pc : s.client with
    | idle | prepared | sizing =>
      simp only [clientStep, pc]
      exact fun r => .inl
    | marshalling | waiting =>
      simp only [clientStep, pc]
      split <;> exact fun r => .inl
    | checkingError | checkingType =>
      simp only [clientStep, pc]
      split
      · exact failed _ fun _ impossible => by cases impossible
      · exact fun r => .inl
    | copying call asize got =>
      simp only [clientStep, pc]
      split
      · exact fun r => .inl
      next full =>
        intro r member
        rcases List.mem_append.mp member with old | new
        · exact .inl old
        · obtain rfl := List.mem_singleton.mp new
          -- the reply is returned when its last byte is copied
          refine .inr fun quiet => ?_
          have phase := phase quiet (by simp [pc])
          simp only [Phase, pc] at phase
          obtain ⟨answered, size, within, copied⟩ := phase
          have length : got.length = minipcGetAsize s.replyType := by omega
          rw [length] at copied
          exact answered.own copied
  | timeout =>
    simp only [memStep]
    split
    · exact failed _ fun _ impossible => by cases impossible
    · exact fun r => .inl
  | server =>
    simp only [memStep, serverStep]
    split
    · split
      · exact fun r => .inl
      · cases kind <;> exact fun r => .inl
    · exact fun r => .inl
    · exact fun r => .inl
  | call | giveUp | load | storeType | storeVal | reply =>
    simp only [memStep]
    split <;> exact fun r => .inl

/-- Calls that begin quietly are in step with the server, and the quiet ones that returned
brought back their own replies. -/
structure QuietInv (kind : ServerKind) (s : MemState) : Prop where
  counters : Counters kind s
  phase : s.quiet = true → s.client ≠ .idle → Phase s
  own : ∀ r ∈ s.returns, r.quiet = true → OwnReply s r

/-- Only a new call starts the client, and says whether it begins quietly. -/
theorem memStep_idle (kind : ServerKind) (s : MemState) (e : MemStep)
    (other : ∀ call, e ≠ .call call) :
    (memStep kind s e).quiet = s.quiet ∧
      (s.client = .idle → (memStep kind s e).client = .idle) := by
  cases e with
  | call call => exact absurd rfl (other call)
  | client =>
    simp only [memStep]
    cases pc : s.client with
    -- these states do not branch
    | idle | prepared | sizing =>
      simp only [clientStep, pc]
      simp
    | marshalling | waiting | checkingError | checkingType | copying =>
      simp only [clientStep, pc]
      split <;> simp [MemState.returned]
  | server =>
    obtain ⟨client, _⟩ := serverStep_frame kind s
    refine ⟨?_, fun idle => client.trans idle⟩
    simp only [memStep, serverStep]
    split
    · split
      · rfl
      · cases kind <;> rfl
    · rfl
    · rfl
  | giveUp | timeout =>
    simp only [memStep]
    split <;> exact ⟨rfl, fun idle => by simp_all⟩
  | load | storeType | storeVal | reply =>
    simp only [memStep]
    split <;> exact ⟨rfl, id⟩

private theorem quiet_phase {kind : ServerKind} {s : MemState} {e : MemStep}
    (counters : Counters kind s)
    (phase : s.quiet = true → s.client ≠ .idle → Phase s) (fresh : Fresh kind s e)
    (quiet : (memStep kind s e).quiet = true) (busy : (memStep kind s e).client ≠ .idle) :
    Phase (memStep kind s e) := by
  by_cases call : ∃ call, e = .call call
  · obtain ⟨call, rfl⟩ := call
    simp only [memStep] at quiet busy ⊢
    split at quiet
    next idle =>
      rw [if_pos idle]
      exact ⟨of_decide_eq_true quiet, fun _ impossible => by omega⟩
    next other =>
      rw [if_neg other]
      exact phase quiet other
  · push Not at call
    -- no other step starts a call, so the client was busy before
    obtain ⟨same, idle⟩ := memStep_idle kind s e call
    have phase := phase (same ▸ quiet) (mt idle busy)
    by_cases timeout : e = .timeout
    · -- a client that stops waiting is idle
      subst timeout
      simp only [memStep] at busy ⊢
      split at busy
      · exact absurd rfl busy
      · exact phase
    · exact phase_step counters phase fresh timeout

private theorem quietInv_step (kind : ServerKind) (s : MemState) (e : MemStep)
    (inv : QuietInv kind s) (fresh : Fresh kind s e) : QuietInv kind (memStep kind s e) := by
  refine ⟨counters_step kind s e inv.counters, ?_, ?_⟩
  · exact quiet_phase inv.counters inv.phase fresh
  · intro r member quiet
    rcases memStep_returns kind s e inv.phase r member with old | new
    · exact (inv.own r old quiet).extend (memStep_extends kind s e)
    · exact (new quiet).extend (memStep_extends kind s e)

private theorem memStart_quietInv (kind : ServerKind) : QuietInv kind memStart where
  counters := memStart_counters kind
  phase := fun _ busy => absurd rfl busy
  own := fun _ impossible => by cases impossible

/-- On every run, the calls that began with nothing of an earlier one under way and returned 0
stored the replies to their own requests. -/
theorem mem_replies_own (kind : ServerKind) (steps : List MemStep)
    (fresh : Along (Fresh kind) (memStep kind) memStart steps) :
    ∀ r ∈ (run (memStep kind) memStart steps).returns, r.quiet = true →
      OwnReply (run (memStep kind) memStart steps) r :=
  (run_invariant (QuietInv kind) (Fresh kind) (memStep kind) (quietInv_step kind) memStart steps
    (memStart_quietInv kind) fresh).own

end WrSwitch.MiniRpc
