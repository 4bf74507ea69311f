import WrSwitch.MiniRpc.Export
import WrSwitch.MiniRpc.Marshal
import WrSwitch.MiniRpc.SharedMem

/-!
# Calls over a socket

`minipc_call` and `mpc_handle_client` at the two ends of a `SOCK_STREAM` connection: bytes
arrive in order, and `recv` returns those that are there, up to the size of its buffer.
-/
namespace WrSwitch.MiniRpc

open Machine

/-! ### Packets -/

/-- `sizeof(struct mpc_req_packet)` -/
def reqPacketSize : Nat := minipcMaxName + 4 * minipcMaxArguments

/-- `sizeof(struct mpc_rep_packet)` -/
def repPacketSize : Nat := 4 + minipcMaxReply

/-- The memory from an address on, where it is known. -/
def memAt (m : Mem) (i : Nat) : Byte := m.getD i 0

/-- A buffer of a given old content after `recv`. -/
def received (bytes stack : Mem) : Mem := bytes ++ stack.drop bytes.length

/-- What `mpc_handle_client` sends back. -/
def replyPacket (reply : MpcRepPacket) : Mem :=
  storeBits reply.type ++ replyBytes (memAt reply.val) (minipcGetAsize reply.type)

/-- `minipc_call` after `recv`, which stored `retsize` bytes to `p_in`. -/
def minipcReceived (retval : Word) (retsize : Nat) (pIn : Mem) : CallReturn :=
  let size := minipcGetAsize retval + 4
  let type : Word := loadBits 32 pIn
  let val := pIn.drop 4
  if retsize < 8 then .eproto
  else if minipcGetAtype type = some .error then .eremoteio (loadBits 32 val)
  else if type >>> 16 ≠ retval >>> 16 then .eproto
  else if retsize < size then .eproto
  else .ok (replyBytes (memAt val) (minipcGetAsize type))

/-- The packet of a call, if the arguments fit; `_pkt_out` is cleared before. -/
def minipcPacket {φ : Type} (pd : MinipcPd φ) (ap : List VaArg) : Option Mem :=
  match marshal pd.args ap 0 fun _ => 0 with
  | .packed narg out => some (pd.name.bytes ++ window out 0 (4 * narg))
  | .eproto | .undefined => none

/-! ### The connection -/

/-- A request that the server received, and its reply. -/
structure SocketExecution where
  received : List (Nat × Byte)
  reply : MpcRepPacket

/-- The bytes on their way to the server carry the number of their request. -/
structure SocketState (σ : Type) where
  toServer : List (Nat × Byte)
  toClient : Mem
  /-- the declared return type, while the client waits in `poll` -/
  client : Option Word
  /-- the request that the server has received and not answered -/
  server : Option (List (Nat × Byte))
  /-- what the handlers work on -/
  state : σ
  requests : List Mem
  executions : List SocketExecution
  /-- the current call began with nothing of an earlier one under way -/
  quiet : Bool
  returns : List Returned

inductive SocketStep (φ σ : Type)
  | call (pd : MinipcPd φ) (ap : List VaArg)
  | timeout
  | receive (stack : Mem)
  | serverReceive
  | serve (stack val : Mem)
  /-- the server serves another client -/
  | elsewhere (state : σ)

def SocketState.AtRest {σ : Type} (s : SocketState σ) : Prop :=
  s.toServer = [] ∧ s.server = none ∧ s.toClient = []

instance {σ : Type} (s : SocketState σ) : Decidable s.AtRest :=
  inferInstanceAs (Decidable (_ ∧ _ ∧ _))

def SocketState.returned {σ : Type} (s : SocketState σ) (result : CallReturn) : SocketState σ :=
  { s with client := none, returns := s.returns ++ [⟨s.requests.length, s.quiet, result⟩] }

section Connection

variable {ι φ σ : Type} (pds : ι → MinipcPd φ) (call : MinipcPd φ → Mem → Mem → σ → Outcome σ)
  (link : List (MpcFlist ι))

/-- A step by a party that is not at that point of its code changes nothing. -/
def socketStep (s : SocketState σ) : SocketStep φ σ → SocketState σ
  | .call pd ap =>
    match s.client, minipcPacket pd ap with
    | none, some packet =>
      { s with toServer := s.toServer ++ packet.map fun b => (s.requests.length + 1, b),
               client := some pd.retval, requests := s.requests ++ [packet],
               quiet := decide s.AtRest }
    | _, _ => s
  | .timeout =>
    -- `poll` times out only with nothing to read
    if s.client ≠ none ∧ s.toClient = [] then s.returned .etimedout else s
  | .receive stack =>
    match s.client with
    | some retval =>
      if s.toClient = [] then s
      else
        let bytes := s.toClient.take repPacketSize
        { s with toClient := s.toClient.drop repPacketSize }.returned
          (minipcReceived retval bytes.length (received bytes stack))
    | none => s
  | .serverReceive =>
    if s.server = none ∧ s.toServer ≠ [] then
      { s with toServer := s.toServer.drop reqPacketSize,
               server := some (s.toServer.take reqPacketSize) }
    else s
  | .serve stack val =>
    match s.server with
    | some bytes =>
      let served := mpcHandleClient pds call link (received (bytes.map Prod.snd) stack) val s.state
      { s with server := none, state := served.state,
               toClient := s.toClient ++ replyPacket served.reply,
               executions := s.executions ++ [⟨bytes, served.reply⟩] }
    | none => s
  | .elsewhere state => if s.server = none then { s with state := state } else s

def socketStart (state : σ) : SocketState σ where
  toServer := []
  toClient := []
  client := none
  server := none
  state := state
  requests := []
  executions := []
  quiet := false
  returns := []

/-! ### Sizes -/

/-- The loop of `minipc_call` ends below `MINIPC_MAX_ARGUMENTS`. -/
theorem marshal_fits (args : List Word) (ap : List VaArg) (narg : Nat) (out : ArgBytes)
    {narg' : Nat} {out' : ArgBytes} (packed : marshal args ap narg out = .packed narg' out') :
    narg' < minipcMaxArguments := by
  -- each turn stops the loop or leaves the word within the packet
  induction args generalizing ap narg out with
  | nil => cases packed
  | cons arg args ih =>
    rw [marshal] at packed
    split at packed
    next result stopped =>
      subst packed
      simp only [marshalTurn] at stopped
      split at stopped
      · cases stopped
      next below =>
        split at stopped
        · cases stopped
          omega
        · split at stopped <;> cases stopped
        · split at stopped <;> cases stopped
        · split at stopped <;> cases stopped
        · split at stopped
          · simp only [marshalString] at stopped
            split at stopped
            · cases stopped
            · split at stopped <;> cases stopped
          · cases stopped
        · split at stopped <;> cases stopped
        · cases stopped
        · cases stopped
    · exact ih _ _ _ packed

private theorem minipcPacket_size {pd : MinipcPd φ} {ap : List VaArg} {packet : Mem}
    (fits : minipcPacket pd ap = some packet) :
    packet ≠ [] ∧ packet.length ≤ reqPacketSize := by
  rw [minipcPacket] at fits
  split at fits
  next narg out packed =>
    -- the argument words fit, and the name has its fixed place in front
    have below := marshal_fits _ _ _ _ packed
    have name := pd.name.size
    obtain rfl := Option.some.inj fits
    have length : (pd.name.bytes ++ window out 0 (4 * narg)).length =
        minipcMaxName + 4 * narg := by
      simp [window, name]
    refine ⟨?_, ?_⟩
    · intro empty
      have positive : 0 < minipcMaxName := by decide
      rw [empty, List.length_nil] at length
      omega
    · rw [length, reqPacketSize]
      omega
  next => cases fits
  next => cases fits

/-- A reply is as long as it says. -/
theorem replyBytes_length (val : Nat → Byte) (len : Nat) : (replyBytes val len).length = len := by
  simp [replyBytes]

/-- The bytes of a reply. -/
theorem replyBytes_getElem (val : Nat → Byte) (len i : Nat)
    (inside : i < (replyBytes val len).length) :
    (replyBytes val len)[i] = val i := by
  simp [replyBytes]

/-- The client stores the value that was sent, as far as a reply packet holds it. -/
theorem received_reply (reply : MpcRepPacket) (retval : Word) (stack ret : Mem)
    (ok : minipcReceived retval ((replyPacket reply).take repPacketSize).length
      (received ((replyPacket reply).take repPacketSize) stack) = .ok ret) :
    ret.take minipcMaxReply =
      (replyBytes (memAt reply.val) (minipcGetAsize reply.type)).take minipcMaxReply := by
  have width : (storeBits reply.type).length = 4 := storeBits_length _
  have head : (replyPacket reply).take repPacketSize = storeBits reply.type ++
      (replyBytes (memAt reply.val) (minipcGetAsize reply.type)).take minipcMaxReply := by
    rw [replyPacket, repPacketSize, ← width, List.take_length_add_append]
  rw [head] at ok
  generalize tail : stack.drop (storeBits reply.type ++
    (replyBytes (memAt reply.val) (minipcGetAsize reply.type)).take minipcMaxReply).length = rest
    at ok
  simp only [received, tail, minipcReceived, List.append_assoc] at ok
  rw [loadBits_storeBits (by decide), ← width, List.drop_left] at ok
  -- only the branch of a whole reply returns
  have stored : ret = replyBytes (memAt ((replyBytes (memAt reply.val)
      (minipcGetAsize reply.type)).take minipcMaxReply ++ rest)) (minipcGetAsize reply.type) := by
    split at ok
    · cases ok
    · split at ok
      · cases ok
      · split at ok
        · cases ok
        · split at ok
          · cases ok
          · exact (CallReturn.ok.inj ok).symm
  rw [stored]
  generalize minipcGetAsize reply.type = asize
  apply List.ext_getElem
  · simp [replyBytes_length]
  · intro i inside _
    simp only [List.length_take, replyBytes_length] at inside
    have within : i < ((replyBytes (memAt reply.val) asize).take minipcMaxReply).length := by
      rw [List.length_take, replyBytes_length]
      exact inside
    simp only [List.getElem_take, replyBytes_getElem]
    rw [memAt, List.getD_eq_getElem?_getD, List.getElem?_append_left within,
      List.getElem?_eq_getElem within, Option.getD_some, List.getElem_take, replyBytes_getElem]

/-! ### A call that began quietly -/

/-- A request with its number on every byte. -/
def tagged (serial : Nat) (packet : Mem) : List (Nat × Byte) := packet.map fun b => (serial, b)

/-- A call that returned 0 stored the reply of the execution that received its own request. -/
def SocketOwnReply (s : SocketState σ) (r : Returned) : Prop :=
  ∀ ret, r.result = .ok ret → ∃ packet x, s.requests[r.serial - 1]? = some packet ∧
    x ∈ s.executions ∧ x.received = tagged r.serial packet ∧
    ret.take minipcMaxReply =
      (replyBytes (memAt x.reply.val) (minipcGetAsize x.reply.type)).take minipcMaxReply

/-- A reply that was a client's own remains so. -/
theorem SocketOwnReply.extend {s s' : SocketState σ} {r : Returned} (own : SocketOwnReply s r)
    (requests : s.requests <+: s'.requests) (executions : s.executions <+: s'.executions) :
    SocketOwnReply s' r := by
  intro ret ok
  obtain ⟨packet, x, request, member, rest⟩ := own ret ok
  obtain ⟨more, grown⟩ := requests
  refine ⟨packet, x, ?_, executions.subset member, rest⟩
  rw [← grown, List.getElem?_append_left (List.getElem?_eq_some_iff.mp request).1, request]

/-- Where the last request is, when nothing else is under way. -/
inductive SocketPhase (s : SocketState σ) (packet : Mem) : Prop
  | sent (toServer : s.toServer = tagged s.requests.length packet) (server : s.server = none)
      (toClient : s.toClient = [])
  | serving (toServer : s.toServer = [])
      (server : s.server = some (tagged s.requests.length packet)) (toClient : s.toClient = [])
  | replied (toServer : s.toServer = []) (server : s.server = none) (x : SocketExecution)
      (last : s.executions.getLast? = some x)
      (received : x.received = tagged s.requests.length packet)
      (toClient : s.toClient = replyPacket x.reply)

structure SocketInv (s : SocketState σ) : Prop where
  phase : s.quiet = true → s.client ≠ none → ∃ packet, s.requests.getLast? = some packet ∧
    packet ≠ [] ∧ packet.length ≤ reqPacketSize ∧ SocketPhase s packet
  own : ∀ r ∈ s.returns, r.quiet = true → SocketOwnReply s r

/-- A call that returns without a value keeps the invariant. -/
theorem SocketInv.failed {s : SocketState σ} (inv : SocketInv s) (result : CallReturn)
    (other : ∀ ret, result ≠ .ok ret) : SocketInv (s.returned result) := by
  refine ⟨fun _ busy => absurd rfl busy, ?_⟩
  intro r member quiet
  rcases List.mem_append.mp member with old | new
  · exact inv.own r old quiet
  · obtain rfl := List.mem_singleton.mp new
    exact fun ret ok => absurd ok (other ret)

private theorem socket_call {s : SocketState σ} (inv : SocketInv s) (pd : MinipcPd φ)
    (ap : List VaArg) :
    SocketInv (socketStep pds call link s (.call pd ap)) := by
  simp only [socketStep]
  split
  next packet idle fits =>
    obtain ⟨nonempty, small⟩ := minipcPacket_size fits
    constructor
    · intro quiet _
      obtain ⟨toServer, server, toClient⟩ := of_decide_eq_true quiet
      refine ⟨packet, List.getLast?_concat, nonempty, small, .sent ?_ server toClient⟩
      simp [toServer, tagged]
    · intro r member quiet
      exact (inv.own r member quiet).extend (List.prefix_append _ _) List.prefix_rfl
  next => exact inv

private theorem socket_receive {s : SocketState σ} (inv : SocketInv s) (stack : Mem) :
    SocketInv (socketStep pds call link s (.receive stack)) := by
  simp only [socketStep]
  split
  next retval waiting =>
    split
    · exact inv
    next available =>
      refine ⟨fun _ busy => absurd rfl busy, ?_⟩
      intro r member quiet
      rcases List.mem_append.mp member with old | new
      · exact inv.own r old quiet
      · obtain rfl := List.mem_singleton.mp new
        intro ret ok
        obtain ⟨packet, last, _, _, phase⟩ := inv.phase quiet (by simp [waiting])
        -- a packet is available only after the server has replied
        cases phase with
        | sent _ _ toClient => exact absurd toClient available
        | serving _ _ toClient => exact absurd toClient available
        | replied _ _ x executed received toClient =>
          have request : s.requests[s.requests.length - 1]? = some packet := by
            rw [← List.getLast?_eq_getElem?]
            exact last
          refine ⟨packet, x, request, List.mem_of_getLast? executed, received, ?_⟩
          simp only [toClient] at ok
          exact received_reply x.reply retval stack ret ok
  next => exact inv

private theorem socket_serverReceive {s : SocketState σ} (inv : SocketInv s) :
    SocketInv (socketStep pds call link s .serverReceive) := by
  simp only [socketStep]
  split
  next ready =>
    refine ⟨?_, inv.own⟩
    intro quiet busy
    obtain ⟨packet, last, nonempty, small, phase⟩ := inv.phase quiet busy
    refine ⟨packet, last, nonempty, small, ?_⟩
    have whole : (tagged s.requests.length packet).length ≤ reqPacketSize := by
      simpa [tagged] using small
    cases phase with
    | sent toServer _ toClient =>
      refine .serving ?_ ?_ toClient
      · rw [toServer, List.drop_eq_nil_of_le whole]
      · rw [toServer, List.take_of_length_le whole]
    | serving toServer => exact absurd toServer ready.2
    | replied toServer => exact absurd toServer ready.2
  next => exact inv

private theorem socket_serve {s : SocketState σ} (inv : SocketInv s) (stack val : Mem) :
    SocketInv (socketStep pds call link s (.serve stack val)) := by
  simp only [socketStep]
  split
  next bytes working =>
    constructor
    · intro quiet busy
      obtain ⟨packet, last, nonempty, small, phase⟩ := inv.phase quiet busy
      refine ⟨packet, last, nonempty, small, ?_⟩
      -- only a phase with the packet at the server can have it worked on
      cases phase with
      | sent _ server =>
        rw [server] at working
        cases working
      | serving toServer server toClient =>
        rw [server] at working
        refine .replied toServer rfl _ List.getLast?_concat (Option.some.inj working).symm ?_
        simp [toClient]
      | replied _ server =>
        rw [server] at working
        cases working
    · intro r member quiet
      exact (inv.own r member quiet).extend List.prefix_rfl (List.prefix_append _ _)
  next => exact inv

private theorem socketInv_step (s : SocketState σ) (e : SocketStep φ σ) (inv : SocketInv s) :
    SocketInv (socketStep pds call link s e) := by
  cases e with
  | call pd ap => exact socket_call pds call link inv pd ap
  | timeout =>
    simp only [socketStep]
    split
    · exact inv.failed .etimedout fun _ impossible => by cases impossible
    · exact inv
  | receive stack => exact socket_receive pds call link inv stack
  | serverReceive => exact socket_serverReceive pds call link inv
  | serve stack val => exact socket_serve pds call link inv stack val
  | elsewhere state =>
    simp only [socketStep]
    split
    · refine ⟨?_, inv.own⟩
      intro quiet busy
      -- the state of the program changes, not what is on the way
      obtain ⟨packet, last, nonempty, small, phase⟩ := inv.phase quiet busy
      refine ⟨packet, last, nonempty, small, ?_⟩
      cases phase with
      | sent toServer server toClient => exact .sent toServer server toClient
      | serving toServer server toClient => exact .serving toServer server toClient
      | replied toServer server x executed received toClient =>
        exact .replied toServer server x executed received toClient
    · exact inv

private theorem socketStart_inv (state : σ) : SocketInv (socketStart state) where
  phase := fun _ busy => absurd rfl busy
  own := fun _ impossible => by cases impossible

/-- On every run, the calls that began with nothing of an earlier one under way and returned 0
stored the replies to their own requests. -/
theorem socket_replies_own (state : σ) (steps : List (SocketStep φ σ)) :
    ∀ r ∈ (run (socketStep pds call link) (socketStart state) steps).returns, r.quiet = true →
      SocketOwnReply (run (socketStep pds call link) (socketStart state) steps) r :=
  (run_preserves SocketInv (socketStep pds call link) (socketInv_step pds call link) _ steps
    (socketStart_inv state)).own

end Connection

end WrSwitch.MiniRpc
