import WrSwitch.MiniRpc.SharedMem

/-!
# Exactly-once execution over shared memory

Which servers execute every request of a client that waits for its replies once and in order.
-/
namespace WrSwitch.MiniRpc

open Machine

/-! ### Executions and requests -/

/-- What the server loaded for each request that it has started to serve. -/
def MemState.started (s : MemState) : List (List (Nat × Byte)) :=
  s.executions.map Execution.loads ++
    match s.server with
    | .serving loads => [loads]
    | .idle | .noting => []

/-- Whether the client is between the increment of `nrequest` and the reply. -/
def ClientPc.isWaiting : ClientPc → Bool
  | .waiting _ _ => true
  | _ => false

def ClientPc.isPrepared : ClientPc → Bool
  | .prepared _ _ => true
  | _ => false

/-- Every request is executed once, in order and with its own arguments. -/
structure ExactlyOnce (kind : ServerKind) (s : MemState) : Prop where
  /-- what is started are the first requests -/
  inOrder : ∀ (k : Nat) (loads : List (Nat × Byte)), s.started[k]? = some loads →
    ∃ call : MinipcCall, s.requests[k]? = some call ∧ Agrees loads call.packet
  /-- and they are all requests when the client does not wait -/
  complete : s.client.isWaiting = false → s.executions.length = s.requests.length
  /-- a request that is not executed yet is picked up at the next look of the server -/
  prompt : s.server = .idle → s.executions.length < s.requests.length →
    (serverStep kind s).server ≠ .idle

/-- The side condition of the hosted server: it passes `mpc_mem_request` only when there are
more requests than replies, and `nrequest` does not come back to 0. -/
def CountedOnce (kind : ServerKind) (s : MemState) (e : MemStep) : Prop :=
  kind = .hosted →
    (e = .server → s.server = .idle → s.nrequest ≠ s.lastRequestId → s.nrequest ≠ s.nreply) ∧
    (e = .client → s.client.isPrepared = true → s.nrequest + 1 ≠ 0)

instance (kind : ServerKind) (s : MemState) (e : MemStep) : Decidable (CountedOnce kind s e) :=
  inferInstanceAs (Decidable (_ → _ ∧ _))

/-- The executions so far are those of the first requests. -/
structure OnceInv (kind : ServerKind) (s : MemState) : Prop where
  counters : Counters kind s
  phase : Phase s
  count : s.started.length = s.pickedUp
  executed : ∀ (k : Nat) (x : Execution), s.executions[k]? = some x →
    ∃ call : MinipcCall, s.requests[k]? = some call ∧ Agrees x.loads call.packet
  /-- the hosted server sees that there is a request -/
  seen : kind = .hosted → s.client.isWaiting = true → s.nrequest ≠ 0

/-! ### What the invariant says -/

private theorem started_idle {s : MemState} (idle : s.server = .idle) :
    s.started = s.executions.map Execution.loads := by
  simp [MemState.started, idle]

/-- The server is behind by one request at most. -/
theorem Phase.lag {s : MemState} (phase : Phase s) :
    s.pickedUp = s.requests.length ∨ s.pickedUp + 1 = s.requests.length ∧
      s.client.isWaiting = true := by
  cases pc : s.client with
  | waiting call prev =>
    simp only [Phase, pc] at phase
    obtain ⟨_, _, ⟨_, outstanding⟩ | answered⟩ := phase
    · cases outstanding with
      | pending _ behind => exact .inr ⟨behind, rfl⟩
      | serving _ _ current => exact .inl current
    · exact .inl answered.atRest.2
  | idle | marshalling | prepared | checkingError | checkingType | sizing | copying =>
    refine .inl (phase.atRest ?_).2
    intro _ _ waiting
    rw [pc] at waiting
    cases waiting

/-- The request that is being noted is the only one not picked up. -/
theorem Phase.noting {s : MemState} (phase : Phase s) (noting : s.server = .noting) :
    s.pickedUp + 1 = s.requests.length := by
  -- a server that has seen a request is not at rest, so the client waits for it
  have busy : ¬s.AtRest := by
    intro rest
    rw [rest.1] at noting
    cases noting
  cases pc : s.client with
  | waiting call prev =>
    simp only [Phase, pc] at phase
    obtain ⟨_, _, ⟨_, outstanding⟩ | answered⟩ := phase
    · cases outstanding with
      | pending _ behind => exact behind
      | serving _ serving =>
        rw [noting] at serving
        cases serving
    · exact absurd answered.atRest busy
  | idle | marshalling | prepared | checkingError | checkingType | sizing | copying =>
    refine absurd (phase.atRest ?_) busy
    intro _ _ waiting
    rw [pc] at waiting
    cases waiting

private theorem ofNat_ne_succ (n : Nat) : BitVec.ofNat 32 n ≠ BitVec.ofNat 32 (n + 1) := by
  intro same
  have values := congrArg BitVec.toNat same
  simp only [BitVec.toNat_ofNat] at values
  omega

/-- An idle server passes on a request that it has not served. -/
theorem OnceInv.passes {kind : ServerKind} {s : MemState} (inv : OnceInv kind s)
    (behind : s.pickedUp + 1 = s.requests.length) (waiting : s.client.isWaiting = true) :
    s.nrequest ≠ s.lastRequestId := by
  have last := inv.counters.last
  cases kind with
  | hosted =>
    rw [last]
    exact inv.seen rfl waiting
  | freestanding =>
    rw [last, inv.counters.nrequest, ← behind]
    exact (ofNat_ne_succ s.pickedUp).symm

private theorem serverStep_passes {kind : ServerKind} {s : MemState} (idle : s.server = .idle) :
    (serverStep kind s).server ≠ .idle ↔ s.nrequest ≠ s.lastRequestId := by
  simp only [serverStep, idle]
  split
  next same => simp [idle, same]
  next other => cases kind <;> simp [other]

private theorem started_serving {s : MemState} {loads : List (Nat × Byte)}
    (serving : s.server = .serving loads) :
    s.started = s.executions.map Execution.loads ++ [loads] := by
  simp [MemState.started, serving]

private theorem started_noting {s : MemState} (noting : s.server = .noting) :
    s.started = s.executions.map Execution.loads := by
  simp [MemState.started, noting]

/-- The request that is being served is the one after those that were executed. -/
theorem OnceInv.current {kind : ServerKind} {s : MemState} {loads : List (Nat × Byte)}
    (inv : OnceInv kind s) (serving : s.server = .serving loads) :
    ∃ call : MinipcCall, s.requests[s.executions.length]? = some call ∧
      Agrees loads call.packet := by
  obtain ⟨call, prev, _, _, last, _, current, agrees⟩ := inv.phase.serving serving
  have count := inv.count
  rw [started_serving serving, List.length_append, List.length_map, List.length_singleton,
    current] at count
  refine ⟨call, ?_, agrees⟩
  rw [List.getLast?_eq_getElem?, ← count] at last
  exact last

/-- The requests are started in the order in which they were made. -/
theorem OnceInv.inOrder {kind : ServerKind} {s : MemState} (inv : OnceInv kind s) :
    ∀ (k : Nat) (loads : List (Nat × Byte)), s.started[k]? = some loads →
      ∃ call : MinipcCall, s.requests[k]? = some call ∧ Agrees loads call.packet := by
  intro k loads found
  have done (found : (s.executions.map Execution.loads)[k]? = some loads) :
      ∃ call : MinipcCall, s.requests[k]? = some call ∧ Agrees loads call.packet := by
    rw [List.getElem?_map, Option.map_eq_some_iff] at found
    obtain ⟨x, there, rfl⟩ := found
    exact inv.executed k x there
  cases pc : s.server with
  | idle => exact done (started_idle pc ▸ found)
  | noting => exact done (started_noting pc ▸ found)
  | serving now =>
    rw [started_serving pc] at found
    -- only the call being served is not yet among the executions
    by_cases early : k < (s.executions.map Execution.loads).length
    · rw [List.getElem?_append_left early] at found
      exact done found
    · have inside := (List.getElem?_eq_some_iff.mp found).1
      rw [List.length_append, List.length_singleton] at inside
      have last : k = (s.executions.map Execution.loads).length := by omega
      rw [last, List.getElem?_concat_length] at found
      obtain rfl := Option.some.inj found
      rw [last, List.length_map]
      exact inv.current pc

/-- Every request is executed once. -/
theorem OnceInv.once {kind : ServerKind} {s : MemState} (inv : OnceInv kind s) :
    ExactlyOnce kind s := by
  refine ⟨inv.inOrder, ?_, ?_⟩
  · intro free
    have rest := inv.phase.atRest (by
      intro call prev waiting
      rw [waiting] at free
      cases free)
    have count := inv.count
    rw [started_idle rest.1, List.length_map] at count
    exact count.trans rest.2
  · intro idle fewer
    have count := inv.count
    rw [started_idle idle, List.length_map] at count
    rw [serverStep_passes idle]
    rcases inv.phase.lag with caughtUp | ⟨behind, waiting⟩
    · omega
    · exact inv.passes behind waiting

/-! ### Steps -/

/-- Equal counters mean that every request was picked up. -/
theorem OnceInv.fresh {kind : ServerKind} {s : MemState} {e : MemStep} (inv : OnceInv kind s)
    (counted : CountedOnce kind s e) : Fresh kind s e := by
  intro hosted server idle passes same
  refine (counted hosted).1 server idle passes ?_
  have count := inv.count
  rw [started_idle idle, List.length_map] at count
  rw [inv.counters.nrequest, inv.counters.nreply, count, same]

private theorem count_server {kind : ServerKind} {s : MemState} (inv : OnceInv kind s)
    (fresh : Fresh kind s .server) :
    (serverStep kind s).started.length = (serverStep kind s).pickedUp := by
  have count := inv.count
  cases pc : s.server with
  | idle =>
    -- the request at hand is the only one not picked up
    have behind (passes : s.nrequest ≠ s.lastRequestId) : s.pickedUp + 1 = s.requests.length := by
      rcases inv.phase.lag with caughtUp | ⟨behind, _⟩
      · cases kind with
        | hosted => exact absurd caughtUp (fresh rfl rfl pc passes)
        | freestanding => exact absurd caughtUp (fresh_of_counters inv.counters passes)
      · exact behind
    rw [started_idle pc] at count
    simp only [serverStep, pc]
    split
    next => rw [started_idle pc, count]
    next passes =>
      cases kind with
      | hosted => simpa [MemState.started, ← behind passes] using count
      | freestanding => simpa [MemState.started] using count
  | noting =>
    rw [started_noting pc] at count
    have behind := inv.phase.noting pc
    simp only [serverStep, pc]
    simpa [MemState.started, ← behind] using count
  | serving loads =>
    simp only [serverStep, pc]
    exact count

private theorem once_server {kind : ServerKind} {s : MemState} (inv : OnceInv kind s)
    (fresh : Fresh kind s .server) : OnceInv kind (memStep kind s .server) := by
  obtain ⟨client, _, _, requests⟩ := serverStep_frame kind s
  -- looking for a request executes nothing
  have frame : (serverStep kind s).executions = s.executions ∧
      (serverStep kind s).nrequest = s.nrequest := by
    simp only [serverStep]
    split
    · split
      · exact ⟨rfl, rfl⟩
      · cases kind <;> exact ⟨rfl, rfl⟩
    · exact ⟨rfl, rfl⟩
    · exact ⟨rfl, rfl⟩
  refine ⟨counters_step kind s .server inv.counters,
    phase_step inv.counters inv.phase fresh (by simp), count_server inv fresh, ?_, ?_⟩
  · change ∀ (k : Nat) (x : Execution), (serverStep kind s).executions[k]? = some x →
      ∃ call : MinipcCall, (serverStep kind s).requests[k]? = some call ∧ _
    rw [frame.1, requests]
    exact inv.executed
  · change kind = .hosted → (serverStep kind s).client.isWaiting = true →
      (serverStep kind s).nrequest ≠ 0
    rw [client, frame.2]
    exact inv.seen

private theorem once_client {kind : ServerKind} {s : MemState} (inv : OnceInv kind s)
    (counted : CountedOnce kind s .client) : OnceInv kind (memStep kind s .client) := by
  obtain ⟨server, pickedUp, _, executions, _⟩ := clientStep_frame s
  refine ⟨counters_step kind s .client inv.counters,
    phase_step inv.counters inv.phase (inv.fresh counted) (by simp), ?_, ?_, ?_⟩
  · change (clientStep s).started.length = (clientStep s).pickedUp
    rw [MemState.started, executions, server, pickedUp]
    exact inv.count
  · intro k x there
    change (clientStep s).executions[k]? = some x at there
    rw [executions] at there
    obtain ⟨call, request, agrees⟩ := inv.executed k x there
    obtain ⟨more, grown⟩ := (memStep_extends kind s .client).requests
    refine ⟨call, ?_, agrees⟩
    rw [← grown, List.getElem?_append_left (List.getElem?_eq_some_iff.mp request).1, request]
  · intro hosted waiting
    change (clientStep s).client.isWaiting = true at waiting
    change (clientStep s).nrequest ≠ 0
    rcases clientStep_request s with ⟨nrequest, _⟩ | ⟨call, prev, prepared, _, nrequest, _⟩
    · rw [nrequest]
      refine inv.seen hosted ?_
      -- without a request, a client that waits was waiting before
      cases pc : s.client with
      | waiting call prev => rfl
      | prepared call prev =>
        have sent : (clientStep s).nrequest = s.nrequest + 1 := by simp only [clientStep, pc]
        rw [nrequest] at sent
        simp at sent
      | idle | sizing =>
        simp only [clientStep, pc] at waiting
        cases waiting
      | marshalling | checkingError | checkingType | copying =>
        simp only [clientStep, pc] at waiting
        split at waiting <;> cases waiting
    · rw [nrequest]
      exact (counted hosted).2 rfl (by rw [prepared]; rfl)

private theorem once_reply {kind : ServerKind} {s : MemState} (inv : OnceInv kind s) :
    OnceInv kind (memStep kind s .reply) := by
  have counters := counters_step kind s .reply inv.counters
  have phase : Phase (memStep kind s .reply) := phase_reply inv.phase
  simp only [memStep] at counters phase ⊢
  split
  next loads serving =>
    rw [serving] at counters phase
    refine ⟨counters, phase, ?_, ?_, inv.seen⟩
    · -- the call moves from being served to the executed ones
      have count := inv.count
      rw [started_serving serving] at count
      simpa [MemState.started] using count
    · intro k x there
      by_cases early : k < s.executions.length
      · rw [List.getElem?_append_left early] at there
        exact inv.executed k x there
      · have inside := (List.getElem?_eq_some_iff.mp there).1
        rw [List.length_append, List.length_singleton] at inside
        have last : k = s.executions.length := by omega
        rw [last, List.getElem?_concat_length] at there
        obtain rfl := Option.some.inj there
        rw [last]
        exact inv.current serving
  next => exact inv

private theorem onceInv_step (kind : ServerKind) (s : MemState) (e : MemStep)
    (patient : e ≠ .timeout)
    (inv : OnceInv kind s) (counted : CountedOnce kind s e) : OnceInv kind (memStep kind s e) := by
  have counters := counters_step kind s e inv.counters
  have phase := phase_step inv.counters inv.phase (inv.fresh counted) patient
  have count := inv.count
  -- only the client, the server and its reply touch the counts
  cases e with
  | client => exact once_client inv counted
  | server => exact once_server inv (inv.fresh counted)
  | reply => exact once_reply inv
  | timeout => exact absurd rfl patient
  | call call =>
    simp only [memStep] at counters phase ⊢
    split
    next idle =>
      rw [if_pos idle] at counters phase
      exact ⟨counters, phase, count, inv.executed, fun _ waiting => by cases waiting⟩
    next => exact inv
  | giveUp =>
    simp only [memStep] at counters phase ⊢
    split
    next marshalling =>
      rw [marshalling] at counters phase
      exact ⟨counters, phase, count, inv.executed, fun _ waiting => by cases waiting⟩
    next => exact inv
  | load a =>
    simp only [memStep] at counters phase ⊢
    split
    next loads serving =>
      rw [serving] at counters phase
      rw [started_serving serving] at count
      refine ⟨counters, phase, ?_, inv.executed, inv.seen⟩
      simpa [MemState.started] using count
    next => exact inv
  | storeType type =>
    cases pc : s.server with
    | serving loads =>
      have stored : memStep kind s (.storeType type) = { s with replyType := type } := by
        simp only [memStep, pc]
      rw [stored] at counters phase ⊢
      exact ⟨counters, phase, count, inv.executed, inv.seen⟩
    | idle | noting =>
      simp only [memStep, pc]
      exact inv
  | storeVal a b =>
    cases pc : s.server with
    | serving loads =>
      have stored : memStep kind s (.storeVal a b) =
          { s with replyVal := Function.update s.replyVal a b } := by
        simp only [memStep, pc]
      rw [stored] at counters phase ⊢
      exact ⟨counters, phase, count, inv.executed, inv.seen⟩
    | idle | noting =>
      simp only [memStep, pc]
      exact inv

/-! ### What exactly-once execution requires -/

/-- A hosted server that passes with nothing to serve executes the last request again. -/
theorem counted_server {s : MemState} (inv : OnceInv .hosted s)
    (after : ExactlyOnce .hosted (memStep .hosted s .server)) (idle : s.server = .idle)
    (passes : s.nrequest ≠ s.lastRequestId) : s.nrequest ≠ s.nreply := by
  intro same
  have count := inv.count
  rw [started_idle idle, List.length_map] at count
  rcases inv.phase.lag with caughtUp | ⟨behind, _⟩
  · have again : memStep .hosted s .server =
        { s with server := .serving [], pickedUp := s.requests.length } := by
      simp only [memStep, serverStep, idle, if_neg passes]
    rw [again] at after
    have last := after.inOrder s.executions.length [] (by simp [MemState.started])
    obtain ⟨call, there, _⟩ := last
    have inside := (List.getElem?_eq_some_iff.mp there).1
    simp only at inside
    omega
  · rw [inv.counters.nrequest, inv.counters.nreply, count, ← behind] at same
    exact ofNat_ne_succ s.pickedUp same.symm

/-- A hosted server does not see a request that brings `nrequest` back to 0. -/
theorem counted_client {s : MemState} (inv : OnceInv .hosted s)
    (after : ExactlyOnce .hosted (memStep .hosted s .client))
    (prepared : s.client.isPrepared = true) : s.nrequest + 1 ≠ 0 := by
  cases pc : s.client with
  | prepared call prev =>
    have rest := inv.phase.atRest (by simp [pc])
    have count := inv.count
    rw [started_idle rest.1, List.length_map, rest.2] at count
    have sent : memStep .hosted s .client =
        { s with nrequest := s.nrequest + 1, client := .waiting call prev,
                 requests := s.requests ++ [call] } := by
      simp only [memStep, clientStep, pc]
    rw [sent] at after
    -- a prompt server notices the request, so the counter differs from the one seen last
    have passes := after.prompt rest.1 (by simp [count])
    rw [serverStep_passes (by exact rest.1)] at passes
    have last := inv.counters.last
    simp only at last passes
    rwa [last] at passes
  | idle | marshalling | waiting | checkingError | checkingType | sizing | copying =>
    rw [pc] at prepared
    cases prepared

private theorem counted_required (kind : ServerKind) (s : MemState) (e : MemStep)
    (inv : OnceInv kind s)
    (after : ExactlyOnce kind (memStep kind s e)) : CountedOnce kind s e := by
  intro hosted
  subst hosted
  constructor
  · intro server idle passes
    subst server
    exact counted_server inv after idle passes
  · intro client prepared
    subst client
    exact counted_client inv after prepared

private theorem memStart_onceInv (kind : ServerKind) : OnceInv kind memStart where
  counters := memStart_counters kind
  phase := ⟨rfl, rfl⟩
  count := rfl
  executed := fun _ _ impossible => by simp [memStart] at impossible
  seen := fun _ impossible => by cases impossible

/-- In every interleaving without timeouts, the requests are executed exactly once as long as,
and only as long as, a hosted server passes `mpc_mem_request` with more requests than replies
only, and `nrequest` does not come back to 0. -/
theorem exactly_once (kind : ServerKind) (steps : List MemStep)
    (patient : ∀ e ∈ steps, e ≠ .timeout) :
    (∀ k, ExactlyOnce kind (run (memStep kind) memStart (steps.take k))) ↔
      Along (CountedOnce kind) (memStep kind) memStart steps :=
  run_good_iff (OnceInv kind) (ExactlyOnce kind) (fun _ inv => inv.once)
    (fun s e inv patient => onceInv_step kind s e patient inv)
    (fun s e inv _ after => counted_required kind s e inv after) (memStart_onceInv kind)
    (Along.of_forall (memStep kind) memStart patient)

/-- A call with a request of one byte, from its begin to the increment of `nrequest`. -/
def oneByteRequest (b : Byte) : List MemStep :=
  [.call ⟨[b], 0⟩, .client, .client, .client]

/-- The freestanding server serves a request and returns to its loop. -/
theorem exactly_once_freestanding :
    ExactlyOnce .freestanding (run (memStep .freestanding) memStart
      ((oneByteRequest 7 ++ [MemStep.server, .server, .load 0, .reply, .server]).take 9)) :=
  (exactly_once .freestanding _ (by decide)).mpr (by decide) 9

/-- The hosted server executes the only request a second time. -/
theorem executed_twice :
    ¬ExactlyOnce .hosted (run (memStep .hosted) memStart
      (oneByteRequest 7 ++ [.server, .load 0, .reply, .server, .load 0, .reply])) := by
  intro once
  obtain ⟨call, there, _⟩ := once.inOrder 1 [(0, 7)] (by decide)
  have inside := (List.getElem?_eq_some_iff.mp there).1
  exact absurd inside (by decide)

end WrSwitch.MiniRpc
