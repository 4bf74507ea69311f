import Mathlib.Tactic.SplitIfs
import WrSwitch.Machine.Text
import WrSwitch.Machine.Writes
import WrSwitch.Snmp.ReadRounds

/-!
# wrsPtpInstanceTable

`wrsPtpInstanceTable_data_fill` with the memory of ppsi available and the cache expired. The
variables that number the instances of a port are set before the first round only.
-/
namespace WrSwitch.Snmp

open Machine

inductive InstanceColumn
  | wrsPtpInstanceName
  | wrsPtpInstancePort
  | wrsPtpInstancePortInstance
  | wrsPtpInstancePortName
  | wrsPtpInstanceState
  | wrsPtpInstanceMasterOnly
  | wrsPtpInstanceExtPortCfgDesSt
  | wrsPtpInstanceMechanism
  | wrsPtpInstanceProfile
  | wrsPtpInstanceExtension
  | wrsPtpInstanceAsymEnabled
  | wrsPtpInstanceAsymConstAsymPS
  | wrsPtpInstanceAsymScDelayCoef
  | wrsPtpInstanceAsymScDelayCoefHR
  | wrsPtpInstanceTSCorrEgressLatPS
  | wrsPtpInstanceTSCorrIngLatPS
  | wrsPtpInstanceTSCorrSemistLatPS
  | wrsPtpInstanceProtoDetectState
  | wrsPtpInstanceExtState
  | wrsPtpInstancePeerMac
  | wrsPtpInstancePeerVid
  | wrsPtpInstanceVlanNum
  | wrsPtpInstanceVlanListStr
  | wrsPtpInstanceStatusError
  | wrsPtpInstanceExtensionCfg
deriving DecidableEq

def InstanceColumn.cleared : InstanceColumn → Cell
  | .wrsPtpInstanceName | .wrsPtpInstancePortName | .wrsPtpInstanceAsymScDelayCoefHR
  | .wrsPtpInstanceVlanListStr => .text []
  | .wrsPtpInstancePeerMac => .bytes (List.replicate 6 0)
  | _ => .int 0

/-- What a pass reads of an instance of ppsi. Latencies are picoseconds, as `interval_to_picos`
gives them. -/
structure PpInstance where
  portName : List Char
  ifaceName : List Char
  /-- the index of the port that `pp_wrs_lookup_port` finds for the interface -/
  hwIndex : Option Nat
  state : Int
  /-- `masterOnly` of the instance's `portDS`, if it has one -/
  masterOnly : Option Bool
  desiredState : Int
  delayMechanism : Int
  profile : Int
  protocolExtension : Int
  asymEnable : Int
  constantAsymmetry : Int
  scaledDelayCoefficient : Int
  /-- the coefficient divided by `2 ^ 62`, as `"%.9f,"` prints it -/
  scaledDelayCoefficientHR : List Char
  egressLatency : Int
  ingressLatency : Int
  semistaticLatency : Int
  pdstate : Int
  extState : Int
  peer : List (BitVec 8)
  peerVid : Int
  vlans : List Int
  extAutonegEnable : Int
  cfgExtension : Int

/-- The port that an instance runs on, counted from 1. -/
def PpInstance.physPort (inst : PpInstance) : Option Nat := inst.hwIndex.map (· + 1)

/-- What the loop uses beside the memory of ppsi. -/
structure InstanceEnv where
  codes : PpsiCodes
  /-- `WRSPTPINSTANCEVLANLISTSTRLEN` -/
  vlanListStrLen : Nat
  /-- `shmem_ready_hald` -/
  shmemReadyHald : Bool
  halMode : Int
  /-- `wrsPortStatusMonitor` in the row of the port status table of that index -/
  monitor : Int → Int
  /-- `wrsPortStatusLink` -/
  link : Int → Int

/-- `phys_port`, `last_port` and `instance_on_port`. -/
structure PortCount where
  physPort : Nat
  lastPort : Nat
  instanceOnPort : Nat
deriving DecidableEq

def PortCount.start : PortCount := ⟨0, 0, 0⟩

/-- The numbering of the instances. -/
def PortCount.next (c : PortCount) (inst : PpInstance) : PortCount :=
  match inst.physPort with
  | none => c
  | some port => ⟨port, port, if c.lastPort = port then c.instanceOnPort + 1 else 1⟩

def getProfileVal (codes : PpsiCodes) (profile : Int) : Int :=
  if profile = codes.ppsiProfilePtp then 1
  else if profile = codes.ppsiProfileHaWr then 2
  else if profile = codes.ppsiProfileCustom then 4 else 0

/-- The list of VLANs with commas between them, as far as there is space. -/
def vlanListStr (len : Nat) (vlans : List Int) : List Char :=
  let s := (vlans.flatMap fun vlan => decimal vlan ++ [',']).take (len - 1)
  if s.getLast? = some ',' then s.dropLast else s

def halTimingModeGrandMaster : Int := 0
def halTimingModeFreeMaster : Int := 1
def halTimingModeBc : Int := 2

def wrsSlaveLinkStatusOk : Int := 1
def wrsSlaveLinkStatusError : Int := 2

def wrsPortStatusLinkDown : Int := 1
def wrsPortStatusLinkUp : Int := 2

/-- The link errors of an instance on port `physPort`. -/
def linkFault (env : InstanceEnv) (physPort : Nat) (inst : PpInstance) : Prop :=
  let row : Int := physPort - 1
  env.monitor row ≠ 2 ∧
    ((env.link row = wrsPortStatusLinkUp ∧
        (inst.state = env.codes.ppsSlave ∨ inst.state = env.codes.ppsUncalibrated) ∧
        (env.halMode = halTimingModeGrandMaster ∨ env.halMode = halTimingModeFreeMaster)) ∨
      (env.halMode = halTimingModeBc ∧ inst.desiredState = env.codes.ppsSlave ∧
        ((inst.state ≠ env.codes.ppsDisabled ∧ inst.state ≠ env.codes.ppsSlave) ∨
          env.link row = wrsPortStatusLinkDown)))

instance (env : InstanceEnv) (physPort : Nat) (inst : PpInstance) :
    Decidable (linkFault env physPort inst) := inferInstanceAs (Decidable (_ ∧ _))

/-- What the loop body writes into the row of an instance, once the numbering has reached it. -/
def instanceWrites (env : InstanceEnv) (c : PortCount) (inst : PpInstance) :
    Writes InstanceColumn Cell
  | .wrsPtpInstanceName => some (.text (inst.portName.take 15))
  | .wrsPtpInstancePortName => some (.text (inst.ifaceName.take 15))
  | .wrsPtpInstancePort => inst.physPort.map fun port => .int port
  | .wrsPtpInstancePortInstance => some (.int c.instanceOnPort)
  | .wrsPtpInstanceState => some (.int inst.state)
  | .wrsPtpInstanceMasterOnly =>
    some (.int (match inst.masterOnly with | none => 0 | some false => 1 | some true => 2))
  | .wrsPtpInstanceExtPortCfgDesSt => some (.int inst.desiredState)
  | .wrsPtpInstanceMechanism => some (.int inst.delayMechanism)
  | .wrsPtpInstanceProfile => some (.int (getProfileVal env.codes inst.profile))
  | .wrsPtpInstanceExtension => some (.int (inst.protocolExtension + 1))
  | .wrsPtpInstanceAsymEnabled => some (.int (inst.asymEnable + 1))
  | .wrsPtpInstanceAsymConstAsymPS => some (.int inst.constantAsymmetry)
  | .wrsPtpInstanceAsymScDelayCoef => some (.int inst.scaledDelayCoefficient)
  | .wrsPtpInstanceAsymScDelayCoefHR => some (.text (inst.scaledDelayCoefficientHR.take 63))
  | .wrsPtpInstanceTSCorrEgressLatPS => some (.int inst.egressLatency)
  | .wrsPtpInstanceTSCorrIngLatPS => some (.int inst.ingressLatency)
  | .wrsPtpInstanceTSCorrSemistLatPS => some (.int inst.semistaticLatency)
  | .wrsPtpInstanceProtoDetectState => some (.int (inst.pdstate + 1))
  | .wrsPtpInstanceExtState => some (.int (inst.extState + 1))
  | .wrsPtpInstancePeerMac => some (.bytes inst.peer)
  | .wrsPtpInstancePeerVid => some (.int inst.peerVid)
  | .wrsPtpInstanceVlanNum => some (.int inst.vlans.length)
  -- without VLANs the loop that prints them never runs
  | .wrsPtpInstanceVlanListStr =>
    if inst.vlans = [] then none else some (.text (vlanListStr env.vlanListStrLen inst.vlans))
  | .wrsPtpInstanceStatusError =>
    if env.shmemReadyHald then
      some (.int (if linkFault env c.physPort inst then wrsSlaveLinkStatusError
        else wrsSlaveLinkStatusOk))
    else none
  | .wrsPtpInstanceExtensionCfg =>
    some (.int (if inst.extAutonegEnable = env.codes.ppsiExtAutonegEnable then 4
      else inst.cfgExtension + 1))

abbrev InstanceRows := Nat × InstanceColumn → Cell

/-- The table, with the variables that number the instances. -/
structure InstanceState where
  count : PortCount
  table : InstanceRows

def InstanceState.start : InstanceState := ⟨.start, fun k => k.2.cleared⟩

/-- What the loop writes for the instances of a round from row `i` on. -/
def roundWrites (env : InstanceEnv) : PortCount → Nat → List PpInstance →
    Writes (Nat × InstanceColumn) Cell
  | _, _, [], _ => none
  | c, i, inst :: rest, k =>
    if k.1 = i then instanceWrites env (c.next inst) inst k.2
    else roundWrites env (c.next inst) (i + 1) rest k

/-- The loop over the instances, from row `i` on. -/
def instanceLoop (env : InstanceEnv) : InstanceState → Nat → List PpInstance → InstanceState
  | s, _, [] => s
  | s, i, inst :: rest =>
    let count := s.count.next inst
    let row : Writes (Nat × InstanceColumn) Cell := fun k =>
      if k.1 = i then instanceWrites env count inst k.2 else none
    instanceLoop env ⟨count, row.onto s.table⟩ (i + 1) rest

def instancePass (env : InstanceEnv) (s : InstanceState) (insts : List PpInstance) :
    InstanceState := instanceLoop env s 0 insts

/-- `wrsPtpInstanceTable_data_fill`. -/
def wrsPtpInstanceTableFill (env : InstanceEnv) (rounds : List (Round (List PpInstance))) :
    Option InstanceRows :=
  (readRounds true (instancePass env) 0 .start rounds).map InstanceState.table

/-! ### The numbering -/

/-- The last port that was found for one of the instances. -/
def lastFound (insts : List PpInstance) : Option Nat :=
  insts.foldl (fun found inst => inst.physPort.or found) none

def countAfter (c : PortCount) (insts : List PpInstance) : PortCount :=
  insts.foldl PortCount.next c

private theorem instanceLoop_count (env : InstanceEnv) (s : InstanceState) (i : Nat)
    (insts : List PpInstance) : (instanceLoop env s i insts).count = countAfter s.count insts := by
  induction insts generalizing s i with
  | nil => rfl
  | cons inst rest ih => exact ih _ _

/-- The numbering remembers the last port, which is 0 only before one was found. -/
def PortCount.Follows (c : PortCount) (found : Option Nat) : Prop :=
  match found with
  | none => c = .start
  | some port => c.physPort = port ∧ c.lastPort = port ∧ 0 < c.instanceOnPort

theorem PortCount.Follows.next {c : PortCount} {found : Option Nat} (follows : c.Follows found)
    (inst : PpInstance) : (c.next inst).Follows (inst.physPort.or found) := by
  rw [PortCount.next]
  cases inst.physPort with
  | none => exact follows
  | some port =>
    refine ⟨rfl, rfl, ?_⟩
    change 0 < if c.lastPort = port then c.instanceOnPort + 1 else 1
    split <;> exact Nat.succ_pos _

private theorem countAfter_follows (insts : List PpInstance) :
    (countAfter .start insts).Follows (lastFound insts) := by
  suffices each : ∀ c found, PortCount.Follows c found →
      (countAfter c insts).Follows (insts.foldl (fun found inst => inst.physPort.or found) found)
    from each .start none rfl
  induction insts with
  | nil => exact fun c found follows => follows
  | cons inst rest ih => exact fun c found follows => ih _ _ (follows.next inst)

/-! ### What a round writes -/

private theorem instanceLoop_table (env : InstanceEnv) (s : InstanceState) (i : Nat)
    (insts : List PpInstance) :
    (instanceLoop env s i insts).table = (roundWrites env s.count i insts).onto s.table := by
  induction insts generalizing s i with
  | nil => rfl
  | cons inst rest ih =>
    rw [instanceLoop, ih]
    funext k
    simp only [Writes.onto_apply, roundWrites]
    by_cases here : k.1 = i
    · -- the later rows are written by the later instances only
      have below : roundWrites env (s.count.next inst) (i + 1) rest k = none := by
        have early (c : PortCount) (j : Nat) (after : k.1 < j) (insts : List PpInstance) :
            roundWrites env c j insts k = none := by
          induction insts generalizing c j with
          | nil => rfl
          | cons inst insts ih =>
            rw [roundWrites, if_neg (by omega)]
            exact ih _ _ (by omega)
        exact early _ _ (by omega) rest
      rw [below, if_pos here]
      rfl
    · rw [if_neg here, if_neg here]
      rfl

private theorem instanceWrites_domain (env : InstanceEnv) (c c' : PortCount) (inst : PpInstance)
    (column : InstanceColumn) :
    (instanceWrites env c inst column).isSome = (instanceWrites env c' inst column).isSome := by
  cases column with
  | wrsPtpInstanceStatusError =>
    simp only [instanceWrites]
    split <;> rfl
  | _ => rfl

/-- Which cells a round writes does not depend on the numbering. -/
theorem roundWrites_domain (env : InstanceEnv) (c c' : PortCount) (i : Nat)
    (insts : List PpInstance) (k : Nat × InstanceColumn) :
    (roundWrites env c i insts k).isSome = (roundWrites env c' i insts k).isSome := by
  induction insts generalizing c c' i with
  | nil => rfl
  | cons inst rest ih =>
    rw [roundWrites, roundWrites]
    split
    · exact instanceWrites_domain ..
    · exact ih _ _ _

/-- The first instance of a round is on a port, and not on the one that was found last. -/
def StartsOver (found : Option Nat) (insts : List PpInstance) : Prop :=
  ∀ port ∈ found, ∀ first ∈ insts.head?, ∃ port' ∈ first.physPort, port' ≠ port

private theorem physPort_pos {inst : PpInstance} {port : Nat} (found : inst.physPort = some port) :
    0 < port := by
  obtain ⟨index, -, rfl⟩ := Option.map_eq_some_iff.mp found
  exact Nat.succ_pos index

/-- The numbering of a round starts over, whatever was found before, where its first instance
is on another port. -/
theorem next_eq_start {c : PortCount} {port port' : Nat} (follows : c.Follows (some port))
    {first : PpInstance} (found : first.physPort = some port') (other : port' ≠ port) :
    c.next first = PortCount.start.next first := by
  have fresh : c.lastPort ≠ port' := fun same => other (same.symm.trans follows.2.1)
  have never : PortCount.start.lastPort ≠ port' := Nat.ne_of_lt (physPort_pos found)
  simp only [PortCount.next, found, if_neg fresh, if_neg never]

/-- Otherwise the number in the first row is another one. -/
theorem instanceOnPort_ne {c : PortCount} {port : Nat} (follows : c.Follows (some port))
    {first : PpInstance} (again : ¬ ∃ port' ∈ first.physPort, port' ≠ port) :
    (c.next first).instanceOnPort ≠ (PortCount.start.next first).instanceOnPort := by
  obtain ⟨-, last, counted⟩ := follows
  rw [PortCount.next, PortCount.next]
  cases found : first.physPort with
  | none =>
    change c.instanceOnPort ≠ 0
    omega
  | some port' =>
    have same : c.lastPort = port' := by
      by_contra other
      exact again ⟨port', found, fun equal => other (last.trans equal.symm)⟩
    have never : PortCount.start.lastPort ≠ port' := Nat.ne_of_lt (physPort_pos found)
    simp only [if_pos same, if_neg never]
    omega

private theorem roundWrites_eq_iff (env : InstanceEnv) {c : PortCount} {found : Option Nat}
    (follows : c.Follows found) (insts : List PpInstance) :
    (∀ k, roundWrites env c 0 insts k = roundWrites env .start 0 insts k) ↔
      StartsOver found insts := by
  cases found with
  | none =>
    obtain rfl : c = .start := follows
    exact ⟨fun _ _ none => absurd none (Option.not_mem_none _), fun _ _ => rfl⟩
  | some port =>
    cases insts with
    | nil => exact ⟨fun _ _ _ _ none => absurd none (Option.not_mem_none _), fun _ _ => rfl⟩
    | cons first rest =>
      constructor
      · rintro written p ⟨⟩ f ⟨⟩
        -- the number of the first row shows where the counting started
        by_contra again
        have number := written (0, .wrsPtpInstancePortInstance)
        simp only [roundWrites, if_true, instanceWrites, Option.some.injEq, Cell.int.injEq,
          Int.natCast_inj] at number
        exact instanceOnPort_ne follows again number
      · intro afresh k
        obtain ⟨port', found, other⟩ := afresh port rfl first rfl
        simp only [roundWrites, next_eq_start follows found other]

/-! ### All rounds -/

/-- What the rounds write, each with the numbering that the ones before left. -/
def roundsWrites (env : InstanceEnv) : PortCount → List (List PpInstance) →
    List (Writes (Nat × InstanceColumn) Cell)
  | _, [] => []
  | c, insts :: reads => roundWrites env c 0 insts :: roundsWrites env (countAfter c insts) reads

private theorem foldl_instancePass (env : InstanceEnv) (s : InstanceState)
    (reads : List (List PpInstance)) :
    reads.foldl (instancePass env) s =
      ⟨countAfter s.count reads.flatten, writeAll s.table (roundsWrites env s.count reads)⟩ := by
  induction reads generalizing s with
  | nil => rfl
  | cons insts reads ih =>
    rw [List.foldl_cons, ih, instancePass, instanceLoop_count, instanceLoop_table,
      List.flatten_cons, roundsWrites, writeAll_cons, countAfter, countAfter, countAfter,
      List.foldl_append]

/-- The discarded rounds left nothing in a cell that the last round does not write, and the
numbering of the last round starts over. -/
def InstanceClean (env : InstanceEnv) (discarded : List (Round (List PpInstance)))
    (last : Round (List PpInstance)) : Prop :=
  StartsOver (lastFound (discarded.map Round.read).flatten) last.read ∧
    NoTrace (fun k => k.2.cleared) (roundsWrites env .start (discarded.map Round.read))
      (roundWrites env .start 0 last.read)

private theorem wrsPtpInstanceTableFill_single (env : InstanceEnv) {last : Round (List PpInstance)}
    (consistent : ¬ last.Discarded) :
    wrsPtpInstanceTableFill env [last] =
      some ((roundWrites env .start 0 last.read).onto fun k => k.2.cleared) := by
  have alone := readRounds_eq true (instancePass env) .start []
    (fun _ (none : _ ∈ []) => absurd none List.not_mem_nil) consistent (Nat.zero_le _)
  rw [List.nil_append] at alone
  rw [wrsPtpInstanceTableFill, alone, Option.map_some, instancePass, instanceLoop_table]
  rfl

/-- When discarded rounds leave no trace in the table of instances. -/
theorem wrsPtpInstanceTableFill_iff (env : InstanceEnv)
    {discarded : List (Round (List PpInstance))} {last : Round (List PpInstance)}
    (retried : ∀ r ∈ discarded, r.Discarded) (consistent : ¬ last.Discarded)
    (few : discarded.length ≤ maxRetries) :
    wrsPtpInstanceTableFill env (discarded ++ [last]) = wrsPtpInstanceTableFill env [last] ↔
      InstanceClean env discarded last := by
  have follows := countAfter_follows (discarded.map Round.read).flatten
  rw [wrsPtpInstanceTableFill_single env consistent, wrsPtpInstanceTableFill,
    readRounds_eq true (instancePass env) _ [] retried consistent few, foldl_instancePass,
    Option.map_some, Option.some.injEq, instancePass, instanceLoop_table]
  change (roundWrites env (countAfter .start (discarded.map Round.read).flatten) 0 last.read).onto
    (writeAll (fun k => k.2.cleared) (roundsWrites env .start (discarded.map Round.read))) = _ ↔ _
  rw [onto_writeAll_eq_iff (roundWrites_domain env _ _ 0 last.read),
    roundWrites_eq_iff env follows, InstanceClean, noTrace_iff, noTrace_iff]
  refine and_congr_right fun afresh => forall_congr' fun k => ?_
  rw [(roundWrites_eq_iff env follows last.read).mpr afresh k]

end WrSwitch.Snmp
