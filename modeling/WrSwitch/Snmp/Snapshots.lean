import WrSwitch.Snmp.PortStatusTable
import WrSwitch.Snmp.PtpDataTable
import WrSwitch.Snmp.PtpInstanceTable

/-!
# Tables of one snapshot

When the three tables that are read in rounds are those of the last round alone. None of the
loops clears what it has filled before it starts the next round.
-/
namespace WrSwitch.Snmp

open Machine Shm

/-- The rounds of a loop up to the first consistent one. What the others read is arbitrary: a
writer may have been at work. -/
structure Reading (α : Type*) where
  discarded : List (Round α)
  last : Round α
  retried : ∀ r ∈ discarded, r.Discarded
  consistent : ¬ last.Discarded
  few : discarded.length ≤ maxRetries

def Reading.rounds {α : Type*} (r : Reading α) : List (Round α) := r.discarded ++ [r.last]

variable {w : Nat}

/-- The tables are those of an uninterrupted pass over the last snapshot. -/
def OneSnapshot (env : InstanceEnv) (wrTypes : Bool) (n : Nat)
    (data : Reading (List DataInstance)) (hal : Reading HalRead) (ppsi : Reading (PpsiRead w))
    (instances : Reading (List PpInstance)) : Prop :=
  wrsPtpDataTableFill env.codes wrTypes data.rounds =
      wrsPtpDataTableFill env.codes wrTypes [data.last] ∧
    wrsPortStatusTableFill env.codes n hal.rounds ppsi.rounds =
      wrsPortStatusTableFill env.codes n [hal.last] [ppsi.last] ∧
    wrsPtpInstanceTableFill env instances.rounds = wrsPtpInstanceTableFill env [instances.last]

/-- The tables show one snapshot exactly if no discarded round leaves a trace. -/
theorem oneSnapshot_iff (env : InstanceEnv) (wrTypes : Bool) (n : Nat)
    (data : Reading (List DataInstance)) (hal : Reading HalRead) (ppsi : Reading (PpsiRead w))
    (instances : Reading (List PpInstance)) :
    OneSnapshot env wrTypes n data hal ppsi instances ↔
      DataClean env.codes wrTypes data.discarded data.last ∧
        PortClean env.codes n (hal.discarded.map Round.read) hal.last.read
          (ppsi.discarded.map Round.read) ppsi.last.read ∧
        InstanceClean env instances.discarded instances.last := by
  refine and_congr ?_ (and_congr ?_ ?_)
  · exact wrsPtpDataTableFill_iff env.codes wrTypes data.retried data.consistent data.few
  · exact wrsPortStatusTableFill_iff env.codes n hal.retried hal.consistent hal.few ppsi.retried
      ppsi.consistent ppsi.few
  · exact wrsPtpInstanceTableFill_iff env instances.retried instances.consistent instances.few

/-! ### Rounds that leave a trace -/

/-- Codes as ppsi might number them. -/
def sampleCodes : PpsiCodes where
  ppsDisabled := 3
  ppsMaster := 6
  ppsUncalibrated := 8
  ppsSlave := 9
  ppsiExtWr := 1
  ppsiExtL1s := 2
  ppExstateDisable := 0
  ppExstatePtp := 2
  ppsiExtAutonegEnable := 1
  ppsiProfilePtp := 0
  ppsiProfileHaWr := 2
  ppsiProfileCustom := 3
  servoStateMapping := [0, 1, 2, 3, 4, 5]
  wrhServoStateName := fun _ => []

def sampleEnv : InstanceEnv := ⟨sampleCodes, 160, false, 0, fun _ => 0, fun _ => 0⟩

/-- A reading with one round during a write, then a consistent one. -/
def twoRounds {α : Type*} (torn consistent : α) : Reading α where
  discarded := [⟨1, 1, torn⟩]
  last := ⟨2, 2, consistent⟩
  retried := by
    intro r member
    rw [List.mem_singleton.mp member]
    exact show wrsShmSeqretry 1 1 ≠ 0 by decide
  consistent := show ¬ wrsShmSeqretry 2 2 ≠ 0 by decide
  few := show 1 ≤ 100 by decide

/-- An instance in SLAVE state whose servo has been updated `updates` times. -/
def sampleServo (updates : Int) : DataInstance where
  state := 9
  ifaceName := ['w', 'r', 'i', '1']
  extState := 0
  protocolExtension := 0
  grandmasterIdentity := []
  clockIdentity := []
  servoState := 0
  offsetFromMaster := 0
  updateCount := updates
  updateTime := 0
  meanDelay := 0
  delayMS := 0
  delayMM := 0
  linkLength := 0
  trackingEnabled := 0
  skewPs := 0
  nErrState := 0
  nErrOffset := 0
  nErrDeltaRtt := 0
  deltaTxm := 0
  deltaRxm := 0
  deltaTxs := 0
  deltaRxs := 0
  rawDelayMM := 0
  delayAsymmetry := none
  scaledDelayCoefficient := 0
  scaledDelayCoefficientStr := []
  ingressLatency := 0
  egressLatency := 0

/-- One instance on the first port, which has sent and received `frames` frames. -/
def sampleCount (frames : BitVec 32) : PpsiRead 32 where
  externalPortConfigurationEnabled := false
  slaveOnly := false
  instances := [⟨['w', 'r', 'i', '1'], frames, frames, 0, 0, false⟩]

/-- An instance on the first port. -/
def sampleInstance : PpInstance where
  portName := []
  ifaceName := ['w', 'r', 'i', '1']
  hwIndex := some 0
  state := 9
  masterOnly := none
  desiredState := 0
  delayMechanism := 0
  profile := 0
  protocolExtension := 0
  asymEnable := 0
  constantAsymmetry := 0
  scaledDelayCoefficient := 0
  scaledDelayCoefficientHR := []
  egressLatency := 0
  ingressLatency := 0
  semistaticLatency := 0
  pdstate := 0
  extState := 0
  peer := []
  peerVid := 0
  vlans := []
  extAutonegEnable := 0
  cfgExtension := 0

/-- One discarded round is enough: the row of the servo stays that of the discarded round, the
frames are counted twice, and the only instance of the port gets the number 2. -/
theorem snapshots_traced :
    (¬ ∀ (codes : PpsiCodes) (wrTypes : Bool) (data : Reading (List DataInstance)),
      wrsPtpDataTableFill codes wrTypes data.rounds =
        wrsPtpDataTableFill codes wrTypes [data.last]) ∧
    (¬ ∀ (codes : PpsiCodes) (n : Nat) (hal : Reading HalRead) (ppsi : Reading (PpsiRead 32)),
      wrsPortStatusTableFill codes n hal.rounds ppsi.rounds =
        wrsPortStatusTableFill codes n [hal.last] [ppsi.last]) ∧
    ¬ ∀ (env : InstanceEnv) (instances : Reading (List PpInstance)),
      wrsPtpInstanceTableFill env instances.rounds =
        wrsPtpInstanceTableFill env [instances.last] := by
  refine ⟨fun always => ?_, fun always => ?_, fun always => ?_⟩
  · have same := always sampleCodes true (twoRounds [sampleServo 1] [sampleServo 2])
    have updates := congrArg (Option.map fun t => t.rows 0 .wrsPtpServoUpdates) same
    exact absurd (show some (Cell.int 1) = some (Cell.int 2) from updates) (by decide)
  · have same := always sampleCodes 1 (twoRounds ⟨[], false⟩ ⟨[], false⟩)
      (twoRounds (sampleCount 5) (sampleCount 7))
    have frames := congrArg (Option.map fun t => t.wrsPortStatusPtpTxFrames 0) same
    exact absurd (show some (12 : BitVec 32) = some 7 from frames) (by decide)
  · have same := always sampleEnv (twoRounds [sampleInstance] [sampleInstance])
    have number := congrArg (Option.map fun t => t (0, .wrsPtpInstancePortInstance)) same
    exact absurd (show some (Cell.int 2) = some (Cell.int 1) from number) (by decide)

end WrSwitch.Snmp
