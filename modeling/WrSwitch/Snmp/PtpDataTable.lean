import WrSwitch.Machine.Writes
import WrSwitch.Snmp.ReadRounds
import WrSwitch.Snmp.StatusGroups

/-!
# wrsPtpDataTable

`wrsPtpDataTable_data_fill` with the memory of ppsi available and the cache expired. The count
of the rows is set to 0 before the first round only: a row that was filled is not filled again.
-/
namespace WrSwitch.Snmp

open Machine

inductive DataColumn
  | wrsPtpPortName
  | wrsPtpGrandmasterID
  | wrsPtpOwnID
  | wrsPtpServoState
  | wrsPtpServoStateN
  | wrsPtpPhaseTracking
  | wrsPtpSyncSource
  | wrsPtpClockOffsetPs
  | wrsPtpClockOffsetPsHR
  | wrsPtpSkew
  | wrsPtpRTT
  | wrsPtpLinkLength
  | wrsPtpServoUpdates
  | wrsPtpDeltaTxM
  | wrsPtpDeltaRxM
  | wrsPtpDeltaTxS
  | wrsPtpDeltaRxS
  | wrsPtpServoStateErrCnt
  | wrsPtpClockOffsetErrCnt
  | wrsPtpRTTErrCnt
  | wrsPtpServoUpdateTime
  | wrsPtpServoExt
  | wrsPtpServoMeanDelay
  | wrsPtpServoDelayMS
  | wrsPtpServoDelayMM
  | wrsPtpDelayAsymmetryPS
  | wrsPtpDelayCoefficientScaledH
  | wrsPtpDelayCoefficientScaledL
  | wrsPtpDelayCoefficientStr
  | wrsPtpIngressLatency
  | wrsPtpEgressLatency
deriving DecidableEq

/-- A cell after the `memset`. -/
def DataColumn.cleared : DataColumn → Cell
  | .wrsPtpPortName | .wrsPtpServoState | .wrsPtpSyncSource | .wrsPtpDelayCoefficientStr =>
    .text []
  | .wrsPtpGrandmasterID | .wrsPtpOwnID => .bytes (List.replicate 8 0)
  | _ => .int 0

/-- What a pass reads of an instance of ppsi, its servo and its port. Times are picoseconds, as
`pp_time_to_picos` and `interval_to_picos` give them. -/
structure DataInstance where
  state : Int
  ifaceName : List Char
  extState : Int
  protocolExtension : Int
  grandmasterIdentity : List (BitVec 8)
  clockIdentity : List (BitVec 8)
  servoState : Int
  offsetFromMaster : Int
  updateCount : Int
  updateTime : Int
  meanDelay : Int
  delayMS : Int
  delayMM : Int
  /-- `delayMM_ps` of the extension's servo, in meters of fiber -/
  linkLength : Int
  trackingEnabled : Int
  skewPs : Int
  nErrState : Int
  nErrOffset : Int
  nErrDeltaRtt : Int
  deltaTxm : Int
  deltaRxm : Int
  deltaTxs : Int
  deltaRxs : Int
  rawDelayMM : Int
  /-- `none` where the instance has no `portDS` -/
  delayAsymmetry : Option Int
  scaledDelayCoefficient : Int
  /-- `relativeDifferenceToString` of the coefficient -/
  scaledDelayCoefficientStr : List Char
  ingressLatency : Int
  egressLatency : Int

def ptpServoStateNStandardPtp : Int := 99

def DataInstance.servoStateN (codes : PpsiCodes) (inst : DataInstance) : Int :=
  if inst.extState = codes.ppExstateDisable ∨ inst.extState = codes.ppExstatePtp then
    ptpServoStateNStandardPtp
  else if 0 ≤ inst.servoState ∧ inst.servoState < codes.servoStateMapping.length then
    codes.servoStateMapping.getD inst.servoState.toNat 0
  else inst.servoState

/-- The instance runs one of the extensions that have a servo of their own. -/
def DataInstance.HasExt (codes : PpsiCodes) (inst : DataInstance) : Prop :=
  inst.protocolExtension = codes.ppsiExtWr ∨ inst.protocolExtension = codes.ppsiExtL1s

instance (codes : PpsiCodes) (inst : DataInstance) : Decidable (inst.HasExt codes) :=
  inferInstanceAs (Decidable (_ ∨ _))

/-- What the loop body writes into the row of an instance. -/
def dataWrites (codes : PpsiCodes) (inst : DataInstance) : Writes DataColumn Cell :=
  let ext (v : Cell) : Option Cell := if inst.HasExt codes then some v else none
  let extOr (v : Int) (other : Int) : Option Cell :=
    some (.int (if inst.HasExt codes then v else other))
  -- `wr_servo` is NULL for the extension L1S
  let delta (v : Int) : Option Cell :=
    if inst.protocolExtension = codes.ppsiExtWr then some (.int v)
    else if inst.HasExt codes then none else some (.int 0)
  fun
  | .wrsPtpPortName => some (.text (inst.ifaceName.take 11))
  | .wrsPtpGrandmasterID => some (.bytes inst.grandmasterIdentity)
  | .wrsPtpOwnID => some (.bytes inst.clockIdentity)
  | .wrsPtpServoState => some (.text (codes.wrhServoStateName inst.servoState))
  | .wrsPtpServoStateN => some (.int (inst.servoStateN codes))
  | .wrsPtpClockOffsetPs => some (.int inst.offsetFromMaster.natAbs)
  | .wrsPtpClockOffsetPsHR => some (.int (intSaturate inst.offsetFromMaster.natAbs))
  | .wrsPtpServoUpdates => some (.int inst.updateCount)
  | .wrsPtpServoUpdateTime => some (.int inst.updateTime)
  | .wrsPtpServoExt => some (.int (1 + inst.protocolExtension))
  | .wrsPtpLinkLength => ext (.int inst.linkLength)
  | .wrsPtpPhaseTracking => extOr (1 + inst.trackingEnabled) 0
  | .wrsPtpSyncSource => some (.text (if inst.HasExt codes then inst.ifaceName.take 12 else []))
  | .wrsPtpSkew => extOr (intSaturate inst.skewPs) 0
  | .wrsPtpDeltaTxM => delta inst.deltaTxm
  | .wrsPtpDeltaRxM => delta inst.deltaRxm
  | .wrsPtpDeltaTxS => delta inst.deltaTxs
  | .wrsPtpDeltaRxS => delta inst.deltaRxs
  | .wrsPtpServoStateErrCnt => extOr inst.nErrState 0
  | .wrsPtpClockOffsetErrCnt => extOr inst.nErrOffset 0
  | .wrsPtpRTTErrCnt => extOr inst.nErrDeltaRtt 0
  | .wrsPtpRTT =>
    if inst.protocolExtension = codes.ppsiExtWr then some (.int inst.rawDelayMM)
    else if inst.HasExt codes then none else some (.int (2 * inst.meanDelay))
  | .wrsPtpServoMeanDelay => ext (.int (intSaturate inst.meanDelay))
  | .wrsPtpServoDelayMS => ext (.int (intSaturate inst.delayMS))
  | .wrsPtpServoDelayMM => ext (.int (intSaturate inst.delayMM))
  | .wrsPtpDelayAsymmetryPS =>
    if inst.HasExt codes then inst.delayAsymmetry.map fun ps => .int (intSaturate ps) else none
  | .wrsPtpDelayCoefficientScaledH => ext (.int (inst.scaledDelayCoefficient / 2 ^ 32))
  | .wrsPtpDelayCoefficientScaledL => ext (.int (inst.scaledDelayCoefficient % 2 ^ 32))
  | .wrsPtpDelayCoefficientStr => ext (.text inst.scaledDelayCoefficientStr)
  | .wrsPtpIngressLatency => ext (.int (intSaturate inst.ingressLatency))
  | .wrsPtpEgressLatency => ext (.int (intSaturate inst.egressLatency))

/-- The table, and whether the columns of the deltas and of the RTT are shown as values (they
are turned off for an instance that runs L1S). -/
structure DataTable where
  rows : Nat → DataColumn → Cell
  wrTypes : Bool

/-- The table with the count of the rows that were filled. -/
structure DataState extends DataTable where
  si : Nat

/-- Before the first round. -/
def DataState.start (wrTypes : Bool) : DataState := ⟨⟨fun _ => DataColumn.cleared, wrTypes⟩, 0⟩

def DataState.fillRow (codes : PpsiCodes) (s : DataState) (inst : DataInstance) : DataState where
  rows := Function.update s.rows s.si ((dataWrites codes inst).onto (s.rows s.si))
  wrTypes :=
    if inst.HasExt codes then decide (inst.protocolExtension = codes.ppsiExtWr) else s.wrTypes
  si := s.si + 1

/-- The loop over the instances. -/
def dataPass (codes : PpsiCodes) : DataState → List DataInstance → DataState
  | s, [] => s
  | s, inst :: rest =>
    if wrsMaxNServoInstances ≤ s.si then s
    else if inst.state = codes.ppsSlave then dataPass codes (s.fillRow codes inst) rest
    else dataPass codes s rest

/-- `wrsPtpDataTable_data_fill`. -/
def wrsPtpDataTableFill (codes : PpsiCodes) (wrTypes : Bool)
    (rounds : List (Round (List DataInstance))) : Option DataTable :=
  (readRounds false (dataPass codes) 0 (.start wrTypes) rounds).map DataState.toDataTable

/-! ### The row and the instance it is filled from -/

/-- The instances in SLAVE state, in order. -/
def slaves (codes : PpsiCodes) (insts : List DataInstance) : List DataInstance :=
  insts.filter fun inst => inst.state = codes.ppsSlave

/-- The table with at most one instance, all others left out. -/
def dataTable (codes : PpsiCodes) (wrTypes : Bool) : Option DataInstance → DataTable
  | none => (DataState.start wrTypes).toDataTable
  | some inst => ((DataState.start wrTypes).fillRow codes inst).toDataTable

private theorem slaves_append (codes : PpsiCodes) (insts more : List DataInstance) :
    slaves codes (insts ++ more) = slaves codes insts ++ slaves codes more := List.filter_append ..

private theorem slaves_cons_slave (codes : PpsiCodes) {inst : DataInstance}
    (slave : inst.state = codes.ppsSlave) (rest : List DataInstance) :
    slaves codes (inst :: rest) = inst :: slaves codes rest := by
  simp [slaves, slave]

private theorem slaves_cons_other (codes : PpsiCodes) {inst : DataInstance}
    (other : inst.state ≠ codes.ppsSlave) (rest : List DataInstance) :
    slaves codes (inst :: rest) = slaves codes rest := by
  simp [slaves, other]

private theorem start_room (wrTypes : Bool) :
    ¬ wrsMaxNServoInstances ≤ (DataState.start wrTypes).si := Nat.not_succ_le_zero 0

private theorem fillRow_full (codes : PpsiCodes) (wrTypes : Bool) (inst : DataInstance) :
    wrsMaxNServoInstances ≤ ((DataState.start wrTypes).fillRow codes inst).si := Nat.le_refl 1

private theorem dataPass_full (codes : PpsiCodes) {s : DataState}
    (full : wrsMaxNServoInstances ≤ s.si)
    (insts : List DataInstance) : dataPass codes s insts = s := by
  cases insts with
  | nil => rfl
  | cons inst rest => exact if_pos full

private theorem dataPass_start (codes : PpsiCodes) (wrTypes : Bool) (insts : List DataInstance) :
    dataPass codes (.start wrTypes) insts =
      match (slaves codes insts).head? with
      | none => .start wrTypes
      | some inst => (DataState.start wrTypes).fillRow codes inst := by
  induction insts with
  | nil => rfl
  | cons inst rest ih =>
    rw [dataPass, if_neg (start_room wrTypes)]
    by_cases slave : inst.state = codes.ppsSlave
    · rw [if_pos slave, dataPass_full codes (fillRow_full codes wrTypes inst),
        slaves_cons_slave codes slave]
      rfl
    · rw [if_neg slave, ih, slaves_cons_other codes slave]

/-- The rounds together fill what the first SLAVE instance that one of them read gives. -/
theorem foldl_dataPass (codes : PpsiCodes) (wrTypes : Bool) (reads : List (List DataInstance)) :
    reads.foldl (dataPass codes) (.start wrTypes) =
      match (slaves codes reads.flatten).head? with
      | none => .start wrTypes
      | some inst => (DataState.start wrTypes).fillRow codes inst := by
  have kept (s : DataState) (full : wrsMaxNServoInstances ≤ s.si) (reads : List _) :
      reads.foldl (dataPass codes) s = s := by
    induction reads with
    | nil => rfl
    | cons insts reads ih => rw [List.foldl_cons, dataPass_full codes full, ih]
  induction reads with
  | nil => rfl
  | cons insts reads ih =>
    rw [List.foldl_cons, dataPass_start, List.flatten_cons, slaves_append]
    cases slaves codes insts with
    | nil => exact ih
    | cons inst more => exact kept _ (fillRow_full codes wrTypes inst) reads

/-- One pass fills the row of the first instance in SLAVE state. -/
theorem wrsPtpDataTableFill_single (codes : PpsiCodes) (wrTypes : Bool)
    {last : Round (List DataInstance)} (consistent : ¬ last.Discarded) :
    wrsPtpDataTableFill codes wrTypes [last] =
      some (dataTable codes wrTypes (slaves codes last.read).head?) := by
  have alone := readRounds_eq false (dataPass codes) (.start wrTypes) []
    (fun _ (none : _ ∈ []) => absurd none List.not_mem_nil) consistent (Nat.zero_le _)
  rw [List.nil_append] at alone
  rw [wrsPtpDataTableFill, alone, List.map_nil, List.foldl_nil, dataPass_start]
  cases (slaves codes last.read).head? <;> rfl

/-- The discarded rounds saw no instance in SLAVE state, or the first one they saw gives the
row of the last round. -/
def DataClean (codes : PpsiCodes) (wrTypes : Bool)
    (discarded : List (Round (List DataInstance))) (last : Round (List DataInstance)) : Prop :=
  ∀ first ∈ (slaves codes (discarded.map Round.read).flatten).head?,
    dataTable codes wrTypes (some first) =
      dataTable codes wrTypes (slaves codes last.read).head?

/-- When discarded rounds leave no trace in the table of servos. -/
theorem wrsPtpDataTableFill_iff (codes : PpsiCodes) (wrTypes : Bool)
    {discarded : List (Round (List DataInstance))} {last : Round (List DataInstance)}
    (retried : ∀ r ∈ discarded, r.Discarded) (consistent : ¬ last.Discarded)
    (few : discarded.length ≤ maxRetries) :
    wrsPtpDataTableFill codes wrTypes (discarded ++ [last]) =
        wrsPtpDataTableFill codes wrTypes [last] ↔
      DataClean codes wrTypes discarded last := by
  rw [wrsPtpDataTableFill_single codes wrTypes consistent, wrsPtpDataTableFill,
    readRounds_eq false (dataPass codes) _ [] retried consistent few, foldl_dataPass, DataClean]
  cases (slaves codes (discarded.map Round.read).flatten).head? with
  | none =>
    -- nothing was filled before the last round
    simp only [dataPass_start]
    cases (slaves codes last.read).head? <;> simp [dataTable]
  | some first =>
    rw [dataPass_full codes (fillRow_full codes wrTypes first)]
    simp [dataTable]

end WrSwitch.Snmp
