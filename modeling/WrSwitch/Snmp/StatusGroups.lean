import Mathlib.Data.Fintype.Basic
import Mathlib.Logic.Function.Basic
import WrSwitch.Machine.Cache
import WrSwitch.Machine.Run

/-!
# The status groups of snmpd

`wrsTimingStatus_data_fill` and `wrsNetworkingStatus_data_fill`, which judge tables that
other requests refresh as well. Of the status objects `wrsPTPStatus` and `wrsRTUStatus` are
kept: the others are written by functions of their own, from state of their own.
-/
namespace WrSwitch.Snmp

open Machine

/-! ### The tables -/

def wrsMaxNServoInstances : Nat := 1

def wrsNPorts : Nat := 18

/-- The error counters of a servo that are compared between two evaluations. -/
structure ErrCounters where
  wrsPtpServoStateErrCnt : BitVec 32
  wrsPtpClockOffsetErrCnt : BitVec 32
  wrsPtpRTTErrCnt : BitVec 32
deriving DecidableEq

/-- `struct wrsPtpDataTable_s`, the columns that `get_wrsPTPStatus` reads. -/
structure PtpRow where
  wrsPtpServoUpdates : BitVec 32
  errCounters : ErrCounters
  /-- `wrsPtpServoExt` is `1 + PPSI_EXT_WR` -/
  extWr : Bool
  wrsPtpDeltaTxM : Int
  wrsPtpDeltaRxM : Int
  wrsPtpDeltaTxS : Int
  wrsPtpDeltaRxS : Int
deriving DecidableEq

def PtpRow.cleared : PtpRow := ⟨0, ⟨0, 0, 0⟩, false, 0, 0, 0, 0⟩

abbrev PtpRows := Fin wrsMaxNServoInstances → PtpRow

/-- `wrsPtpDataTable_array` and the number of its rows. -/
structure PtpData where
  nRowsLocal : Nat
  rows : PtpRows
deriving DecidableEq

/-- `struct wrsPortStatusTable_s`, the columns that `get_wrsPTPStatus` reads. -/
structure PortRow where
  wrsPortStatusT24pValid : Int
  wrsPortStatusMonitor : Int
deriving DecidableEq

def PortRow.cleared : PortRow := ⟨0, 0⟩

structure PortStatus where
  nRowsLocal : Nat
  rows : Fin wrsNPorts → PortRow

/-- `wrsPstatsHCRXDropRTUFull` of every port. -/
abbrev DropRTUFull := Fin wrsNPorts → BitVec 64

/-- The times of `wrsCurrentTime_data_fill`. -/
structure CurrentTime where
  timeLastUpdate : Nat
  timeTaiUpdate : Nat
  timeSystemClock : Nat
  timeLeapSec : Nat
  timeLeapSecDownload : Nat

def wrsPtpStatusOk : Nat := 1
def wrsPtpStatusError : Nat := 2
def wrsPtpStatusFr : Nat := 6

def wrsRtuStatusOk : Nat := 1
def wrsRtuStatusError : Nat := 2
def wrsRtuStatusFr : Nat := 6

/-- The statics of `wrsTimingStatus_data_fill` and `get_wrsPTPStatus`. -/
structure TimingStatus where
  timeUpdate : Nat
  wrsPTPStatus : Nat
  firstRun : Bool
  wrsPtpServoUpdatesPrev : Fin wrsMaxNServoInstances → BitVec 32
  errCountersPrev : Fin wrsMaxNServoInstances → ErrCounters

/-- The statics of `wrsNetworkingStatus_data_fill`. -/
structure NetworkingStatus where
  timeUpdate : Nat
  timePstatsPrev : Nat
  wrsRTUStatus : Nat
  nsPstatsCopy : DropRTUFull

structure Agent where
  ptpData : Cache PtpData
  /-- `wrsSpllMode` -/
  spllMode : Cache Int
  portStatus : Cache PortStatus
  ptpInstance : Cache Unit
  currentTime : CurrentTime
  pstats : Cache DropRTUFull
  timing : TimingStatus
  networking : NetworkingStatus
  /-- what `get_monotonic_sec` returned last -/
  clock : Nat
  /-- the data table at the last evaluation of `get_wrsPTPStatus`, with its time -/
  evaluated : Option (Nat × PtpData)
  /-- the counters at the last comparison of `get_rtu_status` -/
  compared : Option DropRTUFull

def Agent.initial : Agent where
  ptpData := ⟨0, 0, fun _ => .cleared⟩
  spllMode := ⟨0, 0⟩
  portStatus := ⟨0, 0, fun _ => .cleared⟩
  ptpInstance := ⟨0, ()⟩
  currentTime := ⟨0, 0, 0, 0, 0⟩
  pstats := ⟨0, fun _ => 0⟩
  timing := ⟨0, 0, true, fun _ => 0, fun _ => ⟨0, 0, 0⟩⟩
  networking := ⟨0, 0, 0, fun _ => 0⟩
  clock := 0
  evaluated := none
  compared := none

/-! ### Refreshing a table -/

def wrsPtpDataTableCacheTimeout : Nat := 5
def wrsSpllStatusCacheTimeout : Nat := 5
def wrsPortStatusTableCacheTimeout : Nat := 5
def wrsPtpInstanceTableCacheTimeout : Nat := 5
def wrsPstatsHCTableCacheTimeout : Nat := 5
def wrsCurrentTimeTaiCacheTimeout : Nat := 5
def wrsSystemClockStatusCacheTimeout : Nat := 20
def wrsLeapSecStatusCacheTimeout : Nat := 20
def wrsLeapSecDownloadCacheTimeout : Nat := 20

/-- The table a refresh leaves; `none` when the memory of ppsi is not available. -/
def readPtpData : Option PtpRows → PtpData
  | none => ⟨1, fun _ => .cleared⟩
  | some rows => ⟨wrsMaxNServoInstances, rows⟩

/-- `wrsPtpDataTable_data_fill`, with what it stores in `n_rows`. -/
def wrsPtpDataTableDataFill (s : Agent) (now : Nat) (ppsi : Option PtpRows) : Agent × Nat :=
  ({ s with ptpData := s.ptpData.refresh wrsPtpDataTableCacheTimeout now (readPtpData ppsi)
            clock := now },
    -- without the memory of ppsi the caller keeps the number of rows from before
    if s.ptpData.Due wrsPtpDataTableCacheTimeout now ∧ ppsi.isSome then wrsMaxNServoInstances
    else s.ptpData.value.nRowsLocal)

/-- The part of `struct spll_stats` that decides what `wrsSpllMode` becomes. -/
structure SpllStats where
  magic : Nat
  ver : Nat
  mode : Int

def spllStatsMagic : Nat := 0x5b1157a7

def spllStatsVer : Nat := 7

def readSpllMode : Option SpllStats → Int
  | none => 0
  | some stats =>
    if stats.magic ≠ spllStatsMagic then 0 else if stats.ver = spllStatsVer then stats.mode else 0

def wrsSpllStatusDataFill (s : Agent) (now : Nat) (stats : Option SpllStats) : Agent :=
  { s with spllMode := s.spllMode.refresh wrsSpllStatusCacheTimeout now (readSpllMode stats)
           clock := now }

/-- The ports of the hal: how many there are, and their rows. -/
abbrev HalPorts := Option (Nat × (Fin wrsNPorts → PortRow))

def readPortStatus : HalPorts → PortStatus
  | none => ⟨0, fun _ => .cleared⟩
  | some (halNportsLocal, rows) => ⟨halNportsLocal, rows⟩

def wrsPortStatusTableDataFill (s : Agent) (now : Nat) (hal : HalPorts) : Agent × Nat :=
  ({ s with portStatus :=
              s.portStatus.refresh wrsPortStatusTableCacheTimeout now (readPortStatus hal)
            clock := now },
    if s.portStatus.Due wrsPortStatusTableCacheTimeout now then
      match hal with
      | none => s.portStatus.value.nRowsLocal
      | some (halNportsLocal, _) => halNportsLocal
    else s.portStatus.value.nRowsLocal)

def wrsPtpInstanceTableDataFill (s : Agent) (now : Nat) : Agent :=
  { s with ptpInstance := s.ptpInstance.refresh wrsPtpInstanceTableCacheTimeout now ()
           clock := now }

/-- Each of its four parts has a timeout of its own; the last one that was due gives the time. -/
def wrsCurrentTimeDataFill (s : Agent) (now : Nat) : Agent :=
  let due (time timeout : Nat) : Bool := time = 0 ∨ timeout < now - time
  let t := s.currentTime
  let tai := due t.timeTaiUpdate wrsCurrentTimeTaiCacheTimeout
  let system := due t.timeSystemClock wrsSystemClockStatusCacheTimeout
  let leap := due t.timeLeapSec wrsLeapSecStatusCacheTimeout
  let download := due t.timeLeapSecDownload wrsLeapSecDownloadCacheTimeout
  { s with
    currentTime :=
      { timeLastUpdate := if tai || system || leap || download then now else t.timeLastUpdate
        timeTaiUpdate := if tai then now else t.timeTaiUpdate
        timeSystemClock := if system then now else t.timeSystemClock
        timeLeapSec := if leap then now else t.timeLeapSec
        timeLeapSecDownload := if download then now else t.timeLeapSecDownload }
    clock := now }

def wrsPstatsHCTableDataFill (s : Agent) (now : Nat) (counters : DropRTUFull) : Agent :=
  { s with pstats := s.pstats.refresh wrsPstatsHCTableCacheTimeout now counters
           clock := now }

/-! ### The timing group -/

def wrsSpllModeSlave : Int := 3

def wrsPortStatusMonitorDisable : Int := 2

/-- The checks of one servo in slave mode, against the values of the evaluation before. -/
def PtpRow.Faulty (row : PtpRow) (updatesPrev : BitVec 32) (errPrev : ErrCounters) : Prop :=
  row.wrsPtpServoUpdates = updatesPrev ∨
  row.errCounters.wrsPtpServoStateErrCnt ≠ errPrev.wrsPtpServoStateErrCnt ∨
  row.errCounters.wrsPtpClockOffsetErrCnt ≠ errPrev.wrsPtpClockOffsetErrCnt ∨
  row.errCounters.wrsPtpRTTErrCnt ≠ errPrev.wrsPtpRTTErrCnt ∨
  row.extWr = true ∧
    (row.wrsPtpDeltaTxM = 0 ∨ row.wrsPtpDeltaRxM = 0 ∨ row.wrsPtpDeltaTxS = 0 ∨
      row.wrsPtpDeltaRxS = 0)

instance (row : PtpRow) (updatesPrev : BitVec 32) (errPrev : ErrCounters) :
    Decidable (row.Faulty updatesPrev errPrev) :=
  inferInstanceAs (Decidable (_ ∨ _))

/-- Some port that is monitored has no valid T24P. -/
def Agent.NoT24p (s : Agent) (portStatusNrows : Nat) : Prop :=
  ∃ i : Fin wrsNPorts, i.val < portStatusNrows ∧
    (s.portStatus.value.rows i).wrsPortStatusT24pValid = 0 ∧
    (s.portStatus.value.rows i).wrsPortStatusMonitor ≠ wrsPortStatusMonitorDisable

instance (s : Agent) (portStatusNrows : Nat) : Decidable (s.NoT24p portStatusNrows) :=
  inferInstanceAs (Decidable (∃ _ : Fin _, _))

/-- Some servo of the data table fails a check while the SoftPLL is a slave. -/
def Agent.ServoFault (s : Agent) (ptpDataNrows : Nat) : Prop :=
  ∃ i : Fin wrsMaxNServoInstances, i.val < ptpDataNrows ∧
    s.spllMode.value = wrsSpllModeSlave ∧
    (s.ptpData.value.rows i).Faulty (s.timing.wrsPtpServoUpdatesPrev i)
      (s.timing.errCountersPrev i)

instance (s : Agent) (ptpDataNrows : Nat) : Decidable (s.ServoFault ptpDataNrows) :=
  inferInstanceAs (Decidable (∃ _ : Fin _, _))

def Agent.ptpStatus (s : Agent) (ptpDataNrows portStatusNrows : Nat) : Nat :=
  if s.NoT24p portStatusNrows then wrsPtpStatusError
  else if s.timing.firstRun then if 0 < ptpDataNrows then wrsPtpStatusFr else wrsPtpStatusOk
  else if s.ServoFault ptpDataNrows then wrsPtpStatusError else wrsPtpStatusOk

def getWrsPTPStatus (s : Agent) (ptpDataNrows portStatusNrows : Nat) : Agent :=
  { s with
    timing :=
      { s.timing with
        wrsPTPStatus := s.ptpStatus ptpDataNrows portStatusNrows
        firstRun := false
        wrsPtpServoUpdatesPrev := fun i =>
          if i.val < ptpDataNrows then (s.ptpData.value.rows i).wrsPtpServoUpdates
          else s.timing.wrsPtpServoUpdatesPrev i
        errCountersPrev := fun i =>
          if i.val < ptpDataNrows then (s.ptpData.value.rows i).errCounters
          else s.timing.errCountersPrev i }
    evaluated := some (s.ptpData.time, s.ptpData.value) }

/-- A call of `wrsTimingStatus_data_fill`: what the clock shows to each part of it, and what
the tables it refreshes read. -/
structure TimingCall where
  ptpDataAt : Nat
  spllAt : Nat
  portStatusAt : Nat
  ptpInstanceAt : Nat
  currentTimeAt : Nat
  doneAt : Nat
  ppsi : Option PtpRows
  stats : Option SpllStats
  hal : HalPorts

/-- The tables after the refreshes, and the numbers of rows they return. -/
def Agent.timingRefresh (s : Agent) (c : TimingCall) : Agent × Nat × Nat :=
  let (s, ptpDataNrows) := wrsPtpDataTableDataFill s c.ptpDataAt c.ppsi
  let s := wrsSpllStatusDataFill s c.spllAt c.stats
  let (s, portStatusNrows) := wrsPortStatusTableDataFill s c.portStatusAt c.hal
  let s := wrsPtpInstanceTableDataFill s c.ptpInstanceAt
  let s := wrsCurrentTimeDataFill s c.currentTimeAt
  (s, min ptpDataNrows wrsMaxNServoInstances, min portStatusNrows wrsNPorts)

/-- Nothing is newer than the last update. -/
def Agent.TimingCached (s : Agent) : Prop :=
  s.ptpData.time ≤ s.timing.timeUpdate ∧ s.spllMode.time ≤ s.timing.timeUpdate ∧
  s.portStatus.time ≤ s.timing.timeUpdate ∧ s.ptpInstance.time ≤ s.timing.timeUpdate ∧
  s.currentTime.timeLastUpdate ≤ s.timing.timeUpdate

instance (s : Agent) : Decidable s.TimingCached := inferInstanceAs (Decidable (_ ∧ _))

/-- When `wrsPTPStatus` is evaluated: both of its tables are newer than the last update. -/
def Agent.PtpNewer (s : Agent) : Prop :=
  s.timing.timeUpdate < s.ptpData.time ∧ s.timing.timeUpdate < s.spllMode.time

instance (s : Agent) : Decidable s.PtpNewer := inferInstanceAs (Decidable (_ ∧ _))

/-- `wrsTimingStatus_data_fill`. It returns `time_update`. -/
def wrsTimingStatusDataFill (s : Agent) (c : TimingCall) : Agent :=
  let (s, ptpDataNrows, portStatusNrows) := s.timingRefresh c
  if s.TimingCached then s
  else
    let s := if s.PtpNewer then getWrsPTPStatus s ptpDataNrows portStatusNrows else s
    { s with timing := { s.timing with timeUpdate := c.doneAt }
             clock := c.doneAt }

/-! ### The networking group -/

/-- A call of `wrsNetworkingStatus_data_fill`. -/
structure NetworkingCall where
  portStatusAt : Nat
  pstatsAt : Nat
  doneAt : Nat
  hal : HalPorts
  counters : DropRTUFull

def Agent.networkingRefresh (s : Agent) (c : NetworkingCall) : Agent :=
  wrsPstatsHCTableDataFill (wrsPortStatusTableDataFill s c.portStatusAt c.hal).1 c.pstatsAt
    c.counters

/-- `get_rtu_status`: the counters may not increase. -/
def getRtuStatus (old new : DropRTUFull) : Bool := ∃ i, 0 < new i - old i

def Agent.NetworkingCached (s : Agent) : Prop :=
  s.portStatus.time ≤ s.networking.timeUpdate ∧ s.pstats.time ≤ s.networking.timeUpdate

instance (s : Agent) : Decidable s.NetworkingCached := inferInstanceAs (Decidable (_ ∧ _))

/-- `time_pstats_delta` is not 0 and this is not the first reading. -/
def Agent.PstatsNewer (s : Agent) : Prop :=
  s.pstats.time ≠ s.networking.timePstatsPrev ∧ s.networking.timePstatsPrev ≠ 0

instance (s : Agent) : Decidable s.PstatsNewer := inferInstanceAs (Decidable (_ ∧ _))

def Agent.rtuStatus (s : Agent) : Nat :=
  if s.pstats.time = s.networking.timePstatsPrev then s.networking.wrsRTUStatus
  else if s.networking.timePstatsPrev ≠ 0 then
    if getRtuStatus s.networking.nsPstatsCopy s.pstats.value then wrsRtuStatusError
    else wrsRtuStatusOk
  else wrsRtuStatusFr

/-- `wrsNetworkingStatus_data_fill`. It returns `time_update`. -/
def wrsNetworkingStatusDataFill (s : Agent) (c : NetworkingCall) : Agent :=
  let s := s.networkingRefresh c
  if s.NetworkingCached then s
  else
    { s with
      networking :=
        { timeUpdate := c.doneAt
          timePstatsPrev := s.pstats.time
          wrsRTUStatus := s.rtuStatus
          nsPstatsCopy := s.pstats.value }
      clock := c.doneAt
      compared := if s.PstatsNewer then some s.pstats.value else s.compared }

/-! ### Requests -/

/-- What snmpd is asked for: one of the tables, or one of the groups. -/
inductive Request
  | ptpData (now : Nat) (ppsi : Option PtpRows)
  | spll (now : Nat) (stats : Option SpllStats)
  | portStatus (now : Nat) (hal : HalPorts)
  | ptpInstance (now : Nat)
  | currentTime (now : Nat)
  | pstats (now : Nat) (counters : DropRTUFull)
  | timing (c : TimingCall)
  | networking (c : NetworkingCall)

def step (s : Agent) : Request → Agent
  | .ptpData now ppsi => (wrsPtpDataTableDataFill s now ppsi).1
  | .spll now stats => wrsSpllStatusDataFill s now stats
  | .portStatus now hal => (wrsPortStatusTableDataFill s now hal).1
  | .ptpInstance now => wrsPtpInstanceTableDataFill s now
  | .currentTime now => wrsCurrentTimeDataFill s now
  | .pstats now counters => wrsPstatsHCTableDataFill s now counters
  | .timing c => wrsTimingStatusDataFill s c
  | .networking c => wrsNetworkingStatusDataFill s c

/-- The clock never goes back, between requests or within one. -/
def ClockForward (s : Agent) : Request → Prop
  | .ptpData now _ | .spll now _ | .portStatus now _ | .ptpInstance now | .currentTime now
  | .pstats now _ => s.clock ≤ now
  | .timing c =>
    s.clock ≤ c.ptpDataAt ∧ c.ptpDataAt ≤ c.spllAt ∧ c.spllAt ≤ c.portStatusAt ∧
    c.portStatusAt ≤ c.ptpInstanceAt ∧ c.ptpInstanceAt ≤ c.currentTimeAt ∧
    c.currentTimeAt ≤ c.doneAt
  | .networking c =>
    s.clock ≤ c.portStatusAt ∧ c.portStatusAt ≤ c.pstatsAt ∧ c.pstatsAt ≤ c.doneAt

instance (s : Agent) : ∀ e, Decidable (ClockForward s e)
  | .ptpData now _ | .spll now _ | .portStatus now _ | .ptpInstance now | .currentTime now
  | .pstats now _ => inferInstanceAs (Decidable (s.clock ≤ now))
  | .timing _ => inferInstanceAs (Decidable (_ ∧ _))
  | .networking _ => inferInstanceAs (Decidable (_ ∧ _))

end WrSwitch.Snmp
