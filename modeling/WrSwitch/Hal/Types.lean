import WrSwitch.Hal.GenericFsm
import Mathlib.Tactic.SplitIfs

/-!
# Data model of the HAL daemon

A port with its four state machines, the data that the ports share, and what the hardware, the
clock and the RT subsystem answer. LEDs, light, the phase tracker, the calibration file and the
registers that are only written leave no trace here.
-/
namespace WrSwitch.Hal

abbrev Word := BitVec 32

/-! ### States of the machines -/

/-- `HAL_PORT_STATE_*` -/
inductive PortState
  | init | disabled | linkDown | linkUp
deriving DecidableEq, Repr

/-- `halPortTxSetupState_t` -/
inductive TxSetupState
  | start | resetPcs | waitLock | measurePhase | validate | waitOtherPorts | done
deriving DecidableEq, Repr

/-- `halPortRxSetupState_t` -/
inductive RxSetupState
  | init | start | resetPcs | waitLock | validate | restart | done
deriving DecidableEq, Repr

/-- `halPortPllState_t` -/
inductive PllState
  | unlocked | locking | locked
deriving DecidableEq, Repr

/-! ### Readings -/

def lpdcMdioStatLinkUp : Word := 0x2
def lpdcMdioStatLinkAligned : Word := 0x4
def lpdcMdioStatTxRstDone : Word := 0x8
def bmcrPdown : Word := 0x800

def rtsDmtdLocked : Word := 1
def rtsRefLocked : Word := 2

def rtsModeGmExternal : Word := 1
def rtsModeGmFreerunning : Word := 2
def rtsModeBc : Word := 3
def rtsModeDisabled : Word := 4

/-- `struct rts_pll_state`, as far as the machines use it. -/
structure RtsPllState where
  flags : Word
  currentRef : Word
  mode : Word
  delockCount : Word
deriving DecidableEq, Repr

/-- What is read next, whatever it is. -/
structure Reading where
  /-- `lpdc_readl` and `pcs_readl`; `none` when the `ioctl` fails -/
  reg : Option Word
  /-- `libwr_tmo_expired` -/
  expired : Bool
  /-- `CHAN_PMEAS_READY` and `phase_loopback` of the port after `updatePllState` -/
  pmeasReady : Bool
  phaseLoopback : Int
  /-- `rts_get_state`; `none` when it fails -/
  rts : Option RtsPllState

/-! ### Ports -/

/-- `HAL_MAX_PORTS` -/
def halMaxPorts : Nat := 32

/-- `hal_port_calibration_t` -/
structure Calib where
  phyRxMin : Word
  phyTxMin : Word
  deltaTxPhy : Word
  deltaRxPhy : Word
  bitslidePs : Word
  deltaTxBoard : Word
  deltaRxBoard : Word
  rxCalibrated : Bool
  txCalibrated : Bool
deriving DecidableEq, Repr

/-- `halPortLpdcTx_t` -/
structure LpdcTx where
  attempts : Nat
  calSavedPhase : Int
  calSavedPhaseValid : Bool
  measuredPhase : Int
  expectedPhase : Int
  tolerance : Int
  expectedPhaseValid : Bool
deriving DecidableEq, Repr

/-- `struct hal_port_state` -/
structure Port where
  inUse : Bool
  hwIndex : Nat
  fsm : Fsm PortState
  pllFsm : Fsm PllState
  txSetupFSM : Fsm TxSetupState
  rxSetupFSM : Fsm RxSetupState
  locked : Bool
  calib : Calib
  sfpPresent : Bool
  evtReset : Bool
  evtLock : Bool
  evtLinkUp : Int
  evtPowerDown : Bool
  /-- `lpdc.isSupported` -/
  isSupported : Bool
  txSetup : LpdcTx
  /-- `lpdc.rxSetup->attempts` -/
  rxAttempts : Nat
deriving DecidableEq, Repr

/-- `halGlobalLPDC_t` -/
structure GlobalLpdc where
  numberOfLpdcPorts : Nat
  maskUsedPorts : Word
  maskTxSetupDonePorts : Word
deriving DecidableEq, Repr

/-- What the machines of one port work on. -/
structure Ctx where
  ps : Port
  gl : GlobalLpdc
  /-- `halPorts.rts_state`, `none` while it is not valid -/
  rts : Option RtsPllState
  readings : Nat → Reading
  /-- how many readings were taken -/
  taken : Nat
  /-- the warning of the rx START state that should never happen was printed -/
  warned : Bool

def Ctx.reading (c : Ctx) : Reading := c.readings c.taken

def Ctx.take (c : Ctx) : Ctx := { c with taken := c.taken + 1 }

/-! ### The RT subsystem -/

/-- `HAL_TIMING_MODE_*` -/
inductive TimingMode
  | grandMaster | freeMaster | bc | disabled
deriving DecidableEq, Repr

/-- `hal_tmg_get_mode`; `none` is -1. -/
def halTmgGetMode (rts : Option RtsPllState) : Option TimingMode :=
  rts.bind fun hs =>
    if hs.mode = rtsModeGmExternal then some .grandMaster
    else if hs.mode = rtsModeGmFreerunning then some .freeMaster
    else if hs.mode = rtsModeBc then some .bc
    else if hs.mode = rtsModeDisabled then some .disabled
    else none

/-- `hal_port_poll_rts_state`, which `hal_tmg_set_mode` calls too. -/
def Ctx.pollRtsState (c : Ctx) : Ctx := { c.take with rts := c.reading.rts }

/-- `portLockState` -/
inductive PortLockState
  | error | locked | unlocked | relockError
deriving DecidableEq, Repr

def halPortCheckLock (rts : Option RtsPllState) (hwIndex : Nat) : PortLockState :=
  match rts with
  | none => .error
  | some hs =>
    if hs.delockCount > 0 then .relockError
    else if hs.mode = rtsModeBc ∧ hs.currentRef = BitVec.ofNat 32 hwIndex ∧
        hs.flags &&& rtsDmtdLocked ≠ 0 ∧ hs.flags &&& rtsRefLocked ≠ 0 then .locked
    else .unlocked

end WrSwitch.Hal
