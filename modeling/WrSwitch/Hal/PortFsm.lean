import WrSwitch.Hal.PllFsm
import WrSwitch.Hal.TxSetupFsm
import WrSwitch.Hal.RxSetupFsm
import Mathlib.Logic.Function.Basic
import Mathlib.Data.Fin.Basic
import Mathlib.Data.List.FinRange

/-!
# The machine of a port and the runs over all ports

`port_fsm_state_*` run the machines of the setup and of the PLL inside their own turns;
`hal_port_state_fsm_run_all` runs the ports that changed their link state and then every port.
-/
namespace WrSwitch.Hal

/-! ### Handlers -/

/-- `halPortEventMask_t` -/
structure PortEvents where
  sfpPresent : Bool
  linkUp : Bool
  reset : Bool
  powerDown : Bool
  earlyLinkUp : Bool
  rxAligned : Bool

def Ctx.firePort (c : Ctx) (newState : PortState) : Ctx :=
  { c with ps.fsm := c.ps.fsm.fireState newState }

def resetPort (c : Ctx) : Ctx :=
  { c with
    ps.locked := false
    ps.calib :=
      { c.ps.calib with
        rxCalibrated := false, txCalibrated := false, phyTxMin := 0, phyRxMin := 0
        deltaTxBoard := 0, deltaRxBoard := 0 } }

/-- `init_port`, without the clock period and the transition points. -/
def initPort (c : Ctx) : Ctx := resetPort c

def portFsmStateInit (fuel : Nat) (isNewState : Bool) (c : Ctx) : Except Ctx (Int × Ctx) := do
  let c := if isNewState then halPortTxSetupFsmInit (initPort c) else c
  let (ret, c) ← halPortTxSetupFsmRun fuel c
  return (0, if ret = 1 then c.firePort .disabled else c)

def portFsmStateDisabled (evts : PortEvents) (isNewState : Bool) (c : Ctx) : Int × Ctx :=
  let c := if isNewState then resetPort c else c
  if evts.sfpPresent ∧ !evts.powerDown then (0, c.firePort .linkDown) else (0, c)

/-- What LINK_DOWN stores when the bitslide could be read. -/
def linkCalibrated (bitSlideSteps : Word) (c : Ctx) : Ctx :=
  { c with
    ps.calib :=
      { c.ps.calib with
        bitslidePs := (bitSlideSteps >>> 4 &&& 0x1f) * 800
        txCalibrated := true, rxCalibrated := true
        deltaRxPhy := c.ps.calib.phyRxMin, deltaTxPhy := c.ps.calib.phyTxMin } }

def portFsmStateLinkDown (fuel : Nat) (evts : PortEvents) (isNewState : Bool) (c : Ctx) :
    Except Ctx (Int × Ctx) := do
  if !evts.sfpPresent then return (0, c.firePort .disabled)
  if evts.powerDown then return (0, c.firePort .disabled)
  let c := if isNewState then halPortRxSetupFsmInit (resetPort c) else c
  let (ret, c) ← halPortRxSetupFsmRun fuel c
  if ret = 1 ∧ evts.linkUp then
    match c.reading.reg with
    | some bitSlideSteps => return (0, (linkCalibrated bitSlideSteps c.take).firePort .linkUp)
    | none => return (0, c.take)
  else return (0, c)

/-- The checks of an LPDC port in LINK_UP. The handler goes on with LINK_DOWN pending. -/
def lpdcCheck (evts : PortEvents) (c : Ctx) : Ctx :=
  let c := if c.ps.isSupported ∧ !evts.earlyLinkUp then c.firePort .linkDown else c
  if c.ps.isSupported ∧ !evts.rxAligned then c.firePort .linkDown else c

def portFsmStateLinkUp (fuel : Nat) (evts : PortEvents) (isNewState : Bool) (c : Ctx) :
    Except Ctx (Int × Ctx) := do
  let c := lpdcCheck evts c
  if !evts.sfpPresent then return (0, c.firePort .disabled)
  if evts.powerDown then return (0, c.firePort .disabled)
  if evts.reset || !evts.linkUp then return (0, c.firePort .linkDown)
  let c := if isNewState then halPortPllFsmInit c else c
  let (_, c) ← halPortPllFsmRun fuel c
  return (0, c)

def portFsmBuildEvents (c : Ctx) : PortEvents × Ctx :=
  let evts : PortEvents :=
    { sfpPresent := c.ps.sfpPresent, linkUp := decide (c.ps.evtLinkUp > 0)
      reset := c.ps.evtReset, powerDown := c.ps.evtPowerDown
      earlyLinkUp := false, rxAligned := false }
  let c := { c with ps.evtReset := false }
  if c.ps.isSupported then
    ({ evts with earlyLinkUp := (lpdcEvents c).1, rxAligned := (lpdcEvents c).2 }, c.take)
  else (evts, c)

def portFsm (fuel : Nat) : FsmTable Ctx PortState PortEvents where
  fsm c := c.ps.fsm
  setFsm c fsm := { c with ps.fsm := fsm }
  buildEvents := portFsmBuildEvents
  handler state evts isNewState c :=
    match state with
    | .init => portFsmStateInit fuel isNewState c
    | .disabled => .ok (portFsmStateDisabled evts isNewState c)
    | .linkDown => portFsmStateLinkDown fuel evts isNewState c
    | .linkUp => portFsmStateLinkUp fuel evts isNewState c

/-- Of the port only the reset flag is changed by gathering the events. -/
theorem portFsmBuildEvents_ps (c : Ctx) :
    (portFsmBuildEvents c).2.ps = { c.ps with evtReset := false } := by
  unfold portFsmBuildEvents
  dsimp only
  split <;> rfl

/-- The events are what the port's fields say. -/
theorem portFsmBuildEvents_evts (c : Ctx) :
    (portFsmBuildEvents c).1.sfpPresent = c.ps.sfpPresent ∧
      (portFsmBuildEvents c).1.powerDown = c.ps.evtPowerDown := by
  unfold portFsmBuildEvents
  dsimp only
  split <;> exact ⟨rfl, rfl⟩

/-- Building the events leaves what the ports share alone. -/
theorem portFsmBuildEvents_rest (c : Ctx) :
    (portFsmBuildEvents c).2.gl = c.gl ∧ (portFsmBuildEvents c).2.warned = c.warned := by
  unfold portFsmBuildEvents
  dsimp only
  split <;> exact ⟨rfl, rfl⟩

/-- A turn calls the handler of the state that the port is to be in. -/
theorem portFsm_turn_eq (fuel : Nat) (c : Ctx) {state : PortState}
    (started : c.ps.fsm.nextState = some state) :
    (portFsm fuel).turn c =
      (portFsm fuel).handler state (portFsmBuildEvents c).1 c.ps.fsm.hasPendingState
        { (portFsmBuildEvents c).2 with ps.fsm := c.ps.fsm.consumeState } := by
  have fsm : (portFsmBuildEvents c).2.ps.fsm = c.ps.fsm := by rw [portFsmBuildEvents_ps]
  have turned := (portFsm fuel).turn_eq c ((congrArg Fsm.nextState fsm).trans started)
  change (portFsm fuel).turn c = (portFsm fuel).handler state (portFsmBuildEvents c).1
    (portFsmBuildEvents c).2.ps.fsm.hasPendingState
    { (portFsmBuildEvents c).2 with
      ps.fsm := (portFsmBuildEvents c).2.ps.fsm.consumeState } at turned
  rw [turned, fsm]

/-! ### All ports -/

structure HalState (n : Nat) where
  ports : Fin n → Port
  gl : GlobalLpdc
  rts : Option RtsPllState
  readings : Nat → Reading
  taken : Nat
  warned : Bool

variable {n : Nat}

def HalState.ctx (h : HalState n) (i : Fin n) : Ctx :=
  ⟨h.ports i, h.gl, h.rts, h.readings, h.taken, h.warned⟩

def HalState.store (h : HalState n) (i : Fin n) (c : Ctx) : HalState n :=
  ⟨Function.update h.ports i c.ps, c.gl, c.rts, c.readings, c.taken, c.warned⟩

def HalState.setPort (h : HalState n) (i : Fin n) (ps : Port) : HalState n :=
  { h with ports := Function.update h.ports i ps }

/-- `fsm_generic_run(&ps->fsm)` -/
def runPort (fuel : Nat) (h : HalState n) (i : Fin n) : Except (HalState n) (HalState n) :=
  match fsmGenericRun (portFsm fuel) fuel (h.ctx i) with
  | .error c => .error (h.store i c)
  | .ok (_, c) => .ok (h.store i c)

/-- What happens to the daemon, one port at a time. -/
inductive HalOp (n : Nat)
  /-- `hal_port_poll_sfp` finds a module inserted or removed -/
  | sfp (i : Fin n) (present : Bool)
  /-- `hal_port_reset` -/
  | reset (i : Fin n)
  /-- `hal_port_start_lock` -/
  | startLock (i : Fin n)
  /-- `hal_port_poll_rts_state`, also at the end of `hal_tmg_set_mode` -/
  | pollRts
  /-- a netlink message that names the port -/
  | netlink (i : Fin n) (running : Bool)
  /-- the turn of the port in the loop of `hal_port_state_fsm_run_all` -/
  | periodic (i : Fin n)

/-- `evt_powerDown` of the loop: `pcs_readl` that fails leaves `NIC_READ_PHY_CMD(MII_BMCR)`,
which is 0, in its result. -/
def readPowerDown (reg : Option Word) : Bool := reg.getD 0 &&& bmcrPdown != 0

def halStep (fuel : Nat) (h : HalState n) : HalOp n → Except (HalState n) (HalState n)
  | .sfp i present =>
    .ok (if (h.ports i).inUse then h.setPort i { h.ports i with sfpPresent := present } else h)
  | .reset i =>
    .ok (if (h.ports i).inUse then h.setPort i { h.ports i with evtReset := true } else h)
  | .startLock i =>
    .ok (if (h.ports i).inUse then h.setPort i { h.ports i with evtLock := true } else h)
  | .pollRts => .ok { h with rts := (h.readings h.taken).rts, taken := h.taken + 1 }
  | .netlink i running =>
    let newState : Int := if running then 1 else 0
    if !(h.ports i).inUse ∨ (h.ports i).evtLinkUp = newState then .ok h
    else runPort fuel (h.setPort i { h.ports i with evtLinkUp := newState }) i
  | .periodic i =>
    if (h.ports i).inUse then
      let powerDown := readPowerDown (h.readings h.taken).reg
      let h := h.setPort i { h.ports i with evtPowerDown := powerDown }
      runPort fuel { h with taken := h.taken + 1 } i
    else .ok h

def halRun (fuel : Nat) (h : HalState n) (ops : List (HalOp n)) :
    Except (HalState n) (HalState n) := ops.foldlM (halStep fuel) h

/-- A history in two parts. -/
theorem halRun_append (fuel : Nat) (h : HalState n) (ops ops' : List (HalOp n)) :
    halRun fuel h (ops ++ ops') = halRun fuel h ops >>= fun h => halRun fuel h ops' :=
  List.foldlM_append

/-- `hal_port_state_fsm_run_all`, with the netlink messages that are waiting. -/
def runAllOps (messages : List (Fin n × Bool)) : List (HalOp n) :=
  .pollRts :: messages.map (fun message => .netlink message.1 message.2) ++
    (List.finRange n).map .periodic

def halPortStateFsmRunAll (fuel : Nat) (h : HalState n) (messages : List (Fin n × Bool)) :
    Except (HalState n) (HalState n) := halRun fuel h (runAllOps messages)

/-! ### The start of the daemon -/

/-- What `hal_port_init` and `hal_port_state_fsm_init_all` find out about a port. -/
structure PortConfig where
  inUse : Bool
  hwIndex : Nat
  isSupported : Bool
  /-- the phase in the calibration file -/
  savedPhase : Option Int
  /-- `pcs_readl` of BMCR -/
  bmcr : Option Word
  /-- `get_port_link_state` -/
  linkState : Option Bool

/-- A port in the cleared shared memory, with the machines of a port in use created. -/
def PortConfig.port (cfg : PortConfig) : Port where
  inUse := cfg.inUse
  hwIndex := cfg.hwIndex
  fsm := if cfg.inUse then Fsm.initState.fireState .init else ⟨some .init, some .init⟩
  pllFsm := Fsm.initState
  txSetupFSM := if cfg.inUse then Fsm.initState else ⟨some .start, some .start⟩
  rxSetupFSM := Fsm.initState
  locked := false
  calib := ⟨0, 0, 0, 0, 0, 0, 0, false, false⟩
  sfpPresent := false
  evtReset := false
  evtLock := false
  evtLinkUp := if cfg.inUse then (cfg.linkState.map fun up => if up then 1 else 0).getD (-1) else 0
  evtPowerDown := cfg.inUse && readPowerDown cfg.bmcr
  isSupported := cfg.isSupported
  txSetup := ⟨0, cfg.savedPhase.getD 0, cfg.savedPhase.isSome, 0, 0, 0, false⟩
  rxAttempts := 0

def usedPorts (cfg : Fin n → PortConfig) : List (Fin n) :=
  (List.finRange n).filter fun i => (cfg i).inUse

/-- `hal_port_shmem_init`, up to the main loop. -/
def halInit (cfg : Fin n → PortConfig) (rts : Option RtsPllState) (readings : Nat → Reading) :
    HalState n where
  ports i := (cfg i).port
  gl :=
    { numberOfLpdcPorts := ((usedPorts cfg).filter fun i => (cfg i).isSupported).length
      maskUsedPorts := (usedPorts cfg).foldl (fun mask i => mask ||| hwBit (cfg i).hwIndex) 0
      maskTxSetupDonePorts := 0 }
  rts := rts
  readings := readings
  taken := 0
  warned := false

end WrSwitch.Hal
