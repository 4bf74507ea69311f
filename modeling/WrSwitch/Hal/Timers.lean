import Mathlib.Algebra.Group.Nat.Defs
import WrSwitch.Hal.PortFsm

/-!
# Timers

`timeout.c` of libwr, and the machines of a port with their timers, in a run during which what
they read stands still: the status words, the state of the PLL and the clock. The handlers are
those of the machines; here they are told what they read.
-/
namespace WrSwitch.Hal

/-! ### `timeout_t` -/

/-- Times are `uint64_t`, in microseconds. -/
structure Tmo where
  repeats : Bool
  startTics : Nat
  timeout : Nat
deriving DecidableEq, Repr

/-- `tmo->start_tics + tmo->timeout` -/
def Tmo.stop (tmo : Tmo) : Nat := (tmo.startTics + tmo.timeout) % 2 ^ 64

/-- The loop of `libwr_tmo_expired`; `none` if it has not ended when every value of `start_tics`
has been there. -/
def Tmo.catchUp (time : Nat) : Nat → Tmo → Option Tmo
  | 0, _ => none
  | left + 1, tmo =>
    if time > tmo.stop then Tmo.catchUp time left { tmo with startTics := tmo.stop } else some tmo

def libwrTmoInit (time milliseconds : Nat) (repeats : Bool) : Tmo :=
  ⟨repeats, time, milliseconds * 1000⟩

def libwrTmoRestart (time : Nat) (tmo : Tmo) : Tmo := { tmo with startTics := time }

def libwrTmoExpired (time : Nat) (tmo : Tmo) : Option (Bool × Tmo) :=
  if time > tmo.stop then
    if tmo.repeats then (Tmo.catchUp time (2 ^ 64) tmo).map fun tmo => (true, tmo)
    else some (true, tmo)
  else some (false, tmo)

/-! ### What a run works on -/

/-- The timers of a port. -/
inductive TmoName
  | calib | minCalibRx | earlyup | link | align | alignToLink | restart
deriving DecidableEq, Repr

/-- The channel of the port in a `_pll_state`, as far as it is used. -/
structure Channel where
  pmeasReady : Bool
  phaseLoopback : Int
deriving DecidableEq, Repr

/-- What is read during the run: it stands still. -/
structure Held where
  /-- `get_monotonic_us` -/
  now : Nat
  /-- the LPDC status register -/
  stat : Option Word
  /-- PCS register 16 -/
  pcs16 : Option Word
  /-- `rts_get_state` -/
  pll : Option (RtsPllState × Channel)

structure TimedCtx where
  c : Ctx
  tmo : TmoName → Tmo
  /-- `_pll_state` of the TX setup machine -/
  txPll : Channel
  /-- `_pll_state` of the RX setup machine -/
  rxPll : Channel

/-- What a handler reads of all that a reading may be. -/
def Held.reading (h : Held) : Reading :=
  ⟨h.stat, false, false, 0, h.pll.map Prod.fst⟩

/-- The LPDC flags of the events, from the status register. -/
def Held.lpdc (h : Held) : Bool × Bool :=
  match h.stat with
  | none => (false, false)
  | some mioLpcStat =>
    (mioLpcStat &&& lpdcMdioStatLinkUp != 0, mioLpcStat &&& lpdcMdioStatLinkAligned != 0)

def Channel.reading (ch : Channel) : Reading := ⟨none, false, ch.pmeasReady, ch.phaseLoopback, none⟩

def expiredReading (expired : Bool) : Reading := ⟨none, expired, false, 0, none⟩

/-- The handler takes these readings, in their order. -/
def Ctx.answered (c : Ctx) (answers : List Reading) : Ctx :=
  { c with readings := fun i => answers.getD i ⟨none, false, false, 0, none⟩, taken := 0 }

def TimedCtx.handle (x : TimedCtx) (answers : List Reading) (handler : Ctx → Int × Ctx) :
    Int × TimedCtx :=
  let (ret, c) := handler (x.c.answered answers)
  (ret, { x with c := c })

def TimedCtx.setTmo (x : TimedCtx) (name : TmoName) (tmo : Tmo) : TimedCtx :=
  { x with tmo := Function.update x.tmo name tmo }

def TimedCtx.tmoInit (x : TimedCtx) (h : Held) (name : TmoName) (milliseconds : Nat)
    (repeats : Bool) : TimedCtx :=
  x.setTmo name (libwrTmoInit h.now milliseconds repeats)

def TimedCtx.tmoRestart (x : TimedCtx) (h : Held) (name : TmoName) : TimedCtx :=
  x.setTmo name (libwrTmoRestart h.now (x.tmo name))

/-- It may not return. -/
def TimedCtx.tmoExpired (x : TimedCtx) (h : Held) (name : TmoName) :
    Except TimedCtx (Bool × TimedCtx) :=
  match libwrTmoExpired h.now (x.tmo name) with
  | none => .error x
  | some (expired, tmo) => .ok (expired, x.setTmo name tmo)

/-- `updatePllState`: a failing call leaves the copy as it is. -/
def Held.channel (h : Held) (copy : Channel) : Channel := (h.pll.map Prod.snd).getD copy

/-! ### The TX setup machine -/

def txCalPhaseMeasTimeout : Nat := 1000

def TimedCtx.clearTx (x : TimedCtx) : TimedCtx := { x with txPll.pmeasReady := false }

def timedTxStateStart (h : Held) (x : TimedCtx) : Int × TimedCtx :=
  let x := if x.c.ps.isSupported then x.clearTx else x
  x.handle [h.reading] portTxSetupFsmStateStart

def timedTxStateWaitLock (h : Held) (x : TimedCtx) : Int × TimedCtx :=
  let (ret, x) := x.handle [h.reading] portTxSetupFsmStateWaitLock
  (ret, if x.c.ps.txSetupFSM.nextState = some .measurePhase then x.clearTx else x)

def timedTxStateMeasurePhase (h : Held) (isNewState : Bool) (x : TimedCtx) :
    Except TimedCtx (Int × TimedCtx) := do
  let pll := h.channel x.txPll
  let x := { x with txPll := pll }
  let x := if isNewState then x.tmoInit h .calib txCalPhaseMeasTimeout true else x
  if pll.pmeasReady then
    let (ret, x) := x.handle [pll.reading] portTxSetupFsmStateMeasurePhase
    return (ret, if x.c.ps.txSetupFSM.nextState = some .validate then x.clearTx else x)
  else
    let (expired, x) ← x.tmoExpired h .calib
    return x.handle [pll.reading, expiredReading expired] portTxSetupFsmStateMeasurePhase

def timedTxStateValidate (h : Held) (x : TimedCtx) : Int × TimedCtx :=
  let pll := h.channel x.txPll
  { x with txPll := pll }.handle [pll.reading] portTxSetupFsmStateValidate

def timedTxHandler (h : Held) (state : TxSetupState) (isNewState : Bool) (x : TimedCtx) :
    Except TimedCtx (Int × TimedCtx) :=
  match state with
  | .start => .ok (timedTxStateStart h x)
  | .resetPcs => .ok (x.handle [] portTxSetupFsmStateResetPcs)
  | .waitLock => .ok (timedTxStateWaitLock h x)
  | .measurePhase => timedTxStateMeasurePhase h isNewState x
  | .validate => .ok (timedTxStateValidate h x)
  | .waitOtherPorts => .ok (x.handle [] (portTxSetupFsmStateWaitOtherPorts isNewState))
  | .done => .ok (x.handle [] portTxSetupFsmStateDone)

def timedTx (h : Held) : FsmTable TimedCtx TxSetupState Unit where
  fsm x := x.c.ps.txSetupFSM
  setFsm x fsm := { x with c.ps.txSetupFSM := fsm }
  buildEvents x := ((), x)
  handler state _ isNewState x := timedTxHandler h state isNewState x

/-! ### The RX setup machine -/

def timedRxBuildEvents (h : Held) (x : TimedCtx) : RxEvents × TimedCtx :=
  let (evts, c) := portRxSetupFsmBuildEvents (x.c.answered [h.reading])
  (evts, { x with c := c })

def TimedCtx.clearRx (x : TimedCtx) : TimedCtx := { x with rxPll.pmeasReady := false }

def timedRxStateInit (h : Held) (evts : RxEvents) (x : TimedCtx) :
    Except TimedCtx (Int × TimedCtx) :=
  let started := if x.c.ps.isSupported then evts.earlyLinkUp else evts.linkUp
  let x := if x.c.gl.numberOfLpdcPorts ≠ 0 ∧ started then x.tmoRestart h .minCalibRx else x
  .ok (x.handle [] halPortRxSetupStateInit)

def timedRxStateStart (h : Held) (evts : RxEvents) (isNewState : Bool) (x : TimedCtx) :
    Except TimedCtx (Int × TimedCtx) := do
  if x.c.ps.txSetupFSM.state = some .done ∧ x.c.ps.isSupported then
    let x := if isNewState then x.tmoRestart h .earlyup else x
    let (expired, x) ← x.tmoExpired h .earlyup
    let x := if expired && !evts.earlyLinkUp then x.tmoRestart h .earlyup else x
    return x.handle [expiredReading expired] (halPortRxSetupStateStart evts)
  else return x.handle [] (halPortRxSetupStateStart evts)

def timedRxStateResetPcs (h : Held) (evts : RxEvents) (isNewState : Bool) (x : TimedCtx) :
    Except TimedCtx (Int × TimedCtx) := do
  let x := if isNewState then x.tmoRestart h .link else x
  if evts.earlyLinkUp then return x.handle [] (halPortRxSetupStateResetPcs evts)
  else
    let (lost, x) ← x.tmoExpired h .link
    return x.handle [expiredReading lost] (halPortRxSetupStateResetPcs evts)

/-- WAIT_LOCK asks one timer or two. -/
def timedRxStateWaitLock (h : Held) (evts : RxEvents) (isNewState : Bool) (x : TimedCtx) :
    Except TimedCtx (Int × TimedCtx) := do
  let x := if isNewState then (x.tmoRestart h .link).tmoRestart h .align else x
  if evts.earlyLinkUp then
    let (aligning, x) ← x.tmoExpired h .align
    if !aligning || evts.rxAligned then
      let (ret, x) := x.handle [expiredReading aligning] (halPortRxSetupStateWaitLock evts)
      return (ret, if x.c.ps.rxSetupFSM.nextState = some .validate then x.clearRx else x)
    else
      let (waited, x) ← x.tmoExpired h .minCalibRx
      return x.handle [expiredReading aligning, expiredReading waited]
        (halPortRxSetupStateWaitLock evts)
  else
    let (lost, x) ← x.tmoExpired h .link
    return x.handle [expiredReading lost] (halPortRxSetupStateWaitLock evts)

def timedRxStateValidate (h : Held) (evts : RxEvents) (x : TimedCtx) :
    Except TimedCtx (Int × TimedCtx) := do
  let pll := h.channel x.rxPll
  let x := { x with rxPll := pll }
  if pll.pmeasReady || !evts.earlyLinkUp then
    return x.handle [pll.reading] (halPortRxSetupStateValidate evts)
  else
    let (waited, x) ← x.tmoExpired h .minCalibRx
    return x.handle [pll.reading, expiredReading waited] (halPortRxSetupStateValidate evts)

def timedRxStateRestart (h : Held) (isNewState : Bool) (x : TimedCtx) :
    Except TimedCtx (Int × TimedCtx) := do
  if isNewState then
    return (x.tmoRestart h .restart).handle [] (halPortRxSetupStateRestart true)
  else
    let (expired, x) ← x.tmoExpired h .restart
    return x.handle [expiredReading expired] (halPortRxSetupStateRestart false)

/-- The end of DONE, behind the readings that were taken. -/
def timedRxDoneEnd (h : Held) (evts : RxEvents) (answers : List Reading) (x : TimedCtx) :
    Except TimedCtx (Int × TimedCtx) := do
  if x.c.gl.numberOfLpdcPorts ≠ 0 ∧ evts.linkUp then
    let (waited, x) ← x.tmoExpired h .minCalibRx
    return x.handle (answers ++ [expiredReading waited]) (halPortRxSetupStateDone evts)
  else return x.handle answers (halPortRxSetupStateDone evts)

def timedRxStateDone (h : Held) (evts : RxEvents) (isNewState : Bool) (x : TimedCtx) :
    Except TimedCtx (Int × TimedCtx) := do
  if x.c.ps.isSupported then
    let x := if isNewState then x.tmoRestart h .alignToLink else x
    if !evts.earlyLinkUp || !evts.rxAligned then
      return x.handle [] (halPortRxSetupStateDone evts)
    else
      let (late, x) ← x.tmoExpired h .alignToLink
      if late && !evts.linkUp then
        return (x.tmoRestart h .alignToLink).handle [expiredReading late]
          (halPortRxSetupStateDone evts)
      else timedRxDoneEnd h evts [expiredReading late] x
  else timedRxDoneEnd h evts [] x

def timedRxHandler (h : Held) (state : RxSetupState) (evts : RxEvents) (isNewState : Bool)
    (x : TimedCtx) : Except TimedCtx (Int × TimedCtx) :=
  match state with
  | .init => timedRxStateInit h evts x
  | .start => timedRxStateStart h evts isNewState x
  | .resetPcs => timedRxStateResetPcs h evts isNewState x
  | .waitLock => timedRxStateWaitLock h evts isNewState x
  | .validate => timedRxStateValidate h evts x
  | .restart => timedRxStateRestart h isNewState x
  | .done => timedRxStateDone h evts isNewState x

def timedRx (h : Held) : FsmTable TimedCtx RxSetupState RxEvents where
  fsm x := x.c.ps.rxSetupFSM
  setFsm x fsm := { x with c.ps.rxSetupFSM := fsm }
  buildEvents := timedRxBuildEvents h
  handler := timedRxHandler h

/-- `hal_port_rx_setup_fsm_init` -/
def timedRxInit (h : Held) (x : TimedCtx) : TimedCtx :=
  let x :=
    if x.c.ps.isSupported then
      ((((x.tmoInit h .earlyup 10 false).tmoInit h .link 100 false).tmoInit
        h .align 1 false).tmoInit h .alignToLink 5000 false).tmoInit h .restart 100 false
    else x
  let x := x.tmoInit h .minCalibRx 20000 false
  { x with c := halPortRxSetupFsmInit x.c }

/-! ### The machine of the port -/

/-- `hal_port_tx_setup_fsm_run` and its like. -/
def timedRun {S E : Type} [DecidableEq S] (t : FsmTable TimedCtx S E) (fuel : Nat) (x : TimedCtx) :
    Except TimedCtx (Int × TimedCtx) :=
  if x.c.ps.inUse then fsmGenericRun t fuel x else .ok (1, x)

def timedStateInit (h : Held) (fuel : Nat) (isNewState : Bool) (x : TimedCtx) :
    Except TimedCtx (Int × TimedCtx) := do
  let x := if isNewState then { x with c := halPortTxSetupFsmInit (initPort x.c) } else x
  let (ret, x) ← timedRun (timedTx h) fuel x
  return (0, if ret = 1 then { x with c := x.c.firePort .disabled } else x)

def timedStateLinkDown (h : Held) (fuel : Nat) (evts : PortEvents) (isNewState : Bool)
    (x : TimedCtx) : Except TimedCtx (Int × TimedCtx) := do
  if !evts.sfpPresent then return (0, { x with c := x.c.firePort .disabled })
  if evts.powerDown then return (0, { x with c := x.c.firePort .disabled })
  let x := if isNewState then timedRxInit h { x with c := resetPort x.c } else x
  let (ret, x) ← timedRun (timedRx h) fuel x
  if ret = 1 ∧ evts.linkUp then
    match h.pcs16 with
    | some bitSlideSteps =>
      return (0, { x with c := (linkCalibrated bitSlideSteps x.c).firePort .linkUp })
    | none => return (0, x)
  else return (0, x)

def timedStateLinkUp (fuel : Nat) (evts : PortEvents) (isNewState : Bool) (x : TimedCtx) :
    Except TimedCtx (Int × TimedCtx) := do
  let x := { x with c := lpdcCheck evts x.c }
  if !evts.sfpPresent then return (0, { x with c := x.c.firePort .disabled })
  if evts.powerDown then return (0, { x with c := x.c.firePort .disabled })
  if evts.reset || !evts.linkUp then return (0, { x with c := x.c.firePort .linkDown })
  let c := if isNewState then halPortPllFsmInit x.c else x.c
  -- the PLL machine has neither timers nor readings of its own
  match halPortPllFsmRun fuel c with
  | .error c => throw { x with c := c }
  | .ok (_, c) => return (0, { x with c := c })

def timedPortBuildEvents (h : Held) (x : TimedCtx) : PortEvents × TimedCtx :=
  let (evts, c) := portFsmBuildEvents (x.c.answered [h.reading])
  (evts, { x with c := c })

def timedPort (h : Held) (fuel : Nat) : FsmTable TimedCtx PortState PortEvents where
  fsm x := x.c.ps.fsm
  setFsm x fsm := { x with c.ps.fsm := fsm }
  buildEvents := timedPortBuildEvents h
  handler state evts isNewState x :=
    match state with
    | .init => timedStateInit h fuel isNewState x
    | .disabled => .ok (x.handle [] (portFsmStateDisabled evts isNewState))
    | .linkDown => timedStateLinkDown h fuel evts isNewState x
    | .linkUp => timedStateLinkUp fuel evts isNewState x

end WrSwitch.Hal
