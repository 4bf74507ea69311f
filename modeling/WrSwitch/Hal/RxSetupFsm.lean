import WrSwitch.Hal.Types

/-!
# The RX setup machine of a port

It is started anew with every entry of LINK_DOWN.
-/
namespace WrSwitch.Hal

/-- `halPortRxSetupEventMask_t` -/
structure RxEvents where
  linkUp : Bool
  earlyLinkUp : Bool
  rxAligned : Bool

def Ctx.fireRx (c : Ctx) (newState : RxSetupState) : Ctx :=
  { c with ps.rxSetupFSM := c.ps.rxSetupFSM.fireState newState }

/-- The `if`s of the source guard a restarted timeout only: START follows in any case. -/
def halPortRxSetupStateInit (c : Ctx) : Int × Ctx := (0, c.fireRx .start)

def halPortRxSetupStateStart (evts : RxEvents) (c : Ctx) : Int × Ctx :=
  if c.ps.txSetupFSM.state ≠ some .done then (0, { c with warned := true })
  else if c.ps.isSupported then
    if c.reading.expired = false then (0, c.take)
    else if evts.earlyLinkUp then (0, { c.take with ps.rxAttempts := 0 }.fireRx .resetPcs)
    else (0, c.take)
  else (0, c.fireRx .done)

def halPortRxSetupStateResetPcs (evts : RxEvents) (c : Ctx) : Int × Ctx :=
  if evts.earlyLinkUp then
    (0, { c with ps.rxAttempts := c.ps.rxAttempts + 1 }.fireRx .waitLock)
  else if c.reading.expired then (0, c.take.fireRx .init)
  else (0, c.take)

def halPortRxSetupStateWaitLock (evts : RxEvents) (c : Ctx) : Int × Ctx :=
  let aligning := c.reading
  let c := c.take
  if evts.earlyLinkUp then
    if aligning.expired = false then (0, c)
    else if evts.rxAligned then (0, c.fireRx .validate)
    else if c.reading.expired then (0, c.take.fireRx .init)
    else (0, c.take.fireRx .resetPcs)
  else if aligning.expired then (0, c.fireRx .init)
  else (0, c)

def halPortRxSetupStateValidate (evts : RxEvents) (c : Ctx) : Int × Ctx :=
  let measured := c.reading
  let c := c.take
  if measured.pmeasReady then (0, c.fireRx .done)
  else if !evts.earlyLinkUp then (0, c.fireRx .init)
  else if c.reading.expired then (0, c.take.fireRx .init)
  else (0, c.take)

def halPortRxSetupStateRestart (isNewState : Bool) (c : Ctx) : Int × Ctx :=
  if isNewState then (0, c)
  else if c.reading.expired then (0, c.take.fireRx .init)
  else (0, c.take)

/-- The end of DONE: with LPDC ports around, all ports wait for the same time. -/
def rxDoneResult (evts : RxEvents) (c : Ctx) : Int × Ctx :=
  if c.gl.numberOfLpdcPorts ≠ 0 then
    if evts.linkUp then (if c.reading.expired then 1 else 0, c.take) else (0, c)
  else (if evts.linkUp then 1 else 0, c)

def halPortRxSetupStateDone (evts : RxEvents) (c : Ctx) : Int × Ctx :=
  if c.ps.isSupported then
    if !evts.earlyLinkUp then (0, c.fireRx .init)
    else if !evts.rxAligned then (0, c.fireRx .init)
    else if c.reading.expired ∧ !evts.linkUp then (0, c.take)
    else rxDoneResult evts c.take
  else rxDoneResult evts c

/-- The LPDC flags of the event masks; a register that cannot be read raises none. -/
def lpdcEvents (c : Ctx) : Bool × Bool :=
  match c.reading.reg with
  | none => (false, false)
  | some mioLpcStat =>
    (mioLpcStat &&& lpdcMdioStatLinkUp != 0, mioLpcStat &&& lpdcMdioStatLinkAligned != 0)

def portRxSetupFsmBuildEvents (c : Ctx) : RxEvents × Ctx :=
  if c.ps.isSupported then
    (⟨decide (c.ps.evtLinkUp > 0), (lpdcEvents c).1, (lpdcEvents c).2⟩, c.take)
  else (⟨decide (c.ps.evtLinkUp > 0), false, false⟩, c)

def portRxSetupFsm : FsmTable Ctx RxSetupState RxEvents where
  fsm c := c.ps.rxSetupFSM
  setFsm c fsm := { c with ps.rxSetupFSM := fsm }
  buildEvents := portRxSetupFsmBuildEvents
  handler state evts isNewState c :=
    .ok (match state with
      | .init => halPortRxSetupStateInit c
      | .start => halPortRxSetupStateStart evts c
      | .resetPcs => halPortRxSetupStateResetPcs evts c
      | .waitLock => halPortRxSetupStateWaitLock evts c
      | .validate => halPortRxSetupStateValidate evts c
      | .restart => halPortRxSetupStateRestart isNewState c
      | .done => halPortRxSetupStateDone evts c)

def halPortRxSetupFsmInit (c : Ctx) : Ctx :=
  { c with ps.rxSetupFSM := Fsm.initState.fireState .init }

def halPortRxSetupFsmRun (fuel : Nat) (c : Ctx) : Except Ctx (Int × Ctx) :=
  if c.ps.inUse then fsmGenericRun portRxSetupFsm fuel c else .ok (1, c)

/-! ### What a run leaves alone -/

/-- Only the machine itself and its count of attempts change, and readings are taken; nothing is
warned about once the TX setup is done. -/
structure RxFrame (c c' : Ctx) : Prop where
  ps : c'.ps = { c.ps with rxSetupFSM := c'.ps.rxSetupFSM, rxAttempts := c'.ps.rxAttempts }
  gl : c'.gl = c.gl
  rts : c'.rts = c.rts
  readings : c'.readings = c.readings
  warned : c.ps.txSetupFSM.state = some .done → c'.warned = c.warned

theorem RxFrame.refl (c : Ctx) : RxFrame c c := ⟨rfl, rfl, rfl, rfl, fun _ => rfl⟩

theorem RxFrame.trans {c c' c'' : Ctx} (first : RxFrame c c') (second : RxFrame c' c'') :
    RxFrame c c'' where
  ps := second.ps.trans (by rw [first.ps])
  gl := second.gl.trans first.gl
  rts := second.rts.trans first.rts
  readings := second.readings.trans first.readings
  warned done := by
    have tx : c'.ps.txSetupFSM = c.ps.txSetupFSM := by rw [first.ps]
    exact (second.warned (tx ▸ done)).trans (first.warned done)

/-- A handler of the RX machine writes its own fields only. -/
theorem rxHandler_frame (state : RxSetupState) (evts : RxEvents) (isNewState : Bool) (c : Ctx) :
    Outcome (RxFrame c) (fun _ => RxFrame c)
      (portRxSetupFsm.handler state evts isNewState c) := by
  cases state with
  | init => exact ⟨rfl, rfl, rfl, rfl, fun _ => rfl⟩
  | start =>
    simp only [portRxSetupFsm, halPortRxSetupStateStart]
    split
    next early => exact ⟨rfl, rfl, rfl, rfl, fun done => absurd done early⟩
    · split_ifs <;> exact ⟨rfl, rfl, rfl, rfl, fun _ => rfl⟩
  | resetPcs =>
    simp only [portRxSetupFsm, halPortRxSetupStateResetPcs]
    split_ifs <;> exact ⟨rfl, rfl, rfl, rfl, fun _ => rfl⟩
  | waitLock =>
    simp only [portRxSetupFsm, halPortRxSetupStateWaitLock]
    split_ifs <;> exact ⟨rfl, rfl, rfl, rfl, fun _ => rfl⟩
  | validate =>
    simp only [portRxSetupFsm, halPortRxSetupStateValidate]
    split_ifs <;> exact ⟨rfl, rfl, rfl, rfl, fun _ => rfl⟩
  | restart =>
    simp only [portRxSetupFsm, halPortRxSetupStateRestart]
    split_ifs <;> exact ⟨rfl, rfl, rfl, rfl, fun _ => rfl⟩
  | done =>
    simp only [portRxSetupFsm, halPortRxSetupStateDone, rxDoneResult]
    split_ifs <;> exact ⟨rfl, rfl, rfl, rfl, fun _ => rfl⟩

/-- The RX machine writes its own fields only. -/
theorem halPortRxSetupFsmRun_frame (fuel : Nat) (c : Ctx) :
    Outcome (RxFrame c) (fun _ => RxFrame c) (halPortRxSetupFsmRun fuel c) := by
  have taken (c : Ctx) : RxFrame c c.take := ⟨rfl, rfl, rfl, rfl, fun _ => rfl⟩
  unfold halPortRxSetupFsmRun
  split
  · refine fsmGenericRun_frame portRxSetupFsm RxFrame.refl RxFrame.trans ?_
      (fun _ _ => ⟨rfl, rfl, rfl, rfl, fun _ => rfl⟩) rxHandler_frame fuel c
    intro c
    simp only [portRxSetupFsm, portRxSetupFsmBuildEvents]
    split
    · exact taken c
    · exact .refl c
  · exact .refl c

end WrSwitch.Hal
