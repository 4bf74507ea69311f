import WrSwitch.Hal.Types

/-!
# The TX setup machine of a port

Every port waits in WAIT_OTHER_PORTS until the mask of the ports that came that far is the mask
of the ports in use.
-/
namespace WrSwitch.Hal

def txCalTolerance : Int := 300
def txCalFirstCalTolerance : Int := 750
def txCalFirstCalExpectedPhase : Int := 750

/-- `((uint32_t)1) << ps->hw_index` -/
def hwBit (hwIndex : Nat) : Word := (1 : Word) <<< hwIndex

def txSetupDone (c : Ctx) : Ctx :=
  { c with gl.maskTxSetupDonePorts := c.gl.maskTxSetupDonePorts ||| hwBit c.ps.hwIndex }

def txSetupNotDone (c : Ctx) : Ctx :=
  { c with gl.maskTxSetupDonePorts := c.gl.maskTxSetupDonePorts &&& ~~~(hwBit c.ps.hwIndex) }

def txSetupDoneOnAllPorts (c : Ctx) : Bool := c.gl.maskUsedPorts == c.gl.maskTxSetupDonePorts

/-- `_within_range`: its loops reduce the three values modulo `wrap`. -/
def withinRange (x minval maxval wrap : Int) : Bool :=
  if maxval % wrap > minval % wrap then
    decide (x % wrap ≥ minval % wrap) && decide (x % wrap ≤ maxval % wrap)
  else decide (x % wrap ≥ minval % wrap) || decide (x % wrap ≤ maxval % wrap)

def Ctx.fireTx (c : Ctx) (newState : TxSetupState) : Ctx :=
  { c with ps.txSetupFSM := c.ps.txSetupFSM.fireState newState }

def portTxSetupFsmStateStart (c : Ctx) : Int × Ctx :=
  let c := if halTmgGetMode c.rts ≠ some .freeMaster then c.pollRtsState else c
  let c := txSetupNotDone { c with ps.locked := false }
  if c.ps.isSupported then
    let txSetup :=
      { c.ps.txSetup with
        attempts := 0, expectedPhase := 0, expectedPhaseValid := false, tolerance := txCalTolerance }
    (0, { c with ps.txSetup := txSetup }.fireTx .resetPcs)
  else (0, c.fireTx .waitOtherPorts)

def portTxSetupFsmStateResetPcs (c : Ctx) : Int × Ctx := (0, c.fireTx .waitLock)

def portTxSetupFsmStateWaitLock (c : Ctx) : Int × Ctx :=
  match c.reading.reg with
  | none => (0, c.take)
  | some value =>
    if value &&& lpdcMdioStatTxRstDone ≠ 0 then
      let c := c.take
      (0, { c with ps.txSetup.attempts := c.ps.txSetup.attempts + 1 }.fireTx .measurePhase)
    else (0, c.take)

/-- The phase bin that the first measurement after START aims for. -/
def LpdcTx.expect (txSetup : LpdcTx) : LpdcTx :=
  if txSetup.expectedPhaseValid then txSetup
  else if txSetup.calSavedPhaseValid then
    { txSetup with expectedPhase := txSetup.calSavedPhase, expectedPhaseValid := true }
  else
    { txSetup with
      tolerance := txCalFirstCalTolerance
      expectedPhase := txCalFirstCalExpectedPhase
      expectedPhaseValid := true }

def portTxSetupFsmStateMeasurePhase (c : Ctx) : Int × Ctx :=
  let measured := c.reading
  let c := c.take
  if measured.pmeasReady then
    let phase := measured.phaseLoopback
    let txSetup := LpdcTx.expect { c.ps.txSetup with measuredPhase := phase }
    let c := { c with ps.txSetup := txSetup }
    if withinRange phase (txSetup.expectedPhase - txSetup.tolerance)
        (txSetup.expectedPhase + txSetup.tolerance) 16000 then (0, c.fireTx .validate)
    else (0, c.fireTx .resetPcs)
  else if c.reading.expired then (0, c.take.fireTx .resetPcs)
  else (0, c.take)

def portTxSetupFsmStateValidate (c : Ctx) : Int × Ctx :=
  let measured := c.reading
  let c := c.take
  if measured.pmeasReady then
    (0, { c with ps.txSetup.measuredPhase := measured.phaseLoopback }.fireTx .waitOtherPorts)
  else (0, c)

def portTxSetupFsmStateWaitOtherPorts (isNewState : Bool) (c : Ctx) : Int × Ctx :=
  let c := if isNewState then txSetupDone c else c
  if txSetupDoneOnAllPorts c then (0, c.fireTx .done) else (0, c)

def portTxSetupFsmStateDone (c : Ctx) : Int × Ctx := (1, c)

def portTxSetupFsm : FsmTable Ctx TxSetupState Unit where
  fsm c := c.ps.txSetupFSM
  setFsm c fsm := { c with ps.txSetupFSM := fsm }
  buildEvents c := ((), c)
  handler state _ isNewState c :=
    .ok (match state with
      | .start => portTxSetupFsmStateStart c
      | .resetPcs => portTxSetupFsmStateResetPcs c
      | .waitLock => portTxSetupFsmStateWaitLock c
      | .measurePhase => portTxSetupFsmStateMeasurePhase c
      | .validate => portTxSetupFsmStateValidate c
      | .waitOtherPorts => portTxSetupFsmStateWaitOtherPorts isNewState c
      | .done => portTxSetupFsmStateDone c)

def halPortTxSetupFsmInit (c : Ctx) : Ctx :=
  { c with ps.txSetupFSM := Fsm.initState.fireState .start }

def halPortTxSetupFsmRun (fuel : Nat) (c : Ctx) : Except Ctx (Int × Ctx) :=
  if c.ps.inUse then fsmGenericRun portTxSetupFsm fuel c else .ok (1, c)

/-! ### What a run leaves alone -/

/-- `locked` may be cleared, and the mask of the ports that are done is the only shared data. -/
structure TxFrame (c c' : Ctx) : Prop where
  ps : c'.ps =
    { c.ps with
      txSetupFSM := c'.ps.txSetupFSM, txSetup := c'.ps.txSetup, locked := c'.ps.locked }
  unlocked : c'.ps.locked = true → c.ps.locked = true
  gl : c'.gl = { c.gl with maskTxSetupDonePorts := c'.gl.maskTxSetupDonePorts }
  readings : c'.readings = c.readings
  warned : c'.warned = c.warned

theorem TxFrame.refl (c : Ctx) : TxFrame c c := ⟨rfl, id, rfl, rfl, rfl⟩

theorem TxFrame.trans {c c' c'' : Ctx} (first : TxFrame c c') (second : TxFrame c' c'') :
    TxFrame c c'' where
  ps := second.ps.trans (by rw [first.ps])
  unlocked := first.unlocked ∘ second.unlocked
  gl := second.gl.trans (by rw [first.gl])
  readings := second.readings.trans first.readings
  warned := second.warned.trans first.warned

/-- A handler of the TX machine writes its own fields only. -/
theorem txHandler_frame (state : TxSetupState) (evts : Unit) (isNewState : Bool) (c : Ctx) :
    Outcome (TxFrame c) (fun _ => TxFrame c) (portTxSetupFsm.handler state evts isNewState c) := by
  cases state with
  | start =>
    simp only [portTxSetupFsm, portTxSetupFsmStateStart]
    split_ifs <;> exact ⟨rfl, fun locked => absurd locked Bool.false_ne_true, rfl, rfl, rfl⟩
  | resetPcs => exact ⟨rfl, id, rfl, rfl, rfl⟩
  | waitLock =>
    simp only [portTxSetupFsm, portTxSetupFsmStateWaitLock]
    split
    · exact ⟨rfl, id, rfl, rfl, rfl⟩
    · split_ifs <;> exact ⟨rfl, id, rfl, rfl, rfl⟩
  | measurePhase =>
    simp only [portTxSetupFsm, portTxSetupFsmStateMeasurePhase]
    split_ifs <;> exact ⟨rfl, id, rfl, rfl, rfl⟩
  | validate =>
    simp only [portTxSetupFsm, portTxSetupFsmStateValidate]
    split_ifs <;> exact ⟨rfl, id, rfl, rfl, rfl⟩
  | waitOtherPorts =>
    simp only [portTxSetupFsm, portTxSetupFsmStateWaitOtherPorts]
    split_ifs <;> exact ⟨rfl, id, rfl, rfl, rfl⟩
  | done => exact .refl c

/-- The TX machine writes its own fields only. -/
theorem halPortTxSetupFsmRun_frame (fuel : Nat) (c : Ctx) :
    Outcome (TxFrame c) (fun _ => TxFrame c) (halPortTxSetupFsmRun fuel c) := by
  unfold halPortTxSetupFsmRun
  split
  · exact fsmGenericRun_frame portTxSetupFsm TxFrame.refl TxFrame.trans .refl
      (fun _ _ => ⟨rfl, id, rfl, rfl, rfl⟩) txHandler_frame fuel c
  · exact .refl c

end WrSwitch.Hal
