import WrSwitch.Hal.PortFsm

/-!
# The flags of a port follow its machine

`calib.tx_calibrated`, `calib.rx_calibrated` and `locked` after the runs of the machine of a
port: what one turn leaves, with or without a state pending, and what the daemon leaves.
-/
namespace WrSwitch.Hal

/-! ### Flags and states -/

def Port.Calibrated (ps : Port) : Prop :=
  ps.calib.txCalibrated = true ∧ ps.calib.rxCalibrated = true

def Port.Uncalibrated (ps : Port) : Prop :=
  ps.calib.txCalibrated = false ∧ ps.calib.rxCalibrated = false

/-- The flags of a port whose machine has settled. -/
structure Port.FlagsOk (ps : Port) : Prop where
  up : ps.fsm.state = some .linkUp → ps.Calibrated
  down : ps.fsm.state ≠ some .linkUp → ps.Uncalibrated
  locked : ps.locked = true → ps.fsm.state = some .linkUp ∧ ps.pllFsm.state = some .locked

/-- A port without a module, or powered down, is not up. -/
def Port.UpOk (ps : Port) : Prop :=
  ps.fsm.state = some .linkUp → ps.sfpPresent = true ∧ ps.evtPowerDown = false

/-- Between two turns. A port that is about to leave LINK_UP may still have its flags: they are
cleared by the entry of LINK_DOWN, or by the entry of DISABLED that follows. -/
structure PortInv (ps : Port) : Prop where
  started : ∃ state, ps.fsm.nextState = some state
  settled : ps.fsm.hasPendingState = false → ps.FlagsOk
  entering : ps.fsm.nextState = some .linkUp → ps.Calibrated
  pll : ps.fsm.hasPendingState = false → ps.fsm.state = some .linkUp →
    ∃ state, ps.pllFsm.nextState = some state

/-- What a run does not change. -/
structure PortKept (ps ps' : Port) : Prop where
  inUse : ps'.inUse = ps.inUse
  sfpPresent : ps'.sfpPresent = ps.sfpPresent
  evtPowerDown : ps'.evtPowerDown = ps.evtPowerDown

theorem PortKept.refl (ps : Port) : PortKept ps ps := ⟨rfl, rfl, rfl⟩

theorem PortKept.trans {a b c : Port} (first : PortKept a b) (second : PortKept b c) :
    PortKept a c :=
  ⟨second.inUse.trans first.inUse, second.sfpPresent.trans first.sfpPresent,
    second.evtPowerDown.trans first.evtPowerDown⟩

/-- What a turn leaves of a port. -/
structure TurnOk (ps ps' : Port) : Prop where
  inv : PortInv ps'
  up : ps'.fsm.hasPendingState = false → ps'.UpOk
  kept : PortKept ps ps'

/-! ### One turn -/

/-- The flags in every state but LINK_UP. -/
def Port.Clear (ps : Port) : Prop := ps.Uncalibrated ∧ ps.locked = false

/-- A port that is not up has no flag set. -/
theorem Port.FlagsOk.clear {ps : Port} (flags : ps.FlagsOk) (down : ps.fsm.state ≠ some .linkUp) :
    ps.Clear := by
  refine ⟨flags.down down, ?_⟩
  cases locked : ps.locked with
  | false => rfl
  | true => exact absurd (flags.locked locked).1 down

/-- A turn that ends in the state it is in, not LINK_UP. -/
theorem TurnOk.stay {ps ps' : Port} (state : PortState) (clear : ps'.Clear)
    (entered : ps'.fsm = ⟨some state, some state⟩) (down : state ≠ .linkUp)
    (kept : PortKept ps ps') : TurnOk ps ps' := by
  have other : ps'.fsm.state ≠ some .linkUp := by
    rw [entered]
    exact fun same => down (Option.some.inj same)
  exact {
    inv := {
      started := ⟨state, by rw [entered]⟩
      settled := fun _ =>
        ⟨fun up => absurd up other, fun _ => clear.1,
          fun locked => absurd (clear.2.symm.trans locked) Bool.false_ne_true⟩
      entering := by
        rw [entered]
        exact fun same => absurd (Option.some.inj same) down
      pll := fun _ up => absurd up other }
    up := fun _ up => absurd up other
    kept := kept }

/-- A turn that leaves another state pending. -/
theorem TurnOk.fire {ps ps' : Port} (state next : PortState)
    (fired : ps'.fsm = ⟨some state, some next⟩) (other : state ≠ next)
    (calibrated : next = .linkUp → ps'.Calibrated) (kept : PortKept ps ps') : TurnOk ps ps' := by
  have pending : ps'.fsm.hasPendingState = true := by
    rw [Fsm.hasPendingState_iff, fired]
    exact fun same => other (Option.some.inj same)
  exact {
    inv := {
      started := ⟨next, by rw [fired]⟩
      settled := fun settled => absurd (settled.symm.trans pending) Bool.false_ne_true
      entering := by
        rw [fired]
        exact fun same => calibrated (Option.some.inj same)
      pll := fun settled => absurd (settled.symm.trans pending) Bool.false_ne_true }
    up := fun settled => absurd (settled.symm.trans pending) Bool.false_ne_true
    kept := kept }

/-- The port when its handler is called. -/
structure Entered (state : PortState) (isNewState : Bool) (ps : Port) : Prop where
  fsm : ps.fsm = ⟨some state, some state⟩
  flags : isNewState = false → ps.FlagsOk
  up : state = .linkUp → ps.Calibrated
  pll : isNewState = false → state = .linkUp → ∃ state, ps.pllFsm.nextState = some state
  inUse : ps.inUse = true

private theorem resetPort_clear (c : Ctx) : (resetPort c).ps.Clear := ⟨⟨rfl, rfl⟩, rfl⟩

/-- A port that has entered another state than up has no flag set. -/
theorem Entered.clear {state : PortState} {ps : Port} (entered : Entered state false ps)
    (down : state ≠ .linkUp) : ps.Clear :=
  (entered.flags rfl).clear (by
    rw [entered.fsm]
    exact fun same => down (Option.some.inj same))

private theorem portFsmStateInit_ok (fuel : Nat) (isNewState : Bool) (c : Ctx)
    (entered : Entered .init isNewState c.ps) :
    Outcome (fun _ => True) (fun _ c' => TurnOk c.ps c'.ps) (portFsmStateInit fuel isNewState c) := by
  unfold portFsmStateInit
  -- the entry of INIT resets the port
  have ready : ∃ c₁ : Ctx, (if isNewState then halPortTxSetupFsmInit (initPort c) else c) = c₁ ∧
      c₁.ps.Clear ∧ c₁.ps.fsm = ⟨some .init, some .init⟩ ∧ PortKept c.ps c₁.ps := by
    cases isNewState with
    | true => exact ⟨_, rfl, resetPort_clear c, entered.fsm, ⟨rfl, rfl, rfl⟩⟩
    | false => exact ⟨c, rfl, entered.clear nofun, entered.fsm, .refl _⟩
  obtain ⟨c₁, start, clear, fsm, kept⟩ := ready
  simp only [start]
  refine Outcome.bind ((halPortTxSetupFsmRun_frame fuel c₁).imp (fun _ _ => trivial)
    fun _ _ frame => frame) ?_
  intro ret c' frame
  have fsm' : c'.ps.fsm = ⟨some .init, some .init⟩ := by rw [frame.ps, fsm]
  have kept' : PortKept c.ps c'.ps := kept.trans (by rw [frame.ps]; exact ⟨rfl, rfl, rfl⟩)
  -- the TX machine unlocks nothing that was clear
  have clear' : c'.ps.Clear := by
    refine ⟨?_, ?_⟩
    · rw [frame.ps]
      exact clear.1
    · cases locked : c'.ps.locked with
      | false => rfl
      | true => exact absurd (clear.2.symm.trans (frame.unlocked locked)) Bool.false_ne_true
  dsimp only
  split
  · exact .fire .init .disabled (by simp [Ctx.firePort, fsm', Fsm.fireState])
      nofun nofun ⟨kept'.inUse, kept'.sfpPresent, kept'.evtPowerDown⟩
  · exact .stay _ clear' fsm' nofun kept'

private theorem portFsmStateDisabled_ok (evts : PortEvents) (isNewState : Bool) (c : Ctx)
    (entered : Entered .disabled isNewState c.ps) :
    TurnOk c.ps (portFsmStateDisabled evts isNewState c).2.ps := by
  unfold portFsmStateDisabled
  have ready : ∃ c₁ : Ctx, (if isNewState then resetPort c else c) = c₁ ∧
      c₁.ps.Clear ∧ c₁.ps.fsm = ⟨some .disabled, some .disabled⟩ ∧ PortKept c.ps c₁.ps := by
    cases isNewState with
    | true => exact ⟨_, rfl, resetPort_clear c, entered.fsm, ⟨rfl, rfl, rfl⟩⟩
    | false => exact ⟨c, rfl, entered.clear nofun, entered.fsm, .refl _⟩
  obtain ⟨c₁, start, clear, fsm, kept⟩ := ready
  simp only [start]
  split
  · exact .fire .disabled .linkDown
      (by simp [Ctx.firePort, fsm, Fsm.fireState]) nofun nofun
      ⟨kept.inUse, kept.sfpPresent, kept.evtPowerDown⟩
  · exact .stay _ clear fsm nofun kept

/-- A port that leaves for DISABLED: the flags do not matter. -/
theorem TurnOk.disable {state : PortState} {ps : Port} {c : Ctx}
    (current : c.ps.fsm.state = some state) (other : state ≠ .disabled) (kept : PortKept ps c.ps) :
    TurnOk ps (c.firePort .disabled).ps :=
  .fire state .disabled (by simp [Ctx.firePort, current, Fsm.fireState]) other
    nofun ⟨kept.inUse, kept.sfpPresent, kept.evtPowerDown⟩

private theorem portFsmStateLinkDown_ok (fuel : Nat) (evts : PortEvents) (isNewState : Bool)
    (c : Ctx) (entered : Entered .linkDown isNewState c.ps) :
    Outcome (fun _ => True) (fun _ c' => TurnOk c.ps c'.ps)
      (portFsmStateLinkDown fuel evts isNewState c) := by
  have current : c.ps.fsm.state = some .linkDown := by rw [entered.fsm]
  unfold portFsmStateLinkDown
  split
  · exact .disable current nofun (.refl _)
  split
  · exact .disable current nofun (.refl _)
  -- the entry of LINK_DOWN resets the port
  have ready : ∃ c₁ : Ctx, (if isNewState then halPortRxSetupFsmInit (resetPort c) else c) = c₁ ∧
      c₁.ps.Clear ∧ c₁.ps.fsm = ⟨some .linkDown, some .linkDown⟩ ∧ PortKept c.ps c₁.ps := by
    cases isNewState with
    | true => exact ⟨_, rfl, resetPort_clear c, entered.fsm, ⟨rfl, rfl, rfl⟩⟩
    | false => exact ⟨c, rfl, entered.clear nofun, entered.fsm, .refl _⟩
  obtain ⟨c₁, start, clear, fsm, kept⟩ := ready
  simp only [start]
  refine Outcome.bind ((halPortRxSetupFsmRun_frame fuel c₁).imp (fun _ _ => trivial)
    fun _ _ frame => frame) ?_
  intro ret c' frame
  have fsm' : c'.ps.fsm = ⟨some .linkDown, some .linkDown⟩ := by rw [frame.ps, fsm]
  have kept' : PortKept c.ps c'.ps := kept.trans (by rw [frame.ps]; exact ⟨rfl, rfl, rfl⟩)
  have clear' : c'.ps.Clear := by
    rw [frame.ps]
    exact clear
  dsimp only
  split
  · split
    · -- the bitslide was read: both flags are set before LINK_UP is entered
      exact .fire .linkDown .linkUp
        (by simp [Ctx.firePort, linkCalibrated, Ctx.take, fsm', Fsm.fireState]) nofun
        (fun _ => ⟨rfl, rfl⟩) ⟨kept'.inUse, kept'.sfpPresent, kept'.evtPowerDown⟩
    · exact .stay _ clear' fsm' nofun kept'
  · exact .stay _ clear' fsm' nofun kept'

private theorem lpdcCheck_eq (evts : PortEvents) (c : Ctx) :
    ∃ next, (next = c.ps.fsm.nextState ∨ next = some .linkDown) ∧
      lpdcCheck evts c = { c with ps.fsm := ⟨c.ps.fsm.state, next⟩ } := by
  unfold lpdcCheck
  dsimp only
  split_ifs
  · exact ⟨_, .inr rfl, rfl⟩
  · exact ⟨_, .inr rfl, rfl⟩
  · exact ⟨_, .inr rfl, rfl⟩
  · exact ⟨_, .inl rfl, rfl⟩

private theorem portFsmStateLinkUp_ok (fuel : Nat) (evts : PortEvents) (isNewState : Bool) (c : Ctx)
    (entered : Entered .linkUp isNewState c.ps) (sfp : evts.sfpPresent = c.ps.sfpPresent)
    (powerDown : evts.powerDown = c.ps.evtPowerDown) :
    Outcome (fun _ => True) (fun _ c' => TurnOk c.ps c'.ps)
      (portFsmStateLinkUp fuel evts isNewState c) := by
  obtain ⟨next, fired, checked⟩ := lpdcCheck_eq evts c
  have current : (lpdcCheck evts c).ps.fsm.state = some .linkUp := by
    rw [checked, entered.fsm]
  have kept : PortKept c.ps (lpdcCheck evts c).ps := by
    rw [checked]
    exact ⟨rfl, rfl, rfl⟩
  unfold portFsmStateLinkUp
  dsimp only
  split
  · exact .disable current nofun kept
  next present =>
  split
  · exact .disable current nofun kept
  next powered =>
  split
  · exact .fire .linkUp .linkDown
      (by simp [Ctx.firePort, current, Fsm.fireState]) nofun nofun
      ⟨kept.inUse, kept.sfpPresent, kept.evtPowerDown⟩
  have ready : ∃ c₁ : Ctx,
      (if isNewState then halPortPllFsmInit (lpdcCheck evts c) else lpdcCheck evts c) = c₁ ∧
      PllInv c₁ ∧ c₁.ps.calib = c.ps.calib ∧ c₁.ps.fsm = ⟨some .linkUp, next⟩ ∧
      PortKept c.ps c₁.ps := by
    rw [checked]
    cases isNewState with
    | true =>
      exact ⟨_, rfl, ⟨⟨_, rfl⟩, fun settled => absurd settled nofun⟩, rfl, by
        simp [halPortPllFsmInit, entered.fsm], ⟨rfl, rfl, rfl⟩⟩
    | false =>
      -- the PLL machine goes on from where the last turn left it
      exact ⟨_, rfl, ⟨entered.pll rfl rfl, fun _ set => ((entered.flags rfl).locked set).2⟩, rfl,
        by simp [entered.fsm], ⟨rfl, rfl, rfl⟩⟩
  obtain ⟨c₁, start, pll, calib, fsm, kept₁⟩ := ready
  simp only [start]
  refine Outcome.bind (((halPortPllFsmRun_frame fuel c₁).and (halPortPllFsmRun_locked fuel c₁
    (kept₁.inUse.trans entered.inUse) pll)).imp (fun _ _ => trivial) fun _ _ both => both) ?_
  intro ret c' ⟨frame, locked, pllStarted⟩
  have fsm' : c'.ps.fsm = ⟨some .linkUp, next⟩ := by rw [frame.ps, fsm]
  have kept' : PortKept c.ps c'.ps := kept₁.trans (by rw [frame.ps]; exact ⟨rfl, rfl, rfl⟩)
  have calibrated : c'.ps.Calibrated := by
    have same : c'.ps.calib = c.ps.calib := by rw [frame.ps, calib]
    unfold Port.Calibrated
    rw [same]
    exact entered.up rfl
  rcases fired with stays | leaves
  · have settled : c'.ps.fsm = ⟨some .linkUp, some .linkUp⟩ := by
      rw [fsm', stays, entered.fsm]
    have up : c'.ps.fsm.state = some .linkUp := by rw [settled]
    exact {
      inv := {
        started := ⟨.linkUp, by rw [settled]⟩
        settled := fun _ => ⟨fun _ => calibrated, fun down => absurd up down,
          fun set => ⟨up, locked set⟩⟩
        entering := fun _ => calibrated
        pll := fun _ _ => pllStarted }
      up := fun _ _ => by
        rw [kept'.sfpPresent, kept'.evtPowerDown, ← sfp, ← powerDown]
        exact ⟨by simpa using present, by simpa using powered⟩
      kept := kept' }
  · exact .fire .linkUp .linkDown (by rw [fsm', leaves]) nofun nofun kept'

/-! ### Runs of one port -/

/-- The port that a handler is called with, after the events and the change of the state. -/
theorem PortInv.entered {ps ps' : Port} {state : PortState} (inv : PortInv ps)
    (inUse : ps.inUse = true) (started : ps.fsm.nextState = some state)
    (built : ps' = { ps with fsm := ps.fsm.consumeState, evtReset := false }) :
    Entered state ps.fsm.hasPendingState ps' where
  fsm := by
    rw [built]
    exact congrArg₂ Fsm.mk started started
  flags settled := by
    have flags := inv.settled settled
    rw [built, Fsm.consumeState_settled settled]
    exact ⟨flags.up, flags.down, flags.locked⟩
  up up := by
    rw [built]
    exact inv.entering (started.trans (congrArg some up))
  pll settled up := by
    have same := (Fsm.not_hasPendingState_iff _).mp settled
    rw [built]
    exact inv.pll settled (same.trans (started.trans (congrArg some up)))
  inUse := by rw [built]; exact inUse

private theorem portFsm_handler_ok (fuel : Nat) (state : PortState) (evts : PortEvents)
    (isNewState : Bool) (c : Ctx) (entered : Entered state isNewState c.ps)
    (sfp : evts.sfpPresent = c.ps.sfpPresent) (powerDown : evts.powerDown = c.ps.evtPowerDown) :
    Outcome (fun _ => True) (fun _ c' => TurnOk c.ps c'.ps)
      ((portFsm fuel).handler state evts isNewState c) := by
  cases state with
  | init => exact portFsmStateInit_ok fuel isNewState c entered
  | disabled => exact portFsmStateDisabled_ok evts isNewState c entered
  | linkDown => exact portFsmStateLinkDown_ok fuel evts isNewState c entered
  | linkUp => exact portFsmStateLinkUp_ok fuel evts isNewState c entered sfp powerDown

private theorem portFsm_turn_ok (fuel : Nat) (c : Ctx) (inUse : c.ps.inUse = true)
    (inv : PortInv c.ps) :
    Outcome (fun _ => True) (fun _ c' => TurnOk c.ps c'.ps) ((portFsm fuel).turn c) := by
  obtain ⟨sfp, powerDown⟩ := portFsmBuildEvents_evts c
  obtain ⟨state, started⟩ := inv.started
  rw [portFsm_turn_eq fuel c started]
  have built : ({ (portFsmBuildEvents c).2 with ps.fsm := c.ps.fsm.consumeState } : Ctx).ps =
      { c.ps with fsm := c.ps.fsm.consumeState, evtReset := false } := by
    dsimp only
    rw [portFsmBuildEvents_ps]
  have kept : PortKept c.ps
      ({ (portFsmBuildEvents c).2 with ps.fsm := c.ps.fsm.consumeState } : Ctx).ps := by
    rw [built]
    exact ⟨rfl, rfl, rfl⟩
  refine (portFsm_handler_ok fuel state _ _ _ (inv.entered inUse started built)
    (sfp.trans kept.sfpPresent.symm) (powerDown.trans kept.evtPowerDown.symm)).imp
    (fun _ _ => trivial) fun _ _ ok => ⟨ok.inv, ok.up, kept.trans ok.kept⟩

/-- A run of the machine of a port that returns has settled. -/
theorem portFsm_run_ok (fuel fuel' : Nat) (c : Ctx) (inUse : c.ps.inUse = true)
    (inv : PortInv c.ps) :
    Outcome (fun _ => True)
      (fun _ c' => TurnOk c.ps c'.ps ∧ c'.ps.fsm.hasPendingState = false)
      (fsmGenericRun (portFsm fuel) fuel' c) := by
  refine fsmGenericRun_rule (portFsm fuel)
    (fun s => PortInv s.ps ∧ PortKept c.ps s.ps) (fun _ _ => trivial) ?_ fuel' c
    ⟨inv, .refl _⟩
  intro s ⟨inv, kept⟩
  refine (portFsm_turn_ok fuel s (kept.inUse.trans inUse) inv).imp (fun _ _ => trivial) ?_
  intro ret s' ok
  split
  · exact ⟨ok.inv, kept.trans ok.kept⟩
  next settled => exact ⟨⟨ok.inv, ok.up, kept.trans ok.kept⟩, Bool.eq_false_iff.mpr settled⟩

/-! ### The daemon -/

variable {n : Nat}

/-- A port that was run, or is not in use. -/
structure PortDone (ps : Port) : Prop where
  flags : ps.FlagsOk
  up : ps.UpOk

def HalInv (h : HalState n) : Prop :=
  ∀ i, if (h.ports i).inUse then PortInv (h.ports i) else PortDone (h.ports i)

/-- The effect of one step on the ports: the other ones are not touched. -/
structure StepOk (h h' : HalState n) (i : Fin n) : Prop where
  port : if (h'.ports i).inUse then PortInv (h'.ports i) else PortDone (h'.ports i)
  others : ∀ j, j ≠ i → h'.ports j = h.ports j

/-- A step of one port keeps the invariant of all. -/
theorem StepOk.inv {h h' : HalState n} {i : Fin n} (step : StepOk h h' i) (inv : HalInv h) :
    HalInv h' := by
  intro j
  by_cases same : j = i
  · exact same ▸ step.port
  · rw [step.others j same]
    exact inv j

/-- A port may be replaced by one that keeps its invariant. -/
theorem StepOk.setPort {h : HalState n} {i : Fin n} {ps : Port}
    (inv : if ps.inUse then PortInv ps else PortDone ps) : StepOk h (h.setPort i ps) i where
  port := by simpa [HalState.setPort] using inv
  others j other := by simp [HalState.setPort, other]

/-- What `P` says of a run that returns. -/
def Returns (P : HalState n → Prop) : Except (HalState n) (HalState n) → Prop
  | .error _ => True
  | .ok h => P h

/-- What is said of a run that returns may be weakened. -/
theorem Returns.imp {P Q : HalState n → Prop} {r : Except (HalState n) (HalState n)}
    (returns : Returns P r) (weaker : ∀ h, P h → Q h) : Returns Q r := by
  cases r with
  | error h => trivial
  | ok h => exact weaker h returns

/-- Two runs, one after the other. -/
theorem Returns.bind {P Q : HalState n → Prop} {r : Except (HalState n) (HalState n)}
    {next : HalState n → Except (HalState n) (HalState n)} (first : Returns P r)
    (rest : ∀ h, P h → Returns Q (next h)) : Returns Q (r >>= next) := by
  cases r with
  | error h => trivial
  | ok h => exact rest h first

private theorem runPort_ok (fuel : Nat) (h : HalState n) (i : Fin n)
    (inUse : (h.ports i).inUse = true) (inv : PortInv (h.ports i)) :
    Returns (fun h' => StepOk h h' i ∧ PortDone (h'.ports i)) (runPort fuel h i) := by
  have ran := portFsm_run_ok fuel fuel (h.ctx i) inUse inv
  unfold runPort
  split
  · trivial
  next ret c result =>
    rw [result] at ran
    obtain ⟨ok, settled⟩ := ran
    have port : (h.store i c).ports i = c.ps := by simp [HalState.store]
    refine ⟨⟨?_, fun j other => by simp [HalState.store, other]⟩, ?_⟩
    · rw [port, ok.kept.inUse]
      exact (if_pos inUse).symm ▸ ok.inv
    · rw [port]
      exact ⟨ok.inv.settled settled, ok.up settled⟩

/-- Events that the machine reads later do not matter between the runs. -/
theorem PortInv.events {ps : Port} (inv : PortInv ps) (sfpPresent evtReset evtLock : Bool)
    (evtLinkUp : Int) (evtPowerDown : Bool) :
    PortInv { ps with sfpPresent, evtReset, evtLock, evtLinkUp, evtPowerDown } where
  started := inv.started
  settled settled :=
    have flags := inv.settled settled
    ⟨flags.up, flags.down, flags.locked⟩
  entering := inv.entering
  pll := inv.pll

/-- A step that records an event of a port in use and runs its machine. -/
theorem recordAndRun_ok (fuel : Nat) {h g : HalState n} {i : Fin n} {ps : Port}
    (recorded : g.ports = Function.update h.ports i ps) (inUse : ps.inUse = true)
    (inv : PortInv ps) :
    Returns (fun h' => StepOk h h' i ∧ PortDone (h'.ports i)) (runPort fuel g i) := by
  have port : g.ports i = ps := by simp [recorded]
  refine (runPort_ok fuel g i (port ▸ inUse) (port ▸ inv)).imp fun h' ⟨step, finished⟩ => ?_
  refine ⟨⟨step.port, fun j other => (step.others j other).trans ?_⟩, finished⟩
  simp [recorded, other]

private theorem periodic_ok (fuel : Nat) (h : HalState n) (i : Fin n) (inv : HalInv h) :
    Returns (fun h' => StepOk h h' i ∧ PortDone (h'.ports i)) (halStep fuel h (.periodic i)) := by
  have port := inv i
  simp only [halStep]
  split
  next inUse =>
    rw [if_pos inUse] at port
    exact recordAndRun_ok fuel rfl inUse (port.events _ _ _ _ _)
  next unused =>
    refine ⟨⟨port, fun _ _ => rfl⟩, ?_⟩
    rwa [if_neg unused] at port

private theorem setPort_inv {h : HalState n} (inv : HalInv h) (i : Fin n)
    (sfpPresent evtReset evtLock : Bool) :
    HalInv (if (h.ports i).inUse then
      h.setPort i { h.ports i with sfpPresent, evtReset, evtLock } else h) := by
  split
  next inUse =>
    have port := inv i
    rw [if_pos inUse] at port
    exact (StepOk.setPort (by
      rw [if_pos inUse]
      exact port.events _ _ _ _ _)).inv inv
  · exact inv

private theorem halStep_inv (fuel : Nat) (h : HalState n) (op : HalOp n) (inv : HalInv h) :
    Returns HalInv (halStep fuel h op) := by
  cases op with
  | sfp i present => exact setPort_inv inv i present _ _
  | reset i => exact setPort_inv inv i _ true _
  | startLock i => exact setPort_inv inv i _ _ true
  | pollRts => exact inv
  | netlink i running =>
    simp only [halStep]
    generalize (if running then (1 : Int) else 0) = newState
    split
    · exact inv
    -- only a port in use whose link changed is run
    next changed =>
      have inUse : (h.ports i).inUse = true := by
        simpa using (not_or.mp changed).1
      have port := inv i
      rw [if_pos inUse] at port
      refine (recordAndRun_ok fuel rfl ?_ ?_).imp fun h' ⟨step, _⟩ => step.inv inv
      · exact inUse
      · exact port.events _ _ _ _ _
  | periodic i => exact (periodic_ok fuel h i inv).imp fun h' ⟨step, _⟩ => step.inv inv

private theorem halRun_inv (fuel : Nat) (ops : List (HalOp n)) (h : HalState n) (inv : HalInv h) :
    Returns HalInv (halRun fuel h ops) := by
  induction ops generalizing h with
  | nil => exact inv
  | cons op ops ih =>
    exact Returns.bind (halStep_inv fuel h op inv) ih

private theorem halInit_inv (cfg : Fin n → PortConfig) (rts : Option RtsPllState)
    (readings : Nat → Reading) : HalInv (halInit cfg rts readings) := by
  intro i
  have clear : ((halInit cfg rts readings).ports i).Clear := ⟨⟨rfl, rfl⟩, rfl⟩
  cases inUse : (cfg i).inUse with
  | true =>
    -- a port in use is about to enter INIT
    have fsm : ((halInit cfg rts readings).ports i).fsm = ⟨none, some .init⟩ := by
      simp [halInit, PortConfig.port, inUse, Fsm.fireState, Fsm.initState]
    have used : ((halInit cfg rts readings).ports i).inUse = true := inUse
    rw [if_pos used]
    have pending : ((halInit cfg rts readings).ports i).fsm.hasPendingState = true := by
      rw [fsm]
      rfl
    exact {
      started := ⟨.init, by rw [fsm]⟩
      settled := fun settled => absurd (settled.symm.trans pending) Bool.false_ne_true
      entering := by simp [fsm]
      pll := fun settled => absurd (settled.symm.trans pending) Bool.false_ne_true }
  | false =>
    -- an unused one rests there
    have fsm : ((halInit cfg rts readings).ports i).fsm = ⟨some .init, some .init⟩ := by
      simp [halInit, PortConfig.port, inUse]
    have unused : ((halInit cfg rts readings).ports i).inUse ≠ true := by
      simp [halInit, PortConfig.port, inUse]
    rw [if_neg unused]
    exact ⟨(TurnOk.stay .init clear fsm nofun (.refl _)).inv.settled (by
      rw [fsm]
      rfl), by simp [Port.UpOk, fsm]⟩

/-- The loop over the ports: those it has been to are done, and stay so. -/
theorem periodicLoop_done (fuel : Nat) (todo done : List (Fin n)) (h : HalState n)
    (inv : HalInv h) (before : ∀ i ∈ done, PortDone (h.ports i)) :
    Returns (fun h' => ∀ i ∈ done ++ todo, PortDone (h'.ports i))
      (halRun fuel h (todo.map .periodic)) := by
  induction todo generalizing done h with
  | nil =>
    rw [List.append_nil]
    exact before
  | cons j todo ih =>
    refine Returns.bind (periodic_ok fuel h j inv) fun h' ⟨step, finished⟩ => ?_
    rw [List.append_cons]
    refine ih (done ++ [j]) h' (step.inv inv) ?_
    intro i member
    by_cases same : i = j
    · exact same ▸ finished
    · rw [step.others i same]
      exact before i (by simpa [same] using member)

/-- Whenever `hal_port_state_fsm_run_all` returns, after any history of the daemon, the flags of
every port are those of its state, and no port without a module or power is up. -/
theorem flags_follow_state (cfg : Fin n → PortConfig) (rts : Option RtsPllState)
    (readings : Nat → Reading) (fuel : Nat) (history : List (HalOp n))
    (messages : List (Fin n × Bool)) :
    Returns (fun h => ∀ i, (h.ports i).FlagsOk ∧ (h.ports i).UpOk)
      (halRun fuel (halInit cfg rts readings) history >>= fun h =>
        halPortStateFsmRunAll fuel h messages) := by
  refine Returns.bind (halRun_inv fuel history _ (halInit_inv cfg rts readings)) fun h inv => ?_
  rw [halPortStateFsmRunAll, runAllOps, halRun_append]
  refine Returns.bind (halRun_inv fuel _ h inv) fun h inv => ?_
  refine (periodicLoop_done fuel (List.finRange n) [] h inv nofun).imp fun h' finished i => ?_
  have port := finished i (by simp)
  exact ⟨port.flags, port.up⟩

/-- A port without LPDC comes up and locks within its first run. -/
example :
    (match halRun 8 (halInit (fun _ : Fin 1 => ⟨true, 0, false, none, some 0, some true⟩) none
        fun _ => ⟨some 0, true, true, 0, some ⟨3, 0, rtsModeBc, 0⟩⟩)
        (.sfp 0 true :: runAllOps []) with
      | .ok h => ((h.ports 0).fsm.state, (h.ports 0).locked)
      | .error _ => (none, false)) = (some .linkUp, true) := by decide

end WrSwitch.Hal
