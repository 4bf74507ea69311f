import WrSwitch.Hal.TxRetries

/-!
# Runs of a port

The machine of a port runs the others. While what is read stands still it comes to rest in one
state, and its runs return but for a TX setup in INIT that retries.
-/
namespace WrSwitch.Hal

/-- What the machine reads of its port, but for the reset that the events consume. -/
structure SameInputs (c c' : Ctx) : Prop where
  inUse : c'.ps.inUse = c.ps.inUse
  sfpPresent : c'.ps.sfpPresent = c.ps.sfpPresent
  evtLinkUp : c'.ps.evtLinkUp = c.ps.evtLinkUp
  evtPowerDown : c'.ps.evtPowerDown = c.ps.evtPowerDown
  isSupported : c'.ps.isSupported = c.ps.isSupported

theorem SameInputs.trans {c c' c'' : Ctx} (first : SameInputs c c') (second : SameInputs c' c'') :
    SameInputs c c'' where
  inUse := second.inUse.trans first.inUse
  sfpPresent := second.sfpPresent.trans first.sfpPresent
  evtLinkUp := second.evtLinkUp.trans first.evtLinkUp
  evtPowerDown := second.evtPowerDown.trans first.evtPowerDown
  isSupported := second.isSupported.trans first.isSupported

private theorem Steady.inputs {c c' : Ctx} (steady : Steady c c') : SameInputs c c' :=
  ⟨steady.inUse, steady.sfpPresent, steady.evtLinkUp, steady.evtPowerDown, steady.isSupported⟩

/-! ### Where the machine comes to rest -/

/-- LINK_UP needs a link, on an LPDC port one that is aligned. -/
def portTarget (h : Held) (c : Ctx) : PortState :=
  if !c.ps.sfpPresent || c.ps.evtPowerDown then .disabled
  else if c.ps.evtLinkUp > 0 ∧ (c.ps.isSupported = true → h.lpdc = (true, true)) then .linkUp
  else .linkDown

/-- With the same inputs the port goes to the same state. -/
theorem SameInputs.target {c c' : Ctx} (same : SameInputs c c') (h : Held) :
    portTarget h c' = portTarget h c := by
  unfold portTarget
  rw [same.sfpPresent, same.evtPowerDown, same.evtLinkUp, same.isSupported]

/-- How far a state is from the one at rest. -/
def portRank : PortState → PortState → Nat
  | .disabled, .disabled => 0
  | .disabled, _ => 1
  | .linkDown, .linkDown => 0
  | .linkDown, .init => 2
  | .linkDown, _ => 1
  | .linkUp, .linkUp => 0
  | .linkUp, .linkDown => 1
  | .linkUp, .disabled => 2
  | .linkUp, .init => 3
  | .init, _ => 0

/-- The TX setup that INIT starts or goes on with retries. -/
def portRetries (h : Held) (c : Ctx) : Bool :=
  c.ps.fsm.nextState == some .init &&
    txRetries h (if c.ps.fsm.hasPendingState then halPortTxSetupFsmInit (initPort c) else c)

/-- The events say what is read, but for the reset. -/
structure PortEvents.Read (evts : PortEvents) (h : Held) (c : Ctx) : Prop where
  sfpPresent : evts.sfpPresent = c.ps.sfpPresent
  linkUp : evts.linkUp = decide (c.ps.evtLinkUp > 0)
  powerDown : evts.powerDown = c.ps.evtPowerDown
  lpdc : c.ps.isSupported = true → (evts.earlyLinkUp, evts.rxAligned) = h.lpdc

private theorem timedPortBuildEvents_spec (h : Held) (x : TimedCtx) :
    (timedPortBuildEvents h x).1.Read h x.c ∧
      (timedPortBuildEvents h x).1.reset = x.c.ps.evtReset ∧
      (timedPortBuildEvents h x).2.tmo = x.tmo ∧
      (timedPortBuildEvents h x).2.c.ps = { x.c.ps with evtReset := false } := by
  unfold timedPortBuildEvents portFsmBuildEvents
  dsimp only
  split_ifs with supported
  · exact ⟨⟨rfl, rfl, rfl, fun _ => rfl⟩, rfl, rfl, rfl⟩
  · exact ⟨⟨rfl, rfl, rfl, fun supported' => absurd supported' supported⟩, rfl, rfl, rfl⟩

/-! ### The handlers -/

/-- What no handler changes. -/
structure TurnKept (h : Held) (state : PortState) (x y : TimedCtx) : Prop where
  rests : y.c.ps.fsm.state = some state
  sound : y.Sound h
  evtReset : y.c.ps.evtReset = x.c.ps.evtReset
  inputs : SameInputs x.c y.c

/-- A handler stays, or brings the machine closer to its rest. -/
structure PortTurn (h : Held) (evts : PortEvents) (state : PortState) (x y : TimedCtx) : Prop
    extends TurnKept h state x y where
  falls : ∃ s, y.c.ps.fsm.nextState = some s ∧ (s = state ∨ s ≠ .init ∧ (evts.reset = true ∨
    portRank (portTarget h x.c) s < portRank (portTarget h x.c) state))

section PortHandlers

variable {h : Held} {evts : PortEvents} {x y : TimedCtx} {state : PortState}

/-- Another machine may have run inside the turn. -/
theorem TurnKept.of_steady (entered : x.c.ps.fsm = ⟨some state, some state⟩) (sound : y.Sound h)
    (steady : Steady x.c y.c) : TurnKept h state x y where
  rests := steady.fsm ▸ congrArg Fsm.state entered
  sound := sound
  evtReset := steady.evtReset
  inputs := steady.inputs

/-- A turn that fires nothing leaves the port where it is. -/
theorem PortTurn.stay (entered : x.c.ps.fsm = ⟨some state, some state⟩) (sound : y.Sound h)
    (steady : Steady x.c y.c) : PortTurn h evts state x y :=
  ⟨.of_steady entered sound steady, state, steady.fsm ▸ congrArg Fsm.nextState entered, .inl rfl⟩

theorem TurnKept.fire (kept : TurnKept h state x y) (s : PortState) :
    TurnKept h state x { y with c := y.c.firePort s } where
  rests := kept.rests
  sound := kept.sound
  evtReset := kept.evtReset
  inputs := kept.inputs.trans ⟨rfl, rfl, rfl, rfl, rfl⟩

private theorem TurnKept.goesOn {s : PortState} (kept : TurnKept h state x y) (other : s ≠ .init)
    (lower : evts.reset = true ∨
      portRank (portTarget h x.c) s < portRank (portTarget h x.c) state) :
    PortTurn h evts state x { y with c := y.c.firePort s } :=
  ⟨kept.fire s, s, rfl, .inr ⟨other, lower⟩⟩

/-- Without a module, or powered down, every state but DISABLED leads there. -/
theorem portTarget_disabled {c : Ctx} (out : c.ps.sfpPresent = false ∨ c.ps.evtPowerDown = true)
    (other : state ≠ .disabled) :
    portRank (portTarget h c) .disabled < portRank (portTarget h c) state := by
  have target : portTarget h c = .disabled := by
    unfold portTarget
    rcases out with absent | down
    · rw [absent]
      rfl
    · rw [down, Bool.or_true]
      rfl
  rw [target]
  cases state with
  | disabled => exact absurd rfl other
  | init => decide
  | linkDown => decide
  | linkUp => decide

private theorem portTarget_up {c : Ctx} (present : c.ps.sfpPresent = true)
    (up : c.ps.evtPowerDown = false) :
    portTarget h c =
      if c.ps.evtLinkUp > 0 ∧ (c.ps.isSupported = true → h.lpdc = (true, true)) then .linkUp
      else .linkDown := by
  rw [portTarget, present, up]
  rfl

private theorem timedPort_disabled (isNewState : Bool) (read : evts.Read h x.c) (sound : x.Sound h)
    (entered : x.c.ps.fsm = ⟨some .disabled, some .disabled⟩) :
    ∃ y, x.handle [] (portFsmStateDisabled evts isNewState) = (0, y) ∧
      PortTurn h evts .disabled x y := by
  obtain ⟨c, started, steady⟩ : ∃ c, (if isNewState then resetPort (x.c.answered [])
      else x.c.answered []) = c ∧ Steady x.c c := by
    cases isNewState with
    | true => exact ⟨_, rfl, rfl, rfl, rfl, rfl, rfl, rfl, rfl⟩
    | false => exact ⟨_, rfl, rfl, rfl, rfl, rfl, rfl, rfl, rfl⟩
  have stays : PortTurn h evts .disabled x { x with c := c } := .stay entered sound steady
  unfold TimedCtx.handle portFsmStateDisabled
  dsimp only
  rw [started]
  split_ifs with ready
  · refine ⟨_, rfl, stays.goesOn (by decide) (.inr ?_)⟩
    rw [portTarget_up (read.sfpPresent ▸ ready.1) (by simpa [read.powerDown] using ready.2)]
    split_ifs <;> decide
  · exact ⟨_, rfl, stays⟩

/-- A run of the TX setup that returns. -/
theorem timedPort_init (isNewState : Bool) (sound : x.Sound h) (time : h.now + 20000000 < 2 ^ 64)
    (ends : txRetries h (if isNewState then halPortTxSetupFsmInit (initPort x.c) else x.c) = false)
    (entered : x.c.ps.fsm = ⟨some .init, some .init⟩) {fuel : Nat} (enough : 7 ≤ fuel) :
    ∃ y, timedStateInit h fuel isNewState x = .ok (0, y) ∧ PortTurn h evts .init x y := by
  -- the entry of INIT starts the TX machine afresh
  obtain ⟨c, started, steady, ends'⟩ : ∃ c, (if isNewState then
      { x with c := halPortTxSetupFsmInit (initPort x.c) } else x) = { x with c := c } ∧
      Steady x.c c ∧ txRetries h c = false := by
    cases isNewState with
    | true => exact ⟨_, rfl, ⟨rfl, rfl, rfl, rfl, rfl, rfl, rfl⟩, ends⟩
    | false => exact ⟨_, rfl, ⟨rfl, rfl, rfl, rfl, rfl, rfl, rfl⟩, ends⟩
  obtain ⟨ret, y, ran, sound', steady'⟩ : ∃ ret y, timedRun (timedTx h) fuel { x with c := c } =
      .ok (ret, y) ∧ y.Sound h ∧ Steady c y.c := by
    unfold timedRun
    split_ifs
    · exact timedTx_returns (x := { x with c := c }) sound time ends' enough
    · exact ⟨1, _, rfl, sound, .refl c⟩
  have stays : PortTurn h evts .init x y := .stay entered sound' (steady.trans steady')
  unfold timedStateInit
  dsimp only
  rw [started, ran]
  simp only [bind, Except.bind, pure, Except.pure]
  split_ifs
  · refine ⟨_, rfl, stays.goesOn (by decide) (.inr ?_)⟩
    unfold portTarget
    split_ifs <;> decide
  · exact ⟨_, rfl, stays⟩

/-- The timers of a receiver that starts over. -/
theorem timedRxInit_sound (sound : x.Sound h) (time : h.now + 20000000 < 2 ^ 64) :
    (timedRxInit h x).Sound h := by
  have init (milliseconds : Nat) (short : milliseconds ≤ 20000) :
      (libwrTmoInit h.now milliseconds false).Sound h.now := by
    have timeout : (libwrTmoInit h.now milliseconds false).timeout = milliseconds * 1000 := rfl
    refine ⟨?_, nofun⟩
    rw [timeout]
    omega
  have started : (if x.c.ps.isSupported then
      ((((x.tmoInit h .earlyup 10 false).tmoInit h .link 100 false).tmoInit
        h .align 1 false).tmoInit h .alignToLink 5000 false).tmoInit h .restart 100 false
      else x).Sound h := by
    split_ifs
    · exact ((((sound.setTmo .earlyup (init 10 (by decide))).setTmo .link
        (init 100 (by decide))).setTmo .align (init 1 (by decide))).setTmo .alignToLink
        (init 5000 (by decide))).setTmo .restart (init 100 (by decide))
    · exact sound
  exact started.setTmo .minCalibRx (init 20000 (by decide))

private theorem timedRxInit_ctx (h : Held) (x : TimedCtx) :
    (timedRxInit h x).c = halPortRxSetupFsmInit x.c := by
  unfold timedRxInit
  dsimp only
  split_ifs <;> rfl

private theorem timedPort_linkDown (isNewState : Bool) (read : evts.Read h x.c) (sound : x.Sound h)
    (time : h.now + 20000000 < 2 ^ 64) (inUse : x.c.ps.inUse = true)
    (entered : x.c.ps.fsm = ⟨some .linkDown, some .linkDown⟩) {fuel : Nat} (enough : 7 ≤ fuel) :
    ∃ y, timedStateLinkDown h fuel evts isNewState x = .ok (0, y) ∧
      PortTurn h evts .linkDown x y := by
  have leaves (out : x.c.ps.sfpPresent = false ∨ x.c.ps.evtPowerDown = true) :
      PortTurn h evts .linkDown x { x with c := x.c.firePort .disabled } :=
    (TurnKept.of_steady entered sound (.refl x.c)).goesOn (by decide)
      (.inr (portTarget_disabled out (by decide)))
  -- the entry of LINK_DOWN starts the RX machine afresh
  obtain ⟨x', started, sound', steady⟩ : ∃ x', (if isNewState then
      timedRxInit h { x with c := resetPort x.c } else x) = x' ∧ x'.Sound h ∧ Steady x.c x'.c := by
    cases isNewState with
    | true =>
      refine ⟨_, rfl, timedRxInit_sound (x := { x with c := resetPort x.c }) sound time, ?_⟩
      have reset : Steady x.c (halPortRxSetupFsmInit (resetPort x.c)) :=
        ⟨rfl, rfl, rfl, rfl, rfl, rfl, rfl⟩
      exact (timedRxInit_ctx h { x with c := resetPort x.c }).symm ▸ reset
    | false => exact ⟨_, rfl, sound, .refl x.c⟩
  obtain ⟨ret, y, ran, sound₂, steady₂, result⟩ := timedRx_returns sound' (by omega : 5 ≤ fuel)
  have stays : PortTurn h evts .linkDown x y := .stay entered sound₂ (steady.trans steady₂)
  have run : timedRun (timedRx h) fuel x' = .ok (ret, y) := by
    rw [timedRun, if_pos (steady.inUse.trans inUse), ran]
  unfold timedStateLinkDown
  dsimp only
  rw [started]
  simp only [bind, Except.bind, pure, Except.pure]
  -- the SFP may be gone or the port powered down before the link is asked for
  split_ifs with absent down
  · exact ⟨_, rfl, leaves (.inl (by simpa [read.sfpPresent] using absent))⟩
  · exact ⟨_, rfl, leaves (.inr (read.powerDown ▸ down))⟩
  · rw [run]
    dsimp only
    -- the link is up and calibrated: the bit slide is read
    split_ifs with up
    · cases h.pcs16 with
      | none => exact ⟨_, rfl, stays⟩
      | some bitSlideSteps =>
        have calibrated : PortTurn h evts .linkDown x
            { y with c := linkCalibrated bitSlideSteps y.c } :=
          .stay entered sound₂ ((steady.trans steady₂).trans ⟨rfl, rfl, rfl, rfl, rfl, rfl, rfl⟩)
        refine ⟨_, rfl, calibrated.goesOn (by decide) (.inr ?_)⟩
        have linked : x.c.ps.evtLinkUp > 0 := of_decide_eq_true (read.linkUp ▸ up.2)
        rw [portTarget_up (by simpa [read.sfpPresent] using absent)
          (by simpa [read.powerDown] using down),
          if_pos ⟨linked, fun supported => result up.1 (steady.isSupported.trans supported)⟩]
        decide
    · exact ⟨_, rfl, stays⟩

/-- The check of an LPDC port can only fire LINK_DOWN. -/
theorem lpdcCheck_kept (sound : x.Sound h) (entered : x.c.ps.fsm = ⟨some .linkUp, some .linkUp⟩) :
    TurnKept h .linkUp x { x with c := lpdcCheck evts x.c } := by
  have kept : TurnKept h .linkUp x x := .of_steady entered sound (.refl x.c)
  unfold lpdcCheck
  dsimp only
  split_ifs
  · exact (kept.fire .linkDown).fire .linkDown
  · exact kept.fire .linkDown
  · exact kept.fire .linkDown
  · exact kept

private theorem lpdcCheck_turn (read : evts.Read h x.c) (sound : x.Sound h)
    (entered : x.c.ps.fsm = ⟨some .linkUp, some .linkUp⟩)
    (present : x.c.ps.sfpPresent = true) (up : x.c.ps.evtPowerDown = false) :
    PortTurn h evts .linkUp x { x with c := lpdcCheck evts x.c } := by
  refine ⟨lpdcCheck_kept sound entered, ?_⟩
  -- a lost LPDC status leads to a state of lower rank
  have leaves (supported : x.c.ps.isSupported = true)
      (broken : ¬(evts.earlyLinkUp = true ∧ evts.rxAligned = true)) :
      portRank (portTarget h x.c) .linkDown < portRank (portTarget h x.c) .linkUp := by
    have lpdc := read.lpdc supported
    rw [portTarget_up present up, if_neg]
    · decide
    · intro linked
      rw [← lpdc, Prod.mk.injEq] at linked
      exact broken (linked.2 supported)
  unfold lpdcCheck
  dsimp only
  split_ifs with early aligned aligned
  · exact ⟨.linkDown, rfl,
      .inr ⟨by decide, .inr (leaves early.1 fun ok => by simp [ok.1] at early)⟩⟩
  · exact ⟨.linkDown, rfl,
      .inr ⟨by decide, .inr (leaves early.1 fun ok => by simp [ok.1] at early)⟩⟩
  · exact ⟨.linkDown, rfl,
      .inr ⟨by decide, .inr (leaves aligned.1 fun ok => by simp [ok.2] at aligned)⟩⟩
  · exact ⟨.linkUp, congrArg Fsm.nextState entered, .inl rfl⟩

/-- A run of the PLL machine after the turn's own work. -/
theorem PortTurn.steady {y' : TimedCtx} (turn : PortTurn h evts state x y) (sound : y'.Sound h)
    (steady : Steady y.c y'.c) : PortTurn h evts state x y' := by
  obtain ⟨s, next, falls⟩ := turn.falls
  exact ⟨⟨steady.fsm ▸ turn.rests, sound, steady.evtReset.trans turn.evtReset,
    turn.inputs.trans steady.inputs⟩, s, steady.fsm ▸ next, falls⟩

private theorem halPortPllFsmRun_returns (c : Ctx) {fuel : Nat} (enough : 3 ≤ fuel) :
    ∃ ret c', halPortPllFsmRun fuel c = .ok (ret, c') ∧ Steady c c' := by
  have frame := halPortPllFsmRun_frame fuel c
  obtain ⟨ret, c', ran⟩ : ∃ ret c', halPortPllFsmRun fuel c = .ok (ret, c') := by
    unfold halPortPllFsmRun
    split_ifs
    · exact portPllFsm_returns c enough
    · exact ⟨1, c, rfl⟩
  rw [ran] at frame
  exact ⟨ret, c', ran, PllFrame.steady frame⟩

private theorem timedPort_linkUp (isNewState : Bool) (read : evts.Read h x.c) (sound : x.Sound h)
    (entered : x.c.ps.fsm = ⟨some .linkUp, some .linkUp⟩) {fuel : Nat} (enough : 7 ≤ fuel) :
    ∃ y, timedStateLinkUp fuel evts isNewState x = .ok (0, y) ∧
      PortTurn h evts .linkUp x y := by
  have checked : TurnKept h .linkUp x { x with c := lpdcCheck evts x.c } :=
    lpdcCheck_kept sound entered
  have steady : Steady (lpdcCheck evts x.c)
      (if isNewState then halPortPllFsmInit (lpdcCheck evts x.c) else lpdcCheck evts x.c) := by
    cases isNewState with
    | true => exact ⟨rfl, rfl, rfl, rfl, rfl, rfl, rfl⟩
    | false => exact .refl _
  unfold timedStateLinkUp
  dsimp only
  -- the run of the PLL machine changes nothing that is looked at here
  generalize (if isNewState then halPortPllFsmInit (lpdcCheck evts x.c)
    else lpdcCheck evts x.c) = c at steady ⊢
  obtain ⟨ret, c', ran, steady'⟩ := halPortPllFsmRun_returns c (by omega : 3 ≤ fuel)
  split_ifs with absent down lost
  · exact ⟨_, rfl, checked.goesOn (by decide) (.inr (portTarget_disabled
      (.inl (by simpa [read.sfpPresent] using absent)) (by decide)))⟩
  · exact ⟨_, rfl, checked.goesOn (by decide) (.inr (portTarget_disabled
      (.inr (read.powerDown ▸ down)) (by decide)))⟩
  · refine ⟨_, rfl, checked.goesOn (by decide) ?_⟩
    -- the link is left for a reset or because it is down
    by_cases reset : evts.reset = true
    · exact .inl reset
    · have unlinked : ¬x.c.ps.evtLinkUp > 0 := by simpa [reset, read.linkUp] using lost
      rw [portTarget_up (by simpa [read.sfpPresent] using absent)
        (by simpa [read.powerDown] using down), if_neg fun linked => unlinked linked.1]
      exact .inr (by decide)
  · have turn := lpdcCheck_turn read sound entered (by simpa [read.sfpPresent] using absent)
      (by simpa [read.powerDown] using down)
    rw [ran]
    have ends : PortTurn h evts .linkUp x { x with c := c' } :=
      turn.steady sound (steady.trans steady')
    exact ⟨_, rfl, ends⟩

end PortHandlers

/-! ### Timers that are not sound -/

section Unsound

variable {h : Held}

/-- A timer that repeats without a period is never done. -/
theorem Tmo.catchUp_none {time left : Nat} {tmo : Tmo} (still : tmo.timeout = 0)
    (fits : tmo.startTics < 2 ^ 64) (late : tmo.startTics < time) :
    Tmo.catchUp time left tmo = none := by
  have stop : tmo.stop = tmo.startTics := by
    rw [Tmo.stop, still, Nat.add_zero, Nat.mod_eq_of_lt fits]
  induction left with
  | zero => rfl
  | succ left ih =>
    rw [Tmo.catchUp, if_pos (stop ▸ late), stop]
    exact ih

/-- A timer that repeats and is over answers so, if at all. -/
theorem TimedCtx.tmoExpired_late {x : TimedCtx} {name : TmoName}
    (repeats : (x.tmo name).repeats = true) (late : h.now > (x.tmo name).stop) :
    x.tmoExpired h name = .error x ∨
      ∃ x', x.tmoExpired h name = .ok (true, x') ∧ x'.c = x.c := by
  unfold TimedCtx.tmoExpired libwrTmoExpired
  rw [if_pos late, if_pos repeats]
  cases Tmo.catchUp h.now (2 ^ 64) (x.tmo name) with
  | none => exact .inl rfl
  | some tmo => exact .inr ⟨_, rfl, rfl⟩

/-- At the end of the clock the time of a measurement is over when it begins. -/
theorem timedTx_measurePhase_late {x : TimedCtx} (now : h.now < 2 ^ 64)
    (late : 2 ^ 64 ≤ h.now + 1000000)
    (entered : x.c.ps.txSetupFSM = ⟨some .measurePhase, some .measurePhase⟩)
    (silent : (h.channel x.txPll).pmeasReady = false) :
    Outcome (fun _ => True) (fun _ y => y.c.ps.txSetupFSM = ⟨some .measurePhase, some .resetPcs⟩)
      (timedTxHandler h .measurePhase true x) := by
  let pll := h.channel x.txPll
  let x' := { x with txPll := pll }.tmoInit h .calib txCalPhaseMeasTimeout true
  -- the end of the timeout wraps around, so that it counts as over at once
  have passed : h.now > (x'.tmo .calib).stop := by
    have stop : (x'.tmo .calib).stop = (h.now + 1000000) % 2 ^ 64 := rfl
    rw [stop]
    omega
  unfold timedTxHandler timedTxStateMeasurePhase
  dsimp only
  rw [if_pos rfl, if_neg (ne_true_of_eq_false silent)]
  rcases TimedCtx.tmoExpired_late (x := x') rfl passed with failed | ⟨x₂, answer, same⟩
  · rw [failed]
    trivial
  · obtain ⟨c', ran, rests, -, next⟩ :=
      portTxSetupFsmStateMeasurePhase_spec (x₂.c.answered [pll.reading, expiredReading true])
    have next' : c'.ps.txSetupFSM.nextState = some .resetPcs :=
      next.trans ((if_neg (ne_true_of_eq_false silent)).trans (if_pos rfl))
    have rests' : c'.ps.txSetupFSM.state = some .measurePhase :=
      rests.trans (congrArg Fsm.state (same ▸ entered))
    rw [answer]
    show Outcome _ _ (Except.ok (x₂.handle _ portTxSetupFsmStateMeasurePhase))
    rw [TimedCtx.handle, ran]
    exact congrArg₂ Fsm.mk rests' next'

/-- At the end of the clock a setup that measures nothing resets the PCS for ever. -/
theorem timedTx_never_late (now : h.now < 2 ^ 64) (late : 2 ^ 64 ≤ h.now + 1000000)
    (done : h.txRstDone = true) (silent : h.pll = none) {x : TimedCtx}
    (next : x.c.ps.txSetupFSM.nextState = some .resetPcs) (turns : Nat) :
    ∃ y, fsmGenericRun (timedTx h) turns x = .error y := by
  refine fsmGenericRun_never (timedTx h) (fun y => y.c.ps.txSetupFSM.nextState = some .resetPcs ∨
    y.c.ps.txSetupFSM.nextState = some .waitLock ∨
    y.c.ps.txSetupFSM.nextState = some .measurePhase ∧ y.txPll.pmeasReady = false ∧
      y.c.ps.txSetupFSM.hasPendingState = true) (fun _ => rfl) ?_ turns (.inl next)
  -- RESET_PCS, WAIT_LOCK and MEASURE_PHASE follow each other for ever
  rintro y (next | next | ⟨next, cleared, pending⟩)
  · obtain ⟨y', handled, turn, next', -⟩ := timedTx_resetPcs y.c.ps.txSetupFSM.hasPendingState
      (timedTx_entered (h := h) next)
    refine ⟨.resetPcs, next, ?_⟩
    rw [show (timedTx h).handled y .resetPcs = .ok (0, y') from handled]
    exact ⟨turn.pending next' (by decide), .inr (.inl next')⟩
  · obtain ⟨y', handled, turn, -, next', cleared⟩ :=
      timedTx_waitLock y.c.ps.txSetupFSM.hasPendingState (timedTx_entered (h := h) next)
    have measures : y'.c.ps.txSetupFSM.nextState = some .measurePhase := by
      rw [next', done, if_pos rfl]
    refine ⟨.waitLock, next, ?_⟩
    rw [show (timedTx h).handled y .waitLock = .ok (0, y') from handled]
    have pending := turn.pending measures (by decide)
    exact ⟨pending, .inr (.inr ⟨measures, cleared done, pending⟩)⟩
  · have still : (h.channel ((timedTx h).entered y).txPll).pmeasReady = false := by
      rw [Held.channel, silent]
      exact cleared
    have handled : (timedTx h).handled y .measurePhase =
        timedTxHandler h .measurePhase true ((timedTx h).entered y) :=
      congrArg (fun new => timedTxHandler h .measurePhase new _) pending
    refine ⟨.measurePhase, next, ?_⟩
    rw [handled]
    refine (timedTx_measurePhase_late now late (timedTx_entered next) still).imp (fun _ => id) ?_
    intro _ y' fired
    refine ⟨(Fsm.hasPendingState_iff _).mpr ?_, .inl (congrArg Fsm.nextState fired)⟩
    show y'.c.ps.txSetupFSM.state ≠ y'.c.ps.txSetupFSM.nextState
    rw [fired]
    decide

private theorem timedTx_measurePhase_still {x : TimedCtx}
    (silent : (h.channel x.txPll).pmeasReady = false) (timer : x.tmo .calib = ⟨true, 0, 0⟩)
    (late : 0 < h.now) : ∃ y, timedTxStateMeasurePhase h false x = .error y := by
  have expired : libwrTmoExpired h.now ⟨true, 0, 0⟩ = none := by
    unfold libwrTmoExpired
    rw [if_pos (show h.now > Tmo.stop ⟨true, 0, 0⟩ from late), if_pos rfl,
      Tmo.catchUp_none rfl (by decide) late, Option.map_none]
  rw [← timer] at expired
  unfold timedTxStateMeasurePhase TimedCtx.tmoExpired
  dsimp only
  rw [if_neg Bool.false_ne_true, if_neg (ne_true_of_eq_false silent), expired]
  exact ⟨_, rfl⟩

/-- A timer that repeats without a period does not return. -/
theorem timedTx_never_still {x : TimedCtx} (silent : (h.channel x.txPll).pmeasReady = false)
    (timer : x.tmo .calib = ⟨true, 0, 0⟩) (late : 0 < h.now)
    (next : x.c.ps.txSetupFSM = ⟨some .measurePhase, some .measurePhase⟩) (turns : Nat) :
    ∃ y, fsmGenericRun (timedTx h) turns x = .error y := by
  have old : x.c.ps.txSetupFSM.hasPendingState = false := by
    rw [next]
    rfl
  obtain ⟨y, failed⟩ := timedTx_measurePhase_still (x := (timedTx h).entered x) silent timer late
  have handled : (timedTx h).handled x .measurePhase = .error y :=
    (congrArg (fun new => timedTxStateMeasurePhase h new _) old).trans failed
  refine fsmGenericRun_never (timedTx h) (· = x) (fun _ => rfl) ?_ turns rfl
  intro x' same
  refine ⟨.measurePhase, same ▸ congrArg Fsm.nextState next, ?_⟩
  rw [same, handled]
  trivial

end Unsound

/-! ### Runs -/

section PortRuns

variable {h : Held}

private theorem timedPort_events (h : Held) (fuel : Nat) (x : TimedCtx) :
    (timedPort h fuel).fsm ((timedPort h fuel).buildEvents x).2 = (timedPort h fuel).fsm x := by
  show (timedPortBuildEvents h x).2.c.ps.fsm = x.c.ps.fsm
  rw [(timedPortBuildEvents_spec h x).2.2.2]

/-- The state that is entered, with the reset consumed. -/
theorem timedPort_entered (h : Held) (fuel : Nat) (x : TimedCtx) :
    ((timedPort h fuel).entered x).c.ps =
      { x.c.ps with evtReset := false, fsm := x.c.ps.fsm.consumeState } ∧
      ((timedPort h fuel).entered x).tmo = x.tmo := by
  obtain ⟨-, -, timers, ps⟩ := timedPortBuildEvents_spec h x
  exact ⟨congrArg (fun ps => { ps with fsm := x.c.ps.fsm.consumeState }) ps, timers⟩

def portTurnsLeft (h : Held) (x : TimedCtx) : Nat :=
  x.c.ps.fsm.nextState.elim 0 fun state =>
    if x.c.ps.evtReset then 4 else portRank (portTarget h x.c) state

private theorem portRank_le (target state : PortState) : portRank target state ≤ 3 := by
  cases target <;> cases state <;> decide

private theorem portTurnsLeft_lt (h : Held) (x : TimedCtx) : portTurnsLeft h x < 5 := by
  unfold portTurnsLeft
  cases x.c.ps.fsm.nextState with
  | none => exact Nat.succ_pos 4
  | some state =>
    show (if x.c.ps.evtReset then 4 else portRank (portTarget h x.c) state) < 5
    split_ifs
    · decide
    · exact Nat.lt_of_le_of_lt (portRank_le _ state) (by decide)

/-- Entering INIT leaves the TX setup as it is. -/
theorem portRetries_entered (h : Held) (fuel : Nat) {x : TimedCtx}
    (next : x.c.ps.fsm.nextState = some .init) :
    portRetries h x.c = txRetries h (if x.c.ps.fsm.hasPendingState
      then halPortTxSetupFsmInit (initPort ((timedPort h fuel).entered x).c)
      else ((timedPort h fuel).entered x).c) := by
  obtain ⟨ps, -⟩ := timedPort_entered h fuel x
  -- only a port that is about to enter INIT starts the TX machine
  have init : portRetries h x.c = txRetries h (if x.c.ps.fsm.hasPendingState
      then halPortTxSetupFsmInit (initPort x.c) else x.c) := by
    rw [portRetries, next]
    exact Bool.true_and _
  rw [init]
  have fsm := congrArg Port.txSetupFSM ps
  have supported := congrArg Port.isSupported ps
  have txSetup := congrArg Port.txSetup ps
  split_ifs
  · have same : txRetries h (halPortTxSetupFsmInit (initPort ((timedPort h fuel).entered x).c)) =
        txRetries h (halPortTxSetupFsmInit (initPort x.c)) :=
      txRetries_congr h rfl supported txSetup
    exact same.symm
  · exact (txRetries_congr h fsm supported txSetup).symm

private theorem timedPort_turn {x : TimedCtx} {state : PortState} (sound : x.Sound h)
    (time : h.now + 20000000 < 2 ^ 64) (inUse : x.c.ps.inUse = true)
    (ends : portRetries h x.c = false) (next : x.c.ps.fsm.nextState = some state) {fuel : Nat}
    (enough : 7 ≤ fuel) :
    ∃ y, (timedPort h fuel).handled x state = .ok (0, y) ∧
      PortTurn h (timedPortBuildEvents h x).1 state ((timedPort h fuel).entered x) y := by
  obtain ⟨ps, timers⟩ := timedPort_entered h fuel x
  obtain ⟨read, -⟩ := timedPortBuildEvents_spec h x
  have entered : ((timedPort h fuel).entered x).c.ps.fsm = ⟨some state, some state⟩ := by
    rw [ps]
    exact congrArg₂ Fsm.mk next next
  -- the entry of a state changes nothing that the events are read from
  have read' : (timedPortBuildEvents h x).1.Read h ((timedPort h fuel).entered x).c := by
    constructor
    all_goals rw [ps]
    · exact read.sfpPresent
    · exact read.linkUp
    · exact read.powerDown
    · exact read.lpdc
  have sound' : ((timedPort h fuel).entered x).Sound h := by
    intro name
    rw [timers]
    exact sound name
  have inUse' : ((timedPort h fuel).entered x).c.ps.inUse = true := by
    rw [ps]
    exact inUse
  cases state with
  | init =>
    exact timedPort_init _ sound' time ((portRetries_entered h fuel next).symm.trans ends) entered
      enough
  | disabled =>
    obtain ⟨y, handled, turn⟩ := timedPort_disabled x.c.ps.fsm.hasPendingState read' sound' entered
    exact ⟨y, congrArg Except.ok handled, turn⟩
  | linkDown => exact timedPort_linkDown _ read' sound' time inUse' entered enough
  | linkUp => exact timedPort_linkUp _ read' sound' entered enough

private theorem portTurnsLeft_eq {x : TimedCtx} {state : PortState}
    (next : x.c.ps.fsm.nextState = some state) : portTurnsLeft h x =
      if x.c.ps.evtReset then 4 else portRank (portTarget h x.c) state := by
  rw [portTurnsLeft, next]
  rfl

/-- The turn consumes a reset, and INIT is never fired. -/
theorem PortTurn.turnsLeft {state : PortState} {x y : TimedCtx} {fuel : Nat}
    (turn : PortTurn h (timedPortBuildEvents h x).1 state ((timedPort h fuel).entered x) y)
    (next : x.c.ps.fsm.nextState = some state) (pending : y.c.ps.fsm.hasPendingState = true) :
    portRetries h y.c = false ∧ portTurnsLeft h y < portTurnsLeft h x := by
  obtain ⟨ps, -⟩ := timedPort_entered h fuel x
  obtain ⟨s, next', falls⟩ := turn.falls
  rcases falls with rfl | ⟨other, lower⟩
  -- a state that fires itself leaves nothing pending
  · rw [Fsm.hasPendingState_iff] at pending
    exact absurd (turn.rests.trans next'.symm) pending
  have consumed : y.c.ps.evtReset = false := turn.evtReset.trans (congrArg Port.evtReset ps)
  have inputs : SameInputs x.c ((timedPort h fuel).entered x).c := by
    constructor <;> rw [ps]
  refine ⟨?_, ?_⟩
  · have idle : (y.c.ps.fsm.nextState == some .init) = false := by
      rw [next']
      exact beq_eq_false_iff_ne.mpr fun same => other (Option.some.inj same)
    rw [portRetries, idle, Bool.false_and]
  · rw [portTurnsLeft_eq next, portTurnsLeft_eq next', consumed, if_neg Bool.false_ne_true,
      turn.inputs.target, inputs.target]
    rw [(timedPortBuildEvents_spec h x).2.1, inputs.target] at lower
    -- a reset that was taken does not come again
    split_ifs with reset
    · exact Nat.lt_succ_of_le (portRank_le _ s)
    · exact lower.resolve_left reset

/-- A run of a port in use, whose TX setup does not retry, returns within five turns. -/
theorem timedPort_returns {x : TimedCtx} (sound : x.Sound h) (time : h.now + 20000000 < 2 ^ 64)
    (inUse : x.c.ps.inUse = true) (ends : portRetries h x.c = false) {fuel : Nat}
    (enough : 7 ≤ fuel) : ∃ ret y, fsmGenericRun (timedPort h fuel) fuel x = .ok (ret, y) := by
  obtain ⟨ret, y, ran, -⟩ : ∃ ret y, fsmGenericRun (timedPort h fuel) fuel x = .ok (ret, y) ∧
      True := by
    refine fsmGenericRun_returns (timedPort h fuel)
      (fun y => y.Sound h ∧ y.c.ps.inUse = true ∧ portRetries h y.c = false) (portTurnsLeft h)
      (timedPort_events h fuel) (fun _ _ _ => trivial) ?_ ⟨sound, inUse, ends⟩
      (Nat.lt_of_lt_of_le (portTurnsLeft_lt h x) (by omega))
    rintro y state ⟨sound, inUse, ends⟩ next
    obtain ⟨y', handled, turn⟩ := timedPort_turn sound time inUse ends next enough
    refine ⟨0, y', handled, ?_⟩
    split_ifs with pending
    · obtain ⟨ends', fewer⟩ := turn.turnsLeft next pending
      have inUse' : y'.c.ps.inUse = true := by
        rw [turn.inputs.inUse, (timedPort_entered h fuel y).1]
        exact inUse
      exact ⟨⟨turn.sound, inUse', ends'⟩, fewer⟩
  exact ⟨ret, y, ran⟩

private theorem timedStateInit_never {x : TimedCtx} (isNewState : Bool)
    (inUse : x.c.ps.inUse = true) (retries : txRetries h
      (if isNewState then halPortTxSetupFsmInit (initPort x.c) else x.c) = true)
    (fuel : Nat) : ∃ y, timedStateInit h fuel isNewState x = .error y := by
  obtain ⟨c, started, inUse', retries'⟩ : ∃ c, (if isNewState then
      { x with c := halPortTxSetupFsmInit (initPort x.c) } else x) = { x with c := c } ∧
      c.ps.inUse = true ∧ txRetries h c = true := by
    cases isNewState with
    | true => exact ⟨_, rfl, inUse, retries⟩
    | false => exact ⟨_, rfl, inUse, retries⟩
  obtain ⟨y, ran⟩ := timedTx_never (x := { x with c := c }) retries' fuel
  have run : timedRun (timedTx h) fuel { x with c := c } = .error y := by
    rw [timedRun, if_pos inUse', ran]
  unfold timedStateInit
  dsimp only
  rw [started, run]
  exact ⟨y, rfl⟩

/-- INIT does not come back from a TX setup that retries. -/
theorem timedPort_never {x : TimedCtx} (inUse : x.c.ps.inUse = true)
    (retries : portRetries h x.c = true) (fuel turns : Nat) :
    ∃ y, fsmGenericRun (timedPort h fuel) turns x = .error y := by
  have next : x.c.ps.fsm.nextState = some .init := by
    rw [portRetries, Bool.and_eq_true] at retries
    exact eq_of_beq retries.1
  rw [portRetries_entered h fuel next] at retries
  have inUse' : ((timedPort h fuel).entered x).c.ps.inUse = true := by
    rw [(timedPort_entered h fuel x).1]
    exact inUse
  obtain ⟨y, handled⟩ : ∃ y, (timedPort h fuel).handled x .init = .error y :=
    timedStateInit_never _ inUse' retries fuel
  refine fsmGenericRun_never (timedPort h fuel) (· = x) (timedPort_events h fuel) ?_ turns rfl
  intro x' same
  refine ⟨.init, same ▸ next, ?_⟩
  rw [same, handled]
  trivial

/-- Within seven turns a run returns, but for a TX setup that retries. The machine of a port runs
only while the port is in use. -/
theorem heldRuns_return {x : TimedCtx} (sound : x.Sound h) (time : h.now + 20000000 < 2 ^ 64)
    {fuel : Nat} (enough : 7 ≤ fuel) :
    (if txRetries h x.c then ∀ turns, ∃ y, fsmGenericRun (timedTx h) turns x = .error y
      else ∃ result, fsmGenericRun (timedTx h) fuel x = .ok result) ∧
    (∃ result, fsmGenericRun (timedRx h) fuel x = .ok result) ∧
    (∃ result, fsmGenericRun portPllFsm fuel x.c = .ok result) ∧
    (x.c.ps.inUse = true →
      if portRetries h x.c then
        ∀ fuel turns, ∃ y, fsmGenericRun (timedPort h fuel) turns x = .error y
      else ∃ result, fsmGenericRun (timedPort h fuel) fuel x = .ok result) := by
  -- the machines of the TX setup, the RX setup, the PLL and the port
  refine ⟨?_, ?_, ?_, fun inUse => ?_⟩
  · split_ifs with retries
    · exact timedTx_never retries
    · obtain ⟨ret, y, ran, -⟩ :=
        timedTx_returns sound time (Bool.eq_false_of_not_eq_true retries) enough
      exact ⟨(ret, y), ran⟩
  · obtain ⟨ret, y, ran, -⟩ := timedRx_returns sound (by omega : 5 ≤ fuel)
    exact ⟨(ret, y), ran⟩
  · obtain ⟨ret, c, ran⟩ := portPllFsm_returns x.c (by omega : 3 ≤ fuel)
    exact ⟨(ret, c), ran⟩
  · split_ifs with retries
    · exact timedPort_never inUse retries
    · obtain ⟨ret, y, ran⟩ :=
        timedPort_returns sound time inUse (Bool.eq_false_of_not_eq_true retries) enough
      exact ⟨(ret, y), ran⟩

/-- The start of an LPDC port that was never calibrated: a phase of 5000 ps is outside of the
window of the first calibration. -/
def freshPort : TimedCtx where
  c := ⟨(⟨true, 0, true, none, none, none⟩ : PortConfig).port, ⟨1, 1, 0⟩, none,
    fun _ => ⟨none, false, false, 0, none⟩, 0, false⟩
  tmo _ := ⟨false, 0, 0⟩
  txPll := ⟨false, 0⟩
  rxPll := ⟨false, 0⟩

def phaseHeld (phase : Int) : Held :=
  ⟨1000, some lpdcMdioStatTxRstDone, none, some (⟨0, 0, rtsModeBc, 0⟩, ⟨true, phase⟩)⟩

/-- A fresh port comes to rest, and with a phase out of range it never does. -/
theorem heldRuns_return_fresh :
    (∃ result, fsmGenericRun (timedPort (phaseHeld 800) 7) 7 freshPort = .ok result) ∧
      ∀ fuel turns, ∃ y, fsmGenericRun (timedPort (phaseHeld 5000) fuel) turns freshPort =
        .error y := by
  have sound (phase : Int) : freshPort.Sound (phaseHeld phase) :=
    fun _ => ⟨(by decide : 1000 + 0 < 2 ^ 64), nofun⟩
  refine ⟨?_, ?_⟩
  · have runs := (heldRuns_return (sound 800) (by decide) (Nat.le_refl 7)).2.2.2 rfl
    rwa [if_neg (by decide)] at runs
  · have runs := (heldRuns_return (sound 5000) (by decide) (Nat.le_refl 7)).2.2.2 rfl
    rwa [if_pos (by decide)] at runs

/-- A phase that stays outside the window, a timer that repeats without a period, and a clock
that is about to start over. -/
theorem heldRuns_not_returning :
    (∀ turns, ∃ y, fsmGenericRun (timedTx (phaseHeld 5000)) turns
      { freshPort with c.ps.txSetupFSM := Fsm.initState.fireState .start } = .error y) ∧
    (∀ turns, ∃ y, fsmGenericRun (timedTx ⟨1, none, none, none⟩) turns
      { freshPort with
        c.ps.txSetupFSM := ⟨some .measurePhase, some .measurePhase⟩
        tmo := fun _ => ⟨true, 0, 0⟩ } = .error y) ∧
    ∀ turns, ∃ y, fsmGenericRun
      (timedTx ⟨2 ^ 64 - 1, some lpdcMdioStatTxRstDone, none, none⟩) turns
      { freshPort with c.ps.txSetupFSM := Fsm.initState.fireState .resetPcs } = .error y :=
  ⟨timedTx_never (by decide), timedTx_never_still rfl rfl (by decide) rfl,
    timedTx_never_late (by decide) (by decide) (by decide) rfl rfl⟩

end PortRuns

end WrSwitch.Hal
