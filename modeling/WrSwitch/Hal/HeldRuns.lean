import WrSwitch.Hal.Timers

/-!
# Runs that return

What they read stands still. The timers answer, and every run of the RX setup machine and of the
PLL machine returns.
-/
namespace WrSwitch.Hal

/-! ### Timers -/

/-- The timer does not run into the end of the `uint64_t`, and one that repeats has a period. -/
structure Tmo.Sound (time : Nat) (tmo : Tmo) : Prop where
  fits : time + tmo.timeout < 2 ^ 64
  period : tmo.repeats = true → 0 < tmo.timeout

private theorem Tmo.stop_fresh {time : Nat} {tmo : Tmo} (sound : tmo.Sound time)
    (fresh : tmo.startTics = time) : ¬time > tmo.stop := by
  rw [Tmo.stop, fresh, Nat.mod_eq_of_lt sound.fits]
  omega

/-- Every turn of the loop brings the start closer to now. -/
theorem Tmo.catchUp_some {time left : Nat} (tmo : Tmo) (fits : time + tmo.timeout < 2 ^ 64)
    (period : 0 < tmo.timeout) (behind : tmo.startTics < time)
    (enough : time - tmo.startTics ≤ left) :
    ∃ tmo', Tmo.catchUp time left tmo = some tmo' ∧ tmo'.timeout = tmo.timeout ∧
      tmo'.repeats = tmo.repeats := by
  induction left generalizing tmo with
  | zero => omega
  | succ left ih =>
    have stop : tmo.stop = tmo.startTics + tmo.timeout := Nat.mod_eq_of_lt (by omega)
    rw [Tmo.catchUp]
    split_ifs with late
    · have closer : time - ({ tmo with startTics := tmo.stop } : Tmo).startTics ≤ left := by
        dsimp only
        omega
      exact ih { tmo with startTics := tmo.stop } fits period late closer
    · exact ⟨tmo, rfl, rfl, rfl⟩

private theorem libwrTmoExpired_ok {time : Nat} {tmo : Tmo} (sound : tmo.Sound time) :
    ∃ tmo', libwrTmoExpired time tmo = some (decide (time > tmo.stop), tmo') ∧
      tmo'.Sound time := by
  rw [libwrTmoExpired]
  split_ifs with late repeats
  · obtain ⟨left, turns⟩ : ∃ left, 2 ^ 64 = left + 1 := ⟨2 ^ 64 - 1, by omega⟩
    have fits := sound.fits
    have enough : time - ({ tmo with startTics := tmo.stop } : Tmo).startTics ≤ left := by omega
    obtain ⟨tmo', ends, timeout, repeats'⟩ :=
      Tmo.catchUp_some { tmo with startTics := tmo.stop } fits (sound.period repeats) late enough
    refine ⟨tmo', ?_, ⟨?_, fun _ => ?_⟩⟩
    · rw [turns, Tmo.catchUp, if_pos late, ends, decide_eq_true late]
      rfl
    · rw [timeout]
      exact fits
    · rw [timeout]
      exact sound.period repeats
  · exact ⟨tmo, by rw [decide_eq_true late], sound⟩
  · exact ⟨tmo, by rw [decide_eq_false late], sound⟩

def TimedCtx.Sound (h : Held) (x : TimedCtx) : Prop := ∀ name, (x.tmo name).Sound h.now

/-- A timer that has not run past the clock may be put in place. -/
theorem TimedCtx.Sound.setTmo {h : Held} {x : TimedCtx} (sound : x.Sound h) (name : TmoName)
    {tmo : Tmo} (own : tmo.Sound h.now) : (x.setTmo name tmo).Sound h := by
  intro other
  rw [TimedCtx.setTmo]
  dsimp only
  rw [Function.update_apply]
  split_ifs
  · exact own
  · exact sound other

/-- Restarting a timer does not run past the clock. -/
theorem TimedCtx.Sound.restart {h : Held} {x : TimedCtx} (sound : x.Sound h) (name : TmoName) :
    (x.tmoRestart h name).Sound h :=
  sound.setTmo name ⟨(sound name).fits, (sound name).period⟩

/-- The answer of a timer; only timers change. -/
theorem TimedCtx.tmoExpired_ok {h : Held} {x : TimedCtx} (sound : x.Sound h) (name : TmoName) :
    ∃ expired x', x.tmoExpired h name = .ok (expired, x') ∧ x'.Sound h ∧
      (x' = { x with tmo := x'.tmo }) ∧ ((x.tmo name).startTics = h.now → expired = false) := by
  obtain ⟨tmo', answer, own⟩ := libwrTmoExpired_ok (sound name)
  refine ⟨_, x.setTmo name tmo', by rw [TimedCtx.tmoExpired, answer], sound.setTmo name own, rfl,
    fun fresh => decide_eq_false (Tmo.stop_fresh (sound name) fresh)⟩

/-! ### What a run keeps -/

/-- What the machine of the port looks at. -/
structure Steady (c c' : Ctx) : Prop where
  fsm : c'.ps.fsm = c.ps.fsm
  inUse : c'.ps.inUse = c.ps.inUse
  sfpPresent : c'.ps.sfpPresent = c.ps.sfpPresent
  evtReset : c'.ps.evtReset = c.ps.evtReset
  evtLinkUp : c'.ps.evtLinkUp = c.ps.evtLinkUp
  evtPowerDown : c'.ps.evtPowerDown = c.ps.evtPowerDown
  isSupported : c'.ps.isSupported = c.ps.isSupported

theorem Steady.refl (c : Ctx) : Steady c c := ⟨rfl, rfl, rfl, rfl, rfl, rfl, rfl⟩

theorem Steady.trans {c c' c'' : Ctx} (first : Steady c c') (second : Steady c' c'') :
    Steady c c'' where
  fsm := second.fsm.trans first.fsm
  inUse := second.inUse.trans first.inUse
  sfpPresent := second.sfpPresent.trans first.sfpPresent
  evtReset := second.evtReset.trans first.evtReset
  evtLinkUp := second.evtLinkUp.trans first.evtLinkUp
  evtPowerDown := second.evtPowerDown.trans first.evtPowerDown
  isSupported := second.isSupported.trans first.isSupported

theorem Steady.of_answered {c c' : Ctx} {answers : List Reading}
    (steady : Steady (c.answered answers) c') : Steady c c' :=
  ⟨steady.fsm, steady.inUse, steady.sfpPresent, steady.evtReset, steady.evtLinkUp,
    steady.evtPowerDown, steady.isSupported⟩

theorem TxFrame.steady {c c' : Ctx} (frame : TxFrame c c') : Steady c c' := by
  constructor <;> rw [frame.ps]

theorem RxFrame.steady {c c' : Ctx} (frame : RxFrame c c') : Steady c c' := by
  constructor <;> rw [frame.ps]

theorem PllFrame.steady {c c' : Ctx} (frame : PllFrame c c') : Steady c c' := by
  constructor <;> rw [frame.ps]

/-! ### The RX setup machine -/

/-- How many states may follow one that was just entered. -/
def rxRank (isSupported : Bool) : RxSetupState → Nat
  | .waitLock | .restart => 0
  | .resetPcs => 1
  | .start => if isSupported then 0 else 1
  | .init => if isSupported then 1 else 2
  | .done => if isSupported then 2 else 0
  | .validate => 3

/-- A handler stays, or goes on; from a new state it goes down in the ranks. -/
structure RxMove (evts : RxEvents) (isNewState : Bool) (state : RxSetupState) (r : Int × Ctx) :
    Prop where
  rests : r.2.ps.rxSetupFSM.state = some state
  falls : ∃ s, r.2.ps.rxSetupFSM.nextState = some s ∧ (s = state ∨ (isNewState = true →
    rxRank r.2.ps.isSupported s < rxRank r.2.ps.isSupported state))
  result : r.1 = 1 → r.2.ps.isSupported = true → evts.earlyLinkUp = true ∧ evts.rxAligned = true

/-- A turn of the RX machine that fires nothing. -/
theorem RxMove.stay {evts : RxEvents} {isNewState : Bool} {state : RxSetupState} {c : Ctx}
    (entered : c.ps.rxSetupFSM = ⟨some state, some state⟩) : RxMove evts isNewState state (0, c) :=
  ⟨congrArg Fsm.state entered, ⟨state, congrArg Fsm.nextState entered, .inl rfl⟩, nofun⟩

/-- A turn of the RX machine to a state of lower rank. -/
theorem RxMove.fire {evts : RxEvents} {isNewState : Bool} {state s : RxSetupState} {c : Ctx}
    (entered : c.ps.rxSetupFSM = ⟨some state, some state⟩)
    (falls : isNewState = true → rxRank c.ps.isSupported s < rxRank c.ps.isSupported state) :
    RxMove evts isNewState state (0, c.fireRx s) :=
  ⟨congrArg Fsm.state entered, ⟨s, rfl, .inr falls⟩, nofun⟩

section RxHandlers

variable {evts : RxEvents} {isNewState : Bool} {c : Ctx}

private theorem rxMove_init (entered : c.ps.rxSetupFSM = ⟨some .init, some .init⟩) :
    RxMove evts isNewState .init (halPortRxSetupStateInit c) := by
  refine .fire entered fun _ => ?_
  cases c.ps.isSupported <;> decide

private theorem rxMove_start (entered : c.ps.rxSetupFSM = ⟨some .start, some .start⟩)
    (fresh : isNewState = true → c.ps.txSetupFSM.state = some .done → c.ps.isSupported = true →
      c.reading.expired = false) :
    RxMove evts isNewState .start (halPortRxSetupStateStart evts c) := by
  unfold halPortRxSetupStateStart
  split_ifs with early supported waiting up
  · exact .stay entered
  · exact .stay entered
  · -- only with a timer that was running before
    refine RxMove.fire (c := { c.take with ps.rxAttempts := 0 }) entered fun new => ?_
    exact absurd (fresh new (not_not.mp early) supported) waiting
  · exact .stay entered
  · refine .fire entered fun _ => ?_
    rw [Bool.not_eq_true] at supported
    rw [supported]
    decide

private theorem rxMove_resetPcs (entered : c.ps.rxSetupFSM = ⟨some .resetPcs, some .resetPcs⟩)
    (fresh : isNewState = true → evts.earlyLinkUp = false → c.reading.expired = false) :
    RxMove evts isNewState .resetPcs (halPortRxSetupStateResetPcs evts c) := by
  unfold halPortRxSetupStateResetPcs
  split_ifs with up lost
  · refine RxMove.fire (c := { c with ps.rxAttempts := c.ps.rxAttempts + 1 }) entered fun _ => ?_
    cases c.ps.isSupported <;> decide
  · refine RxMove.fire (c := c.take) entered fun new => ?_
    exact absurd lost (by rw [fresh new (by simpa using up)]; exact Bool.false_ne_true)
  · exact .stay entered

private theorem rxMove_waitLock (entered : c.ps.rxSetupFSM = ⟨some .waitLock, some .waitLock⟩)
    (fresh : isNewState = true → c.reading.expired = false) :
    RxMove evts isNewState .waitLock (halPortRxSetupStateWaitLock evts c) := by
  have old (expired : c.reading.expired ≠ false) (s : RxSetupState) : isNewState = true →
      rxRank c.ps.isSupported s < rxRank c.ps.isSupported .waitLock := fun new =>
    absurd (fresh new) expired
  unfold halPortRxSetupStateWaitLock
  dsimp only
  split_ifs with up waiting aligned waited lost
  · exact .stay entered
  · exact RxMove.fire (c := c.take) entered (old waiting _)
  · exact RxMove.fire (c := c.take.take) entered (old waiting _)
  · exact RxMove.fire (c := c.take.take) entered (old waiting _)
  · exact RxMove.fire (c := c.take) entered (old (by simp [lost]) _)
  · exact .stay entered

private theorem rxMove_validate (entered : c.ps.rxSetupFSM = ⟨some .validate, some .validate⟩) :
    RxMove evts isNewState .validate (halPortRxSetupStateValidate evts c) := by
  have falls (s : RxSetupState) (target : s = .done ∨ s = .init) : isNewState = true →
      rxRank c.ps.isSupported s < rxRank c.ps.isSupported .validate := by
    rintro -
    cases c.ps.isSupported <;> rcases target with rfl | rfl <;> decide
  unfold halPortRxSetupStateValidate
  dsimp only
  split_ifs
  · exact RxMove.fire (c := c.take) entered (falls _ (.inl rfl))
  · exact RxMove.fire (c := c.take) entered (falls _ (.inr rfl))
  · exact RxMove.fire (c := c.take.take) entered (falls _ (.inr rfl))
  · exact .stay entered

private theorem rxMove_restart (entered : c.ps.rxSetupFSM = ⟨some .restart, some .restart⟩) :
    RxMove evts isNewState .restart (halPortRxSetupStateRestart isNewState c) := by
  unfold halPortRxSetupStateRestart
  split_ifs with new
  · exact .stay entered
  · exact RxMove.fire (c := c.take) entered fun new' => absurd new' new
  · exact .stay entered

private theorem rxMove_doneResult (entered : c.ps.rxSetupFSM = ⟨some .done, some .done⟩)
    (up : c.ps.isSupported = true → evts.earlyLinkUp = true ∧ evts.rxAligned = true) :
    RxMove evts isNewState .done (rxDoneResult evts c) := by
  have ends (ret : Int) (c' : Ctx) (same : c'.ps = c.ps) :
      RxMove evts isNewState .done (ret, c') := by
    refine ⟨?_, ⟨.done, ?_, .inl rfl⟩, fun _ supported => up (same ▸ supported)⟩
    · rw [same, entered]
    · rw [same, entered]
  unfold rxDoneResult
  split_ifs
  all_goals exact ends _ _ rfl

private theorem rxMove_done (entered : c.ps.rxSetupFSM = ⟨some .done, some .done⟩) :
    RxMove evts isNewState .done (halPortRxSetupStateDone evts c) := by
  unfold halPortRxSetupStateDone
  split_ifs with supported down unaligned late
  · refine .fire entered fun _ => ?_
    rw [supported]
    decide
  · refine .fire entered fun _ => ?_
    rw [supported]
    decide
  · exact .stay entered
  · refine rxMove_doneResult (c := c.take) entered fun _ => ?_
    simpa using And.intro down unaligned
  · exact rxMove_doneResult entered fun supported' => absurd supported' supported

end RxHandlers

structure RxTurn (h : Held) (evts : RxEvents) (isNewState : Bool) (state : RxSetupState)
    (x : TimedCtx) (r : Int × TimedCtx) : Prop where
  move : RxMove evts isNewState state (r.1, r.2.c)
  sound : r.2.Sound h
  steady : Steady x.c r.2.c

section RxTurns

variable {h : Held} {evts : RxEvents} {isNewState : Bool} {x x' : TimedCtx}

/-- A handler with the answers it gets, once the timers were asked. -/
theorem RxTurn.handle {state : RxSetupState} {f : Ctx → Int × Ctx} (answers : List Reading)
    (sound : x'.Sound h) (same : x'.c = x.c)
    (move : RxMove evts isNewState state (f (x'.c.answered answers)))
    (frame : RxFrame (x'.c.answered answers) (f (x'.c.answered answers)).2) :
    RxTurn h evts isNewState state x (x'.handle answers f) :=
  ⟨move, sound, same ▸ frame.steady.of_answered⟩

/-- The same when the last answer is that of a timer. -/
theorem RxTurn.ask {state : RxSetupState} {f : Ctx → Int × Ctx} (name : TmoName)
    (answers : Bool → List Reading) (sound : x'.Sound h) (same : x'.c = x.c)
    (move : ∀ expired, ((x'.tmo name).startTics = h.now → expired = false) →
      RxMove evts isNewState state (f (x.c.answered (answers expired))))
    (frame : ∀ c, RxFrame c (f c).2) :
    ∃ r, (do
        let (expired, x) ← x'.tmoExpired h name
        return x.handle (answers expired) f) = .ok r ∧ RxTurn h evts isNewState state x r := by
  obtain ⟨expired, x₂, answer, sound₂, same₂, early⟩ := TimedCtx.tmoExpired_ok sound name
  have ctx₂ : x₂.c = x.c := (congrArg TimedCtx.c same₂).trans same
  rw [answer]
  exact ⟨_, rfl, RxTurn.handle _ sound₂ ctx₂ (ctx₂ ▸ move expired early) (frame _)⟩

/-- Clearing the copy of the channel changes nothing else. -/
theorem RxTurn.clear {state : RxSetupState} {r : Int × TimedCtx}
    (turn : RxTurn h evts isNewState state x r) :
    RxTurn h evts isNewState state x
      (r.1, if r.2.c.ps.rxSetupFSM.nextState = some .validate then r.2.clearRx else r.2) := by
  obtain ⟨move, sound, steady⟩ := turn
  split_ifs
  · exact ⟨move, sound, steady⟩
  · exact ⟨move, sound, steady⟩

/-- A new state restarts its timer. -/
theorem TimedCtx.restarted {x : TimedCtx} (sound : x.Sound h) (isNewState : Bool)
    (name : TmoName) :
    ∃ x', (if isNewState then x.tmoRestart h name else x) = x' ∧ x'.Sound h ∧ x'.c = x.c ∧
      (isNewState = true → (x'.tmo name).startTics = h.now) := by
  cases isNewState with
  | true =>
    refine ⟨_, rfl, sound.restart name, rfl, fun _ => ?_⟩
    exact congrArg Tmo.startTics (Function.update_self name _ x.tmo)
  | false => exact ⟨_, rfl, sound, rfl, nofun⟩

private theorem timedRxStateWaitLock_turn (sound : x.Sound h)
    (entered : x.c.ps.rxSetupFSM = ⟨some .waitLock, some .waitLock⟩) :
    ∃ r, timedRxStateWaitLock h evts isNewState x = .ok r ∧
      RxTurn h evts isNewState .waitLock x r := by
  -- both timers start with the state
  obtain ⟨x₁, restarted, sound₁, same₁, fresh⟩ :
      ∃ x₁, (if isNewState then (x.tmoRestart h .link).tmoRestart h .align else x) = x₁ ∧
        x₁.Sound h ∧ x₁.c = x.c ∧ (isNewState = true →
          (x₁.tmo .link).startTics = h.now ∧ (x₁.tmo .align).startTics = h.now) := by
    cases isNewState with
    | true => exact ⟨_, rfl, (sound.restart .link).restart .align, rfl, fun _ => ⟨rfl, rfl⟩⟩
    | false => exact ⟨_, rfl, sound, rfl, nofun⟩
  have frame := rxHandler_frame .waitLock evts isNewState
  unfold timedRxStateWaitLock
  dsimp only
  rw [restarted]
  split_ifs with up
  · obtain ⟨aligning, x₂, answer, sound₂, same₂, early⟩ := TimedCtx.tmoExpired_ok sound₁ .align
    have ctx₂ : x₂.c = x.c := (congrArg TimedCtx.c same₂).trans same₁
    have move (waited : List Reading) : RxMove evts isNewState .waitLock
        (halPortRxSetupStateWaitLock evts (x.c.answered (expiredReading aligning :: waited))) :=
      rxMove_waitLock entered fun new => early (fresh new).2
    rw [answer]
    simp only [bind, Except.bind, pure, Except.pure]
    -- the second timer is asked only where the first does not decide
    by_cases settled : (!aligning || evts.rxAligned) = true
    · rw [if_pos settled]
      exact ⟨_, rfl, RxTurn.clear (RxTurn.handle _ sound₂ ctx₂ (ctx₂ ▸ move []) (frame _))⟩
    · rw [if_neg settled]
      exact RxTurn.ask .minCalibRx (fun waited => [expiredReading aligning, expiredReading waited])
        sound₂ ctx₂ (fun waited _ => move [expiredReading waited]) frame
  · exact RxTurn.ask .link (fun lost => [expiredReading lost]) sound₁ same₁
      (fun lost early => rxMove_waitLock entered fun new => early (fresh new).1) frame

private theorem timedRxDoneEnd_turn (answers : List Reading) (sound : x'.Sound h)
    (same : x'.c = x.c) (entered : x.c.ps.rxSetupFSM = ⟨some .done, some .done⟩) :
    ∃ r, timedRxDoneEnd h evts answers x' = .ok r ∧ RxTurn h evts isNewState .done x r := by
  have frame := rxHandler_frame .done evts isNewState
  have move (answers : List Reading) : RxMove evts isNewState .done
      (halPortRxSetupStateDone evts (x.c.answered answers)) := rxMove_done entered
  unfold timedRxDoneEnd
  split_ifs
  · exact RxTurn.ask .minCalibRx (fun waited => answers ++ [expiredReading waited]) sound same
      (fun _ _ => move _) frame
  · exact ⟨_, rfl, RxTurn.handle _ sound same (same ▸ move _) (frame _)⟩

private theorem timedRxStateDone_turn (sound : x.Sound h)
    (entered : x.c.ps.rxSetupFSM = ⟨some .done, some .done⟩) :
    ∃ r, timedRxStateDone h evts isNewState x = .ok r ∧ RxTurn h evts isNewState .done x r := by
  have frame := rxHandler_frame .done evts isNewState
  have move (answers : List Reading) : RxMove evts isNewState .done
      (halPortRxSetupStateDone evts (x.c.answered answers)) := rxMove_done entered
  obtain ⟨x₁, restarted, sound₁, same₁, -⟩ := TimedCtx.restarted sound isNewState .alignToLink
  unfold timedRxStateDone
  dsimp only
  rw [restarted]
  by_cases supported : x.c.ps.isSupported = true
  · rw [if_pos supported]
    -- a port without the link waits here; one with it may have to align again
    by_cases down : (!evts.earlyLinkUp || !evts.rxAligned) = true
    · rw [if_pos down]
      exact ⟨_, rfl, RxTurn.handle _ sound₁ same₁ (same₁ ▸ move _) (frame _)⟩
    · rw [if_neg down]
      obtain ⟨late, x₂, answer, sound₂, same₂, -⟩ := TimedCtx.tmoExpired_ok sound₁ .alignToLink
      have ctx₂ : x₂.c = x.c := (congrArg TimedCtx.c same₂).trans same₁
      rw [answer]
      simp only [bind, Except.bind, pure, Except.pure]
      by_cases retry : (late && !evts.linkUp) = true
      · rw [if_pos retry]
        exact ⟨_, rfl, RxTurn.handle _ (sound₂.restart .alignToLink) ctx₂ (ctx₂ ▸ move _)
          (frame _)⟩
      · rw [if_neg retry]
        exact timedRxDoneEnd_turn _ sound₂ ctx₂ entered
  · rw [if_neg supported]
    exact timedRxDoneEnd_turn _ sound rfl entered

private theorem timedRxStateStart_turn (sound : x.Sound h)
    (entered : x.c.ps.rxSetupFSM = ⟨some .start, some .start⟩) :
    ∃ r, timedRxStateStart h evts isNewState x = .ok r ∧ RxTurn h evts isNewState .start x r := by
  have frame := rxHandler_frame .start evts isNewState
  obtain ⟨x₁, restarted, sound₁, same₁, fresh⟩ := TimedCtx.restarted sound isNewState .earlyup
  unfold timedRxStateStart
  dsimp only
  rw [restarted]
  -- the timer is asked only on a supported port that is through its transmit side
  by_cases measured : x.c.ps.txSetupFSM.state = some .done ∧ x.c.ps.isSupported = true
  · obtain ⟨expired, x₂, answer, sound₂, same₂, early⟩ := TimedCtx.tmoExpired_ok sound₁ .earlyup
    have ctx₂ : x₂.c = x.c := (congrArg TimedCtx.c same₂).trans same₁
    obtain ⟨x₃, again, sound₃, same₃, -⟩ :=
      TimedCtx.restarted sound₂ (expired && !evts.earlyLinkUp) .earlyup
    have ctx₃ : x₃.c = x.c := same₃.trans ctx₂
    rw [if_pos measured, answer]
    simp only [bind, Except.bind, pure, Except.pure]
    rw [again]
    exact ⟨_, rfl, RxTurn.handle _ sound₃ ctx₃
      (rxMove_start (ctx₃ ▸ entered) fun new _ _ => early (fresh new)) (frame _)⟩
  · rw [if_neg measured]
    refine ⟨_, rfl, RxTurn.handle _ sound rfl (rxMove_start entered ?_) (frame _)⟩
    exact fun _ done supported => absurd ⟨done, supported⟩ measured

private theorem timedRxStateResetPcs_turn (sound : x.Sound h)
    (entered : x.c.ps.rxSetupFSM = ⟨some .resetPcs, some .resetPcs⟩) :
    ∃ r, timedRxStateResetPcs h evts isNewState x = .ok r ∧
      RxTurn h evts isNewState .resetPcs x r := by
  have frame := rxHandler_frame .resetPcs evts isNewState
  obtain ⟨x₁, restarted, sound₁, same₁, fresh⟩ := TimedCtx.restarted sound isNewState .link
  unfold timedRxStateResetPcs
  dsimp only
  rw [restarted]
  split_ifs with up
  · exact ⟨_, rfl, RxTurn.handle _ sound₁ same₁ (rxMove_resetPcs (same₁ ▸ entered)
      fun _ down => absurd up (by simp [down])) (frame _)⟩
  · exact RxTurn.ask .link (fun lost => [expiredReading lost]) sound₁ same₁
      (fun lost early => rxMove_resetPcs entered fun new _ => early (fresh new)) frame

private theorem timedRxStateRestart_turn (sound : x.Sound h)
    (entered : x.c.ps.rxSetupFSM = ⟨some .restart, some .restart⟩) :
    ∃ r, timedRxStateRestart h isNewState x = .ok r ∧
      RxTurn h evts isNewState .restart x r := by
  have frame := rxHandler_frame .restart evts isNewState
  unfold timedRxStateRestart
  cases isNewState with
  | true =>
    exact ⟨_, rfl, RxTurn.handle _ (sound.restart .restart) rfl (rxMove_restart entered) (frame _)⟩
  | false =>
    exact RxTurn.ask .restart (fun expired => [expiredReading expired]) sound rfl
      (fun _ _ => rxMove_restart entered) frame

private theorem timedRxHandler_turn {state : RxSetupState} (sound : x.Sound h)
    (entered : x.c.ps.rxSetupFSM = ⟨some state, some state⟩) :
    ∃ r, timedRxHandler h state evts isNewState x = .ok r ∧
      RxTurn h evts isNewState state x r := by
  have frame := rxHandler_frame state evts isNewState
  cases state with
  | init =>
    -- INIT starts a timer where the LPDC ports are calibrated
    obtain ⟨x₁, started, sound₁, same₁⟩ : ∃ x₁ : TimedCtx, timedRxStateInit h evts x =
        .ok (x₁.handle [] halPortRxSetupStateInit) ∧ x₁.Sound h ∧ x₁.c = x.c := by
      unfold timedRxStateInit
      dsimp only
      split_ifs
      · exact ⟨_, rfl, sound.restart .minCalibRx, rfl⟩
      · exact ⟨_, rfl, sound, rfl⟩
      · exact ⟨_, rfl, sound.restart .minCalibRx, rfl⟩
      · exact ⟨_, rfl, sound, rfl⟩
    exact ⟨_, started, RxTurn.handle _ sound₁ same₁ (rxMove_init (same₁ ▸ entered)) (frame _)⟩
  | start => exact timedRxStateStart_turn sound entered
  | resetPcs => exact timedRxStateResetPcs_turn sound entered
  | waitLock => exact timedRxStateWaitLock_turn sound entered
  | validate =>
    unfold timedRxHandler timedRxStateValidate
    dsimp only
    split_ifs with read
    · exact ⟨_, rfl, RxTurn.handle _ sound rfl (rxMove_validate entered) (frame _)⟩
    · exact RxTurn.ask .minCalibRx
        (fun waited => [(h.channel x.rxPll).reading, expiredReading waited]) sound rfl
        (fun waited _ => rxMove_validate entered) frame
  | restart => exact timedRxStateRestart_turn sound entered
  | done => exact timedRxStateDone_turn sound entered

end RxTurns

section RxRuns

variable {h : Held}

private theorem rxRank_le (isSupported : Bool) (state : RxSetupState) :
    rxRank isSupported state ≤ 3 := by
  cases isSupported <;> cases state <;> decide

/-- The events are those of the register, and building them changes nothing that is looked at. -/
theorem timedRxBuildEvents_spec (h : Held) (x : TimedCtx) :
    Steady x.c (timedRxBuildEvents h x).2.c ∧ (timedRxBuildEvents h x).2.tmo = x.tmo ∧
      (timedRxBuildEvents h x).2.c.ps.rxSetupFSM = x.c.ps.rxSetupFSM ∧
      (x.c.ps.isSupported = true → (timedRxBuildEvents h x).1.earlyLinkUp = true →
        (timedRxBuildEvents h x).1.rxAligned = true → h.lpdc = (true, true)) := by
  unfold timedRxBuildEvents portRxSetupFsmBuildEvents
  dsimp only
  split_ifs with supported
  · refine ⟨⟨rfl, rfl, rfl, rfl, rfl, rfl, rfl⟩, rfl, rfl, fun _ up aligned => ?_⟩
    exact Prod.ext up aligned
  · exact ⟨⟨rfl, rfl, rfl, rfl, rfl, rfl, rfl⟩, rfl, rfl,
      fun supported' => absurd supported' supported⟩

private theorem timedRx_entered {x : TimedCtx} (sound : x.Sound h) :
    ((timedRx h).entered x).Sound h ∧ Steady x.c ((timedRx h).entered x).c := by
  obtain ⟨kept, timers, -⟩ := timedRxBuildEvents_spec h x
  have same : ((timedRx h).entered x).tmo = x.tmo := timers
  refine ⟨fun name => ?_, ⟨kept.fsm, kept.inUse, kept.sfpPresent, kept.evtReset, kept.evtLinkUp,
    kept.evtPowerDown, kept.isSupported⟩⟩
  rw [same]
  exact sound name

/-- The turns that are left, one more when the state is not new. -/
def rxTurnsLeft (x : TimedCtx) : Nat :=
  match x.c.ps.rxSetupFSM.nextState with
  | none => 0
  | some s => if x.c.ps.rxSetupFSM.hasPendingState then rxRank x.c.ps.isSupported s else 4

private theorem rxTurnsLeft_eq {x : TimedCtx} {s : RxSetupState}
    (next : x.c.ps.rxSetupFSM.nextState = some s) : rxTurnsLeft x =
      if x.c.ps.rxSetupFSM.hasPendingState then rxRank x.c.ps.isSupported s else 4 := by
  rw [rxTurnsLeft, next]

private theorem rxTurnsLeft_lt (x : TimedCtx) : rxTurnsLeft x < 5 := by
  unfold rxTurnsLeft
  split
  · decide
  next s _ =>
    split_ifs
    · exact Nat.lt_of_le_of_lt (rxRank_le _ s) (by decide)
    · decide

/-- A turn that leaves a state pending has fewer turns left. -/
theorem RxMove.turnsLeft {evts : RxEvents} {x x' : TimedCtx} {state : RxSetupState} {ret : Int}
    (move : RxMove evts x.c.ps.rxSetupFSM.hasPendingState state (ret, x'.c))
    (next : x.c.ps.rxSetupFSM.nextState = some state)
    (supported : x'.c.ps.isSupported = x.c.ps.isSupported)
    (pending : x'.c.ps.rxSetupFSM.hasPendingState = true) : rxTurnsLeft x' < rxTurnsLeft x := by
  obtain ⟨s, next', same | falls⟩ := move.falls
  · -- a state that fires itself is not pending
    rw [Fsm.hasPendingState_iff] at pending
    exact absurd (move.rests.trans (same ▸ next'.symm)) pending
  · rw [rxTurnsLeft_eq next, rxTurnsLeft_eq next', if_pos pending, supported]
    rw [supported] at falls
    split_ifs with new
    · exact falls new
    · exact Nat.lt_succ_of_le (rxRank_le _ s)

/-- Every run returns within five turns. -/
theorem timedRx_returns {x : TimedCtx} (sound : x.Sound h) {fuel : Nat} (enough : 5 ≤ fuel) :
    ∃ ret x', fsmGenericRun (timedRx h) fuel x = .ok (ret, x') ∧ x'.Sound h ∧ Steady x.c x'.c ∧
      (ret = 1 → x.c.ps.isSupported = true → h.lpdc = (true, true)) := by
  refine fsmGenericRun_returns (timedRx h) (fun y => y.Sound h ∧ Steady x.c y.c) rxTurnsLeft
    (fun y => (timedRxBuildEvents_spec h y).2.2.1) ?_ ?_ ⟨sound, .refl _⟩
    (Nat.lt_of_lt_of_le (rxTurnsLeft_lt x) enough)
  -- no state was fired: the run is over
  · rintro y ⟨sound, steady⟩ -
    obtain ⟨sound, kept⟩ := timedRx_entered sound
    exact ⟨sound, steady.trans kept, nofun⟩
  · rintro y state ⟨sound, steady⟩ next
    obtain ⟨sound, kept⟩ := timedRx_entered sound
    have entered : ((timedRx h).entered y).c.ps.rxSetupFSM = ⟨some state, some state⟩ :=
      congrArg₂ Fsm.mk next next
    obtain ⟨⟨ret, y'⟩, handled, turn⟩ : ∃ r, (timedRx h).handled y state = .ok r ∧
        RxTurn h (timedRxBuildEvents h y).1 y.c.ps.rxSetupFSM.hasPendingState state
          ((timedRx h).entered y) r :=
      timedRxHandler_turn sound entered
    have steady' : Steady y.c y'.c := kept.trans turn.steady
    refine ⟨ret, y', handled, ?_⟩
    split_ifs with pending
    · exact ⟨⟨turn.sound, steady.trans steady'⟩,
        turn.move.turnsLeft next steady'.isSupported pending⟩
    -- DONE is told of only when both status bits are set
    · refine ⟨turn.sound, steady.trans steady', fun done supported => ?_⟩
      have supported_y : y.c.ps.isSupported = true := steady.isSupported.trans supported
      obtain ⟨up, aligned⟩ := turn.move.result done (steady'.isSupported.trans supported_y)
      exact (timedRxBuildEvents_spec h y).2.2.2 supported_y up aligned

end RxRuns

/-! ### The PLL machine -/

/-- A request to lock is waiting and will be seen. -/
def LockRequested (c : Ctx) : Prop := halTmgGetMode c.rts = some .bc ∧ c.ps.evtLock = true

instance (c : Ctx) : Decidable (LockRequested c) := inferInstanceAs (Decidable (_ ∧ _))

/-- Without a request the events move the machine once at most. -/
def pllRank (evts : PllEvents) (state : PllState) : Nat :=
  if evts.locked then if state = .locked then 0 else 1
  else if evts.unlocked then if state = .locked then 1 else 0
  else if evts.disable then if state = .unlocked then 0 else 1
  else 0

private theorem pllRank_le (evts : PllEvents) (state : PllState) : pllRank evts state ≤ 1 := by
  unfold pllRank
  split_ifs <;> omega

/-- The events say one thing at a time. -/
theorem portPllFsmBuildEvents_cases (c : Ctx) :
    LockRequested c ∧ portPllFsmBuildEvents c =
        (⟨false, true, false, false⟩, { c with ps.evtLock := false }) ∨
      ¬LockRequested c ∧ (portPllFsmBuildEvents c = (⟨false, false, false, false⟩, c) ∨
        portPllFsmBuildEvents c = (⟨false, false, true, false⟩, c) ∨
        portPllFsmBuildEvents c = (⟨true, false, false, false⟩, c) ∨
        portPllFsmBuildEvents c = (⟨false, false, false, true⟩, c)) := by
  unfold portPllFsmBuildEvents
  dsimp only
  split_ifs with requested reference
  · exact .inl ⟨requested, rfl⟩
  · refine .inr ⟨requested, ?_⟩
    split
    · exact .inl rfl
    · exact .inr (.inl rfl)
    · exact .inr (.inr (.inl rfl))
  · exact .inr ⟨requested, .inr (.inr (.inr rfl))⟩

def pllTurnsLeft (c : Ctx) : Nat :=
  match c.ps.pllFsm.nextState with
  | none => 0
  | some s => if LockRequested c then 2 else pllRank (portPllFsmBuildEvents c).1 s

private theorem pllTurnsLeft_lt (c : Ctx) : pllTurnsLeft c < 3 := by
  unfold pllTurnsLeft
  split
  · decide
  next s _ =>
    split_ifs
    · decide
    · exact Nat.lt_of_le_of_lt (pllRank_le _ s) (by decide)

/-- One thing at most, and not a request. -/
def PllEvents.Single (evts : PllEvents) : Prop :=
  evts = ⟨false, false, false, false⟩ ∨ evts = ⟨false, false, true, false⟩ ∨
    evts = ⟨true, false, false, false⟩ ∨ evts = ⟨false, false, false, true⟩

/-- From a state that the handler leaves, the events lead to one that they keep. -/
theorem pllHandler_falls {state : PllState} {evts : PllEvents} {isNewState : Bool} {c : Ctx}
    (entered : c.ps.pllFsm = ⟨some state, some state⟩) (single : evts.Single) :
    ∃ ret c', portPllFsm.handler state evts isNewState c = .ok (ret, c') ∧
      (c'.ps.pllFsm.hasPendingState = true → ∃ s, c'.ps.pllFsm.nextState = some s ∧
        pllRank evts s < pllRank evts state) := by
  have kept (locked : Bool) : (c.setLocked isNewState locked).ps.pllFsm = c.ps.pllFsm := by
    cases isNewState <;> rfl
  have stays (locked : Bool) :
      (c.setLocked isNewState locked).ps.pllFsm.hasPendingState = false := by
    rw [kept, entered, Fsm.not_hasPendingState_iff]
  -- in each state at most one event fires, and to a state of lower rank
  cases state with
  | unlocked =>
    rcases single with rfl | rfl | rfl | rfl
    · exact ⟨_, _, rfl, fun pending => absurd pending (by simp [stays])⟩
    · exact ⟨_, _, rfl, fun _ => ⟨.locked, rfl, by decide⟩⟩
    · exact ⟨_, _, rfl, fun pending => absurd pending (by simp [stays])⟩
    · exact ⟨_, _, rfl, fun pending => absurd pending (by simp [stays])⟩
  | locking =>
    rcases single with rfl | rfl | rfl | rfl
    · exact ⟨_, _, rfl, fun pending => absurd pending (by simp [stays])⟩
    · exact ⟨_, _, rfl, fun _ => ⟨.locked, rfl, by decide⟩⟩
    · exact ⟨_, _, rfl, fun pending => absurd pending (by simp [stays])⟩
    · exact ⟨_, _, rfl, fun _ => ⟨.unlocked, rfl, by decide⟩⟩
  | locked =>
    rcases single with rfl | rfl | rfl | rfl
    · exact ⟨_, _, rfl, fun pending => absurd pending (by simp [stays])⟩
    · exact ⟨_, _, rfl, fun pending => absurd pending (by simp [stays])⟩
    · exact ⟨_, _, rfl, fun _ => ⟨.locking, rfl, by decide⟩⟩
    · exact ⟨_, _, rfl, fun _ => ⟨.unlocked, rfl, by decide⟩⟩

/-- What the events are read off, a handler does not touch. -/
structure PllKept (c c' : Ctx) : Prop where
  rts : c'.rts = c.rts
  evtLock : c'.ps.evtLock = c.ps.evtLock
  hwIndex : c'.ps.hwIndex = c.ps.hwIndex

private theorem pllHandler_kept (state : PllState) (evts : PllEvents) (isNewState : Bool)
    (c : Ctx) :
    ∃ ret c', portPllFsm.handler state evts isNewState c = .ok (ret, c') ∧ PllKept c c' := by
  have set (locked : Bool) : PllKept c (c.setLocked isNewState locked) := by
    cases isNewState <;> exact ⟨rfl, rfl, rfl⟩
  have fired (locked : Bool) (s : PllState) :
      PllKept c ((c.setLocked isNewState locked).firePll s) :=
    ⟨(set locked).rts, (set locked).evtLock, (set locked).hwIndex⟩
  refine ⟨_, _, rfl, ?_⟩
  -- every branch sets the flag and at most fires a state
  cases state with
  | unlocked =>
    simp only [halPortPllStateUnlocked]
    split_ifs
    · exact fired false .locked
    · exact fired false .locking
    · exact set false
  | locking =>
    simp only [halPortPllStateLocking]
    split_ifs
    · exact fired false .locked
    · exact fired false .unlocked
    · exact set false
  | locked =>
    simp only [halPortPllStateLocked]
    split_ifs
    · exact fired true .locking
    · exact fired true .unlocked
    · exact set true

private theorem PllKept.requested_iff {c c' : Ctx} (kept : PllKept c c') :
    LockRequested c' ↔ LockRequested c := by
  rw [LockRequested, LockRequested, kept.rts, kept.evtLock]

/-- What the PLL machine is told depends on what is kept. -/
theorem PllKept.events {c c' : Ctx} (kept : PllKept c c') :
    (portPllFsmBuildEvents c').1 = (portPllFsmBuildEvents c).1 := by
  unfold portPllFsmBuildEvents
  dsimp only
  rw [kept.rts, kept.evtLock, kept.hwIndex]
  split_ifs
  all_goals first | rfl | split <;> rfl

private theorem pllTurnsLeft_eq {c : Ctx} {s : PllState} (next : c.ps.pllFsm.nextState = some s) :
    pllTurnsLeft c = if LockRequested c then 2 else pllRank (portPllFsmBuildEvents c).1 s := by
  rw [pllTurnsLeft, next]

private theorem pllTurnsLeft_le {c : Ctx} (idle : ¬LockRequested c) : pllTurnsLeft c ≤ 1 := by
  unfold pllTurnsLeft
  split
  · decide
  · rw [if_neg idle]
    exact pllRank_le _ _

/-- A request is consumed with the events, so after that turn there is none. -/
theorem pllTurnsLeft_requested {c c' : Ctx} {state : PllState} (requested : LockRequested c)
    (next : c.ps.pllFsm.nextState = some state) (kept : PllKept (portPllFsm.entered c) c') :
    pllTurnsLeft c' < pllTurnsLeft c := by
  have answered : ¬LockRequested c' := by
    rw [kept.requested_iff]
    rcases portPllFsmBuildEvents_cases c with ⟨-, built⟩ | ⟨idle, -⟩
    · exact fun again => Bool.false_ne_true
        ((congrArg (fun r => r.2.ps.evtLock) built).symm.trans again.2)
    · exact absurd requested idle
  rw [pllTurnsLeft_eq next, if_pos requested]
  exact Nat.lt_of_le_of_lt (pllTurnsLeft_le answered) (by decide)

/-- Without a request the next turn has the same events. -/
theorem pllTurnsLeft_idle {c c' : Ctx} {state : PllState} (idle : ¬LockRequested c)
    (next : c.ps.pllFsm.nextState = some state) (kept : PllKept c c')
    (falls : ∃ s, c'.ps.pllFsm.nextState = some s ∧
      pllRank (portPllFsmBuildEvents c).1 s < pllRank (portPllFsmBuildEvents c).1 state) :
    pllTurnsLeft c' < pllTurnsLeft c := by
  obtain ⟨s, next', lower⟩ := falls
  rw [pllTurnsLeft_eq next, pllTurnsLeft_eq next', if_neg idle,
    if_neg fun again => idle (kept.requested_iff.mp again), kept.events]
  exact lower

/-- Every run returns within three turns. -/
theorem portPllFsm_returns (c : Ctx) {fuel : Nat} (enough : 3 ≤ fuel) :
    ∃ ret c', fsmGenericRun portPllFsm fuel c = .ok (ret, c') := by
  obtain ⟨ret, c', ran, -⟩ : ∃ ret c', fsmGenericRun portPllFsm fuel c = .ok (ret, c') ∧ True := by
    refine fsmGenericRun_returns portPllFsm (fun _ => True) pllTurnsLeft
      (fun c => (portPllFsmBuildEvents_frame c).2.1) (fun _ _ _ => trivial) ?_ trivial
      (Nat.lt_of_lt_of_le (pllTurnsLeft_lt c) enough)
    intro c state _ next
    obtain ⟨ret, c', handled, kept⟩ := pllHandler_kept state (portPllFsmBuildEvents c).1
      c.ps.pllFsm.hasPendingState (portPllFsm.entered c)
    refine ⟨ret, c', handled, ?_⟩
    split_ifs with pending
    · refine ⟨trivial, ?_⟩
      -- a request for the lock is spent in the first turn
      rcases portPllFsmBuildEvents_cases c with ⟨requested, -⟩ | ⟨idle, single⟩
      · exact pllTurnsLeft_requested requested next kept
      · have same : (portPllFsmBuildEvents c).2 = c ∧ (portPllFsmBuildEvents c).1.Single := by
          rcases single with built | built | built | built
          all_goals rw [built, PllEvents.Single]
          all_goals simp
        have kept_c : PllKept c c' :=
          ⟨kept.rts.trans (show (portPllFsmBuildEvents c).2.rts = c.rts by rw [same.1]),
            kept.evtLock.trans
              (show (portPllFsmBuildEvents c).2.ps.evtLock = c.ps.evtLock by rw [same.1]),
            kept.hwIndex.trans
              (show (portPllFsmBuildEvents c).2.ps.hwIndex = c.ps.hwIndex by rw [same.1])⟩
        have entered : (portPllFsm.entered c).ps.pllFsm = ⟨some state, some state⟩ :=
          congrArg₂ Fsm.mk next next
        -- the events come again as they were, and the state falls
        obtain ⟨_, _, handled', falls⟩ := pllHandler_falls entered same.2
        cases handled.symm.trans handled'
        exact pllTurnsLeft_idle idle next kept_c (falls pending)
  exact ⟨ret, c', ran⟩

end WrSwitch.Hal
