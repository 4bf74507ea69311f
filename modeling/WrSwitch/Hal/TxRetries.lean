import WrSwitch.Hal.HeldRuns

/-!
# The retries of the TX setup

A phase outside the window resets the PCS and is measured again. While the phase stands still
that is never over; every other run returns.
-/
namespace WrSwitch.Hal

/-! ### The window of the phase -/

/-- The middle of the window and its tolerance. -/
def LpdcTx.window (txSetup : LpdcTx) : Int × Int :=
  (txSetup.expect.expectedPhase, txSetup.expect.tolerance)

def LpdcTx.accepts (txSetup : LpdcTx) (phase : Int) : Bool :=
  withinRange phase (txSetup.window.1 - txSetup.window.2)
    (txSetup.window.1 + txSetup.window.2) 16000

private theorem LpdcTx.window_measured (txSetup : LpdcTx) (phase : Int) :
    { txSetup with measuredPhase := phase }.window = txSetup.window := by
  unfold LpdcTx.window LpdcTx.expect
  dsimp only
  split_ifs <;> rfl

private theorem LpdcTx.window_attempts (txSetup : LpdcTx) (attempts : Nat) :
    { txSetup with attempts := attempts }.window = txSetup.window := by
  unfold LpdcTx.window LpdcTx.expect
  dsimp only
  split_ifs <;> rfl

/-- A window that was chosen is kept. -/
theorem LpdcTx.window_expect (txSetup : LpdcTx) : txSetup.expect.window = txSetup.window := by
  have valid : txSetup.expect.expectedPhaseValid = true := by
    unfold LpdcTx.expect
    split_ifs with chosen
    · exact chosen
    · rfl
    · rfl
  have again : txSetup.expect.expect = txSetup.expect := by
    rw [LpdcTx.expect.eq_def txSetup.expect, if_pos valid]
  rw [LpdcTx.window, again, LpdcTx.window]

/-- What START makes of it. -/
def LpdcTx.restarted (txSetup : LpdcTx) : LpdcTx :=
  { txSetup with
    attempts := 0, expectedPhase := 0, expectedPhaseValid := false, tolerance := txCalTolerance }

/-! ### What makes it try again -/

/-- The transceiver reports the end of its reset. -/
def Held.txRstDone (h : Held) : Bool :=
  match h.stat with
  | none => false
  | some value => value &&& lpdcMdioStatTxRstDone != 0

/-- A phase is measured, outside of the window. -/
def Held.misses (h : Held) (txSetup : LpdcTx) : Bool :=
  match h.pll with
  | none => false
  | some (_, pll) => pll.pmeasReady && !txSetup.accepts pll.phaseLoopback

/-- The state leads to a measurement that will fail, or is the one that makes it. -/
def Held.missesFrom (h : Held) (ps : Port) : TxSetupState → Bool
  | .start => ps.isSupported && h.misses ps.txSetup.restarted
  | .resetPcs | .waitLock | .measurePhase => h.misses ps.txSetup
  | .validate | .waitOtherPorts | .done => false

def txRetries (h : Held) (c : Ctx) : Bool :=
  h.txRstDone && c.ps.txSetupFSM.nextState.any (h.missesFrom c.ps)

private theorem txRetries_eq (h : Held) {c : Ctx} {state : TxSetupState}
    (next : c.ps.txSetupFSM.nextState = some state) :
    txRetries h c = (h.txRstDone && h.missesFrom c.ps state) := by
  rw [txRetries, next, Option.any_some]

/-- Whether a port tries again is decided by its machine and the phases. -/
theorem txRetries_congr (h : Held) {c c' : Ctx} (fsm : c'.ps.txSetupFSM = c.ps.txSetupFSM)
    (supported : c'.ps.isSupported = c.ps.isSupported) (txSetup : c'.ps.txSetup = c.ps.txSetup) :
    txRetries h c' = txRetries h c := by
  have same (state : TxSetupState) : h.missesFrom c'.ps state = h.missesFrom c.ps state := by
    unfold Held.missesFrom
    rw [supported, txSetup]
  rw [txRetries, txRetries, fsm, funext same]

private theorem Held.misses_congr (h : Held) {txSetup txSetup' : LpdcTx}
    (same : txSetup'.window = txSetup.window) : h.misses txSetup' = h.misses txSetup := by
  unfold Held.misses LpdcTx.accepts
  rw [same]

/-- A phase that is measured by the subsystem is the one of the copy. -/
theorem Held.ready_of_misses {h : Held} {txSetup : LpdcTx} (misses : h.misses txSetup = true)
    (copy : Channel) : (h.channel copy).pmeasReady = true ∧
      txSetup.accepts (h.channel copy).phaseLoopback = false := by
  unfold Held.misses at misses
  unfold Held.channel
  cases pll : h.pll with
  | none =>
    rw [pll] at misses
    exact absurd misses Bool.false_ne_true
  | some read =>
    rw [pll] at misses
    simpa using misses

/-- What a measurement that is possible finds. -/
theorem Held.misses_channel {h : Held} {copy : Channel} (txSetup : LpdcTx)
    (ready : (h.channel copy).pmeasReady = true) (live : h.pll = none → copy.pmeasReady = false) :
    h.misses txSetup = !txSetup.accepts (h.channel copy).phaseLoopback := by
  unfold Held.misses
  unfold Held.channel at ready ⊢
  cases pll : h.pll with
  | none =>
    rw [pll] at ready
    exact absurd ready (ne_true_of_eq_false (live pll))
  | some read =>
    rw [pll] at ready
    exact (congrArg (· && _) ready).trans (Bool.true_and _)

/-! ### The handlers -/

structure TxTurn (h : Held) (state : TxSetupState) (x y : TimedCtx) : Prop where
  rests : y.c.ps.txSetupFSM.state = some state
  sound : x.Sound h → h.now + 20000000 < 2 ^ 64 → y.Sound h
  steady : Steady x.c y.c

section TxHandlers

variable {h : Held} (isNewState : Bool) {x : TimedCtx}

/-- A turn in which the handler runs on the answers of the hardware. -/
theorem TxTurn.handle {state : TxSetupState} {ret : Int} {c' : Ctx} (x' : TimedCtx)
    (answers : List Reading) (f : Ctx → Int × Ctx) (frame : ∀ c, TxFrame c (f c).2)
    (sound : x.Sound h → h.now + 20000000 < 2 ^ 64 → x'.Sound h) (same : x'.c = x.c)
    (ran : f (x'.c.answered answers) = (ret, c')) (rests : c'.ps.txSetupFSM.state = some state) :
    x'.handle answers f = (ret, { x' with c := c' }) ∧ TxTurn h state x { x' with c := c' } := by
  have kept := (frame (x'.c.answered answers)).steady.of_answered
  rw [ran, same] at kept
  exact ⟨by rw [TimedCtx.handle, ran], rests, sound, kept⟩

/-- Clearing the copy of the channel changes nothing else. -/
theorem TxTurn.clear {state : TxSetupState} {y : TimedCtx} (turn : TxTurn h state x y)
    (when : Prop) [Decidable when] : TxTurn h state x (if when then y.clearTx else y) := by
  obtain ⟨rests, sound, steady⟩ := turn
  split_ifs
  · exact ⟨rests, sound, steady⟩
  · exact ⟨rests, sound, steady⟩

private theorem portTxSetupFsmStateStart_spec (c : Ctx) :
    ∃ c', portTxSetupFsmStateStart c = (0, c') ∧
      c'.ps.txSetupFSM = c.ps.txSetupFSM.fireState
        (if c.ps.isSupported then .resetPcs else .waitOtherPorts) ∧
      (c.ps.isSupported = true → c'.ps.txSetup = c.ps.txSetup.restarted) := by
  obtain ⟨c', polled, ps⟩ : ∃ c', (if halTmgGetMode c.rts ≠ some .freeMaster then c.pollRtsState
      else c) = c' ∧ c'.ps = c.ps := by
    split_ifs
    · exact ⟨_, rfl, rfl⟩
    · exact ⟨_, rfl, rfl⟩
  unfold portTxSetupFsmStateStart txSetupNotDone
  rw [polled]
  dsimp only
  rw [ps]
  split_ifs with supported
  · exact ⟨_, rfl, rfl, fun _ => rfl⟩
  · exact ⟨_, rfl, rfl, fun supported' => absurd supported' supported⟩

private theorem timedTx_start (entered : x.c.ps.txSetupFSM = ⟨some .start, some .start⟩) :
    ∃ y, timedTxHandler h .start isNewState x = .ok (0, y) ∧ TxTurn h .start x y ∧
      y.c.ps.txSetupFSM.nextState =
        some (if x.c.ps.isSupported then .resetPcs else .waitOtherPorts) ∧
      (x.c.ps.isSupported = true → y.c.ps.txSetup = x.c.ps.txSetup.restarted) := by
  -- only a supported port throws the last phase measurement away
  obtain ⟨x', cleared, sound, same⟩ : ∃ x', (if x.c.ps.isSupported then x.clearTx else x) = x' ∧
      (x.Sound h → x'.Sound h) ∧ x'.c = x.c := by
    split_ifs
    · exact ⟨_, rfl, id, rfl⟩
    · exact ⟨_, rfl, id, rfl⟩
  obtain ⟨c', ran, fsm, restarted⟩ := portTxSetupFsmStateStart_spec (x'.c.answered [h.reading])
  have next : c'.ps.txSetupFSM =
      ⟨some .start, some (if x.c.ps.isSupported then .resetPcs else .waitOtherPorts)⟩ := by
    rw [fsm, ← same]
    exact congrArg (fun fsm => Fsm.fireState fsm _) (same ▸ entered)
  obtain ⟨handled, turn⟩ := TxTurn.handle x' [h.reading] portTxSetupFsmStateStart
    (txHandler_frame .start () isNewState)
    (fun own _ => sound own) same ran (congrArg Fsm.state next)
  refine ⟨_, ?_, turn, congrArg Fsm.nextState next, fun supported => ?_⟩
  · rw [timedTxHandler, timedTxStateStart, cleared, handled]
  · exact same ▸ restarted (same ▸ supported)

/-- After the reset of the PCS comes the wait for the lock. -/
theorem timedTx_resetPcs (entered : x.c.ps.txSetupFSM = ⟨some .resetPcs, some .resetPcs⟩) :
    ∃ y, timedTxHandler h .resetPcs isNewState x = .ok (0, y) ∧ TxTurn h .resetPcs x y ∧
      y.c.ps.txSetupFSM.nextState = some .waitLock ∧ y.c.ps.txSetup = x.c.ps.txSetup :=
  ⟨_, rfl, (TxTurn.handle x [] portTxSetupFsmStateResetPcs
    (txHandler_frame .resetPcs () isNewState) (fun sound _ => sound)
    rfl rfl (congrArg Fsm.state entered)).2, rfl, rfl⟩

private theorem portTxSetupFsmStateWaitLock_spec {h : Held} {c : Ctx}
    (read : c.reading.reg = h.stat) :
    ∃ c', portTxSetupFsmStateWaitLock c = (0, c') ∧
      c'.ps.txSetupFSM.state = c.ps.txSetupFSM.state ∧
      c'.ps.txSetup.window = c.ps.txSetup.window ∧
      c'.ps.txSetupFSM.nextState =
        if h.txRstDone then some .measurePhase else c.ps.txSetupFSM.nextState := by
  unfold portTxSetupFsmStateWaitLock Held.txRstDone
  rw [read]
  cases h.stat with
  | none => exact ⟨_, rfl, rfl, rfl, rfl⟩
  | some value =>
    by_cases done : value &&& lpdcMdioStatTxRstDone ≠ 0
    · exact ⟨_, if_pos done, rfl, LpdcTx.window_attempts _ _, (if_pos (bne_iff_ne.mpr done)).symm⟩
    · have waits : ¬(value &&& lpdcMdioStatTxRstDone != 0) = true := fun set =>
        done (bne_iff_ne.mp set)
      exact ⟨_, if_neg done, rfl, rfl, (if_neg waits).symm⟩

/-- The copy of the channel is cleared, so a measurement has to come from the subsystem. -/
theorem timedTx_waitLock (entered : x.c.ps.txSetupFSM = ⟨some .waitLock, some .waitLock⟩) :
    ∃ y, timedTxHandler h .waitLock isNewState x = .ok (0, y) ∧ TxTurn h .waitLock x y ∧
      y.c.ps.txSetup.window = x.c.ps.txSetup.window ∧
      y.c.ps.txSetupFSM.nextState = some (if h.txRstDone then .measurePhase else .waitLock) ∧
      (h.txRstDone = true → y.txPll.pmeasReady = false) := by
  obtain ⟨c', ran, rests, window, next⟩ := portTxSetupFsmStateWaitLock_spec
    (h := h) (c := x.c.answered [h.reading]) rfl
  obtain ⟨handled, turn⟩ := TxTurn.handle x [h.reading] portTxSetupFsmStateWaitLock
    (txHandler_frame .waitLock () isNewState) (fun sound _ => sound) rfl ran
    (rests.trans (congrArg Fsm.state entered))
  have next' : c'.ps.txSetupFSM.nextState =
      some (if h.txRstDone then .measurePhase else .waitLock) := by
    rw [next, apply_ite some]
    exact congrArg _ (congrArg Fsm.nextState entered)
  refine ⟨_, ?_, turn.clear (c'.ps.txSetupFSM.nextState = some .measurePhase), ?_⟩
  · rw [timedTxHandler, timedTxStateWaitLock, handled]
  -- ready: the machine measures anew
  · cases ready : h.txRstDone with
    | true =>
      have measures : c'.ps.txSetupFSM.nextState = some .measurePhase := by
        rw [next', ready, if_pos rfl]
      rw [if_pos measures]
      exact ⟨window, measures, fun _ => rfl⟩
    | false =>
      rw [ready] at next'
      rw [if_neg (by rw [next']; decide)]
      exact ⟨window, next', nofun⟩

/-- What is measured decides, and the timer only while nothing is. -/
theorem portTxSetupFsmStateMeasurePhase_spec (c : Ctx) :
    ∃ c', portTxSetupFsmStateMeasurePhase c = (0, c') ∧
      c'.ps.txSetupFSM.state = c.ps.txSetupFSM.state ∧
      c'.ps.txSetup.window = c.ps.txSetup.window ∧
      c'.ps.txSetupFSM.nextState =
        if c.reading.pmeasReady then
          some (if c.ps.txSetup.accepts c.reading.phaseLoopback then .validate else .resetPcs)
        else if c.take.reading.expired then some .resetPcs else c.ps.txSetupFSM.nextState := by
  have measured := LpdcTx.window_measured c.ps.txSetup c.reading.phaseLoopback
  have kept := (LpdcTx.window_expect _).trans measured
  have within : (let txSetup :=
      LpdcTx.expect { c.ps.txSetup with measuredPhase := c.reading.phaseLoopback }
      withinRange c.reading.phaseLoopback (txSetup.expectedPhase - txSetup.tolerance)
        (txSetup.expectedPhase + txSetup.tolerance) 16000) =
      c.ps.txSetup.accepts c.reading.phaseLoopback := by
    rw [LpdcTx.accepts, ← measured, LpdcTx.window]
  unfold portTxSetupFsmStateMeasurePhase
  -- a measurement is accepted or missed; without one the time may be over
  by_cases ready : c.reading.pmeasReady = true
  · cases accepted : c.ps.txSetup.accepts c.reading.phaseLoopback with
    | true => exact ⟨_, (if_pos ready).trans (if_pos (within.trans accepted)), rfl, kept,
        (if_pos ready).symm⟩
    | false =>
      have missed := ne_true_of_eq_false (within.trans accepted)
      exact ⟨_, (if_pos ready).trans (if_neg missed), rfl, kept, (if_pos ready).symm⟩
  · by_cases expired : c.take.reading.expired = true
    · exact ⟨_, (if_neg ready).trans (if_pos expired), rfl, rfl,
        ((if_neg ready).trans (if_pos expired)).symm⟩
    · exact ⟨_, (if_neg ready).trans (if_neg expired), rfl, rfl,
        ((if_neg ready).trans (if_neg expired)).symm⟩

/-- The timer of a measurement that was just started. -/
theorem calib_sound (time : h.now + 20000000 < 2 ^ 64) :
    (libwrTmoInit h.now txCalPhaseMeasTimeout true).Sound h.now := by
  have timeout : (libwrTmoInit h.now txCalPhaseMeasTimeout true).timeout = 1000000 := rfl
  refine ⟨?_, fun _ => ?_⟩
  · rw [timeout]
    omega
  · rw [timeout]
    decide

/-- The timer is not asked when a phase was measured, and has not run out when it was just set. -/
theorem timedTx_measurePhase
    (entered : x.c.ps.txSetupFSM = ⟨some .measurePhase, some .measurePhase⟩)
    (answers : (h.channel x.txPll).pmeasReady = false → x.Sound h ∧ h.now + 20000000 < 2 ^ 64) :
    ∃ y, timedTxHandler h .measurePhase isNewState x = .ok (0, y) ∧
      TxTurn h .measurePhase x y ∧ y.c.ps.txSetup.window = x.c.ps.txSetup.window ∧
      ((h.channel x.txPll).pmeasReady = true → y.c.ps.txSetupFSM.nextState =
        some (if x.c.ps.txSetup.accepts (h.channel x.txPll).phaseLoopback then .validate
          else .resetPcs)) ∧
      ((h.channel x.txPll).pmeasReady = false → y.c.ps.txSetupFSM.nextState = some .measurePhase ∨
        isNewState = false ∧ y.c.ps.txSetupFSM.nextState = some .resetPcs) := by
  have frame := txHandler_frame .measurePhase () isNewState
  let pll := h.channel x.txPll
  -- the entry starts the timer
  obtain ⟨x', started, sound, same, fresh⟩ : ∃ x', (if isNewState then
      { x with txPll := pll }.tmoInit h .calib txCalPhaseMeasTimeout true
        else { x with txPll := pll }) = x' ∧
      (x.Sound h → h.now + 20000000 < 2 ^ 64 → x'.Sound h) ∧ x'.c = x.c ∧
      (isNewState = true → (x'.tmo .calib).startTics = h.now) := by
    cases isNewState with
    | true =>
      refine ⟨_, rfl, fun sound time => ?_, rfl, fun _ => rfl⟩
      exact TimedCtx.Sound.setTmo (x := { x with txPll := pll }) sound .calib
        (calib_sound time)
    | false => exact ⟨_, rfl, fun sound _ => sound, rfl, nofun⟩
  unfold timedTxHandler timedTxStateMeasurePhase
  dsimp only
  rw [started]
  by_cases ready : (h.channel x.txPll).pmeasReady = true
  · obtain ⟨c', ran, rests, window, next⟩ :=
      portTxSetupFsmStateMeasurePhase_spec (x'.c.answered [pll.reading])
    obtain ⟨handled, turn⟩ := TxTurn.handle x' [pll.reading] portTxSetupFsmStateMeasurePhase frame
      sound same ran (rests.trans (congrArg Fsm.state (same ▸ entered)))
    have next' : c'.ps.txSetupFSM.nextState =
        some (if x.c.ps.txSetup.accepts pll.phaseLoopback then .validate else .resetPcs) :=
      same ▸ next.trans (if_pos ready)
    have cleared (y : TimedCtx) (when : Prop) [Decidable when] :
        (if when then y.clearTx else y).c = y.c := by
      split_ifs <;> rfl
    rw [if_pos ready, handled]
    refine ⟨_, rfl, turn.clear (c'.ps.txSetupFSM.nextState = some .validate), ?_, fun _ => ?_,
      fun silent => absurd ready (ne_true_of_eq_false silent)⟩
    · rw [cleared]
      exact same ▸ window
    · rw [cleared]
      exact next'
  · obtain ⟨own, time⟩ := answers (Bool.eq_false_of_not_eq_true ready)
    obtain ⟨expired, x₂, answer, sound₂, same₂, early⟩ :=
      TimedCtx.tmoExpired_ok (sound own time) .calib
    have ctx₂ : x₂.c = x.c := (congrArg TimedCtx.c same₂).trans same
    obtain ⟨c', ran, rests, window, next⟩ :=
      portTxSetupFsmStateMeasurePhase_spec (x₂.c.answered [pll.reading, expiredReading expired])
    obtain ⟨handled, turn⟩ := TxTurn.handle x₂ [pll.reading, expiredReading expired]
      portTxSetupFsmStateMeasurePhase frame (fun _ _ => sound₂) ctx₂ ran
      (rests.trans (congrArg Fsm.state (ctx₂ ▸ entered)))
    rw [if_neg ready, answer]
    refine ⟨_, congrArg Except.ok handled, turn, ctx₂ ▸ window,
      fun measured => absurd measured ready, fun _ => ?_⟩
    have next' := next.trans (if_neg ready)
    -- the timer cannot be over in the turn that started it
    cases expired with
    | true =>
      refine .inr ⟨?_, next'⟩
      cases isNewState with
      | true => exact absurd (early (fresh rfl)) nofun
      | false => rfl
    | false => exact .inl (next'.trans (congrArg Fsm.nextState (ctx₂ ▸ entered)))

private theorem timedTx_validate (entered : x.c.ps.txSetupFSM = ⟨some .validate, some .validate⟩) :
    ∃ y, timedTxHandler h .validate isNewState x = .ok (0, y) ∧ TxTurn h .validate x y ∧
      (y.c.ps.txSetupFSM.nextState = some .validate ∨
        y.c.ps.txSetupFSM.nextState = some .waitOtherPorts) := by
  let pll := h.channel x.txPll
  -- the handler waits for the PLL, and moves on once it is stable
  have spec (c : Ctx) : ∃ c', portTxSetupFsmStateValidate c = (0, c') ∧
      c'.ps.txSetupFSM.state = c.ps.txSetupFSM.state ∧
      (c'.ps.txSetupFSM.nextState = c.ps.txSetupFSM.nextState ∨
        c'.ps.txSetupFSM.nextState = some .waitOtherPorts) := by
    unfold portTxSetupFsmStateValidate
    dsimp only
    split_ifs
    · exact ⟨_, rfl, rfl, .inr rfl⟩
    · exact ⟨_, rfl, rfl, .inl rfl⟩
  obtain ⟨c', ran, rests, next⟩ := spec (x.c.answered [pll.reading])
  obtain ⟨handled, turn⟩ := TxTurn.handle (x := x) { x with txPll := pll } [pll.reading]
    portTxSetupFsmStateValidate (txHandler_frame .validate () isNewState) (fun sound _ => sound)
    rfl ran (rests.trans (congrArg Fsm.state entered))
  have next' : c'.ps.txSetupFSM.nextState = some .validate ∨
      c'.ps.txSetupFSM.nextState = some .waitOtherPorts :=
    next.imp_left fun same => same.trans (congrArg Fsm.nextState entered)
  refine ⟨{ x with txPll := pll, c := c' }, ?_, turn, next'⟩
  rw [timedTxHandler, timedTxStateValidate, handled]

private theorem timedTx_waitOtherPorts
    (entered : x.c.ps.txSetupFSM = ⟨some .waitOtherPorts, some .waitOtherPorts⟩) :
    ∃ y, timedTxHandler h .waitOtherPorts isNewState x = .ok (0, y) ∧
      TxTurn h .waitOtherPorts x y ∧
      (y.c.ps.txSetupFSM.nextState = some .waitOtherPorts ∨
        y.c.ps.txSetupFSM.nextState = some .done) := by
  have spec (c : Ctx) : ∃ c', portTxSetupFsmStateWaitOtherPorts isNewState c = (0, c') ∧
      c'.ps.txSetupFSM.state = c.ps.txSetupFSM.state ∧
      (c'.ps.txSetupFSM.nextState = c.ps.txSetupFSM.nextState ∨
        c'.ps.txSetupFSM.nextState = some .done) := by
    -- the entry counts the port as done
    obtain ⟨c₁, counted, ps⟩ : ∃ c₁, (if isNewState then txSetupDone c else c) = c₁ ∧
        c₁.ps = c.ps := by
      cases isNewState with
      | true => exact ⟨_, rfl, rfl⟩
      | false => exact ⟨_, rfl, rfl⟩
    unfold portTxSetupFsmStateWaitOtherPorts
    dsimp only
    rw [counted, ← ps]
    split_ifs
    · exact ⟨_, rfl, rfl, .inr rfl⟩
    · exact ⟨_, rfl, rfl, .inl rfl⟩
  obtain ⟨c', ran, rests, next⟩ := spec (x.c.answered [])
  obtain ⟨handled, turn⟩ := TxTurn.handle x [] (portTxSetupFsmStateWaitOtherPorts isNewState)
    (txHandler_frame .waitOtherPorts () isNewState) (fun sound _ => sound) rfl ran
    (rests.trans (congrArg Fsm.state entered))
  have next' : c'.ps.txSetupFSM.nextState = some .waitOtherPorts ∨
      c'.ps.txSetupFSM.nextState = some .done :=
    next.imp_left fun same => same.trans (congrArg Fsm.nextState entered)
  refine ⟨{ x with c := c' }, ?_, turn, next'⟩
  rw [timedTxHandler, handled]

private theorem timedTx_done (entered : x.c.ps.txSetupFSM = ⟨some .done, some .done⟩) :
    ∃ y, timedTxHandler h .done isNewState x = .ok (1, y) ∧ TxTurn h .done x y ∧
      y.c.ps.txSetupFSM.nextState = some .done :=
  ⟨_, rfl, (TxTurn.handle x [] portTxSetupFsmStateDone
    (txHandler_frame .done () isNewState) (fun sound _ => sound)
    rfl rfl (congrArg Fsm.state entered)).2, congrArg Fsm.nextState entered⟩

end TxHandlers

/-! ### Runs -/

section TxRuns

variable {h : Held}

/-- The machine enters the state that is pending. -/
theorem timedTx_entered {x : TimedCtx} {state : TxSetupState}
    (next : x.c.ps.txSetupFSM.nextState = some state) :
    ((timedTx h).entered x).c.ps.txSetupFSM = ⟨some state, some state⟩ :=
  congrArg₂ Fsm.mk next next

/-- A turn that leaves the state is followed by another one. -/
theorem TxTurn.pending {state s : TxSetupState} {x y : TimedCtx} (turn : TxTurn h state x y)
    (next : y.c.ps.txSetupFSM.nextState = some s) (other : state ≠ s) :
    ((timedTx h).fsm y).hasPendingState = true := by
  rw [Fsm.hasPendingState_iff]
  intro same
  exact other (Option.some.inj (turn.rests.symm.trans (same.trans next)))

private theorem TxTurn.not_pending {state : TxSetupState} {x y : TimedCtx}
    (turn : TxTurn h state x y) (next : y.c.ps.txSetupFSM.nextState = some state) :
    ((timedTx h).fsm y).hasPendingState = false := by
  rw [Fsm.not_hasPendingState_iff]
  exact turn.rests.trans next.symm

/-- One turn of a setup that retries leaves it on its way to the next measurement. -/
theorem txRetries_turn {x : TimedCtx} (retries : txRetries h x.c = true) :
    ∃ state, x.c.ps.txSetupFSM.nextState = some state ∧ Outcome (fun _ => True)
      (fun _ y => ((timedTx h).fsm y).hasPendingState = true ∧ txRetries h y.c = true)
      ((timedTx h).handled x state) := by
  obtain ⟨state, next⟩ : ∃ state, x.c.ps.txSetupFSM.nextState = some state := by
    cases next : x.c.ps.txSetupFSM.nextState with
    | none =>
      rw [txRetries, next, Option.any_none, Bool.and_false] at retries
      exact absurd retries Bool.false_ne_true
    | some state => exact ⟨state, rfl⟩
  rw [txRetries_eq h next, Bool.and_eq_true] at retries
  obtain ⟨done, misses⟩ := retries
  have entered := timedTx_entered (h := h) next
  let isNewState := x.c.ps.txSetupFSM.hasPendingState
  obtain ⟨y, s, handled, turn, next', other, again⟩ : ∃ y s,
      (timedTx h).handled x state = .ok (0, y) ∧ TxTurn h state ((timedTx h).entered x) y ∧
        y.c.ps.txSetupFSM.nextState = some s ∧ state ≠ s ∧ h.missesFrom y.c.ps s = true := by
    -- from START to MEASURE_PHASE each state leads to the next, and a miss back to RESET_PCS
    cases state with
    | start =>
      obtain ⟨supported, misses⟩ := Bool.and_eq_true_iff.mp misses
      obtain ⟨y, handled, turn, next', restarted⟩ := timedTx_start isNewState entered
      refine ⟨y, .resetPcs, handled, turn, next'.trans (congrArg some (if_pos supported)),
        by decide, ?_⟩
      rw [Held.missesFrom, restarted supported]
      exact misses
    | resetPcs =>
      obtain ⟨y, handled, turn, next', kept⟩ := timedTx_resetPcs isNewState entered
      refine ⟨y, .waitLock, handled, turn, next', by decide, ?_⟩
      rw [Held.missesFrom, kept]
      exact misses
    | waitLock =>
      obtain ⟨y, handled, turn, window, next', -⟩ := timedTx_waitLock isNewState entered
      exact ⟨y, .measurePhase, handled, turn, next'.trans (congrArg some (if_pos done)), by decide,
        (h.misses_congr window).trans misses⟩
    | measurePhase =>
      obtain ⟨ready, missed⟩ := Held.ready_of_misses misses x.txPll
      obtain ⟨y, handled, turn, window, next', -⟩ := timedTx_measurePhase isNewState entered
        fun silent => absurd ready (ne_true_of_eq_false silent)
      exact ⟨y, .resetPcs, handled, turn, (next' ready).trans
        (congrArg some (if_neg (ne_true_of_eq_false missed))), by decide,
        (h.misses_congr window).trans misses⟩
    | validate => exact absurd misses Bool.false_ne_true
    | waitOtherPorts => exact absurd misses Bool.false_ne_true
    | done => exact absurd misses Bool.false_ne_true
  refine ⟨state, next, ?_⟩
  rw [handled]
  exact ⟨turn.pending next' other, by rw [txRetries_eq h next', done, again, Bool.and_self]⟩

/-- A port that tries again and again never comes to rest. -/
theorem timedTx_never {x : TimedCtx} (retries : txRetries h x.c = true) (fuel : Nat) :
    ∃ y, fsmGenericRun (timedTx h) fuel x = .error y :=
  fsmGenericRun_never (timedTx h) (fun y => txRetries h y.c = true) (fun _ => rfl)
    (fun _ => txRetries_turn) fuel retries

/-- A measurement was just begun, and nothing is left of the one before. -/
def TimedCtx.measuresAnew (h : Held) (x : TimedCtx) : Bool :=
  x.c.ps.txSetupFSM.hasPendingState && h.txRstDone && (h.pll.isSome || !x.txPll.pmeasReady)

/-- How many states may follow. A measurement that was not just begun may lead to another one. -/
def txRank (anew : Bool) : TxSetupState → Nat
  | .done => 0
  | .waitOtherPorts => 1
  | .validate => 2
  | .measurePhase => if anew then 3 else 6
  | .waitLock => 4
  | .resetPcs => 5
  | .start => 6

def txTurnsLeft (h : Held) (x : TimedCtx) : Nat :=
  x.c.ps.txSetupFSM.nextState.elim 0 (txRank (x.measuresAnew h))

private theorem txTurnsLeft_eq {x : TimedCtx} {state : TxSetupState}
    (next : x.c.ps.txSetupFSM.nextState = some state) :
    txTurnsLeft h x = txRank (x.measuresAnew h) state := by
  rw [txTurnsLeft, next]
  rfl

private theorem txTurnsLeft_lt (h : Held) (x : TimedCtx) : txTurnsLeft h x < 7 := by
  unfold txTurnsLeft
  generalize x.measuresAnew h = anew
  cases x.c.ps.txSetupFSM.nextState with
  | none => exact Nat.succ_pos 6
  | some state =>
    show txRank anew state < 7
    cases anew <;> cases state <;> decide

/-- Where a turn leads that does not stay. -/
theorem txTurnsLeft_of_next {y : TimedCtx} {s : TxSetupState} {left : Nat}
    (next : y.c.ps.txSetupFSM.nextState = some s)
    (ends : (h.txRstDone && h.missesFrom y.c.ps s) = false)
    (lower : txRank (y.measuresAnew h) s < left) :
    txRetries h y.c = false ∧ txTurnsLeft h y < left :=
  ⟨(txRetries_eq h next).trans ends, (txTurnsLeft_eq next).symm ▸ lower⟩

/-- A measurement inside the window goes on; one outside it comes from before the last reset. -/
theorem timedTx_measured {x y : TimedCtx} (ends : (h.txRstDone && h.misses x.c.ps.txSetup) = false)
    (window : y.c.ps.txSetup.window = x.c.ps.txSetup.window)
    (ready : (h.channel x.txPll).pmeasReady = true) (next : y.c.ps.txSetupFSM.nextState =
      some (if x.c.ps.txSetup.accepts (h.channel x.txPll).phaseLoopback then .validate
        else .resetPcs)) :
    txRetries h y.c = false ∧ txTurnsLeft h y < txRank (x.measuresAnew h) .measurePhase := by
  cases accepted : x.c.ps.txSetup.accepts (h.channel x.txPll).phaseLoopback with
  | true =>
    rw [accepted, if_pos rfl] at next
    refine txTurnsLeft_of_next next (Bool.and_false _) ?_
    cases x.measuresAnew h with
    | true => exact (by decide : 2 < 3)
    | false => exact (by decide : 2 < 6)
  | false =>
    rw [accepted, if_neg Bool.false_ne_true] at next
    -- a new measurement that misses would be tried for ever
    have old : x.measuresAnew h = false := by
      rw [Bool.eq_false_iff, TimedCtx.measuresAnew]
      intro anew
      obtain ⟨anew, live⟩ := Bool.and_eq_true_iff.mp anew
      have misses := Held.misses_channel x.c.ps.txSetup ready fun none => by
        rw [none] at live
        simpa using live
      rw [(Bool.and_eq_true_iff.mp anew).2, misses, accepted] at ends
      exact absurd ends nofun
    refine txTurnsLeft_of_next next ?_ ?_
    · exact (congrArg (h.txRstDone && ·) (h.misses_congr window)).trans ends
    · rw [old]
      exact (by decide : 5 < 6)

/-- A turn of a setup that does not retry stays, or has fewer turns left after it. -/
theorem timedTx_turn {x : TimedCtx} {state : TxSetupState} (sound : x.Sound h)
    (time : h.now + 20000000 < 2 ^ 64) (ends : txRetries h x.c = false)
    (next : x.c.ps.txSetupFSM.nextState = some state) :
    ∃ ret y s, (timedTx h).handled x state = .ok (ret, y) ∧
      TxTurn h state ((timedTx h).entered x) y ∧ y.c.ps.txSetupFSM.nextState = some s ∧
      (s = state ∨ txRetries h y.c = false ∧ txTurnsLeft h y < txTurnsLeft h x) := by
  have entered := timedTx_entered (h := h) next
  let isNewState := x.c.ps.txSetupFSM.hasPendingState
  rw [txTurnsLeft_eq next]
  rw [txRetries_eq h next] at ends
  -- each state stays or lowers what is left
  cases state with
  | start =>
    obtain ⟨y, handled, turn, next', restarted⟩ := timedTx_start isNewState entered
    refine ⟨0, y, _, handled, turn, next', .inr (txTurnsLeft_of_next next' ?_ ?_)⟩
    · split_ifs with supported
      · have missed : h.misses x.c.ps.txSetup.restarted =
            h.missesFrom x.c.ps .start := (congrArg (· && _) supported).symm
        rw [Held.missesFrom, restarted supported]
        exact (congrArg (h.txRstDone && ·) missed).trans ends
      · exact Bool.and_false _
    · split_ifs
      · exact (by decide : 5 < 6)
      · exact (by decide : 1 < 6)
  | resetPcs =>
    obtain ⟨y, handled, turn, next', kept⟩ := timedTx_resetPcs isNewState entered
    refine ⟨0, y, _, handled, turn, next', .inr (txTurnsLeft_of_next next' ?_ ?_)⟩
    · rw [Held.missesFrom, kept]
      exact ends
    · exact (by decide : 4 < 5)
  | waitLock =>
    obtain ⟨y, handled, turn, window, next', cleared⟩ := timedTx_waitLock isNewState entered
    refine ⟨0, y, _, handled, turn, next', ?_⟩
    cases done : h.txRstDone with
    | false => exact .inl rfl
    | true =>
      have measures : y.c.ps.txSetupFSM.nextState = some .measurePhase := by
        rw [next', done, if_pos rfl]
      have pending : y.c.ps.txSetupFSM.hasPendingState = true :=
        turn.pending measures (by decide)
      have anew : y.measuresAnew h = true := by
        rw [TimedCtx.measuresAnew, pending, done, cleared done]
        exact Bool.or_true _
      refine .inr (txTurnsLeft_of_next measures ?_ ?_)
      · exact (congrArg (h.txRstDone && ·) (h.misses_congr window)).trans ends
      · rw [anew]
        exact (by decide : 3 < 4)
  | measurePhase =>
    obtain ⟨y, handled, turn, window, measured, silent⟩ := timedTx_measurePhase isNewState entered
      fun _ => ⟨sound, time⟩
    by_cases ready : (h.channel x.txPll).pmeasReady = true
    · exact ⟨0, y, _, handled, turn, measured ready,
        .inr (timedTx_measured ends window ready (measured ready))⟩
    · rcases silent (Bool.eq_false_of_not_eq_true ready) with next' | ⟨old, next'⟩
      · exact ⟨0, y, _, handled, turn, next', .inl rfl⟩
      · -- the time of a measurement from before this run is over
        refine ⟨0, y, _, handled, turn, next', .inr (txTurnsLeft_of_next next' ?_ ?_)⟩
        · exact (congrArg (h.txRstDone && ·) (h.misses_congr window)).trans ends
        · have old' : x.measuresAnew h = false := by
            rw [TimedCtx.measuresAnew, show x.c.ps.txSetupFSM.hasPendingState = false from old]
            rfl
          rw [old']
          exact (by decide : 5 < 6)
  | validate =>
    obtain ⟨y, handled, turn, next' | next'⟩ := timedTx_validate isNewState entered
    · exact ⟨0, y, _, handled, turn, next', .inl rfl⟩
    · exact ⟨0, y, _, handled, turn, next',
        .inr (txTurnsLeft_of_next next' (Bool.and_false _) (by decide : 1 < 2))⟩
  | waitOtherPorts =>
    obtain ⟨y, handled, turn, next' | next'⟩ := timedTx_waitOtherPorts isNewState entered
    · exact ⟨0, y, _, handled, turn, next', .inl rfl⟩
    · exact ⟨0, y, _, handled, turn, next',
        .inr (txTurnsLeft_of_next next' (Bool.and_false _) (by decide : 0 < 1))⟩
  | done =>
    obtain ⟨y, handled, turn, next'⟩ := timedTx_done isNewState entered
    exact ⟨1, y, _, handled, turn, next', .inl rfl⟩

/-- A run of a setup that does not retry returns within seven turns. -/
theorem timedTx_returns {x : TimedCtx} (sound : x.Sound h) (time : h.now + 20000000 < 2 ^ 64)
    (ends : txRetries h x.c = false) {fuel : Nat} (enough : 7 ≤ fuel) :
    ∃ ret y, fsmGenericRun (timedTx h) fuel x = .ok (ret, y) ∧ y.Sound h ∧ Steady x.c y.c := by
  refine fsmGenericRun_returns (timedTx h)
    (fun y => (y.Sound h ∧ Steady x.c y.c) ∧ txRetries h y.c = false) (txTurnsLeft h)
    (fun _ => rfl) ?_ ?_ ⟨⟨sound, .refl _⟩, ends⟩ (Nat.lt_of_lt_of_le (txTurnsLeft_lt h x) enough)
  · rintro y ⟨kept, -⟩ -
    exact ⟨kept.1, kept.2.trans ⟨rfl, rfl, rfl, rfl, rfl, rfl, rfl⟩⟩
  · rintro y state ⟨⟨sound, steady⟩, ends⟩ next
    obtain ⟨ret, y', s, handled, turn, next', falls⟩ := timedTx_turn sound time ends next
    have entered : Steady y.c ((timedTx h).entered y).c := ⟨rfl, rfl, rfl, rfl, rfl, rfl, rfl⟩
    have kept : y'.Sound h ∧ Steady x.c y'.c :=
      ⟨turn.sound sound time, steady.trans (entered.trans turn.steady)⟩
    refine ⟨ret, y', handled, ?_⟩
    split_ifs with pending
    · rcases falls with rfl | falls
      · exact absurd pending (ne_true_of_eq_false (turn.not_pending next'))
      · exact ⟨⟨kept, falls.1⟩, falls.2⟩
    · exact kept

end TxRuns

end WrSwitch.Hal
