import WrSwitch.Hal.Types

/-!
# The PLL machine of a port

It runs in LINK_UP only and is the one place that sets `locked`.
-/
namespace WrSwitch.Hal

/-- `halPortPllEventMask_t` -/
structure PllEvents where
  unlocked : Bool
  lock : Bool
  locked : Bool
  disable : Bool

def Ctx.firePll (c : Ctx) (newState : PllState) : Ctx :=
  { c with ps.pllFsm := c.ps.pllFsm.fireState newState }

def Ctx.setLocked (c : Ctx) (isNewState : Bool) (locked : Bool) : Ctx :=
  if isNewState then { c with ps.locked := locked } else c

def halPortPllStateUnlocked (evts : PllEvents) (isNewState : Bool) (c : Ctx) : Int × Ctx :=
  let c := c.setLocked isNewState false
  if evts.locked then (0, c.firePll .locked)
  else if evts.lock then (0, c.firePll .locking)
  else (0, c)

def halPortPllStateLocking (evts : PllEvents) (isNewState : Bool) (c : Ctx) : Int × Ctx :=
  let c := c.setLocked isNewState false
  if evts.locked then (0, c.firePll .locked)
  else if evts.disable then (0, c.firePll .unlocked)
  else (0, c)

def halPortPllStateLocked (evts : PllEvents) (isNewState : Bool) (c : Ctx) : Int × Ctx :=
  let c := c.setLocked isNewState true
  if evts.unlocked then (0, c.firePll .locking)
  else if evts.disable then (0, c.firePll .unlocked)
  else (1, c)

/-- A request to lock is consumed by the events that report it. -/
def portPllFsmBuildEvents (c : Ctx) : PllEvents × Ctx :=
  let tm := halTmgGetMode c.rts
  if tm = some .bc ∧ c.ps.evtLock then
    (⟨false, true, false, false⟩, { c with ps.evtLock := false })
  else if tm = some .bc ∧ c.rts.map RtsPllState.currentRef = some (BitVec.ofNat 32 c.ps.hwIndex) then
    match halPortCheckLock c.rts c.ps.hwIndex with
    | .error => (⟨false, false, false, false⟩, c)
    | .locked => (⟨false, false, true, false⟩, c)
    | _ => (⟨true, false, false, false⟩, c)
  else (⟨false, false, false, true⟩, c)

def portPllFsm : FsmTable Ctx PllState PllEvents where
  fsm c := c.ps.pllFsm
  setFsm c fsm := { c with ps.pllFsm := fsm }
  buildEvents := portPllFsmBuildEvents
  handler state evts isNewState c :=
    .ok (match state with
      | .unlocked => halPortPllStateUnlocked evts isNewState c
      | .locking => halPortPllStateLocking evts isNewState c
      | .locked => halPortPllStateLocked evts isNewState c)

def halPortPllFsmInit (c : Ctx) : Ctx :=
  { c with ps.pllFsm := Fsm.initState.fireState .unlocked }

def halPortPllFsmRun (fuel : Nat) (c : Ctx) : Except Ctx (Int × Ctx) :=
  if c.ps.inUse then fsmGenericRun portPllFsm fuel c else .ok (1, c)

/-! ### What a run leaves alone -/

structure PllFrame (c c' : Ctx) : Prop where
  ps : c'.ps =
    { c.ps with pllFsm := c'.ps.pllFsm, locked := c'.ps.locked, evtLock := c'.ps.evtLock }
  gl : c'.gl = c.gl
  rts : c'.rts = c.rts
  readings : c'.readings = c.readings
  warned : c'.warned = c.warned

theorem PllFrame.refl (c : Ctx) : PllFrame c c := ⟨rfl, rfl, rfl, rfl, rfl⟩

theorem PllFrame.trans {c c' c'' : Ctx} (first : PllFrame c c') (second : PllFrame c' c'') :
    PllFrame c c'' where
  ps := second.ps.trans (by rw [first.ps])
  gl := second.gl.trans first.gl
  rts := second.rts.trans first.rts
  readings := second.readings.trans first.readings
  warned := second.warned.trans first.warned

private theorem pllHandler_frame (state : PllState) (evts : PllEvents) (isNewState : Bool)
    (c : Ctx) :
    Outcome (PllFrame c) (fun _ => PllFrame c) (portPllFsm.handler state evts isNewState c) := by
  cases state with
  | unlocked =>
    simp only [portPllFsm, halPortPllStateUnlocked, Ctx.setLocked]
    split_ifs <;> exact ⟨rfl, rfl, rfl, rfl, rfl⟩
  | locking =>
    simp only [portPllFsm, halPortPllStateLocking, Ctx.setLocked]
    split_ifs <;> exact ⟨rfl, rfl, rfl, rfl, rfl⟩
  | locked =>
    simp only [portPllFsm, halPortPllStateLocked, Ctx.setLocked]
    split_ifs <;> exact ⟨rfl, rfl, rfl, rfl, rfl⟩

/-- The events touch neither the machine nor `locked`. -/
theorem portPllFsmBuildEvents_frame (c : Ctx) :
    PllFrame c (portPllFsmBuildEvents c).2 ∧ (portPllFsmBuildEvents c).2.ps.pllFsm = c.ps.pllFsm ∧
      (portPllFsmBuildEvents c).2.ps.locked = c.ps.locked := by
  unfold portPllFsmBuildEvents
  dsimp only
  split_ifs
  · exact ⟨⟨rfl, rfl, rfl, rfl, rfl⟩, rfl, rfl⟩
  · split <;> exact ⟨.refl c, rfl, rfl⟩
  · exact ⟨.refl c, rfl, rfl⟩

/-- Whatever the PLL machine does, it writes its own fields only. -/
theorem halPortPllFsmRun_frame (fuel : Nat) (c : Ctx) :
    Outcome (PllFrame c) (fun _ => PllFrame c) (halPortPllFsmRun fuel c) := by
  unfold halPortPllFsmRun
  split
  · exact fsmGenericRun_frame portPllFsm PllFrame.refl PllFrame.trans
      (fun c => (portPllFsmBuildEvents_frame c).1) (fun _ _ => ⟨rfl, rfl, rfl, rfl, rfl⟩)
      pllHandler_frame fuel c
  · exact .refl c

/-! ### The flag it sets -/

/-- `locked` is only left set in LOCKED. -/
def Port.LockedOk (ps : Port) : Prop := ps.locked = true → ps.pllFsm.state = some .locked

/-- The machine was started, and where it has just turned, the flag is right. -/
structure PllInv (c : Ctx) : Prop where
  started : ∃ state, c.ps.pllFsm.nextState = some state
  right : c.ps.pllFsm.hasPendingState = false → c.ps.LockedOk

/-- Setting the flag for every new state keeps it right for the state the machine is in. -/
theorem setLocked_ok {c : Ctx} {isNewState : Bool} (locked : Bool) {state : PllState}
    (entered : c.ps.pllFsm.state = some state) (agree : locked = true → state = .locked)
    (right : isNewState = false → c.ps.LockedOk) :
    (c.setLocked isNewState locked).ps.LockedOk := by
  cases isNewState with
  | true => exact fun set => entered.trans (congrArg some (agree set))
  | false => exact right rfl

/-- So does a handler, when it fires another state: that one is not entered yet. -/
theorem pllHandler_locked (state : PllState) (evts : PllEvents) (isNewState : Bool) (c : Ctx)
    (entered : c.ps.pllFsm.state = some state) (right : isNewState = false → c.ps.LockedOk) :
    Outcome (fun _ => True) (fun _ c' => c'.ps.LockedOk)
      (portPllFsm.handler state evts isNewState c) := by
  cases state with
  | unlocked =>
    have cleared := setLocked_ok false entered nofun right
    simp only [portPllFsm, halPortPllStateUnlocked, Outcome]
    split_ifs <;> exact cleared
  | locking =>
    have cleared := setLocked_ok false entered nofun right
    simp only [portPllFsm, halPortPllStateLocking, Outcome]
    split_ifs <;> exact cleared
  | locked =>
    have set := setLocked_ok true entered (fun _ => rfl) right
    simp only [portPllFsm, halPortPllStateLocked, Outcome]
    split_ifs <;> exact set

private theorem pllHandler_started (state : PllState) (evts : PllEvents) (isNewState : Bool)
    (c : Ctx) (started : ∃ state, c.ps.pllFsm.nextState = some state) :
    Outcome (fun _ => True) (fun _ c' => ∃ state, c'.ps.pllFsm.nextState = some state)
      (portPllFsm.handler state evts isNewState c) := by
  have set (locked : Bool) :
      ∃ state, (c.setLocked isNewState locked).ps.pllFsm.nextState = some state := by
    cases isNewState <;> exact started
  -- a state fires another one or stays
  cases state with
  | unlocked =>
    simp only [portPllFsm, halPortPllStateUnlocked, Outcome]
    split_ifs
    · exact ⟨_, rfl⟩
    · exact ⟨_, rfl⟩
    · exact set false
  | locking =>
    simp only [portPllFsm, halPortPllStateLocking, Outcome]
    split_ifs
    · exact ⟨_, rfl⟩
    · exact ⟨_, rfl⟩
    · exact set false
  | locked =>
    simp only [portPllFsm, halPortPllStateLocked, Outcome]
    split_ifs
    · exact ⟨_, rfl⟩
    · exact ⟨_, rfl⟩
    · exact set true

/-- After a run that returns, `locked` is what the state says. -/
theorem halPortPllFsmRun_locked (fuel : Nat) (c : Ctx) (inUse : c.ps.inUse = true)
    (inv : PllInv c) :
    Outcome (fun _ => True)
      (fun _ c' => c'.ps.LockedOk ∧ ∃ state, c'.ps.pllFsm.nextState = some state)
      (halPortPllFsmRun fuel c) := by
  unfold halPortPllFsmRun
  rw [if_pos inUse]
  -- the machine turns until no state is pending; each turn keeps the invariant
  refine fsmGenericRun_rule portPllFsm PllInv (fun _ _ => trivial) ?_ fuel c inv
  intro c ⟨⟨state, started⟩, right⟩
  obtain ⟨-, fsm, locked⟩ := portPllFsmBuildEvents_frame c
  have next : (portPllFsm.fsm (portPllFsm.buildEvents c).2).nextState = some state :=
    (congrArg Fsm.nextState fsm).trans started
  rw [portPllFsm.turn_eq c next]
  change (portPllFsmBuildEvents c).2.ps.pllFsm.nextState = some state at next
  change Outcome _ _ (portPllFsm.handler state (portPllFsmBuildEvents c).1
    (portPllFsmBuildEvents c).2.ps.pllFsm.hasPendingState
    (portPllFsm.setFsm (portPllFsmBuildEvents c).2
      (portPllFsmBuildEvents c).2.ps.pllFsm.consumeState))
  generalize (portPllFsmBuildEvents c).2 = c' at fsm locked next ⊢
  let entered := { c' with ps.pllFsm := c'.ps.pllFsm.consumeState }
  refine ((pllHandler_locked state _ _ entered next ?_).and
    (pllHandler_started state _ _ entered ⟨state, next⟩)).imp (fun _ _ => trivial) ?_
  · -- no new state: the flag is the one of the last turn
    intro settled
    have same : entered = c' := by
      simp only [entered, Fsm.consumeState_settled settled]
    rw [same]
    intro set
    exact (congrArg Fsm.state fsm).trans (right (fsm ▸ settled) (locked ▸ set))
  · intro ret s ⟨ok, started⟩
    split
    next pending => exact ⟨started, fun settled => absurd (settled.symm.trans pending) Bool.false_ne_true⟩
    · exact ⟨ok, started⟩

end WrSwitch.Hal
