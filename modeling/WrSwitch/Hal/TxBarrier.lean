import WrSwitch.Hal.PortFsm

/-!
# The barrier of the TX setup

The mask of the ports whose TX setup is done is tied to the states of the TX machines; a port
passes to DONE only when all ports in use have reached WAIT_OTHER_PORTS.
-/
namespace WrSwitch.Hal

/-! ### Ports and masks -/

/-- The TX machine is in WAIT_OTHER_PORTS or DONE. -/
def Port.Arrived (ps : Port) : Prop :=
  ps.txSetupFSM.state = some .waitOtherPorts ∨ ps.txSetupFSM.state = some .done

def Port.TxDone (ps : Port) : Prop := ps.txSetupFSM.state = some .done

/-- In DONE, or about to enter it. -/
def Port.Passing (ps : Port) : Prop := ps.TxDone ∨ ps.txSetupFSM.nextState = some .done

/-- The machine of a port in use and its TX machine. The latter is started with INIT, which is
entered once, and INIT is left when it is done. -/
structure PhaseOk (ps : Port) : Prop where
  started : ∃ state, ps.fsm.nextState = some state
  fresh : ps.fsm.state = none → ps.txSetupFSM.state = none
  running : ps.fsm.state = some .init → ∃ state, ps.txSetupFSM.nextState = some state
  leaving : ps.fsm.nextState ≠ some .init → ps.TxDone
  left : ps.fsm.state ≠ none → ps.fsm.state ≠ some .init → ps.fsm.nextState ≠ some .init
  waiting : ps.txSetupFSM.state = some .waitOtherPorts →
    ps.txSetupFSM.nextState = some .waitOtherPorts ∨ ps.txSetupFSM.nextState = some .done
  finished : ps.txSetupFSM.state = some .done → ps.txSetupFSM.nextState = some .done

variable {n : Nat}

structure BarrierInv (h : HalState n) : Prop where
  phase : ∀ i, (h.ports i).inUse = true → PhaseOk (h.ports i)
  used : ∀ i, (h.ports i).inUse = true →
    h.gl.maskUsedPorts.getLsbD (h.ports i).hwIndex = true
  arrived : ∀ i, (h.ports i).inUse = true →
    h.gl.maskTxSetupDonePorts.getLsbD (h.ports i).hwIndex = true → (h.ports i).Arrived
  passed : ∀ i, (h.ports i).inUse = true → (h.ports i).Passing →
    ∀ j, (h.ports j).inUse = true → (h.ports j).Arrived
  distinct : ∀ i j, (h.ports i).inUse = true → (h.ports j).inUse = true →
    (h.ports i).hwIndex = (h.ports j).hwIndex → i = j
  small : ∀ i, (h.ports i).inUse = true → (h.ports i).hwIndex < 32
  warned : h.warned = false

private theorem hwBit_getLsbD {hwIndex bit : Nat} (small : hwIndex < 32) :
    (hwBit hwIndex).getLsbD bit = decide (bit = hwIndex) := by
  have one : (1 : Word) = BitVec.twoPow 32 0 := rfl
  rw [hwBit, BitVec.getLsbD_shiftLeft, one, BitVec.getLsbD_twoPow]
  by_cases same : bit = hwIndex
  · simp [same, small]
  · have apart : bit < hwIndex ∨ ¬0 = bit - hwIndex := by omega
    rcases apart with below | above
    · simp [below, same]
    · simp [above, same]

private theorem HalState.store_self (h : HalState n) (i : Fin n) (c : Ctx) :
    (h.store i c).ports i = c.ps := by simp [HalState.store]

/-- What one port stores is not seen in another one. -/
theorem HalState.store_other (h : HalState n) {i j : Fin n} (c : Ctx) (other : j ≠ i) :
    (h.store i c).ports j = h.ports j := by simp [HalState.store, other]

/-- The ports and the masks after a part of a run of port `i`. -/
theorem BarrierInv.update {h : HalState n} {i : Fin n} {c c' : Ctx}
    (inv : BarrierInv (h.store i c)) (inUse : c.ps.inUse = true)
    (inUse' : c'.ps.inUse = c.ps.inUse) (hwIndex : c'.ps.hwIndex = c.ps.hwIndex)
    (phase : PhaseOk c'.ps) (used : c'.gl.maskUsedPorts = c.gl.maskUsedPorts)
    (mask : ∀ bit, bit < 32 → bit ≠ c.ps.hwIndex →
      c'.gl.maskTxSetupDonePorts.getLsbD bit = true → c.gl.maskTxSetupDonePorts.getLsbD bit = true)
    (own : c'.gl.maskTxSetupDonePorts.getLsbD c.ps.hwIndex = true → c'.ps.Arrived)
    (stays : c.ps.Arrived → c'.ps.Arrived) (passes : c'.ps.Passing → c.ps.Passing ∨
      ∀ j, ((h.store i c').ports j).inUse = true → ((h.store i c').ports j).Arrived)
    (warned : c'.warned = c.warned) : BarrierInv (h.store i c') := by
  -- the update leaves the configuration of every port as it is
  have config (j : Fin n) : ((h.store i c').ports j).inUse = ((h.store i c).ports j).inUse ∧
      ((h.store i c').ports j).hwIndex = ((h.store i c).ports j).hwIndex := by
    by_cases same : j = i
    · rw [same, h.store_self, h.store_self]
      exact ⟨inUse', hwIndex⟩
    · rw [h.store_other c' same, h.store_other c same]
      exact ⟨rfl, rfl⟩
  have arrives (j : Fin n) (before : ((h.store i c).ports j).Arrived) :
      ((h.store i c').ports j).Arrived := by
    by_cases same : j = i
    · rw [same, h.store_self] at before ⊢
      exact stays before
    · rwa [h.store_other c' same, ← h.store_other c same]
  have self : ((h.store i c).ports i).inUse = true := by rwa [h.store_self]
  exact {
    phase := by
      intro j member
      by_cases same : j = i
      · rw [same, h.store_self]
        exact phase
      · have before := inv.phase j ((config j).1 ▸ member)
        rwa [h.store_other c same, ← h.store_other c' same] at before
    used := by
      intro j member
      have before := inv.used j ((config j).1 ▸ member)
      rw [(config j).2]
      exact (congrArg (BitVec.getLsbD · _) used).trans before
    arrived := by
      intro j member set
      rw [(config j).2] at set
      -- the bit of the port itself, or of another one, whose index differs
      by_cases same : j = i
      · rw [same, h.store_self] at set ⊢
        exact own set
      · have member' := (config j).1 ▸ member
        have apart : ((h.store i c).ports j).hwIndex ≠ c.ps.hwIndex := fun equal =>
          same (inv.distinct j i member' self (by rwa [h.store_self]))
        exact arrives j (inv.arrived j member' (mask _ (inv.small j member') apart set))
    passed := by
      intro j member passing k member'
      have all : (∀ k, ((h.store i c).ports k).inUse = true → ((h.store i c).ports k).Arrived) ∨
          ∀ k, ((h.store i c').ports k).inUse = true → ((h.store i c').ports k).Arrived := by
        -- the port itself passes now, or another one had passed
        by_cases same : j = i
        · rw [same, h.store_self] at passing
          refine (passes passing).imp_left fun before => ?_
          exact inv.passed i self (by rwa [h.store_self])
        · rw [h.store_other c' same, ← h.store_other c same] at passing
          exact .inl (inv.passed j ((config j).1 ▸ member) passing)
      rcases all with before | now
      · exact arrives k (before k ((config k).1 ▸ member'))
      · exact now k member'
    distinct := by
      intro j k member member' equal
      rw [(config j).2, (config k).2] at equal
      exact inv.distinct j k ((config j).1 ▸ member) ((config k).1 ▸ member') equal
    small := by
      intro j member
      rw [(config j).2]
      exact inv.small j ((config j).1 ▸ member)
    warned := warned.trans inv.warned }

/-! ### The TX machine -/

/-- What a part of the run of port `i` has to restore. -/
structure Progress (h : HalState n) (i : Fin n) (c c' : Ctx) : Prop where
  inv : BarrierInv (h.store i c')
  inUse : c'.ps.inUse = true
  stays : c.ps.Arrived → c'.ps.Arrived

theorem Progress.trans {h : HalState n} {i : Fin n} {a b c : Ctx} (first : Progress h i a b)
    (second : Progress h i b c) : Progress h i a c :=
  ⟨second.inv, second.inUse, second.stays ∘ first.stays⟩

/-- Progress keeps to the phases of the barrier. -/
theorem Progress.phase {h : HalState n} {i : Fin n} {c c' : Ctx} (progress : Progress h i c c') :
    PhaseOk c'.ps := by
  have phase := progress.inv.phase i
  rw [h.store_self] at phase
  exact phase progress.inUse

/-- While the TX machine runs, its port is in INIT. -/
structure TxRunning (h : HalState n) (i : Fin n) (c : Ctx) : Prop where
  inv : BarrierInv (h.store i c)
  inUse : c.ps.inUse = true
  fsm : c.ps.fsm = ⟨some .init, some .init⟩
  running : ∃ state, c.ps.txSetupFSM.nextState = some state

/-- The TX machine after a handler: it is in the state it had, and DONE follows on
WAIT_OTHER_PORTS only. -/
theorem PhaseOk.ofTx {ps : Port} {state next : TxSetupState}
    (fsm : ps.fsm = ⟨some .init, some .init⟩) (tx : ps.txSetupFSM = ⟨some state, some next⟩)
    (waiting : state = .waitOtherPorts → next = .waitOtherPorts ∨ next = .done)
    (finished : state = .done → next = .done) : PhaseOk ps where
  started := ⟨.init, by rw [fsm]⟩
  fresh := by simp [fsm]
  running _ := ⟨next, by rw [tx]⟩
  leaving := by simp [fsm]
  left := by simp [fsm]
  waiting current := by
    rw [tx] at current ⊢
    exact (waiting (Option.some.inj current)).imp (congrArg some) (congrArg some)
  finished current := by
    rw [tx] at current ⊢
    exact congrArg some (finished (Option.some.inj current))

/-- A part of the TX machine. -/
theorem TxRunning.change {h : HalState n} {i : Fin n} {c c' : Ctx} {state next : TxSetupState}
    (before : TxRunning h i c) (frame : TxFrame c c') (mask : ∀ bit, bit < 32 → bit ≠ c.ps.hwIndex →
      c'.gl.maskTxSetupDonePorts.getLsbD bit = true → c.gl.maskTxSetupDonePorts.getLsbD bit = true)
    (own : c'.gl.maskTxSetupDonePorts.getLsbD c.ps.hwIndex = true → c'.ps.Arrived)
    (tx : c'.ps.txSetupFSM = ⟨some state, some next⟩)
    (waiting : state = .waitOtherPorts → next = .waitOtherPorts ∨ next = .done)
    (finished : state = .done → next = .done) (stays : c.ps.Arrived → c'.ps.Arrived)
    (passes : c'.ps.Passing → c.ps.Passing ∨
      ∀ j, ((h.store i c').ports j).inUse = true → ((h.store i c').ports j).Arrived) :
    TxRunning h i c' ∧ Progress h i c c' := by
  have fsm : c'.ps.fsm = ⟨some .init, some .init⟩ := by rw [frame.ps, before.fsm]
  have inUse : c'.ps.inUse = true := by rw [frame.ps, before.inUse]
  have inv : BarrierInv (h.store i c') :=
    before.inv.update before.inUse (by rw [frame.ps]) (by rw [frame.ps])
      (.ofTx fsm tx waiting finished) (by rw [frame.gl]) mask own stays passes frame.warned
  exact ⟨⟨inv, inUse, fsm, ⟨next, by rw [tx]⟩⟩, ⟨inv, inUse, stays⟩⟩

private theorem TxRunning.ownBit {h : HalState n} {i : Fin n} {c : Ctx} (before : TxRunning h i c)
    (set : c.gl.maskTxSetupDonePorts.getLsbD c.ps.hwIndex = true) : c.ps.Arrived := by
  have arrived := before.inv.arrived i
  rw [h.store_self] at arrived
  exact arrived before.inUse set

/-- A part of the TX machine that leaves the mask alone. -/
theorem TxRunning.move {h : HalState n} {i : Fin n} {c c' : Ctx} {state next : TxSetupState}
    (before : TxRunning h i c) (frame : TxFrame c c') (gl : c'.gl = c.gl)
    (tx : c'.ps.txSetupFSM = ⟨some state, some next⟩)
    (waiting : state = .waitOtherPorts → next = .waitOtherPorts ∨ next = .done)
    (finished : state = .done → next = .done)
    (stays : c.ps.Arrived → state = .waitOtherPorts ∨ state = .done)
    (passes : state = .done ∨ next = .done → c.ps.Passing) :
    TxRunning h i c' ∧ Progress h i c c' := by
  -- a port that has arrived is in one of the last two states
  have arrives (arrived : c.ps.Arrived) : c'.ps.Arrived := by
    unfold Port.Arrived
    rw [tx]
    exact (stays arrived).imp (congrArg some) (congrArg some)
  refine before.change frame (fun _ _ _ set => by rwa [gl] at set) ?_ tx waiting finished arrives ?_
  · intro set
    rw [gl] at set
    exact arrives (before.ownBit set)
  · intro passing
    refine .inl (passes ?_)
    unfold Port.Passing Port.TxDone at passing
    rw [tx] at passing
    exact passing.imp Option.some.inj Option.some.inj

/-- The entry of the next state of the TX machine. -/
theorem TxRunning.enter {h : HalState n} {i : Fin n} {c : Ctx} {state : TxSetupState}
    (before : TxRunning h i c) (next : c.ps.txSetupFSM.nextState = some state) :
    TxRunning h i { c with ps.txSetupFSM := c.ps.txSetupFSM.consumeState } ∧
      Progress h i c { c with ps.txSetupFSM := c.ps.txSetupFSM.consumeState } := by
  have phase := Progress.phase ⟨before.inv, before.inUse, id⟩ (c := c)
  have entered : c.ps.txSetupFSM.consumeState = ⟨some state, some state⟩ :=
    congrArg₂ Fsm.mk next next
  refine before.move ⟨rfl, id, rfl, rfl, rfl⟩ rfl entered .inl id ?_ ?_
  · rintro (waiting | done)
    · have follows := phase.waiting waiting
      rw [next] at follows
      exact follows.imp Option.some.inj Option.some.inj
    · have follows := phase.finished done
      rw [next] at follows
      exact .inr (Option.some.inj follows)
  · intro done
    exact .inr (next.trans (congrArg some (done.elim id id)))

/-- A state before WAIT_OTHER_PORTS fires one that is not DONE. -/
theorem TxRunning.fire {h : HalState n} {i : Fin n} {c c' : Ctx} {state : TxSetupState}
    (next : TxSetupState) (before : TxRunning h i c) (frame : TxFrame c c') (gl : c'.gl = c.gl)
    (current : c.ps.txSetupFSM = ⟨some state, some state⟩)
    (tx : c'.ps.txSetupFSM = ⟨some state, some next⟩)
    (early : state ≠ .waitOtherPorts ∧ state ≠ .done) (later : next ≠ .done) :
    TxRunning h i c' ∧ Progress h i c c' := by
  obtain ⟨early, undone⟩ := early
  refine before.move frame gl tx (fun same => absurd same early) (fun same => absurd same undone)
    ?_ fun passing => absurd passing (not_or.mpr ⟨undone, later⟩)
  intro arrived
  unfold Port.Arrived at arrived
  rw [current] at arrived
  exact arrived.imp Option.some.inj Option.some.inj

/-- A state before DONE that waits on. -/
theorem TxRunning.wait {h : HalState n} {i : Fin n} {c c' : Ctx} {state : TxSetupState}
    (before : TxRunning h i c) (frame : TxFrame c c') (gl : c'.gl = c.gl)
    (current : c.ps.txSetupFSM = ⟨some state, some state⟩)
    (same : c'.ps.txSetupFSM = c.ps.txSetupFSM) :
    TxRunning h i c' ∧ Progress h i c c' := by
  have tx := same.trans current
  refine before.move frame gl tx .inl id ?_ fun passing => ?_
  · intro arrived
    unfold Port.Arrived at arrived
    rw [current] at arrived
    exact arrived.imp Option.some.inj Option.some.inj
  · unfold Port.Passing Port.TxDone
    rw [current]
    exact passing.imp (congrArg some) (congrArg some)

private theorem txSetupNotDone_getLsbD {c : Ctx} {bit : Nat} (small : c.ps.hwIndex < 32)
    (inside : bit < 32) :
    (txSetupNotDone c).gl.maskTxSetupDonePorts.getLsbD bit =
      (c.gl.maskTxSetupDonePorts.getLsbD bit && !decide (bit = c.ps.hwIndex)) := by
  rw [← hwBit_getLsbD small]
  simp only [txSetupNotDone, BitVec.getLsbD_and, BitVec.getLsbD_not, inside, decide_true,
    Bool.true_and]

private theorem txSetupDone_getLsbD {c : Ctx} {bit : Nat} (small : c.ps.hwIndex < 32) :
    (txSetupDone c).gl.maskTxSetupDonePorts.getLsbD bit =
      (c.gl.maskTxSetupDonePorts.getLsbD bit || decide (bit = c.ps.hwIndex)) := by
  rw [← hwBit_getLsbD small]
  simp only [txSetupDone, BitVec.getLsbD_or]

/-- A port that takes part has a bit in the mask. -/
theorem TxRunning.small {h : HalState n} {i : Fin n} {c : Ctx} (before : TxRunning h i c) :
    c.ps.hwIndex < 32 := by
  have small := before.inv.small i
  rw [h.store_self] at small
  exact small before.inUse

/-- When the masks agree, every port in use has arrived. -/
theorem BarrierInv.allArrived {h : HalState n} (inv : BarrierInv h)
    (agree : h.gl.maskUsedPorts = h.gl.maskTxSetupDonePorts) (j : Fin n)
    (inUse : (h.ports j).inUse = true) : (h.ports j).Arrived :=
  inv.arrived j inUse (agree ▸ inv.used j inUse)

/-- START clears the bit of its port and no other. -/
theorem txStart_barrier {h : HalState n} {i : Fin n} {c : Ctx} (before : TxRunning h i c)
    (current : c.ps.txSetupFSM = ⟨some .start, some .start⟩) :
    TxRunning h i (portTxSetupFsmStateStart c).2 ∧
      Progress h i c (portTxSetupFsmStateStart c).2 := by
  have frame : TxFrame c (portTxSetupFsmStateStart c).2 := by
    simpa [portTxSetupFsm, Outcome] using txHandler_frame .start () true c
  have gl : (portTxSetupFsmStateStart c).2.gl = (txSetupNotDone c).gl := by
    unfold portTxSetupFsmStateStart
    dsimp only
    split_ifs <;> rfl
  have tx : ∃ next, (portTxSetupFsmStateStart c).2.ps.txSetupFSM = ⟨some .start, some next⟩ ∧
      next ≠ .done := by
    unfold portTxSetupFsmStateStart
    dsimp only
    -- every branch fires RESET_PCS or WAIT_OTHER_PORTS
    split_ifs
    · exact ⟨.resetPcs, by simp [Ctx.fireTx, txSetupNotDone, Ctx.pollRtsState, Ctx.take, current,
        Fsm.fireState], by decide⟩
    · exact ⟨.waitOtherPorts, by simp [Ctx.fireTx, txSetupNotDone, Ctx.pollRtsState, Ctx.take,
        current, Fsm.fireState], by decide⟩
    · exact ⟨.resetPcs, by simp [Ctx.fireTx, txSetupNotDone, current, Fsm.fireState], by decide⟩
    · exact ⟨.waitOtherPorts, by simp [Ctx.fireTx, txSetupNotDone, current, Fsm.fireState],
        by decide⟩
  obtain ⟨next, tx, undone⟩ := tx
  have cleared (bit : Nat) (inside : bit < 32) := txSetupNotDone_getLsbD before.small inside
  refine before.change frame ?_ ?_ tx (by simp) (by simp) ?_ ?_
  · intro bit inside _ set
    rw [gl, cleared bit inside] at set
    exact (Bool.and_eq_true_iff.mp set).1
  · intro set
    rw [gl, cleared _ before.small] at set
    simp at set
  · unfold Port.Arrived
    simp [current]
  · unfold Port.Passing Port.TxDone
    simp [tx, undone]

/-- The entry of WAIT_OTHER_PORTS sets the bit of its port and no other. -/
theorem txSetupDone_barrier {h : HalState n} {i : Fin n} {c : Ctx} (before : TxRunning h i c)
    (current : c.ps.txSetupFSM = ⟨some .waitOtherPorts, some .waitOtherPorts⟩) :
    TxRunning h i (txSetupDone c) ∧ Progress h i c (txSetupDone c) := by
  have arrived : (txSetupDone c).ps.Arrived := .inl (congrArg Fsm.state current)
  refine before.change ⟨rfl, id, rfl, rfl, rfl⟩ ?_ (fun _ => arrived) current .inl nofun
    (fun _ => arrived) .inl
  intro bit _ other set
  rw [txSetupDone_getLsbD before.small] at set
  simpa [other] using set

private theorem txWaitOtherPorts_barrier {h : HalState n} {i : Fin n} {c : Ctx}
    (before : TxRunning h i c)
    (current : c.ps.txSetupFSM = ⟨some .waitOtherPorts, some .waitOtherPorts⟩) :
    TxRunning h i (c.fireTx .done) ∧ Progress h i c (c.fireTx .done) ∨
      txSetupDoneOnAllPorts c = false := by
  cases agree : txSetupDoneOnAllPorts c with
  | false => exact .inr rfl
  | true =>
    have arrived : (c.fireTx .done).ps.Arrived := .inl (congrArg Fsm.state current)
    have tx : (c.fireTx .done).ps.txSetupFSM = ⟨some .waitOtherPorts, some .done⟩ := by
      simp [Ctx.fireTx, current, Fsm.fireState]
    refine .inl (before.change ⟨rfl, id, rfl, rfl, rfl⟩ (fun _ _ _ => id) (fun _ => arrived) tx
      (fun _ => .inr rfl) nofun (fun _ => arrived) fun _ => .inr ?_)
    intro j inUse
    by_cases same : j = i
    · rw [same, h.store_self]
      exact arrived
    · rw [h.store_other _ same] at inUse ⊢
      -- the masks agree, so each port in use has reported
      have masks : c.gl.maskUsedPorts = c.gl.maskTxSetupDonePorts := by
        simpa [txSetupDoneOnAllPorts] using agree
      have all := before.inv.allArrived masks j
      rw [h.store_other _ same] at all
      exact all inUse

private theorem txHandler_barrier {h : HalState n} {i : Fin n} {c : Ctx} (state : TxSetupState)
    (evts : Unit) (isNewState : Bool) (before : TxRunning h i c)
    (current : c.ps.txSetupFSM = ⟨some state, some state⟩) :
    Outcome (Progress h i c)
      (fun ret c' => (TxRunning h i c' ∧ Progress h i c c') ∧ (ret = 1 → c'.ps.TxDone))
      (portTxSetupFsm.handler state evts isNewState c) := by
  have notOne {P : Prop} : (0 : Int) = 1 → P := fun same => absurd same (by decide)
  have fired (next : TxSetupState) :
      (c.ps.txSetupFSM.fireState next) = ⟨some state, some next⟩ := by
    rw [current]
    rfl
  -- the states before WAIT_OTHER_PORTS leave the mask alone
  cases state with
  | start =>
    have zero : (portTxSetupFsmStateStart c).1 = 0 := by
      unfold portTxSetupFsmStateStart
      dsimp only
      split_ifs <;> rfl
    exact ⟨txStart_barrier before current, fun one => notOne (zero.symm.trans one)⟩
  | resetPcs =>
    exact ⟨before.fire .waitLock ⟨rfl, id, rfl, rfl, rfl⟩ rfl current (fired _) (by decide)
      (by decide), notOne⟩
  | waitLock =>
    simp only [portTxSetupFsm, portTxSetupFsmStateWaitLock]
    split
    · exact ⟨before.wait ⟨rfl, id, rfl, rfl, rfl⟩ rfl current rfl, notOne⟩
    · split_ifs
      · exact ⟨before.fire .measurePhase ⟨rfl, id, rfl, rfl, rfl⟩ rfl current (fired _)
          (by decide) (by decide), notOne⟩
      · exact ⟨before.wait ⟨rfl, id, rfl, rfl, rfl⟩ rfl current rfl, notOne⟩
  | measurePhase =>
    simp only [portTxSetupFsm, portTxSetupFsmStateMeasurePhase]
    split_ifs
    · exact ⟨before.fire .validate ⟨rfl, id, rfl, rfl, rfl⟩ rfl current (fired _)
        (by decide) (by decide), notOne⟩
    · exact ⟨before.fire .resetPcs ⟨rfl, id, rfl, rfl, rfl⟩ rfl current (fired _)
        (by decide) (by decide), notOne⟩
    · exact ⟨before.fire .resetPcs ⟨rfl, id, rfl, rfl, rfl⟩ rfl current (fired _)
        (by decide) (by decide), notOne⟩
    · exact ⟨before.wait ⟨rfl, id, rfl, rfl, rfl⟩ rfl current rfl, notOne⟩
  | validate =>
    simp only [portTxSetupFsm, portTxSetupFsmStateValidate]
    split_ifs
    · exact ⟨before.fire .waitOtherPorts ⟨rfl, id, rfl, rfl, rfl⟩ rfl current (fired _)
        (by decide) (by decide), notOne⟩
    · exact ⟨before.wait ⟨rfl, id, rfl, rfl, rfl⟩ rfl current rfl, notOne⟩
  | waitOtherPorts =>
    -- the entry of WAIT_OTHER_PORTS sets the bit of the port
    have entered : ∃ c₁ : Ctx, (if isNewState then txSetupDone c else c) = c₁ ∧
        (TxRunning h i c₁ ∧ Progress h i c c₁) ∧
        c₁.ps.txSetupFSM = ⟨some .waitOtherPorts, some .waitOtherPorts⟩ := by
      cases isNewState with
      | true => exact ⟨_, rfl, txSetupDone_barrier before current, current⟩
      | false => exact ⟨_, rfl, ⟨before, before.inv, before.inUse, id⟩, current⟩
    obtain ⟨c₁, start, ⟨running, progress⟩, current₁⟩ := entered
    simp only [portTxSetupFsm, portTxSetupFsmStateWaitOtherPorts, start]
    split
    next agree =>
      obtain ⟨running', progress'⟩ :=
        (txWaitOtherPorts_barrier running current₁).resolve_right (by simp [agree])
      exact ⟨⟨running', progress.trans progress'⟩, notOne⟩
    · exact ⟨⟨running, progress⟩, notOne⟩
  | done =>
    exact ⟨before.wait (.refl c) rfl current rfl, fun _ => congrArg Fsm.state current⟩

/-- A run of the TX machine: it returns 1 in DONE only. -/
theorem halPortTxSetupFsmRun_barrier {h : HalState n} {i : Fin n} (fuel : Nat) {c : Ctx}
    (before : TxRunning h i c) :
    Outcome (Progress h i c)
      (fun ret c' => (TxRunning h i c' ∧ Progress h i c c') ∧ (ret = 1 → c'.ps.TxDone))
      (halPortTxSetupFsmRun fuel c) := by
  unfold halPortTxSetupFsmRun
  rw [if_pos before.inUse]
  refine fsmGenericRun_rule portTxSetupFsm (fun c' => TxRunning h i c' ∧ Progress h i c c')
    (fun _ both => both.2) ?_ fuel c ⟨before, before.inv, before.inUse, id⟩
  intro s ⟨running, progress⟩
  obtain ⟨state, next⟩ := running.running
  rw [portTxSetupFsm.turn_eq s next]
  -- entering the pending state is one change, the handler is the other
  obtain ⟨running₁, progress₁⟩ := running.enter next
  refine (txHandler_barrier state () s.ps.txSetupFSM.hasPendingState running₁
    (congrArg₂ Fsm.mk next next)).imp (fun s' handled => (progress.trans progress₁).trans handled) ?_
  intro ret s' ⟨⟨running', progress'⟩, one⟩
  have all := (progress.trans progress₁).trans progress'
  split
  · exact ⟨running', all⟩
  · exact ⟨⟨running', all⟩, one⟩

/-! ### The machine of the port -/

/-- What the states after INIT do to a port whose TX setup is done. -/
structure Beyond (c c' : Ctx) : Prop where
  inUse : c'.ps.inUse = c.ps.inUse
  hwIndex : c'.ps.hwIndex = c.ps.hwIndex
  tx : c'.ps.txSetupFSM = c.ps.txSetupFSM
  gl : c'.gl = c.gl
  warned : c'.warned = c.warned
  fsm : ∃ state next, c'.ps.fsm = ⟨some state, some next⟩ ∧ state ≠ .init ∧ next ≠ .init

/-- A part of a run that leaves the TX machine and the masks alone. -/
theorem BarrierInv.aside {h : HalState n} {i : Fin n} {c c' : Ctx}
    (inv : BarrierInv (h.store i c)) (inUse : c.ps.inUse = true)
    (inUse' : c'.ps.inUse = c.ps.inUse) (hwIndex : c'.ps.hwIndex = c.ps.hwIndex)
    (tx : c'.ps.txSetupFSM = c.ps.txSetupFSM) (gl : c'.gl = c.gl) (warned : c'.warned = c.warned)
    (phase : PhaseOk c'.ps) : Progress h i c c' := by
  have arrived : c'.ps.Arrived ↔ c.ps.Arrived := by
    unfold Port.Arrived
    rw [tx]
  have passing : c'.ps.Passing ↔ c.ps.Passing := by
    unfold Port.Passing Port.TxDone
    rw [tx]
  have own := inv.arrived i
  rw [h.store_self] at own
  refine ⟨inv.update inUse inUse' hwIndex phase (by rw [gl]) (fun _ _ _ set => by rwa [gl] at set)
    ?_ arrived.mpr (fun now => .inl (passing.mp now)) warned, inUse'.trans inUse, arrived.mpr⟩
  intro set
  rw [gl] at set
  exact arrived.mpr (own inUse set)

/-- A port that has passed the barrier stays behind it. -/
theorem BarrierInv.beyond {h : HalState n} {i : Fin n} {c c' : Ctx}
    (inv : BarrierInv (h.store i c)) (inUse : c.ps.inUse = true) (done : c.ps.TxDone)
    (beyond : Beyond c c') : Progress h i c c' ∧ c'.ps.TxDone := by
  obtain ⟨state, next, fsm, left, leaves⟩ := beyond.fsm
  have phase := Progress.phase ⟨inv, inUse, id⟩ (c := c)
  have done' : c'.ps.TxDone := by
    unfold Port.TxDone
    rw [beyond.tx]
    exact done
  refine ⟨inv.aside inUse beyond.inUse beyond.hwIndex beyond.tx beyond.gl beyond.warned ?_, done'⟩
  exact {
    started := ⟨next, by rw [fsm]⟩
    fresh := by simp [fsm]
    running := by simp [fsm, left]
    leaving := fun _ => done'
    left := by simp [fsm, leaves]
    waiting := by
      rw [beyond.tx]
      exact phase.waiting
    finished := by
      rw [beyond.tx]
      exact phase.finished }

theorem Beyond.refl {c : Ctx} {state : PortState} (fsm : c.ps.fsm = ⟨some state, some state⟩)
    (left : state ≠ .init) : Beyond c c :=
  ⟨rfl, rfl, rfl, rfl, rfl, state, state, fsm, left, left⟩

theorem Beyond.trans {a b c : Ctx} (first : Beyond a b) (second : Beyond b c) : Beyond a c :=
  ⟨second.inUse.trans first.inUse, second.hwIndex.trans first.hwIndex, second.tx.trans first.tx,
    second.gl.trans first.gl, second.warned.trans first.warned, second.fsm⟩

/-- A handler fires a state. -/
theorem Beyond.fire {c c' : Ctx} (next : PortState) (before : Beyond c c') (leaves : next ≠ .init) :
    Beyond c (c'.firePort next) := by
  obtain ⟨state, _, fsm, left, _⟩ := before.fsm
  exact ⟨before.inUse, before.hwIndex, before.tx, before.gl, before.warned, state, next,
    by simp [Ctx.firePort, fsm, Fsm.fireState], left, leaves⟩

private theorem portFsmStateDisabled_beyond (evts : PortEvents) (isNewState : Bool) (c : Ctx)
    (fsm : c.ps.fsm = ⟨some .disabled, some .disabled⟩) :
    Beyond c (portFsmStateDisabled evts isNewState c).2 := by
  have reset : Beyond c (if isNewState then resetPort c else c) := by
    split
    · exact ⟨rfl, rfl, rfl, rfl, rfl, _, _, fsm, nofun, nofun⟩
    · exact .refl fsm nofun
  unfold portFsmStateDisabled
  dsimp only
  split
  · exact reset.fire .linkDown nofun
  · exact reset

/-- The RX machine does not take a port back. -/
theorem RxFrame.beyond {c c' : Ctx} {state : PortState} (frame : RxFrame c c')
    (fsm : c.ps.fsm = ⟨some state, some state⟩) (left : state ≠ .init) (done : c.ps.TxDone) :
    Beyond c c' where
  inUse := by rw [frame.ps]
  hwIndex := by rw [frame.ps]
  tx := by rw [frame.ps]
  gl := frame.gl
  warned := frame.warned done
  fsm := ⟨state, state, by rw [frame.ps, fsm], left, left⟩

private theorem portFsmStateLinkDown_beyond (fuel : Nat) (evts : PortEvents) (isNewState : Bool)
    (c : Ctx) (fsm : c.ps.fsm = ⟨some .linkDown, some .linkDown⟩) (done : c.ps.TxDone) :
    Outcome (Beyond c) (fun _ => Beyond c) (portFsmStateLinkDown fuel evts isNewState c) := by
  have same : Beyond c c := .refl fsm nofun
  unfold portFsmStateLinkDown
  split
  · exact same.fire .disabled nofun
  split
  · exact same.fire .disabled nofun
  have ready : ∃ c₁ : Ctx, (if isNewState then halPortRxSetupFsmInit (resetPort c) else c) = c₁ ∧
      Beyond c c₁ ∧ c₁.ps.fsm = ⟨some .linkDown, some .linkDown⟩ ∧ c₁.ps.TxDone := by
    cases isNewState with
    | true => exact ⟨_, rfl, ⟨rfl, rfl, rfl, rfl, rfl, _, _, fsm, nofun, nofun⟩, fsm, done⟩
    | false => exact ⟨c, rfl, same, fsm, done⟩
  obtain ⟨c₁, start, before, fsm₁, done₁⟩ := ready
  simp only [start]
  -- the RX machine finds the TX setup done
  refine Outcome.bind ((halPortRxSetupFsmRun_frame fuel c₁).imp
    (fun _ frame => before.trans (frame.beyond fsm₁ nofun done₁))
    fun _ _ frame => before.trans (frame.beyond fsm₁ nofun done₁)) ?_
  intro ret c' ran
  have aside {c'' : Ctx} (calib : c'' = { c' with ps.calib := c''.ps.calib, taken := c''.taken }) :
      Beyond c c'' := by
    rw [calib]
    exact ⟨ran.inUse, ran.hwIndex, ran.tx, ran.gl, ran.warned, ran.fsm⟩
  dsimp only
  split
  · split
    · exact (aside rfl).fire .linkUp nofun
    · exact aside rfl
  · exact ran

private theorem portFsmStateLinkUp_beyond (fuel : Nat) (evts : PortEvents) (isNewState : Bool)
    (c : Ctx) (fsm : c.ps.fsm = ⟨some .linkUp, some .linkUp⟩) :
    Outcome (Beyond c) (fun _ => Beyond c) (portFsmStateLinkUp fuel evts isNewState c) := by
  -- the LPDC check at most fires LINK_DOWN
  have checked : Beyond c (lpdcCheck evts c) := by
    have same : Beyond c c := .refl fsm nofun
    unfold lpdcCheck
    dsimp only
    split_ifs
    · exact (same.fire .linkDown nofun).fire .linkDown nofun
    · exact same.fire .linkDown nofun
    · exact same.fire .linkDown nofun
    · exact same
  unfold portFsmStateLinkUp
  dsimp only
  split
  · exact checked.fire .disabled nofun
  split
  · exact checked.fire .disabled nofun
  split
  · exact checked.fire .linkDown nofun
  have ready : ∃ c₁ : Ctx,
      (if isNewState then halPortPllFsmInit (lpdcCheck evts c) else lpdcCheck evts c) = c₁ ∧
      Beyond c c₁ := by
    cases isNewState with
    | true =>
      exact ⟨_, rfl, checked.inUse, checked.hwIndex, checked.tx, checked.gl, checked.warned,
        checked.fsm⟩
    | false => exact ⟨_, rfl, checked⟩
  obtain ⟨c₁, start, before⟩ := ready
  simp only [start]
  -- the PLL machine touches nothing of the barrier
  have after {c' : Ctx} (frame : PllFrame c₁ c') : Beyond c c' := by
    obtain ⟨state, next, fsm₁, left, leaves⟩ := before.fsm
    exact before.trans ⟨by rw [frame.ps], by rw [frame.ps], by rw [frame.ps], frame.gl,
      frame.warned, state, next, by rw [frame.ps, fsm₁], left, leaves⟩
  exact Outcome.bind ((halPortPllFsmRun_frame fuel c₁).imp (fun _ => after) fun _ _ => after)
    fun _ _ ran => ran

/-! ### Runs of one port -/

/-- INIT is entered from the start only, so the TX machine is started once. -/
theorem PhaseOk.enterInit {ps : Port} (phase : PhaseOk ps) (next : ps.fsm.nextState = some .init)
    (pending : ps.fsm.hasPendingState = true) : ps.txSetupFSM.state = none := by
  have other := (Fsm.hasPendingState_iff _).mp pending
  rw [next] at other
  by_contra running
  exact phase.left (fun fresh => running (phase.fresh fresh)) other next

/-- The port in INIT, with the TX machine just started or going on. -/
theorem txStarted {h : HalState n} {i : Fin n} {c e : Ctx} (isNewState : Bool)
    (inv : BarrierInv (h.store i c)) (inUse : c.ps.inUse = true)
    (same : e.ps.inUse = c.ps.inUse ∧ e.ps.hwIndex = c.ps.hwIndex ∧
      e.ps.txSetupFSM = c.ps.txSetupFSM ∧ e.gl = c.gl ∧ e.warned = c.warned)
    (fsm : e.ps.fsm = ⟨some .init, some .init⟩)
    (fresh : isNewState = true → c.ps.txSetupFSM.state = none)
    (running : isNewState = false → ∃ state, c.ps.txSetupFSM.nextState = some state) :
    TxRunning h i (if isNewState then halPortTxSetupFsmInit (initPort e) else e) ∧
      Progress h i c (if isNewState then halPortTxSetupFsmInit (initPort e) else e) := by
  obtain ⟨sameUse, hwIndex, tx, gl, warned⟩ := same
  have phase := Progress.phase ⟨inv, inUse, id⟩ (c := c)
  cases isNewState with
  | true =>
    have started : (halPortTxSetupFsmInit (initPort e)).ps.txSetupFSM = ⟨none, some .start⟩ := rfl
    have fsm' : (halPortTxSetupFsmInit (initPort e)).ps.fsm = ⟨some .init, some .init⟩ := fsm
    -- before its start the TX machine has not arrived
    have away : ¬c.ps.Arrived := by
      unfold Port.Arrived
      simp [fresh rfl]
    have own := inv.arrived i
    rw [h.store_self] at own
    have inv' : BarrierInv (h.store i (halPortTxSetupFsmInit (initPort e))) := by
      refine inv.update inUse sameUse hwIndex ?_ (congrArg _ gl) (fun bit _ _ set => ?_)
        (fun set => ?_) (fun arrived => absurd arrived away) ?_ warned
      · exact {
          started := ⟨.init, by rw [fsm']⟩
          fresh := by simp [fsm']
          running := fun _ => ⟨.start, by rw [started]⟩
          leaving := by simp [fsm']
          left := by simp [fsm']
          waiting := by simp [started]
          finished := by simp [started] }
      · change e.gl.maskTxSetupDonePorts.getLsbD bit = true at set
        rwa [gl] at set
      · change e.gl.maskTxSetupDonePorts.getLsbD c.ps.hwIndex = true at set
        rw [gl] at set
        exact absurd (own inUse set) away
      · unfold Port.Passing Port.TxDone
        simp [started]
    exact ⟨⟨inv', sameUse.trans inUse, fsm', .start, rfl⟩, inv', sameUse.trans inUse,
      fun arrived => absurd arrived away⟩
  | false =>
    obtain ⟨state, next⟩ := running rfl
    have next' : e.ps.txSetupFSM.nextState = some state := by rw [tx, next]
    have progress : Progress h i c e := by
      refine inv.aside inUse sameUse hwIndex tx gl warned ?_
      exact {
        started := ⟨.init, by rw [fsm]⟩
        fresh := by simp [fsm]
        running := fun _ => ⟨state, next'⟩
        leaving := by simp [fsm]
        left := by simp [fsm]
        waiting := by
          rw [tx]
          exact phase.waiting
        finished := by
          rw [tx]
          exact phase.finished }
    exact ⟨⟨progress.inv, progress.inUse, fsm, state, next'⟩, progress⟩

private theorem portFsmStateInit_barrier {h : HalState n} {i : Fin n} (fuel : Nat) {c e : Ctx}
    (isNewState : Bool)
    (start : TxRunning h i (if isNewState then halPortTxSetupFsmInit (initPort e) else e) ∧
      Progress h i c (if isNewState then halPortTxSetupFsmInit (initPort e) else e)) :
    Outcome (Progress h i c) (fun _ => Progress h i c) (portFsmStateInit fuel isNewState e) := by
  unfold portFsmStateInit
  dsimp only
  obtain ⟨running, progress⟩ := start
  refine Outcome.bind ((halPortTxSetupFsmRun_barrier fuel running).imp
    (fun _ => progress.trans) fun _ _ => id) ?_
  intro ret c' ⟨⟨running', ran⟩, one⟩
  dsimp only
  split
  next done =>
    -- all ports have arrived, so this one may leave INIT
    have phase := ran.phase
    refine progress.trans (ran.trans (running'.inv.aside running'.inUse rfl rfl rfl rfl rfl ?_))
    have fsm : (c'.firePort .disabled).ps.fsm = ⟨some .init, some .disabled⟩ := by
      simp [Ctx.firePort, running'.fsm, Fsm.fireState]
    exact {
      started := ⟨.disabled, by rw [fsm]⟩
      fresh := by simp [fsm]
      running := fun _ => running'.running
      leaving := fun _ => one done
      left := by simp [fsm]
      waiting := phase.waiting
      finished := phase.finished }
  · exact progress.trans ran

private theorem portFsm_turn_barrier {h : HalState n} {i : Fin n} (fuel : Nat) {c : Ctx}
    (inv : BarrierInv (h.store i c)) (inUse : c.ps.inUse = true) :
    Outcome (Progress h i c) (fun _ => Progress h i c) ((portFsm fuel).turn c) := by
  obtain ⟨gl, warned⟩ := portFsmBuildEvents_rest c
  have ps := portFsmBuildEvents_ps c
  have phase := Progress.phase ⟨inv, inUse, id⟩ (c := c)
  obtain ⟨state, started⟩ := phase.started
  rw [portFsm_turn_eq fuel c started]
  let e : Ctx := { (portFsmBuildEvents c).2 with ps.fsm := c.ps.fsm.consumeState }
  have entered : e.ps.fsm = ⟨some state, some state⟩ := congrArg₂ Fsm.mk started started
  have same : e.ps.inUse = c.ps.inUse ∧ e.ps.hwIndex = c.ps.hwIndex ∧
      e.ps.txSetupFSM = c.ps.txSetupFSM ∧ e.gl = c.gl ∧ e.warned = c.warned := by
    refine ⟨?_, ?_, ?_, gl, warned⟩ <;> simp [e, ps]
  change Outcome _ _ ((portFsm fuel).handler state _ _ e)
  -- only INIT runs the TX machine; in the other states it is done
  by_cases first : state = .init
  · subst first
    refine portFsmStateInit_barrier fuel _ (txStarted _ inv inUse same entered
      (phase.enterInit started) fun settled => ?_)
    have current := (Fsm.not_hasPendingState_iff _).mp settled
    exact phase.running (current.trans started)
  · have done : c.ps.TxDone := phase.leaving (by
      rw [started]
      exact fun equal => first (Option.some.inj equal))
    obtain ⟨enters, done'⟩ := inv.beyond inUse done
      ⟨same.1, same.2.1, same.2.2.1, same.2.2.2.1, same.2.2.2.2, state, state, entered, first, first⟩
    have follow {c' : Ctx} (beyond : Beyond e c') : Progress h i c c' :=
      enters.trans (enters.inv.beyond enters.inUse done' beyond).1
    cases state with
    | init => exact absurd rfl first
    | disabled => exact follow (portFsmStateDisabled_beyond _ _ e entered)
    | linkDown =>
      exact (portFsmStateLinkDown_beyond fuel _ _ e entered done').imp (fun _ => follow)
        fun _ _ => follow
    | linkUp =>
      exact (portFsmStateLinkUp_beyond fuel _ _ e entered).imp (fun _ => follow) fun _ _ => follow

private theorem portFsm_run_barrier {h : HalState n} {i : Fin n} (fuel fuel' : Nat) {c : Ctx}
    (inv : BarrierInv (h.store i c)) (inUse : c.ps.inUse = true) :
    Outcome (Progress h i c) (fun _ => Progress h i c) (fsmGenericRun (portFsm fuel) fuel' c) := by
  refine fsmGenericRun_rule (portFsm fuel) (Progress h i c) (fun _ => id) ?_ fuel' c
    ⟨inv, inUse, id⟩
  intro s progress
  refine (portFsm_turn_barrier fuel progress.inv progress.inUse).imp (fun _ => progress.trans) ?_
  intro ret s' turned
  rw [ite_self]
  exact progress.trans turned

/-! ### The daemon -/

/-- The state a run has reached, whether it returned or was stopped. -/
def reached : Except (HalState n) (HalState n) → HalState n
  | .error h => h
  | .ok h => h

private theorem HalState.store_ctx (h : HalState n) (i : Fin n) : h.store i (h.ctx i) = h := by
  simp [HalState.store, HalState.ctx]

/-- What steps of the daemon do: the invariant holds, and who has arrived stays there. -/
structure Advance (h h' : HalState n) : Prop where
  inv : BarrierInv h'
  inUse : ∀ j, (h'.ports j).inUse = (h.ports j).inUse
  stays : ∀ j, (h.ports j).Arrived → (h'.ports j).Arrived

theorem Advance.refl {h : HalState n} (inv : BarrierInv h) : Advance h h :=
  ⟨inv, fun _ => rfl, fun _ => id⟩

theorem Advance.trans {a b c : HalState n} (first : Advance a b) (second : Advance b c) :
    Advance a c :=
  ⟨second.inv, fun j => (second.inUse j).trans (first.inUse j),
    fun j arrived => second.stays j (first.stays j arrived)⟩

/-- The progress of one port is an advance of all. -/
theorem Progress.advance {h : HalState n} {i : Fin n} {c : Ctx} (inUse : (h.ports i).inUse = true)
    (progress : Progress h i (h.ctx i) c) : Advance h (h.store i c) where
  inv := progress.inv
  inUse j := by
    by_cases same : j = i
    · rw [same, h.store_self, inUse, progress.inUse]
    · rw [h.store_other c same]
  stays j arrived := by
    by_cases same : j = i
    · rw [same, h.store_self]
      exact progress.stays (same ▸ arrived)
    · rwa [h.store_other c same]

/-- A step that records events of a port in use. -/
theorem record_progress {h : HalState n} {i : Fin n} (inv : BarrierInv h)
    (inUse : (h.ports i).inUse = true) (sfpPresent evtReset evtLock : Bool) (evtLinkUp : Int)
    (evtPowerDown : Bool) (taken : Nat) :
    Progress h i (h.ctx i)
      { h.ctx i with
        ps := { h.ports i with sfpPresent, evtReset, evtLock, evtLinkUp, evtPowerDown }
        taken := taken } := by
  have phase := inv.phase i inUse
  refine BarrierInv.aside ?_ inUse rfl rfl rfl rfl rfl ?_
  · rwa [h.store_ctx]
  · exact ⟨phase.started, phase.fresh, phase.running, phase.leaving, phase.left, phase.waiting,
      phase.finished⟩

/-- A step that records events of a port in use and runs its machine. -/
theorem runPort_barrier (fuel : Nat) {h g : HalState n} {i : Fin n} {c : Ctx}
    (recorded : g = h.store i c) (inUse : (h.ports i).inUse = true)
    (before : Progress h i (h.ctx i) c) : Advance h (reached (runPort fuel g i)) := by
  have ctx : g.ctx i = c := by simp [recorded, HalState.store, HalState.ctx]
  have store (c' : Ctx) : g.store i c' = h.store i c' := by
    simp [recorded, HalState.store]
  have ran := portFsm_run_barrier fuel fuel before.inv before.inUse
  unfold runPort
  rw [ctx]
  split
  next c' result =>
    rw [result] at ran
    rw [store]
    exact (before.trans ran).advance inUse
  next ret c' result =>
    rw [result] at ran
    rw [store]
    exact (before.trans ran).advance inUse

private theorem halStep_barrier (fuel : Nat) {h : HalState n} (op : HalOp n) (inv : BarrierInv h) :
    Advance h (reached (halStep fuel h op)) := by
  -- only netlink and the periodic poll run the machine of a port
  cases op with
  | sfp i present =>
    simp only [halStep, reached]
    split
    next inUse => exact (record_progress inv inUse present _ _ _ _ _).advance inUse
    · exact .refl inv
  | reset i =>
    simp only [halStep, reached]
    split
    next inUse => exact (record_progress inv inUse _ true _ _ _ _).advance inUse
    · exact .refl inv
  | startLock i =>
    simp only [halStep, reached]
    split
    next inUse => exact (record_progress inv inUse _ _ true _ _ _).advance inUse
    · exact .refl inv
  | pollRts =>
    exact ⟨⟨inv.phase, inv.used, inv.arrived, inv.passed, inv.distinct, inv.small, inv.warned⟩,
      fun _ => rfl, fun _ => id⟩
  | netlink i running =>
    simp only [halStep]
    generalize (if running then (1 : Int) else 0) = newState
    split
    · exact .refl inv
    next changed =>
      have inUse : (h.ports i).inUse = true := by
        simpa using (not_or.mp changed).1
      exact runPort_barrier fuel rfl inUse (record_progress inv inUse _ _ _ newState _ _)
  | periodic i =>
    simp only [halStep]
    split
    next inUse =>
      exact runPort_barrier fuel rfl inUse (record_progress inv inUse _ _ _ _ _ _)
    · exact .refl inv

private theorem halRun_barrier (fuel : Nat) (ops : List (HalOp n)) {h : HalState n}
    (inv : BarrierInv h) :
    Advance h (reached (halRun fuel h ops)) := by
  induction ops generalizing h with
  | nil => exact .refl inv
  | cons op ops ih =>
    have step := halStep_barrier fuel op inv
    have unfolded : halRun fuel h (op :: ops) = halStep fuel h op >>= fun h => halRun fuel h ops :=
      rfl
    rw [unfolded]
    cases result : halStep fuel h op with
    | error h' =>
      rw [result] at step
      exact step
    | ok h' =>
      rw [result] at step
      exact step.trans (ih step.inv)

/-! ### The start of the daemon -/

private theorem usedMask_getLsbD (cfg : Fin n → PortConfig) {i : Fin n}
    (small : (cfg i).hwIndex < 32) (ports : List (Fin n)) (mask : Word)
    (member : i ∈ ports ∨ mask.getLsbD (cfg i).hwIndex = true) :
    (ports.foldl (fun mask i => mask ||| hwBit (cfg i).hwIndex) mask).getLsbD (cfg i).hwIndex =
      true := by
  induction ports generalizing mask with
  | nil => exact member.resolve_left List.not_mem_nil
  | cons j ports ih =>
    rw [List.foldl_cons]
    refine ih _ ?_
    rw [BitVec.getLsbD_or]
    rcases member with member | set
    · rcases List.mem_cons.mp member with rfl | later
      · exact .inr (by simp [hwBit_getLsbD small])
      · exact .inl later
    · exact .inr (by simp [set])

private theorem halInit_barrier (cfg : Fin n → PortConfig) (rts : Option RtsPllState)
    (readings : Nat → Reading) (distinct : ∀ i j, (cfg i).inUse = true → (cfg j).inUse = true →
      (cfg i).hwIndex = (cfg j).hwIndex → i = j)
    (small : ∀ i, (cfg i).inUse = true → (cfg i).hwIndex < 32) :
    BarrierInv (halInit cfg rts readings) := by
  have tx (i : Fin n) (inUse : (cfg i).inUse = true) :
      ((halInit cfg rts readings).ports i).txSetupFSM = ⟨none, none⟩ := if_pos inUse
  have fsm (i : Fin n) (inUse : (cfg i).inUse = true) :
      ((halInit cfg rts readings).ports i).fsm = ⟨none, some .init⟩ := if_pos inUse
  exact {
    phase := by
      intro i inUse
      exact {
        started := ⟨.init, by rw [fsm i inUse]⟩
        fresh := by simp [tx i inUse]
        running := by simp [fsm i inUse]
        leaving := by simp [fsm i inUse]
        left := by simp [fsm i inUse]
        waiting := by simp [tx i inUse]
        finished := by simp [tx i inUse] }
    used := fun i inUse => usedMask_getLsbD cfg (small i inUse) _ 0
      (.inl (List.mem_filter.mpr ⟨List.mem_finRange i, inUse⟩))
    -- no bit is set at the start
    arrived := by
      intro i inUse set
      exact absurd set (by simp [halInit])
    passed := by
      intro i inUse passing
      unfold Port.Passing Port.TxDone at passing
      rw [tx i inUse] at passing
      exact absurd passing (by simp)
    distinct := distinct
    small := small
    warned := rfl }

private theorem halRun_append_reached (fuel : Nat) {h : HalState n} (ops ops' : List (HalOp n))
    (inv : BarrierInv h) :
    Advance (reached (halRun fuel h ops)) (reached (halRun fuel h (ops ++ ops'))) := by
  have first := halRun_barrier fuel ops inv
  rw [halRun_append]
  cases result : halRun fuel h ops with
  | error h' =>
    rw [result] at first
    exact .refl first.inv
  | ok h' =>
    rw [result] at first
    exact halRun_barrier fuel ops' first.inv

/-- However the ports are run, none is in DONE, or out of INIT, before all ports in use have
reached WAIT_OTHER_PORTS; from then on none is ever in an earlier state; and the RX machines
never start before the TX setup of their port is done. -/
theorem tx_barrier (cfg : Fin n → PortConfig)
    (distinct : ∀ i j, (cfg i).inUse = true → (cfg j).inUse = true →
      (cfg i).hwIndex = (cfg j).hwIndex → i = j)
    (small : ∀ i, (cfg i).inUse = true → (cfg i).hwIndex < 32)
    (rts : Option RtsPllState) (readings : Nat → Reading) (fuel : Nat) (ops ops' : List (HalOp n)) :
    let h := reached (halRun fuel (halInit cfg rts readings) ops)
    let h' := reached (halRun fuel (halInit cfg rts readings) (ops ++ ops'))
    (∀ i, (cfg i).inUse = true →
      (h.ports i).TxDone ∨ ((h.ports i).fsm.state ≠ none ∧ (h.ports i).fsm.state ≠ some .init) →
      ∀ j, (cfg j).inUse = true → (h.ports j).Arrived ∧ (h'.ports j).Arrived) ∧
    h.warned = false := by
  intro h h'
  have start := halInit_barrier cfg rts readings distinct small
  have before : Advance _ h := halRun_barrier fuel ops start
  have after : Advance h h' := halRun_append_reached fuel ops ops' start
  have used (i : Fin n) (inUse : (cfg i).inUse = true) : (h.ports i).inUse = true :=
    (before.inUse i).trans inUse
  refine ⟨?_, before.inv.warned⟩
  intro i inUse passed j inUse'
  -- a port that has left INIT has a finished TX machine
  have done : (h.ports i).TxDone := by
    rcases passed with done | ⟨started, left⟩
    · exact done
    · have phase := before.inv.phase i (used i inUse)
      exact phase.leaving (phase.left started left)
  have arrived := before.inv.passed i (used i inUse) (.inl done) j (used j inUse')
  exact ⟨arrived, after.stays j arrived⟩

/-- A port with LPDC and one without. -/
def twoPorts (i : Fin 2) : PortConfig := ⟨true, i.val, i.val = 0, none, some 0, some false⟩

/-- The port without LPDC has passed the barrier, so the other one has arrived. -/
theorem tx_barrier_two :
    ((reached (halRun 16 (halInit twoPorts none fun _ => ⟨some 8, true, true, 750, none⟩)
      [.periodic 0, .periodic 1])).ports 0).Arrived :=
  ((tx_barrier twoPorts (by decide) (by decide) none (fun _ => ⟨some 8, true, true, 750, none⟩) 16
    [.periodic 0, .periodic 1] []).1 1 rfl (.inl rfl) 0 rfl).1

end WrSwitch.Hal
