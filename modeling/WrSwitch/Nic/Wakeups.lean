import WrSwitch.Nic.PacketPaths

/-!
# No received frame is forgotten

The handler acknowledges the interrupt before it schedules the tasklet, and the tasklet enables
it after its last look at the ring: a frame that comes in between is noticed.
-/
namespace WrSwitch.Nic

open Machine

/-! ### Interrupt bits -/

private theorem twoPow_iff (w : Word) {k : Nat} (inside : k < 32) :
    w &&& BitVec.twoPow 32 k ≠ 0 ↔ w.getLsbD k = true := by
  rw [BitVec.and_twoPow]
  cases bit : w.getLsbD k with
  | false => simp
  | true =>
    refine iff_of_true (fun zero => ?_) rfl
    have low := congrArg (fun v => v.getLsbD k) zero
    simp [inside] at low

private theorem nicEic_bits : nicEicRcomp = BitVec.twoPow 32 0 ∧ nicEicTcomp = BitVec.twoPow 32 1 ∧
    nicEicTxerr = BitVec.twoPow 32 2 := by decide

private theorem rcomp_iff (w : Word) : w &&& nicEicRcomp ≠ 0 ↔ w.getLsbD 0 = true := by
  rw [nicEic_bits.1, twoPow_iff w (by decide)]

private theorem getLsbD_bit {k : Nat} (inside : k < 32) (j : Nat) :
    (BitVec.twoPow 32 k).getLsbD j = decide (j = k) := by
  rw [BitVec.getLsbD_twoPow, decide_eq_true inside, Bool.true_and]
  exact decide_eq_decide.mpr eq_comm

/-- An acknowledgement clears its bit only. -/
theorem ack_bit (s : IrqSide) {k : Nat} (inside : k < 32) (j : Nat) :
    (s.ack (BitVec.twoPow 32 k)).isr.getLsbD j = (s.isr.getLsbD j && !decide (j = k)) := by
  rw [IrqSide.ack, BitVec.getLsbD_and, BitVec.getLsbD_not, getLsbD_bit inside]
  by_cases small : j < 32
  · simp [small]
  · simp [BitVec.getLsbD_of_ge s.isr j (Nat.not_lt.mp small)]

private theorem raise_bit (s : IrqSide) {k : Nat} (inside : k < 32) (j : Nat) :
    (s.raise (BitVec.twoPow 32 k)).isr.getLsbD j = (s.isr.getLsbD j || decide (j = k)) := by
  rw [IrqSide.raise, BitVec.getLsbD_or, getLsbD_bit inside]

/-! ### A frame that waits is noticed -/

/-- The tasklet will look at the ring once more. -/
def RxPc.Looping : RxPc → Prop
  | .idle | .enable => False
  | _ => True

/-- The handler has found a received frame and is past masking it. -/
def IsrPc.Scheduling : IsrPc → Prop
  | .rcompAck | .schedule => True
  | _ => False

structure Awake (rx : RxSide) (irq : IrqSide) : Prop where
  noticed : rx.waiting ≠ [] → rx.pc.Looping ∨ irq.scheduled = true ∨ irq.handler = .schedule ∨
    irq.isr.getLsbD 0 = true
  enabled : irq.imr.getLsbD 0 = true ∨ rx.pc ≠ .idle ∨ irq.scheduled = true ∨
    irq.handler.Scheduling
  /-- bits other than these three are never set -/
  known : ∀ k, 2 < k → irq.isr.getLsbD k = false

/-- What the driver can do next, without the hardware. -/
def Moves (s : NicSystem) : NicEvent → Prop
  | .irq => s.irq.handler = .idle ∧ s.irq.isr &&& s.irq.imr ≠ 0
  | .handler => s.irq.handler ≠ .idle
  | .softirq => s.rx.pc = .idle ∧ s.irq.scheduled = true
  | .tasklet _ => s.rx.pc ≠ .idle
  | _ => False

/-- Nothing is left for the driver to do. -/
def Quiet (s : NicSystem) : Prop := ∀ e, ¬Moves s e

/-- Where nothing can go on no frame waits. -/
theorem Awake.quiet {s : NicSystem} (awake : Awake s.rx s.irq) (quiet : Quiet s) :
    s.rx.waiting = [] := by
  have at_rest : s.irq.handler = .idle := not_not.mp (quiet .handler)
  have stopped : s.rx.pc = .idle := not_not.mp (quiet (.tasklet ⟨0, 0, 0, 0⟩))
  have unscheduled : s.irq.scheduled ≠ true := fun scheduled => quiet .softirq ⟨stopped, scheduled⟩
  have silent : s.irq.isr &&& s.irq.imr = 0 :=
    not_not.mp fun asserted => quiet .irq ⟨at_rest, asserted⟩
  by_contra waiting
  have pending : s.irq.isr.getLsbD 0 = true := by
    simpa [stopped, unscheduled, at_rest, RxPc.Looping] using awake.noticed waiting
  have enabled : s.irq.imr.getLsbD 0 = true := by
    simpa [stopped, unscheduled, at_rest, IsrPc.Scheduling] using awake.enabled
  have both := congrArg (fun w => w.getLsbD 0) silent
  simp only [BitVec.getLsbD_and, pending, enabled] at both
  exact absurd both (by decide)

/-- Interrupts that come in are not lost. -/
theorem Awake.raise {rx : RxSide} {irq : IrqSide} (awake : Awake rx irq) {k : Nat} (known : k < 3) :
    Awake rx (irq.raise (BitVec.twoPow 32 k)) where
  noticed := by
    intro waiting
    rw [raise_bit irq (by omega)]
    rcases awake.noticed waiting with looping | scheduled | handler | pending
    · exact .inl looping
    · exact .inr (.inl scheduled)
    · exact .inr (.inr (.inl handler))
    · exact .inr (.inr (.inr (by simp [pending])))
  enabled := awake.enabled
  known := by
    intro j above
    rw [raise_bit irq (by omega), awake.known j above]
    simp
    omega

section

variable {ier : Word → Word → Word}

private theorem awake_probed (all : ∀ m, (ier m wrnIrqAll).getLsbD 0 = true) :
    Awake .probed (.probed ier) where
  noticed := fun waiting => absurd rfl waiting
  enabled := .inl (all 0)
  known := by
    intro k _
    simp [IrqSide.probed]

/-- Before the handler masks received frames, it may move on and acknowledge other interrupts. -/
theorem Awake.move {rx : RxSide} {irq : IrqSide} {handler : IsrPc} (awake : Awake rx irq)
    (plain : ¬irq.handler.Scheduling) (isr : Word) (pending : isr.getLsbD 0 = irq.isr.getLsbD 0)
    (known : ∀ k, 2 < k → isr.getLsbD k = false) :
    Awake rx { irq with isr := isr, handler := handler } where
  noticed := by
    intro waiting
    rcases awake.noticed waiting with looping | scheduled | at_schedule | noticed
    · exact .inl looping
    · exact .inr (.inl scheduled)
    · rw [at_schedule] at plain
      exact absurd trivial plain
    · exact .inr (.inr (.inr (pending.trans noticed)))
  enabled := by
    rcases awake.enabled with enabled | active | scheduled | scheduling
    · exact .inl enabled
    · exact .inr (.inl active)
    · exact .inr (.inr (.inl scheduled))
    · exact absurd scheduling plain
  known := known

/-- The handler acknowledges the interrupt before it schedules the tasklet. -/
theorem Awake.interrupt {rx : RxSide} {irq : IrqSide} (awake : Awake rx irq) :
    Awake rx (irq.interrupt ier) := by
  -- acknowledging a cause clears its bit and no other
  have acked {k : Nat} (other : k < 3) (j : Nat) (above : 2 < j) :
      (irq.ack (BitVec.twoPow 32 k)).isr.getLsbD j = false := by
    rw [ack_bit irq (by omega), awake.known j above, Bool.false_and]
  have kept {k : Nat} (other : k ≠ 0) (inside : k < 32) :
      (irq.ack (BitVec.twoPow 32 k)).isr.getLsbD 0 = irq.isr.getLsbD 0 := by
    rw [ack_bit irq inside, decide_eq_false other.symm, Bool.not_false, Bool.and_true]
  cases at_pc : irq.handler with
  | idle =>
    simp only [IrqSide.interrupt, at_pc]
    exact awake
  | txerr irqs =>
    have plain : ¬irq.handler.Scheduling := by rw [at_pc]; exact id
    simp only [IrqSide.interrupt, at_pc, nicEic_bits.2.2]
    split
    · exact awake.move plain _ (kept (by decide) (by decide)) (acked (by decide))
    · exact awake.move plain _ rfl awake.known
  | tcomp irqs =>
    have plain : ¬irq.handler.Scheduling := by rw [at_pc]; exact id
    simp only [IrqSide.interrupt, at_pc]
    split
    · exact awake.move plain _ rfl awake.known
    · exact awake.move plain _ rfl awake.known
  | tcompAck irqs =>
    have plain : ¬irq.handler.Scheduling := by rw [at_pc]; exact id
    simp only [IrqSide.interrupt, at_pc, nicEic_bits.2.1]
    exact awake.move plain _ (kept (by decide) (by decide)) (acked (by decide))
  | rcomp irqs =>
    have plain : ¬irq.handler.Scheduling := by rw [at_pc]; exact id
    simp only [IrqSide.interrupt, at_pc]
    split
    · -- masked until the tasklet is through
      refine ⟨?_, .inr (.inr (.inr trivial)), awake.known⟩
      simpa [at_pc, IrqSide.enable] using awake.noticed
    · exact awake.move plain _ rfl awake.known
  | rcompAck =>
    simp only [IrqSide.interrupt, at_pc, nicEic_bits.1]
    -- the cause is gone from the register, but the handler stands before the schedule
    refine ⟨fun _ => .inr (.inr (.inl rfl)), .inr (.inr (.inr trivial)), acked (by decide)⟩
  | schedule =>
    simp only [IrqSide.interrupt, at_pc]
    exact ⟨fun _ => .inr (.inl rfl), .inr (.inr (.inl rfl)), awake.known⟩

/-- The interrupt comes: the handler reads what is pending. -/
theorem Awake.irq {rx : RxSide} {irq : IrqSide} (awake : Awake rx irq)
    (at_rest : irq.handler = .idle) : Awake rx { irq with handler := .txerr irq.isr } :=
  awake.move (by rw [at_rest]; exact id) _ rfl awake.known

/-- Starting the tasklet keeps the frames in sight. -/
theorem Awake.softirq {rx : RxSide} {irq : IrqSide} (awake : Awake rx irq) :
    Awake { rx with pc := .poll } { irq with scheduled := false } :=
  ⟨fun _ => .inl trivial, .inr (.inl (by simp)), awake.known⟩

/-- Within the loop. -/
theorem tasklet_looping {rx : RxSide} (ram : Ram) (reads : ReadTimes) (inside : ¬rx.pc.Between) :
    (rx.tasklet ram reads).pc.Looping := by
  unfold RxSide.tasklet
  cases at_pc : rx.pc with
  | idle | poll | enable =>
    rw [at_pc] at inside
    exact absurd trivial inside
  | readRx1 | readRx2 | writeRx3 | writeRx1 | finish => trivial
  | readRx3 r1 r2 =>
    dsimp only
    split_ifs <;> trivial
  | copyIn r1 r2 len pos size got =>
    dsimp only
    split_ifs <;> trivial

/-- The driver is at the first frame that waits, so its descriptor is not EMPTY. -/
theorem RxInv.empty_waiting {rx : RxSide} {ram : Ram} (inv : RxInv rx ram) (plain : rx.pc.Plain)
    (empty : (rx.rxd rx.nextRx).Empty) : rx.waiting = [] := by
  cases waiting : rx.waiting with
  | nil => rfl
  | cons f rest =>
    have queue := inv.queue
    rw [waiting, tail_plain plain] at queue
    exact absurd empty queue.first.full

/-- The tasklet leaves its loop with the ring empty, and enables the interrupt behind it. -/
theorem Awake.tasklet {rx : RxSide} {irq : IrqSide} {ram : Ram}
    (all : ∀ m, (ier m wrnIrqAll).getLsbD 0 = true) (awake : Awake rx irq) (inv : RxInv rx ram)
    (reads : ReadTimes) :
    Awake (rx.tasklet ram reads) (match rx.pc with
      | .enable => irq.enable ier wrnIrqAll
      | _ => irq) := by
  by_cases between : rx.pc.Between
  swap
  · -- with a frame in hand the tasklet comes back to the poll by itself
    have looping := tasklet_looping ram reads between
    have busy : (rx.tasklet ram reads).pc ≠ .idle := by
      intro idle
      rw [idle] at looping
      exact looping
    cases at_pc : rx.pc with
    | enable =>
      rw [at_pc] at between
      exact absurd trivial between
    | _ => exact ⟨fun _ => .inl looping, .inr (.inl busy), awake.known⟩
  cases at_pc : rx.pc with
  | idle =>
    simp only [RxSide.tasklet, at_pc]
    exact awake
  | poll =>
    simp only [RxSide.tasklet, at_pc]
    by_cases empty : (rx.rxd rx.nextRx).Empty
    · rw [if_pos empty]
      have none := inv.empty_waiting (by rw [at_pc]; trivial) empty
      -- an empty descriptor at the tail means that no frame waits
      refine ⟨fun waiting => absurd ?_ waiting, .inr (.inl (by simp)), awake.known⟩
      rw [← none]
      simp only [RxSide.waiting, RxSide.taken, at_pc]
    · rw [if_neg empty]
      exact ⟨fun _ => .inl trivial, .inr (.inl (by simp)), awake.known⟩
  | enable =>
    simp only [RxSide.tasklet, at_pc]
    refine ⟨?_, .inl (all _), awake.known⟩
    intro waiting
    -- a frame that came in since the last poll has raised its cause, and the interrupt is on again
    have noticed := awake.noticed (by simpa [RxSide.waiting, RxSide.taken, at_pc] using waiting)
    rw [at_pc] at noticed
    exact noticed
  | _ =>
    rw [at_pc] at between
    exact between.elim

/-- The parts of the invariant. -/
structure Alive (s : NicSystem) : Prop where
  inv : NicInv s
  awake : Awake s.rx s.irq

/-- Every step keeps the system alive. -/
theorem Alive.step (all : ∀ m, (ier m wrnIrqAll).getLsbD 0 = true) {s : NicSystem}
    (alive : Alive s) (e : NicEvent) : Alive (s.step ier e) := by
  refine ⟨alive.inv.step e, ?_⟩
  have awake := alive.awake
  cases e with
  | store k b => exact awake
  | complete r1 r2 len =>
    rw [NicSystem.step]
    split
    · rw [nicEic_bits.1]
      -- the new frame is noticed through the cause it raises
      have raised := awake.raise (by decide : 0 < 3)
      refine ⟨fun _ => .inr (.inr (.inr ?_)), raised.enabled, raised.known⟩
      simp only [raise_bit s.irq (by decide : 0 < 32), decide_true, Bool.or_true]
    · exact awake
  | send =>
    rw [NicSystem.step]
    split
    · rw [nicEic_bits.2.1]
      exact awake.raise (by decide)
    · exact awake
  | xmit ep skb len hwTstamp => exact awake
  | tstamp idreg => exact awake
  | irq =>
    rw [NicSystem.step]
    split
    next at_rest => exact awake.irq at_rest
    · exact awake
  | handler => exact awake.interrupt
  | softirq =>
    rw [NicSystem.step]
    split
    · exact awake.softirq
    · exact awake
  | tasklet reads => exact awake.tasklet all alive.inv.rx reads

/-! ### The driver comes to rest -/

/-- Accesses that are left to the tasklet, or more. -/
def RxSide.work (s : RxSide) : Nat :=
  let frames := s.received.length - s.handled
  match s.pc with
  | .idle => 600 * frames
  | .enable => 600 * frames + 1
  | .poll => 600 * frames + 2
  | .readRx1 => 600 * (frames - 1) + 590
  | .readRx2 _ => 600 * (frames - 1) + 589
  | .readRx3 _ _ => 600 * (frames - 1) + 588
  | .copyIn _ _ _ _ size _ => 600 * (frames - 1) + (10 + (size + 3) / 4)
  | .writeRx3 _ => 600 * (frames - 1) + 5
  | .writeRx1 _ => 600 * (frames - 1) + 4
  | .finish _ => 600 * (frames - 1) + 3

def IsrPc.work : IsrPc → Nat
  | .idle => 0
  | .txerr _ => 10
  | .tcomp _ => 9
  | .tcompAck _ => 8
  | .rcomp _ => 7
  | .rcompAck => 6
  | .schedule => 5

/-- The interrupts that the handler is going to acknowledge. -/
def IsrPc.acks : IsrPc → Nat → Bool
  | .idle, _ | .schedule, _ => false
  | .txerr irqs, k => irqs.getLsbD k
  | .tcomp irqs, k | .tcompAck irqs, k => irqs.getLsbD k && decide (k < 2)
  | .rcomp irqs, k => irqs.getLsbD k && decide (k < 1)
  | .rcompAck, k => decide (k = 0)

/-- An interrupt that is left for another run of the handler. -/
def IrqSide.unclaimed (s : IrqSide) (k : Nat) : Bool := s.isr.getLsbD k && !s.handler.acks k

def IrqSide.work (s : IrqSide) : Nat :=
  4 * s.scheduled.toNat + s.handler.work +
    11 * ((s.unclaimed 0).toNat + (s.unclaimed 1).toNat + (s.unclaimed 2).toNat)

def NicSystem.work (s : NicSystem) : Nat := s.rx.work + s.irq.work

private theorem irq_work {rx : RxSide} {irq : IrqSide} (awake : Awake rx irq)
    (at_rest : irq.handler = .idle) (asserted : irq.isr &&& irq.imr ≠ 0) :
    ({ irq with handler := .txerr irq.isr } : IrqSide).work < irq.work := by
  have some_bit : ∃ k, irq.isr.getLsbD k = true := by
    by_contra none
    apply asserted
    apply BitVec.eq_of_getLsbD_eq
    intro k _
    have clear : irq.isr.getLsbD k = false := by simpa using fun set => none ⟨k, set⟩
    simp [clear]
  obtain ⟨k, set⟩ := some_bit
  have low : k ≤ 2 := by
    by_contra high
    rw [awake.known k (Nat.lt_of_not_le high)] at set
    cases set
  have claimed (j : Nat) : IrqSide.unclaimed { irq with handler := .txerr irq.isr } j = false := by
    simp [IrqSide.unclaimed, IsrPc.acks]
  have free (j : Nat) : irq.unclaimed j = irq.isr.getLsbD j := by
    simp [IrqSide.unclaimed, IsrPc.acks, at_rest]
  simp only [IrqSide.work, claimed, free, at_rest, IsrPc.work]
  -- one of the three bits pays for the handler
  match k, low with
  | 0, _ | 1, _ | 2, _ => simp only [set, Bool.toNat_true, Bool.toNat_false]; omega

private theorem work_lt {s s' : IrqSide}
    (falls : 4 * s'.scheduled.toNat + s'.handler.work < 4 * s.scheduled.toNat + s.handler.work)
    (less : ∀ k ≤ 2, s'.unclaimed k = true → s.unclaimed k = true) : s'.work < s.work := by
  have bit (k : Nat) (low : k ≤ 2) : (s'.unclaimed k).toNat ≤ (s.unclaimed k).toNat :=
    Bool.toNat_le_toNat (less k low)
  have zero := bit 0 (by decide)
  have one := bit 1 (by decide)
  have two := bit 2 (by decide)
  unfold IrqSide.work
  omega

/-- Each access of the handler is one less, and scheduling the tasklet costs less than it. -/
theorem interrupt_work (irq : IrqSide) (busy : irq.handler ≠ .idle) :
    (irq.interrupt ier).work < irq.work := by
  cases at_pc : irq.handler with
  | idle => exact absurd at_pc busy
  -- the handler moves to a cheaper place, and on the way no cause becomes unclaimed again
  | txerr irqs =>
    simp only [IrqSide.interrupt, at_pc, nicEic_bits.2.2]
    split
    next set =>
      rw [twoPow_iff irqs (by decide)] at set
      apply work_lt
      · simp [at_pc, IsrPc.work, IrqSide.ack]
      · intro k low
        simp only [IrqSide.unclaimed, IsrPc.acks, at_pc, ack_bit irq (by decide : 2 < 32)]
        grind
    next clear =>
      rw [twoPow_iff irqs (by decide)] at clear
      apply work_lt
      · simp [at_pc, IsrPc.work]
      · intro k low
        simp only [IrqSide.unclaimed, IsrPc.acks, at_pc]
        grind
  | tcomp irqs =>
    simp only [IrqSide.interrupt, at_pc, nicEic_bits.2.1]
    split
    next set =>
      apply work_lt
      · simp [at_pc, IsrPc.work]
      · intro k low
        simp only [IrqSide.unclaimed, IsrPc.acks, at_pc]
        exact id
    next clear =>
      rw [twoPow_iff irqs (by decide)] at clear
      apply work_lt
      · simp [at_pc, IsrPc.work]
      · intro k low
        simp only [IrqSide.unclaimed, IsrPc.acks, at_pc]
        grind
  | tcompAck irqs =>
    simp only [IrqSide.interrupt, at_pc, nicEic_bits.2.1]
    apply work_lt
    · simp [at_pc, IsrPc.work, IrqSide.ack]
    · intro k low
      simp only [IrqSide.unclaimed, IsrPc.acks, at_pc, ack_bit irq (by decide : 1 < 32)]
      grind
  | rcomp irqs =>
    simp only [IrqSide.interrupt, at_pc, nicEic_bits.1]
    split
    next set =>
      rw [twoPow_iff irqs (by decide)] at set
      apply work_lt
      · simp [at_pc, IsrPc.work, IrqSide.enable]
      · intro k low
        simp only [IrqSide.unclaimed, IsrPc.acks, at_pc, IrqSide.enable]
        grind
    next clear =>
      rw [twoPow_iff irqs (by decide)] at clear
      apply work_lt
      · simp [at_pc, IsrPc.work]
      · intro k low
        simp only [IrqSide.unclaimed, IsrPc.acks, at_pc]
        grind
  | rcompAck =>
    simp only [IrqSide.interrupt, at_pc, nicEic_bits.1]
    apply work_lt
    · simp [at_pc, IsrPc.work, IrqSide.ack]
    · intro k low
      simp only [IrqSide.unclaimed, IsrPc.acks, at_pc, ack_bit irq (by decide : 0 < 32)]
      grind
  | schedule =>
    simp only [IrqSide.interrupt, at_pc]
    apply work_lt
    · simp only [at_pc, IsrPc.work, Bool.toNat_true]
      omega
    · intro k low
      simp only [IrqSide.unclaimed, IsrPc.acks, at_pc]
      exact id

/-- Each access of the tasklet is one less, and a frame pays for the next look at the ring. -/
theorem tasklet_work {rx : RxSide} {ram : Ram} (inv : RxInv rx ram) (reads : ReadTimes)
    (busy : rx.pc ≠ .idle) : (rx.tasklet ram reads).work < rx.work := by
  -- a frame in hand is not yet counted as handled
  have more (inside : ¬rx.pc.Between) : rx.handled < rx.received.length := by
    obtain ⟨f, frame, -⟩ := inv.knows inside
    exact (List.getElem?_eq_some_iff.mp frame).1
  cases at_pc : rx.pc with
  | idle => exact absurd at_pc busy
  | enable =>
    simp only [RxSide.tasklet, RxSide.work, at_pc]
    omega
  | poll =>
    have plain : rx.pc.Plain := by rw [at_pc]; trivial
    simp only [RxSide.tasklet, at_pc]
    by_cases empty : (rx.rxd rx.nextRx).Empty
    · simp only [RxSide.work, at_pc, if_pos empty]
      omega
    · -- there is a frame to pay
      have moved := inv.poll at_pc
      rw [if_neg empty] at moved
      obtain ⟨f, frame, -⟩ := moved.knows id
      have inside := (List.getElem?_eq_some_iff.mp frame).1
      simp only [RxSide.work, at_pc, if_neg empty] at inside ⊢
      omega
  | readRx1 =>
    simp only [RxSide.tasklet, RxSide.work, at_pc]
    omega
  | readRx2 r1 =>
    simp only [RxSide.tasklet, RxSide.work, at_pc]
    omega
  | readRx3 r1 r2 =>
    have plain : rx.pc.Plain := by rw [at_pc]; trivial
    obtain ⟨f, frame, -⟩ := inv.knows (by simp [at_pc, RxPc.Between])
    have filled := inv.filled plain frame
    have inside := inv.queue.inside
    rw [tail_plain plain] at inside
    have fits := filled.fits
    -- the copy loop is paid by the length the descriptor holds, which is that of the frame
    have len : lenR (rx.rxd rx.nextRx).rx3 = f.data.length := by
      rw [filled.rx3, lenR_bufferReg (descOffset_lt inside .rx) (by omega)]
    simp only [RxSide.tasklet, at_pc]
    split_ifs <;> simp only [RxSide.work, at_pc, len] <;> omega
  | copyIn r1 r2 len pos size got =>
    simp only [RxSide.tasklet, at_pc]
    split_ifs <;> simp only [RxSide.work, at_pc] <;> omega
  | writeRx3 out =>
    simp only [RxSide.tasklet, RxSide.work, at_pc]
    omega
  | writeRx1 out =>
    simp only [RxSide.tasklet, RxSide.work, at_pc]
    omega
  | finish out =>
    have left := more (by simp [at_pc, RxPc.Between])
    have received := (account_same rx reads out).2.1
    simp only [RxSide.tasklet, RxSide.work, at_pc, received]
    omega

/-- Every step of handler and tasklet takes work away. -/
theorem moves_work {s : NicSystem} (alive : Alive s) {e : NicEvent} (moves : Moves s e) :
    (s.step ier e).work < s.work := by
  cases e with
  | store | complete | send | xmit | tstamp => exact moves.elim
  | irq =>
    obtain ⟨at_rest, asserted⟩ := moves
    have falls := irq_work alive.awake at_rest asserted
    simp only [NicSystem.step, at_rest, NicSystem.work]
    omega
  | handler =>
    have falls : (s.irq.interrupt ier).work < s.irq.work := interrupt_work s.irq moves
    simp only [NicSystem.step, NicSystem.work]
    omega
  | softirq =>
    obtain ⟨stopped, scheduled⟩ := moves
    -- starting the tasklet is paid by the schedule it takes back
    simp only [NicSystem.step, stopped, scheduled, NicSystem.work, RxSide.work, IrqSide.work,
      IrqSide.unclaimed, Bool.toNat_true, Bool.toNat_false]
    omega
  | tasklet reads =>
    have falls := tasklet_work alive.inv.rx reads moves
    simp only [NicSystem.step, NicSystem.work]
    cases at_pc : s.rx.pc with
    | _ =>
      simp only [IrqSide.enable, IrqSide.work, IrqSide.unclaimed]
      omega

private theorem tasklet_received (s : RxSide) (ram : Ram) (reads : ReadTimes) :
    (s.tasklet ram reads).received = s.received := by
  cases at_pc : s.pc with
  | finish out =>
    simp only [RxSide.tasklet, at_pc]
    exact (account_same s reads out).2.1
  | _ =>
    simp only [RxSide.tasklet, at_pc]
    try split_ifs
    all_goals rfl

private theorem moves_received {s : NicSystem} {e : NicEvent} (moves : Moves s e) :
    (s.step ier e).rx.received = s.rx.received := by
  cases e with
  | store | complete | send | xmit | tstamp => exact moves.elim
  | irq =>
    simp only [NicSystem.step]
    split <;> rfl
  | handler => rfl
  | softirq =>
    simp only [NicSystem.step]
    split <;> rfl
  | tasklet reads => exact tasklet_received s.rx s.databuf reads

private theorem run_received {s : NicSystem} {ds : List NicEvent}
    (moves : Along Moves (NicSystem.step ier) s ds) :
    (run (NicSystem.step ier) s ds).rx.received = s.rx.received := by
  induction ds generalizing s with
  | nil => rfl
  | cons d ds ih => exact (ih moves.2).trans (moves_received moves.1)

/-- Whatever has happened, handler and tasklet go on for a bounded number of accesses only while
the hardware is silent, and when they have come to rest every received frame was handled. -/
theorem received_frames_handled (all : ∀ m, ier m wrnIrqAll &&& nicEicRcomp ≠ 0) (databuf : Ram)
    (es ds : List NicEvent) :
    let s := run (NicSystem.step ier) (.probed ier databuf) es
    Along Moves (NicSystem.step ier) s ds →
      ds.length ≤ s.work ∧
        let s' := run (NicSystem.step ier) s ds
        Quiet s' → s'.rx.handled = s.rx.received.length := by
  intro s moves
  have enables (m : Word) : (ier m wrnIrqAll).getLsbD 0 = true := (rcomp_iff _).mp (all m)
  have probed : Alive (.probed ier databuf) :=
    ⟨nicInv_probed ier databuf, awake_probed enables⟩
  have alive : Alive s := run_preserves Alive _ (fun _ e holds => holds.step enables e) _ es probed
  refine ⟨?_, fun quiet => ?_⟩
  · exact Along.length_le Alive NicSystem.work (fun _ e holds _ => holds.step enables e)
      (fun _ _ holds move => moves_work holds move) alive moves
  · have after := run_preserves Alive _ (fun _ e holds => holds.step enables e) s ds alive
    -- at rest no frame waits, so all that were received are handled
    have drained := after.awake.quiet quiet
    have stopped : (run (NicSystem.step ier) s ds).rx.pc = .idle :=
      not_not.mp (quiet (.tasklet ⟨0, 0, 0, 0⟩))
    have taken := after.inv.rx.taken
    rw [RxSide.waiting, RxSide.taken, stopped, List.drop_eq_nil_iff] at drained
    rw [RxSide.taken, stopped, run_received moves] at taken
    rw [run_received moves] at drained
    exact Nat.le_antisymm taken drained

/-- With a register that adds to the mask: a frame, and the first access of the handler. -/
theorem received_frames_handled_enable :
    let s := run (NicSystem.step (· ||| ·)) (.probed (· ||| ·) fun _ => 0) [.complete 0x4000 0 60]
    [NicEvent.irq].length ≤ s.work ∧
      let s' := run (NicSystem.step (· ||| ·)) s [.irq]
      Quiet s' → s'.rx.handled = s.rx.received.length := by
  apply received_frames_handled
  · intro m
    rw [rcomp_iff, BitVec.getLsbD_or, show wrnIrqAll.getLsbD 0 = true from rfl, Bool.or_true]
  · exact ⟨⟨rfl, by decide⟩, trivial⟩

end

end WrSwitch.Nic
