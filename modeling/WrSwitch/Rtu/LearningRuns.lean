import WrSwitch.Rtu.Learning

/-!
# What the daemon makes of the learning queue

Every request is read once and in its order, and none while the queue is empty. A sleeping
daemon with a request in its queue has the interrupt that wakes it still before it.
-/
namespace WrSwitch.Rtu

open Machine

/-! ### The words of a request -/

/-- What the daemon should know of a frame. -/
def UnrecFrame.request (frame : UnrecFrame) : RtuRequest where
  portId := frame.port.toNat
  src := frame.src
  dst := frame.dst
  vid := frame.vid.setWidth 16
  hasVid := if frame.hasVid then rtuUfifoR4HasVid else 0
  prio := frame.prio.setWidth 8
  hasPrio := if frame.hasPrio then rtuUfifoR4HasPrio else 0

private theorem ufifoMac_words (mac : Mac) :
    ufifoMac (rtuUfifoR1DmacHiR mac.hi) (rtuUfifoR0DmacLoR mac.lo) = mac := by
  have lo : rtuUfifoR0DmacLoR mac.lo = mac.lo := genRead_small _ _ mac.lo.isLt
  have hi : rtuUfifoR1DmacHiR mac.hi = mac.hi := by
    apply genRead_small
    rw [Mac.hi, BitVec.toNat_setWidth]
    exact Nat.lt_of_le_of_lt (Nat.mod_le _ _) (mac.b0 ++ mac.b1).isLt
  have ones : ∀ j < 8, (0xFF : Word).getLsbD j = true := by decide
  -- each byte of the address stands eight bits higher in its register than the one before
  have byte (x : Word) (k : Nat) (b : Byte)
      (bits : ∀ j < 8, x.getLsbD (k + j) = b.getLsbD j) :
      (0xFF &&& (x >>> k)).setWidth 8 = b := by
    apply BitVec.eq_of_getLsbD_eq
    intro j inside
    rw [BitVec.getLsbD_setWidth, BitVec.getLsbD_and, ones j inside, BitVec.getLsbD_ushiftRight,
      bits j inside, decide_eq_true inside, Bool.true_and, Bool.true_and]
  have first (x : Word) (b : Byte) (bits : ∀ j < 8, x.getLsbD (0 + j) = b.getLsbD j) :
      (0xFF &&& x).setWidth 8 = b := byte x 0 b bits
  rw [lo, hi, ufifoMac, first mac.lo mac.b5, byte mac.lo 8 mac.b4, byte mac.lo 16 mac.b3,
    byte mac.lo 24 mac.b2, first mac.hi mac.b1, byte mac.hi 8 mac.b0]
  all_goals
    intro j inside
    have near : decide (0 + j < 32) = true := by simp; omega
    have far : decide (8 + j < 32) = true := by simp; omega
    simp only [Mac.lo, Mac.hi, BitVec.getLsbD_append, BitVec.getLsbD_setWidth, near, far,
      Bool.true_and]
    repeat' split
    all_goals first
      | omega
      | congr 1
        omega

private theorem ufifo_flag (r4 : Word) (k : Nat) (inside : k < 32) :
    wbgen2GenMask k 1 &&& r4 = if r4.getLsbD k then wbgen2GenMask k 1 else 0 := by
  apply BitVec.eq_of_getLsbD_eq
  intro j bound
  rw [BitVec.getLsbD_and]
  by_cases here : j = k
  · subst here
    cases r4.getLsbD j <;> simp [genMask_bit _ _ j bound]
  · have apart : ¬(k ≤ j ∧ j < k + 1) := by omega
    have clear : (wbgen2GenMask k 1).getLsbD j = false := by
      rw [genMask_bit _ _ j bound, ← Bool.decide_and, decide_eq_false apart]
    cases r4.getLsbD k <;> simp [clear]

private theorem ufifoRequest_words (frame : UnrecFrame) :
    ufifoRequest frame.words = frame.request := by
  -- a field written with its own width is read back whole
  have narrow {w : Nat} (v : BitVec w) (small : w ≤ 32) :
      wbgen2GenRead (v.setWidth 32) 0 w = v.setWidth 32 := by
    apply genRead_small
    rw [BitVec.toNat_setWidth]
    exact Nat.lt_of_le_of_lt (Nat.mod_le _ _) v.isLt
  -- the four fields of word 4 lie apart, so reading one masks the others away
  have vid : rtuUfifoR4VidR frame.words.r4 = frame.vid.setWidth 32 := by
    simp (disch := omega) only [rtuUfifoR4VidR, UnrecFrame.words, rtuUfifoR4VidW, rtuUfifoR4PrioW,
      rtuUfifoR4PidW, rtuUfifoR4HasVid, rtuUfifoR4HasPrio, genRead_or, genRead_ite,
      genRead_write_same, genRead_write_other, genRead_mask_other, ite_self, narrow]
    simp
  have prio : rtuUfifoR4PrioR frame.words.r4 = frame.prio.setWidth 32 := by
    simp (disch := omega) only [rtuUfifoR4PrioR, UnrecFrame.words, rtuUfifoR4VidW, rtuUfifoR4PrioW,
      rtuUfifoR4PidW, rtuUfifoR4HasVid, rtuUfifoR4HasPrio, genRead_or, genRead_ite,
      genRead_write_same, genRead_write_other, genRead_mask_other, ite_self, narrow]
    simp
  have pid : rtuUfifoR4PidR frame.words.r4 = frame.port.setWidth 32 := by
    simp (disch := omega) only [rtuUfifoR4PidR, UnrecFrame.words, rtuUfifoR4VidW, rtuUfifoR4PrioW,
      rtuUfifoR4PidW, rtuUfifoR4HasVid, rtuUfifoR4HasPrio, genRead_or, genRead_ite,
      genRead_write_same, genRead_write_other, genRead_mask_other, ite_self, narrow]
    simp
  -- the flags are single bits, not fields: they are compared bit by bit
  have hasVid : frame.words.r4.getLsbD 24 = frame.hasVid := by
    have bound : 24 < 32 := by decide
    unfold UnrecFrame.words rtuUfifoR4VidW rtuUfifoR4PrioW rtuUfifoR4PidW rtuUfifoR4HasVid
      rtuUfifoR4HasPrio
    simp only [BitVec.getLsbD_or, genWrite_bit _ _ _ _ bound]
    cases frame.hasVid <;> cases frame.hasPrio <;>
      simp only [if_true, if_false, Bool.false_eq_true, genMask_bit _ _ _ bound, zero_bit] <;> simp
  have hasPrio : frame.words.r4.getLsbD 25 = frame.hasPrio := by
    have bound : 25 < 32 := by decide
    unfold UnrecFrame.words rtuUfifoR4VidW rtuUfifoR4PrioW rtuUfifoR4PidW rtuUfifoR4HasVid
      rtuUfifoR4HasPrio
    simp only [BitVec.getLsbD_or, genWrite_bit _ _ _ _ bound]
    cases frame.hasVid <;> cases frame.hasPrio <;>
      simp only [if_true, if_false, Bool.false_eq_true, genMask_bit _ _ _ bound, zero_bit] <;> simp
  have src : ufifoMac (rtuUfifoR3SmacHiR frame.words.r3) (rtuUfifoR2SmacLoR frame.words.r2) =
      frame.src := ufifoMac_words frame.src
  have dst : ufifoMac (rtuUfifoR1DmacHiR frame.words.r1) (rtuUfifoR0DmacLoR frame.words.r0) =
      frame.dst := ufifoMac_words frame.dst
  have small : frame.port.toNat < 2 ^ 32 := Nat.lt_trans frame.port.isLt (by decide)
  unfold ufifoRequest UnrecFrame.request
  rw [src, dst, vid, prio, pid, rtuUfifoR4HasVid, rtuUfifoR4HasPrio, ufifo_flag _ 24 (by decide),
    ufifo_flag _ 25 (by decide), hasVid, hasPrio, BitVec.toNat_setWidth, Nat.mod_eq_of_lt small,
    BitVec.setWidth_setWidth_of_le _ (by decide), BitVec.setWidth_setWidth_of_le _ (by decide)]

/-! ### The learning thread -/

/-- What holds between any two steps of the learning thread. -/
structure LearnInv (l : Learner) : Prop where
  mask : l.dev.imr = !l.dev.irqDisable
  first : l.irqDisabled = true → l.pc = .call
  flagged : l.dev.irqDisable = true →
    l.ufifo ≠ [] ∨ (∃ req, l.pc = .irqena req) ∨ l.irqDisabled = true
  asleep : l.pc = .asleep → l.sigPending = false ∧ (l.ufifo ≠ [] → l.dev.isr && l.dev.imr)
  woken : l.pc = .woken → l.ufifo ≠ [] ∨ l.sigPending = true
  read : l.pc = .read → l.ufifo ≠ []
  order : l.pushed.map UnrecFrame.request =
    l.handled.map Prod.fst ++ l.pc.inHand ++ l.ufifo.map ufifoRequest

private theorem wake_ne_asleep (pc : LearnPc) : pc.wake ≠ .asleep := by
  cases pc <;> simp [LearnPc.wake]

private theorem wake_inHand (pc : LearnPc) : pc.wake.inHand = pc.inHand := by
  cases pc <;> rfl

/-- But for the first call the daemon has cleared its own flag. -/
theorem LearnInv.known {l : Learner} (inv : LearnInv l) (pc : l.pc ≠ .call) :
    l.irqDisabled = false := by
  cases fresh : l.irqDisabled with
  | false => rfl
  | true => exact absurd (inv.first fresh) pc

/-- Outside the first call and `WR_RTU_IRQENA` the flag means that a request is waiting. -/
theorem LearnInv.waiting {l : Learner} (inv : LearnInv l) (pc : l.pc ≠ .call)
    (other : ∀ req, l.pc ≠ .irqena req) (set : l.dev.irqDisable = true) : l.ufifo ≠ [] := by
  rcases inv.flagged set with filled | ⟨req, reading⟩ | fresh
  · exact filled
  · exact absurd reading (other req)
  · exact absurd (inv.first fresh) pc

/-- A request is queued. -/
theorem LearnInv.push {l : Learner} (inv : LearnInv l) (frame : UnrecFrame) :
    LearnInv (l.push frame) := by
  have filled : (l.push frame).ufifo ≠ [] := by simp [Learner.push]
  refine ⟨inv.mask, inv.first, fun _ => .inl filled, ?_, fun _ => .inl filled,
    fun _ => filled, ?_⟩
  · intro sleeps
    obtain ⟨quiet, wakes⟩ := inv.asleep sleeps
    refine ⟨quiet, fun _ => ?_⟩
    by_cases empty : l.ufifo = []
    · -- the flag is clear, since the queue was empty and no request is being read
      have pc : l.pc = .asleep := sleeps
      have enabled : l.dev.irqDisable = false := by
        by_contra set
        exact inv.waiting (by simp [pc]) (by simp [pc]) (by simpa using set) empty
      simp [Learner.push, empty, inv.mask, enabled]
    · have pending := wakes empty
      simp only [Bool.and_eq_true] at pending
      simp [Learner.push, pending.1, pending.2]
  · simp only [Learner.push, List.map_append, List.map_cons, List.map_nil, inv.order,
      ufifoRequest_words, List.append_assoc]

/-- The interrupt handler keeps the invariant. -/
theorem LearnInv.interrupt {l : Learner} (inv : LearnInv l) : LearnInv l.interrupt := by
  unfold Learner.interrupt
  split
  swap
  · exact inv
  split
  next => exact inv
  next filled =>
    refine ⟨rfl, ?_, fun _ => .inl filled, ?_, fun _ => .inl filled, fun _ => filled, ?_⟩
    · intro fresh
      simp only [inv.first fresh, LearnPc.wake]
    · intro sleeps
      exact absurd sleeps (wake_ne_asleep l.pc)
    · simp only [wake_inHand, inv.order]

/-- An interrupt that is raised again keeps the invariant. -/
theorem LearnInv.raise {l : Learner} (inv : LearnInv l) :
    LearnInv { l with dev := { l.dev with isr := true } } := by
  refine ⟨inv.mask, inv.first, inv.flagged, ?_, inv.woken, inv.read, inv.order⟩
  intro sleeps
  obtain ⟨quiet, wakes⟩ := inv.asleep sleeps
  refine ⟨quiet, fun filled => ?_⟩
  have pending := wakes filled
  simp only [Bool.and_eq_true] at pending
  simp [pending.2]

/-- A signal keeps the invariant. -/
theorem LearnInv.signal {l : Learner} (inv : LearnInv l) :
    LearnInv { l with sigPending := true, pc := l.pc.wake } := by
  refine ⟨inv.mask, ?_, ?_, ?_, fun _ => .inr rfl, ?_, ?_⟩
  · intro fresh
    simp only [inv.first fresh, LearnPc.wake]
  · intro set
    rcases inv.flagged set with filled | ⟨req, reading⟩ | fresh
    · exact .inl filled
    · exact .inr (.inl ⟨req, by simp only [reading, LearnPc.wake]⟩)
    · exact .inr (.inr fresh)
  · intro sleeps
    exact absurd sleeps (wake_ne_asleep l.pc)
  · intro reading
    apply inv.read
    cases pc : l.pc <;> simp [pc, LearnPc.wake] at reading ⊢
  · simp only [wake_inHand, inv.order]

private theorem irqena_clear (dev : WrRtuDev) : dev.irqena.irqDisable = false := by
  unfold WrRtuDev.irqena
  split
  next => rfl
  next clear => simpa using clear

private theorem irqena_mask {dev : WrRtuDev} (mask : dev.imr = !dev.irqDisable) :
    dev.irqena.imr = !dev.irqena.irqDisable := by
  unfold WrRtuDev.irqena
  split
  next => rfl
  next => exact mask

/-- Each control point hands on what the next one relies on. -/
theorem LearnInv.turn {l : Learner} (inv : LearnInv l) (ports : Nat → HalPortState)
    (restart : Bool) (now : Word) (stale : UfifoWords) :
    LearnInv (l.turn ports restart now stale) := by
  have order := inv.order
  cases at_pc : l.pc with
  | call =>
    -- the daemon's own flag stands before its first call only, and that call enables the interrupt
    rw [at_pc] at order
    simp only [Learner.turn, at_pc]
    refine ⟨?_, by simp, ?_, by simp, by simp, by simp, order⟩
    · split
      next => exact irqena_mask inv.mask
      next => exact inv.mask
    · intro set
      split at set
      next => exact absurd set (by simp [irqena_clear])
      next known =>
        rcases inv.flagged set with filled | ⟨req, reading⟩ | fresh
        · exact .inl filled
        · rw [at_pc] at reading
          cases reading
        · exact absurd fresh known
  -- from here to the sleep the step moves the counter alone, and the three tests differ in the
  -- counter they go to
  | look =>
    have known := inv.known (by simp [at_pc])
    have set := inv.waiting (by simp [at_pc]) (by simp [at_pc])
    rw [at_pc] at order
    simp only [Learner.turn, at_pc]
    refine ⟨inv.mask, by simp [known], fun flag => .inl (set flag), ?_, ?_, ?_, ?_⟩
    all_goals split <;> simp_all [LearnPc.inHand]
  | irqwait =>
    have known := inv.known (by simp [at_pc])
    have set := inv.waiting (by simp [at_pc]) (by simp [at_pc])
    rw [at_pc] at order
    simp only [Learner.turn, at_pc]
    refine ⟨inv.mask, by simp [known], fun flag => .inl (set flag), ?_, ?_, ?_, ?_⟩
    all_goals split <;> simp_all [LearnPc.inHand]
  | check =>
    have known := inv.known (by simp [at_pc])
    have set := inv.waiting (by simp [at_pc]) (by simp [at_pc])
    rw [at_pc] at order
    simp only [Learner.turn, at_pc]
    refine ⟨inv.mask, by simp [known], fun flag => .inl (set flag), ?_, ?_, ?_, ?_⟩
    all_goals split <;> simp_all [LearnPc.inHand]
  | asleep =>
    simp only [Learner.turn, at_pc]
    exact inv
  | woken =>
    have known := inv.known (by simp [at_pc])
    have set := inv.waiting (by simp [at_pc]) (by simp [at_pc])
    rw [at_pc] at order
    simp only [Learner.turn, at_pc]
    split
    · refine ⟨inv.mask, by simp [known], fun flag => .inl (set flag), ?_, ?_, ?_, ?_⟩
      all_goals split <;> simp_all [LearnPc.inHand]
    -- woken without a signal: only a full queue lets the wait end
    next quiet =>
      have filled := (inv.woken at_pc).resolve_right quiet
      exact ⟨inv.mask, by simp [known], fun flag => .inl filled, by simp, by simp,
        fun _ => filled, order⟩
  | read =>
    have known := inv.known (by simp [at_pc])
    rw [at_pc] at order
    simp only [Learner.turn, at_pc]
    cases queue : l.ufifo with
    | nil => exact absurd queue (inv.read at_pc)
    | cons w ufifo =>
      -- the word leaves the queue and is the request in hand, so the order is kept
      refine ⟨inv.mask, by simp [known], fun _ => .inr (.inl ⟨_, rfl⟩), by simp, by simp, by simp,
        ?_⟩
      simpa [queue, LearnPc.inHand] using order
  | irqena req =>
    have known := inv.known (by simp [at_pc])
    rw [at_pc] at order
    simp only [Learner.turn, at_pc]
    -- irqena clears the flag: nothing is left to justify
    exact ⟨irqena_mask inv.mask, by simp [known], fun set => absurd set (by simp [irqena_clear]),
      by simp, by simp, by simp, order⟩
  | scan req i =>
    have known := inv.known (by simp [at_pc])
    have set := inv.waiting (by simp [at_pc]) (by simp [at_pc])
    rw [at_pc] at order
    simp only [Learner.turn, at_pc]
    split
    · split
      · refine ⟨inv.mask, by simp [known], fun flag => .inl (set flag), by simp, by simp, by simp,
          ?_⟩
        simpa [LearnPc.inHand] using order
      · exact ⟨inv.mask, by simp [known], fun flag => .inl (set flag), by simp, by simp, by simp,
          order⟩
    · exact ⟨inv.mask, by simp [known], fun flag => .inl (set flag), by simp, by simp, by simp,
        order⟩
  | create req =>
    have known := inv.known (by simp [at_pc])
    have set := inv.waiting (by simp [at_pc]) (by simp [at_pc])
    rw [at_pc] at order
    simp only [Learner.turn, at_pc]
    refine ⟨inv.mask, by simp [known], fun flag => .inl (set flag), by simp, by simp, by simp, ?_⟩
    simpa [LearnPc.inHand] using order

/-! ### The daemon -/

/-- What an event does to the learning thread and its queue. -/
def Learner.step (l : Learner) (ports : Nat → HalPortState) : RtudEvent → Learner
  | .push frame => l.push frame
  | .raise => { l with dev := { l.dev with isr := true } }
  | .interrupt => l.interrupt
  | .signal => { l with sigPending := true, pc := l.pc.wake }
  | .learn restart now stale => l.turn ports restart now stale
  | .copyPort .. | .age .. | .serve _ => l

@[simp] theorem perform_learner (s : Rtud) (thread : Thread) (op : RtudOp) :
    (s.perform thread op).learner = s.learner := by
  rw [Rtud.perform]

@[simp] theorem perform_rtu (s : Rtud) (thread : Thread) (op : RtudOp) :
    (s.perform thread op).rtu = rtudStep s.rtu op := by
  rw [Rtud.perform]

@[simp] theorem perform_ops (s : Rtud) (thread : Thread) (op : RtudOp) :
    (s.perform thread op).ops = s.ops ++ [(thread, op)] := by
  rw [Rtud.perform]

private theorem updatePortState_learner (s : Rtud) (i : Nat) :
    (s.updatePortState i).learner = s.learner := by
  unfold Rtud.updatePortState
  dsimp only
  split
  next => rfl
  next =>
    split
    next =>
      dsimp only
      rw [perform_learner]
    next => rfl

private theorem step_learner (s : Rtud) (e : RtudEvent) :
    (s.step e).learner = s.learner.step s.halPortsLocalCopy e := by
  cases e with
  | push | raise | interrupt | signal | serve => rfl
  | learn restart now stale =>
    simp only [Rtud.step, Rtud.learnTurn, Learner.step]
    split <;> rfl
  | copyPort i ps =>
    simp only [Rtud.step, Learner.step]
    split <;> rfl
  | age bitmap t₁ t₂ =>
    simp only [Rtud.step, Rtud.agingTurn, Learner.step]
    split
    · rfl
    · split
      · exact updatePortState_learner s _
      · rfl
    · rw [perform_learner]

/-- Every step keeps the invariant of learning. -/
theorem LearnInv.step {l : Learner} (inv : LearnInv l) (ports : Nat → HalPortState)
    (e : RtudEvent) : LearnInv (l.step ports e) := by
  cases e with
  | push frame => exact inv.push frame
  | raise => exact inv.raise
  | interrupt => exact inv.interrupt
  | signal => exact inv.signal
  | learn restart now stale => exact inv.turn ports restart now stale
  | copyPort | age | serve => exact inv

/-- The frame an event reports. -/
def RtudEvent.frame : RtudEvent → Option UnrecFrame
  | .push frame => some frame
  | _ => none

private theorem turn_pushed (l : Learner) (ports : Nat → HalPortState) (restart : Bool) (now : Word)
    (stale : UfifoWords) : (l.turn ports restart now stale).pushed = l.pushed := by
  unfold Learner.turn
  repeat' split
  all_goals rfl

private theorem step_pushed (l : Learner) (ports : Nat → HalPortState) (e : RtudEvent) :
    (l.step ports e).pushed = l.pushed ++ e.frame.toList := by
  cases e with
  | push frame => rfl
  | raise | signal | copyPort | age | serve => exact (List.append_nil _).symm
  | interrupt =>
    simp only [Learner.step, Learner.interrupt, RtudEvent.frame, Option.toList_none,
      List.append_nil]
    repeat' split
    all_goals rfl
  | learn restart now stale =>
    simp only [Learner.step, turn_pushed, RtudEvent.frame, Option.toList_none, List.append_nil]

/-- What was done to the tables for a request. -/
def learnt (r : RtuRequest × Option Word) : Option RtudOp := r.2.map (learnOp r.1)

/-- The step did `work` to the tables and is through with the requests `done`. -/
structure Did (s s' : Rtud) (work : List (Thread × RtudOp))
    (done : List (RtuRequest × Option Word)) : Prop where
  ops : s'.ops = s.ops ++ work
  rtu : s'.rtu = run rtudStep s.rtu (work.map Prod.snd)
  handled : s'.learner.handled = s.learner.handled ++ done
  learning : (work.filter fun op => op.1 = .learning).map Prod.snd = done.filterMap learnt

/-- A step that does nothing to the database. -/
theorem Did.idle {s s' : Rtud} (ops : s'.ops = s.ops) (rtu : s'.rtu = s.rtu)
    (handled : s'.learner.handled = s.learner.handled) : Did s s' [] [] :=
  ⟨by simpa using ops, rtu, by simpa using handled, rfl⟩

/-- An operation that is not learning. -/
theorem Did.other {s s' : Rtud} {thread : Thread} {op : RtudOp} (apart : thread ≠ .learning)
    (ops : s'.ops = s.ops ++ [(thread, op)]) (rtu : s'.rtu = rtudStep s.rtu op)
    (handled : s'.learner.handled = s.learner.handled) : Did s s' [(thread, op)] [] :=
  ⟨ops, rtu, by simpa using handled, by simp [apart]⟩

/-- The operation is that of a request from outside, or it spares the reserved addresses. -/
def Harmless (e : RtudEvent) (op : RtudOp) : Prop :=
  e = .serve op ∨ ∀ reserved, op.Spares reserved

private theorem learn_did (s : Rtud) (restart : Bool) (now : Word) (stale : UfifoWords) :
    ∃ ops done, Did s (s.step (.learn restart now stale)) ops done ∧
      ∀ op ∈ ops, Harmless (.learn restart now stale) op.2 := by
  simp only [Rtud.step, Rtud.learnTurn]
  cases at_pc : s.learner.pc with
  | create req =>
    -- the one point of the loop that changes the tables
    refine ⟨[(.learning, learnOp req now)], [(req, some now)], ⟨by simp, by simp, ?_, ?_⟩, ?_⟩
    · simp only [Learner.turn, at_pc]
    · simp [learnt]
    · simp only [List.mem_singleton, forall_eq]
      exact .inr fun _ => .inl ⟨rfl, rfl⟩
  | scan req i =>
    dsimp only
    -- a request of a port that is down ends here without an operation
    by_cases skipped : (i : Int) ≤ maxPort ∧ portDown (s.halPortsLocalCopy i) req = true
    · refine ⟨[], [(req, none)], ⟨by simp, rfl, ?_, rfl⟩, by simp⟩
      simp only [Learner.turn, at_pc, if_pos skipped.1, if_pos skipped.2]
    · refine ⟨[], [], Did.idle rfl rfl ?_, by simp⟩
      simp only [Learner.turn, at_pc]
      split
      next inside => rw [if_neg fun down => skipped ⟨inside, down⟩]
      next => rfl
  | _ =>
    refine ⟨[], [], Did.idle rfl rfl ?_, by simp⟩
    simp only [Learner.turn, at_pc]
    repeat' split
    all_goals rfl

private theorem updatePortState_did (s : Rtud) (i : Nat) :
    ∃ work, Did s (s.updatePortState i) work [] ∧
      ∀ op ∈ work, ∀ reserved, op.2.Spares reserved := by
  by_cases used : (s.halPortsLocalCopy i).inUse = true
  swap
  · have same : s.updatePortState i = s := by
      unfold Rtud.updatePortState
      dsimp only
      rw [Bool.eq_false_iff.mpr used, Bool.not_false, if_pos rfl]
    rw [same]
    exact ⟨[], Did.idle rfl rfl rfl, by simp⟩
  by_cases down : s.portWasUp i = true ∧ stateUp (s.halPortsLocalCopy i) = false
  · refine ⟨[(.aging, .fd (.clear (s.halPortsLocalCopy i).hwIndex rtuEntryTypeDynamic))],
      Did.other (by decide) ?_ ?_ (by rw [updatePortState_learner]), ?_⟩
    · simp [Rtud.updatePortState, used, down]
    · simp [Rtud.updatePortState, used, down]
    · simp only [List.mem_singleton, forall_eq]
      exact fun _ => .inl static_ne_dynamic.symm
  · refine ⟨[], Did.idle ?_ ?_ (by rw [updatePortState_learner]), by simp⟩
    · simp [Rtud.updatePortState, used, down]
    · simp [Rtud.updatePortState, used, down]

private theorem flush_did (s : Rtud) (bitmap : Nat → Word) (t₁ t₂ : Word) :
    Did s { s.perform .aging (.fd (.flush bitmap t₁ t₂)) with aging := .readPorts }
      [(.aging, .fd (.flush bitmap t₁ t₂))] [] :=
  Did.other (by decide) (by simp) (by simp) (by simp)

private theorem age_did (s : Rtud) (bitmap : Nat → Word) (t₁ t₂ : Word) :
    ∃ work, Did s (s.step (.age bitmap t₁ t₂)) work [] ∧
      ∀ op ∈ work, ∀ reserved, op.2.Spares reserved := by
  have next : s.step (.age bitmap t₁ t₂) = s.agingTurn bitmap t₁ t₂ := rfl
  rw [next]
  unfold Rtud.agingTurn
  split
  next => exact ⟨[], Did.idle rfl rfl rfl, by simp⟩
  next i _ =>
    split
    next =>
      obtain ⟨work, did, spares⟩ := updatePortState_did s i
      exact ⟨work, ⟨did.ops, did.rtu, did.handled, did.learning⟩, spares⟩
    next => exact ⟨[], Did.idle rfl rfl rfl, by simp⟩
  next =>
    refine ⟨_, flush_did s bitmap t₁ t₂, ?_⟩
    simp only [List.mem_singleton, forall_eq]
    exact fun _ => trivial

/-- What a step does to the tables, and what of it is learning. -/
theorem step_did (s : Rtud) (e : RtudEvent) :
    ∃ ops done, Did s (s.step e) ops done ∧ ∀ op ∈ ops, Harmless e op.2 := by
  cases e with
  | push | raise | signal => exact ⟨[], [], Did.idle rfl rfl rfl, by simp⟩
  | interrupt =>
    refine ⟨[], [], Did.idle rfl rfl ?_, by simp⟩
    simp only [Rtud.step, Learner.interrupt]
    repeat' split
    all_goals rfl
  | learn restart now stale => exact learn_did s restart now stale
  | copyPort i ps =>
    simp only [Rtud.step]
    split
    · exact ⟨[], [], Did.idle rfl rfl rfl, by simp⟩
    · exact ⟨[], [], Did.idle rfl rfl rfl, by simp⟩
  | age bitmap t₁ t₂ =>
    obtain ⟨work, did, spares⟩ := age_did s bitmap t₁ t₂
    exact ⟨work, [], did, fun op listed => .inr (spares op listed)⟩
  | serve op =>
    refine ⟨[(.wripc, op)], [],
      Did.other (by decide) (perform_ops _ _ _) (perform_rtu _ _ _) (by simp [Rtud.step]), ?_⟩
    simp only [List.mem_singleton, forall_eq]
    exact .inl rfl

/-! ### Runs -/

/-- The learning side of every run. -/
structure RtudInv (rtu : RtuState) (queue : List UnrecFrame) (es : List RtudEvent) (s : Rtud) :
    Prop where
  learner : LearnInv s.learner
  pushed : s.learner.pushed = queue ++ es.filterMap RtudEvent.frame
  tables : s.rtu = run rtudStep rtu (s.ops.map Prod.snd)
  learning : (s.ops.filter fun op => op.1 = .learning).map Prod.snd =
    s.learner.handled.filterMap learnt
  harmless : ∀ op ∈ s.ops, .serve op.2 ∈ es ∨ ∀ reserved, op.2.Spares reserved

private theorem rtudInv_run (rtu : RtuState) (ports : Nat → HalPortState) (irqDisable isr : Bool)
    (queue : List UnrecFrame) (es : List RtudEvent) :
    RtudInv rtu queue es (run Rtud.step (Rtud.start rtu ports irqDisable isr queue) es) := by
  induction es using List.reverseRecOn with
  | nil =>
    refine ⟨⟨rfl, fun _ => rfl, fun _ => .inr (.inr rfl), ?_, ?_, ?_, ?_⟩, ?_, rfl, rfl, ?_⟩
    · simp [Rtud.start]
    · simp [Rtud.start]
    · simp [Rtud.start]
    · simp [Rtud.start, LearnPc.inHand, ufifoRequest_words]
    · simp [Rtud.start]
    · simp [Rtud.start]
  | append_singleton es e ih =>
    rw [run_concat]
    generalize run Rtud.step (Rtud.start rtu ports irqDisable isr queue) es = s at ih
    -- what one step did is appended to each of the logs
    obtain ⟨work, done, did, harmless⟩ := step_did s e
    refine ⟨?_, ?_, ?_, ?_, ?_⟩
    · rw [step_learner]
      exact ih.learner.step _ e
    · rw [step_learner, step_pushed, ih.pushed, List.filterMap_append, List.append_assoc,
        List.filterMap_cons]
      cases e.frame <;> rfl
    · rw [did.rtu, did.ops, ih.tables, List.map_append, run_append]
    · rw [did.ops, did.handled, List.filter_append, List.map_append, List.filterMap_append,
        did.learning, ih.learning]
    · intro op listed
      rw [did.ops, List.mem_append] at listed
      rcases listed with old | new
      · exact (ih.harmless op old).imp_left (List.mem_append_left _)
      · refine (harmless op new).imp_left ?_
        rintro rfl
        simp

/-! ### Ports that do not change -/

/-- Some port shows that it is the one of the request, and down. -/
def Down (ports : Nat → HalPortState) (req : RtuRequest) : Prop :=
  ∃ i : Nat, (i : Int) ≤ maxPort ∧ portDown (ports i) req = true

/-- The judgement on every request, on the way and given. -/
structure Judged (ports : Nat → HalPortState) (l : Learner) : Prop where
  scanned : ∀ req i, l.pc = .scan req i → ∀ j < i, portDown (ports j) req = false
  passed : ∀ req, l.pc = .create req → ¬Down ports req
  judged : ∀ r ∈ l.handled, r.2 = none ↔ Down ports r.1

/-- A step of the thread judges a request by the port's state at that time. -/
theorem Judged.turn {l : Learner} {ports : Nat → HalPortState} (inv : Judged ports l)
    (restart : Bool) (now : Word) (stale : UfifoWords) :
    Judged ports (l.turn ports restart now stale) := by
  cases at_pc : l.pc with
  -- the loop has compared the ports below i; it stops at the first one that is down
  | scan req i =>
    have scanned := inv.scanned req i at_pc
    simp only [Learner.turn, at_pc]
    split
    next inside =>
      split
      next down =>
        refine ⟨by simp, by simp, ?_⟩
        intro r listed
        rcases List.mem_append.mp listed with old | new
        · exact inv.judged r old
        · obtain rfl := List.mem_singleton.mp new
          exact iff_of_true rfl ⟨i, inside, down⟩
      next up =>
        refine ⟨?_, by simp, inv.judged⟩
        rintro _ _ ⟨⟩ j below
        rcases Nat.lt_succ_iff_lt_or_eq.mp below with before | rfl
        · exact scanned j before
        · simpa using up
    -- past the last port no port is left that could be down
    next outside =>
      refine ⟨by simp, ?_, inv.judged⟩
      rintro _ ⟨⟩ ⟨j, inside, down⟩
      rw [scanned j (by omega)] at down
      cases down
  | create req =>
    have passed := inv.passed req at_pc
    simp only [Learner.turn, at_pc]
    refine ⟨by simp, by simp, ?_⟩
    intro r listed
    rcases List.mem_append.mp listed with old | new
    · exact inv.judged r old
    · obtain rfl := List.mem_singleton.mp new
      exact iff_of_false (by simp) passed
  | irqena req =>
    simp only [Learner.turn, at_pc]
    refine ⟨?_, by simp, inv.judged⟩
    rintro _ _ ⟨⟩ j below
    exact absurd below (Nat.not_lt_zero j)
  | asleep =>
    simp only [Learner.turn, at_pc]
    exact inv
  | call | look | irqwait | check | woken | read =>
    simp only [Learner.turn, at_pc]
    repeat' split
    all_goals exact ⟨by simp, by simp, inv.judged⟩

private theorem wake_busy {pc pc' : LearnPc} (other : pc' ≠ .check) (wakes : pc.wake = pc') :
    pc = pc' := by
  cases pc with
  | asleep => exact absurd wakes.symm other
  | _ => exact wakes

/-- Waking the thread judges nothing. -/
theorem Judged.woken {l l' : Learner} {ports : Nat → HalPortState} (inv : Judged ports l)
    (pc : l'.pc = l.pc.wake) (handled : l'.handled = l.handled) : Judged ports l' := by
  refine ⟨?_, ?_, ?_⟩
  · intro req i scanning
    rw [pc] at scanning
    exact inv.scanned req i (wake_busy (by simp) scanning)
  · intro req creating
    rw [pc] at creating
    exact inv.passed req (wake_busy (by simp) creating)
  · rw [handled]
    exact inv.judged

/-- Every step keeps what was judged. -/
theorem Judged.step {l : Learner} {ports : Nat → HalPortState} (inv : Judged ports l)
    (e : RtudEvent) : Judged ports (l.step ports e) := by
  cases e with
  | push | raise => exact ⟨inv.scanned, inv.passed, inv.judged⟩
  | signal => exact inv.woken rfl rfl
  | interrupt =>
    simp only [Learner.step, Learner.interrupt]
    split
    swap
    · exact inv
    split
    next => exact inv
    next => exact inv.woken rfl rfl
  | learn restart now stale => exact inv.turn restart now stale
  | copyPort | age | serve => exact inv

private theorem step_ports (s : Rtud) {e : RtudEvent} (still : ∀ i ps, e ≠ .copyPort i ps) :
    (s.step e).halPortsLocalCopy = s.halPortsLocalCopy := by
  have updated (i : Nat) : (s.updatePortState i).halPortsLocalCopy = s.halPortsLocalCopy := by
    unfold Rtud.updatePortState
    dsimp only
    split
    next => rfl
    next =>
      dsimp only
      split
      next => rw [Rtud.perform]
      next => rfl
  cases e with
  | push | raise | interrupt | signal => rfl
  | serve op => rw [Rtud.step, Rtud.perform]
  | copyPort i ps => exact absurd rfl (still i ps)
  | learn restart now stale =>
    have next : s.step (.learn restart now stale) = s.learnTurn restart now stale := rfl
    rw [next, Rtud.learnTurn]
    dsimp only
    split
    next => rw [Rtud.perform]
    next => rfl
  | age bitmap t₁ t₂ =>
    have next : s.step (.age bitmap t₁ t₂) = s.agingTurn bitmap t₁ t₂ := rfl
    rw [next, Rtud.agingTurn]
    split
    next => rfl
    next i _ =>
      split
      next => exact updated i
      next => rfl
    next => rw [Rtud.perform]

/-- Without news of the ports every request is judged by what the daemon started with. -/
theorem judged_run (rtu : RtuState) (ports : Nat → HalPortState) (irqDisable isr : Bool)
    (queue : List UnrecFrame) (es : List RtudEvent) (still : ∀ i ps, .copyPort i ps ∉ es) :
    Judged ports (run Rtud.step (Rtud.start rtu ports irqDisable isr queue) es).learner := by
  have kept (s : Rtud) (e : RtudEvent)
      (inv : s.halPortsLocalCopy = ports ∧ Judged ports s.learner)
      (other : ∀ i ps, e ≠ .copyPort i ps) :
      (s.step e).halPortsLocalCopy = ports ∧ Judged ports (s.step e).learner := by
    refine ⟨(step_ports s other).trans inv.1, ?_⟩
    rw [step_learner, inv.1]
    exact inv.2.step e
  have initial : Judged ports (Rtud.start rtu ports irqDisable isr queue).learner :=
    ⟨by simp [Rtud.start], by simp [Rtud.start], by simp [Rtud.start]⟩
  refine (run_invariant (fun s => s.halPortsLocalCopy = ports ∧ Judged ports s.learner)
    (fun _ e => ∀ i ps, e ≠ .copyPort i ps) Rtud.step kept
    (Rtud.start rtu ports irqDisable isr queue) es ⟨rfl, initial⟩ ?_).2
  apply Along.of_forall
  rintro _ listed i ps rfl
  exact still i ps listed

/-- In every order of steps of the hardware, the handler and the threads, with any signals, the
requests of the frames are read once each and in their order; what was done to the tables is a
run of operations, among which those of the learning thread are the entries of the requests it
did not skip; and while no port changes it skips exactly the requests of ports that are down. -/
theorem requests_in_order (rtu : RtuState) (ports : Nat → HalPortState) (irqDisable isr : Bool)
    (queue : List UnrecFrame) (es : List RtudEvent) :
    let s := run Rtud.step (Rtud.start rtu ports irqDisable isr queue) es
    (queue ++ es.filterMap RtudEvent.frame).map UnrecFrame.request =
        s.learner.handled.map Prod.fst ++ s.learner.pc.inHand ++
          s.learner.ufifo.map ufifoRequest ∧
      s.rtu = run rtudStep rtu (s.ops.map Prod.snd) ∧
      (s.ops.filter fun op => op.1 = .learning).map Prod.snd =
        s.learner.handled.filterMap learnt ∧
      ((∀ i ps, .copyPort i ps ∉ es) →
        ∀ r ∈ s.learner.handled, r.2 = none ↔ Down ports r.1) := by
  intro s
  have inv := rtudInv_run rtu ports irqDisable isr queue es
  refine ⟨?_, inv.tables, inv.learning, ?_⟩
  · rw [← inv.pushed]
    exact inv.learner.order
  · intro still
    exact (judged_run rtu ports irqDisable isr queue es still).judged

/-! ### Wake-ups -/

/-- The thread is on its way, or the interrupt is there that wakes it. Other threads may go on, and
the hardware may raise its interrupt again. With an empty queue the handler does nothing. -/
def Moves (s : Rtud) : RtudEvent → Prop
  | .learn .. => s.learner.pc ≠ .asleep
  | .interrupt => (s.learner.dev.isr && s.learner.dev.imr) = true ∧ s.learner.ufifo ≠ []
  | .push _ | .signal => False
  | .raise | .copyPort .. | .age .. | .serve _ => True

/-- The steps of the learning thread and of the handler. -/
def RtudEvent.learns : RtudEvent → Bool
  | .learn .. | .interrupt => true
  | _ => false

def LearnPc.rank (empty : Bool) : LearnPc → Nat
  | .irqena _ => 61
  | .scan _ i => 22 + (18 - i)
  | .create _ => 21
  | .call => 5
  | .look => 4
  | .irqwait => if empty then 3 else 6
  | .check => if empty then 2 else 5
  | .woken => if empty then 1 else 4
  | .read => 2
  | .asleep => 0

def Learner.work (l : Learner) : Nat :=
  100 * l.ufifo.length + (if l.sigPending then 40 else 0) + (if l.irqDisabled then 30 else 0) +
    (if l.dev.imr then 20 else 0) + l.pc.rank l.ufifo.isEmpty

private theorem turn_work {l : Learner} (inv : LearnInv l) (awake : l.pc ≠ .asleep)
    (ports : Nat → HalPortState) (restart : Bool) (now : Word) (stale : UfifoWords) :
    (l.turn ports restart now stale).work < l.work := by
  -- irqena costs at most one more interrupt
  have enabled (dev : WrRtuDev) : (if dev.irqena.imr then 20 else 0) ≤
      (if dev.imr then 20 else 0) + 20 := by split <;> omega
  cases at_pc : l.pc with
  | call =>
    have cost := enabled l.dev
    simp only [Learner.turn, at_pc, Learner.work, LearnPc.rank]
    by_cases fresh : l.irqDisabled = true
    · simp only [fresh, if_true, Bool.false_eq_true, if_false]
      omega
    · simp only [fresh, if_false, Bool.false_eq_true]
      omega
  | look =>
    simp only [Learner.turn, at_pc, Learner.work]
    cases l.ufifo <;> simp [LearnPc.rank]
  | irqwait =>
    -- a set flag means a word in the queue, and that word pays for the way back to the call
    have filled := inv.waiting (by simp [at_pc]) (by simp [at_pc])
    simp only [Learner.turn, at_pc, Learner.work]
    by_cases set : l.dev.irqDisable = true
    · have some := filled set
      simp only [set, if_true]
      simp [LearnPc.rank, some]
    · simp only [set]
      cases l.ufifo <;> simp [LearnPc.rank]
  | check =>
    simp only [Learner.turn, at_pc, Learner.work]
    by_cases woken : l.ufifo ≠ [] ∨ l.sigPending = true
    · simp only [woken, if_true]
      cases l.ufifo <;> simp [LearnPc.rank]
    · obtain ⟨empty, _⟩ := not_or.mp woken
      simp only [woken, if_false]
      simp [LearnPc.rank, not_not.mp empty]
  | asleep => exact absurd at_pc awake
  | woken =>
    simp only [Learner.turn, at_pc, Learner.work]
    by_cases pending : l.sigPending = true
    · simp only [pending, if_true]
      cases restart <;> cases l.ufifo <;> simp [LearnPc.rank] <;> omega
    · -- no signal, so the wait ended because of a word, and the loop goes on to read it
      have filled := (inv.woken at_pc).resolve_right pending
      simp only [pending, if_false, Bool.false_eq_true]
      simp [LearnPc.rank, filled]
  | read =>
    simp only [Learner.turn, at_pc, Learner.work]
    cases queue : l.ufifo with
    | nil => exact absurd queue (inv.read at_pc)
    | cons w ufifo =>
      simp only [LearnPc.rank, List.length_cons]
      omega
  | irqena req =>
    simp only [Learner.turn, at_pc, Learner.work, LearnPc.rank]
    have := enabled l.dev
    omega
  | scan req i =>
    simp only [Learner.turn, at_pc, Learner.work]
    split
    next inside =>
      -- the scan counts up to a bound, and skipping a request ends it
      have last : maxPort = 17 := rfl
      split <;> simp only [LearnPc.rank] <;> omega
    next =>
      simp only [LearnPc.rank]
      omega
  | create req =>
    simp only [Learner.turn, at_pc, Learner.work, LearnPc.rank]
    omega

/-- The handler takes work away. -/
theorem interrupt_work {l : Learner} (asserted : (l.dev.isr && l.dev.imr) = true)
    (filled : l.ufifo ≠ []) : l.interrupt.work < l.work := by
  have enabled : l.dev.imr = true := by
    simp only [Bool.and_eq_true] at asserted
    exact asserted.2
  unfold Learner.interrupt
  rw [if_pos asserted, if_neg filled]
  simp only [Learner.work, enabled, if_true, Bool.false_eq_true, if_false]
  -- a sleeper that is woken has less before it than the interrupt was worth
  have woken : l.pc.wake.rank l.ufifo.isEmpty ≤ l.pc.rank l.ufifo.isEmpty + 5 := by
    cases l.pc <;> simp [LearnPc.wake, LearnPc.rank, filled]
  omega

/-- Every step of the thread and of the handler takes work away. -/
theorem moves_work {s : Rtud} (inv : LearnInv s.learner) {e : RtudEvent} (moves : Moves s e) :
    (s.step e).learner.work + (if e.learns then 1 else 0) ≤ s.learner.work := by
  rw [step_learner]
  cases e with
  | push | signal => exact moves.elim
  | interrupt => exact interrupt_work moves.1 moves.2
  | learn restart now stale => exact turn_work inv moves _ restart now stale
  | raise | copyPort | age | serve => exact Nat.le_refl _

/-- Neither the learning thread nor the handler can go on. -/
def Quiet (s : Rtud) : Prop := ∀ e : RtudEvent, e.learns = true → ¬Moves s e

/-- Where nothing can go on the queue is empty. -/
theorem LearnInv.quiet {s : Rtud} (inv : LearnInv s.learner) (quiet : Quiet s) :
    s.learner.ufifo = [] ∧ s.learner.pc.inHand = [] := by
  have sleeps : s.learner.pc = .asleep :=
    not_not.mp (quiet (.learn false 0 ⟨0, 0, 0, 0, 0⟩) rfl)
  refine ⟨?_, by rw [sleeps]; rfl⟩
  by_contra filled
  exact quiet .interrupt rfl ⟨(inv.asleep sleeps).2 filled, filled⟩

private theorem moves_frame {s : Rtud} {e : RtudEvent} (moves : Moves s e) : e.frame = none := by
  cases e with
  | push | signal => exact moves.elim
  | _ => rfl

/-- Whatever has happened, with no new frame and no signal the learning thread and the handler take a
bounded number of steps, however the other threads go on, and when neither of them can go on every
request has been dealt with: no wake-up is lost. -/
theorem requests_all_handled (rtu : RtuState) (ports : Nat → HalPortState) (irqDisable isr : Bool)
    (queue : List UnrecFrame) (es ds : List RtudEvent) :
    let s := run Rtud.step (Rtud.start rtu ports irqDisable isr queue) es
    Along Moves Rtud.step s ds →
      ds.countP RtudEvent.learns ≤ s.learner.work ∧
        let s' := run Rtud.step s ds
        Quiet s' → s'.learner.handled.map Prod.fst =
          (queue ++ es.filterMap RtudEvent.frame).map UnrecFrame.request := by
  intro s moves
  have inv (es : List RtudEvent) := rtudInv_run rtu ports irqDisable isr queue es
  constructor
  · -- a step of the daemon is a step of the learning loop or leaves it alone
    have kept (s : Rtud) (e : RtudEvent) (inv : LearnInv s.learner) (_ : Moves s e) :
        LearnInv (s.step e).learner := by
      rw [step_learner]
      exact inv.step _ e
    exact Along.countP_le (fun s => LearnInv s.learner) (fun s => s.learner.work)
      RtudEvent.learns kept (fun _ _ inv move => moves_work inv move) (inv es).learner moves
  · intro s' quiet
    -- at rest the queue is empty and no request is in hand, so the order of the requests is that
    -- of the handled ones alone
    have all := inv (es ++ ds)
    have silent : ds.filterMap RtudEvent.frame = [] := by
      rw [List.filterMap_eq_nil_iff]
      exact Along.forall_mem (fun _ _ move => moves_frame move) moves
    rw [run_append] at all
    obtain ⟨empty, free⟩ := all.learner.quiet quiet
    have order := all.learner.order
    rw [free, empty, all.pushed, List.filterMap_append, silent] at order
    simpa using order.symm

/-- One frame, the interrupt that wakes the thread, and a step of it. -/
theorem requests_all_handled_one :
    let es := [RtudEvent.learn false 0 ⟨0, 0, 0, 0, 0⟩, .learn false 0 ⟨0, 0, 0, 0, 0⟩,
      .learn false 0 ⟨0, 0, 0, 0, 0⟩, .learn false 0 ⟨0, 0, 0, 0, 0⟩,
      .push ⟨3, macA, macB, 5, true, 0, false⟩]
    let ds := [RtudEvent.interrupt, .raise, .learn false 0 ⟨0, 0, 0, 0, 0⟩]
    let s := run Rtud.step (Rtud.start firstStartState (fun i => ⟨true, i, .linkUp⟩) false false
      []) es
    ds.countP RtudEvent.learns ≤ s.learner.work ∧
      let s' := run Rtud.step s ds
      Quiet s' → s'.learner.handled.map Prod.fst =
        ([] ++ es.filterMap RtudEvent.frame).map UnrecFrame.request := by
  apply requests_all_handled
  exact ⟨⟨rfl, List.cons_ne_nil _ _⟩, trivial, LearnPc.noConfusion, trivial⟩

/-! ### Reserved addresses -/

end WrSwitch.Rtu
