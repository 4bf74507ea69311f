import WrSwitch.Rtu.Anchored

/-!
# The daemon at work

The queue of unrecognised requests with the driver that waits for it, `wr_rtu.c` and
`rtu_drv.c`, and the three threads of `rtud.c`. The kernel is configured for one processor, so
the interrupt handler runs between two steps of a thread. A call into `rtu_fd.c` is one step.
-/
namespace WrSwitch.Rtu

open Machine

/-! ### Unrecognised requests -/

/-- The output registers of the UFIFO. -/
structure UfifoWords where
  r0 : Word
  r1 : Word
  r2 : Word
  r3 : Word
  r4 : Word
deriving DecidableEq, Repr

/-- `struct rtu_request` -/
structure RtuRequest where
  portId : Int
  src : Mac
  dst : Mac
  vid : BitVec 16
  hasVid : Word
  prio : Byte
  hasPrio : Word
deriving DecidableEq, Repr

def rtuUfifoR0DmacLoR (reg : Word) : Word := wbgen2GenRead reg 0 32
def rtuUfifoR1DmacHiR (reg : Word) : Word := wbgen2GenRead reg 0 16
def rtuUfifoR2SmacLoR (reg : Word) : Word := wbgen2GenRead reg 0 32
def rtuUfifoR3SmacHiR (reg : Word) : Word := wbgen2GenRead reg 0 16
def rtuUfifoR4VidR (reg : Word) : Word := wbgen2GenRead reg 0 12
def rtuUfifoR4PrioR (reg : Word) : Word := wbgen2GenRead reg 12 3
def rtuUfifoR4PidR (reg : Word) : Word := wbgen2GenRead reg 16 8
def rtuUfifoR4HasVid : Word := wbgen2GenMask 24 1
def rtuUfifoR4HasPrio : Word := wbgen2GenMask 25 1

/-- The address that `rtu_read_learning_queue` takes from a high and a low word. -/
def ufifoMac (hi lo : Word) : Mac where
  b5 := (0xFF &&& lo).setWidth 8
  b4 := ((0xFF : Word) &&& (lo >>> 8)).setWidth 8
  b3 := ((0xFF : Word) &&& (lo >>> 16)).setWidth 8
  b2 := ((0xFF : Word) &&& (lo >>> 24)).setWidth 8
  b1 := (0xFF &&& hi).setWidth 8
  b0 := ((0xFF : Word) &&& (hi >>> 8)).setWidth 8

/-- What `rtu_read_learning_queue` makes of the registers. -/
def ufifoRequest (w : UfifoWords) : RtuRequest where
  portId := (rtuUfifoR4PidR w.r4).toNat
  hasPrio := rtuUfifoR4HasPrio &&& w.r4
  prio := (rtuUfifoR4PrioR w.r4).setWidth 8
  hasVid := rtuUfifoR4HasVid &&& w.r4
  vid := (rtuUfifoR4VidR w.r4).setWidth 16
  dst := ufifoMac (rtuUfifoR1DmacHiR w.r1) (rtuUfifoR0DmacLoR w.r0)
  src := ufifoMac (rtuUfifoR3SmacHiR w.r3) (rtuUfifoR2SmacLoR w.r2)

/-- What the hardware reports of a frame from an unknown address. -/
structure UnrecFrame where
  port : Byte
  src : Mac
  dst : Mac
  vid : BitVec 12
  hasVid : Bool
  prio : BitVec 3
  hasPrio : Bool
deriving DecidableEq, Repr

def rtuUfifoR4VidW (value : Word) : Word := wbgen2GenWrite value 0 12
def rtuUfifoR4PrioW (value : Word) : Word := wbgen2GenWrite value 12 3
def rtuUfifoR4PidW (value : Word) : Word := wbgen2GenWrite value 16 8

def Mac.hi (mac : Mac) : Word := (mac.b0 ++ mac.b1).setWidth 32
def Mac.lo (mac : Mac) : Word := mac.b2 ++ mac.b3 ++ mac.b4 ++ mac.b5

/-- The words of a frame, by the fields of `rtu-regs.h`. -/
def UnrecFrame.words (frame : UnrecFrame) : UfifoWords where
  r0 := frame.dst.lo
  r1 := frame.dst.hi
  r2 := frame.src.lo
  r3 := frame.src.hi
  r4 := rtuUfifoR4VidW (frame.vid.setWidth 32) ||| rtuUfifoR4PrioW (frame.prio.setWidth 32)
    ||| rtuUfifoR4PidW (frame.port.setWidth 32)
    ||| (if frame.hasVid then rtuUfifoR4HasVid else 0)
    ||| (if frame.hasPrio then rtuUfifoR4HasPrio else 0)

/-! ### The kernel driver -/

/-- `WR_FLAG_IRQDISABLE` of the device, and the bit of the UFIFO in the status and the mask
register of the interrupt controller. -/
structure WrRtuDev where
  irqDisable : Bool
  isr : Bool
  imr : Bool
deriving DecidableEq, Repr

/-- The ioctl `WR_RTU_IRQENA`, which is refused as long as the interrupt is enabled. -/
def WrRtuDev.irqena (dev : WrRtuDev) : WrRtuDev :=
  if dev.irqDisable then ⟨false, false, true⟩ else dev

/-! ### Threads -/

/-- Where the learning thread stands in `rtu_daemon_learning_process` and in the functions and
ioctls that it calls. -/
inductive LearnPc
  /-- enters `rtu_read_learning_queue` -/
  | call
  /-- `rtu_ufifo_is_empty` -/
  | look
  /-- the test of the flag in `WR_RTU_IRQWAIT` -/
  | irqwait
  /-- the condition of `wait_event_interruptible` -/
  | check
  | asleep
  /-- the test for a pending signal -/
  | woken
  /-- reads the registers -/
  | read
  | irqena (req : RtuRequest)
  /-- turn `i` of the loop over the ports -/
  | scan (req : RtuRequest) (i : Nat)
  | create (req : RtuRequest)
deriving DecidableEq, Repr

/-- `wake_up_interruptible`, or a signal. -/
def LearnPc.wake : LearnPc → LearnPc
  | .asleep => .check
  | pc => pc

/-- The request that was read but not dealt with. -/
def LearnPc.inHand : LearnPc → List RtuRequest
  | .irqena req | .scan req _ | .create req => [req]
  | .call | .look | .irqwait | .check | .asleep | .woken | .read => []

/-- Where the aging thread stands: in `read_ports`, in the loop of `rtu_update_ports_state`, or
before `rtu_fd_flush`. -/
inductive AgingPc
  | readPorts
  | link (i : Nat)
  | flush
deriving DecidableEq, Repr

inductive Thread
  | learning | aging | wripc
deriving DecidableEq, Repr

/-- The learning thread with the driver and the queue. `pushed` and `handled` record what was
queued, and what became of each request that was read: the time of its entry, if it was learnt. -/
structure Learner where
  irqDisabled : Bool
  pc : LearnPc
  sigPending : Bool
  dev : WrRtuDev
  ufifo : List UfifoWords
  pushed : List UnrecFrame
  handled : List (RtuRequest × Option Word)

/-- A request arrives. The bit is set when the queue is no longer empty. -/
def Learner.push (l : Learner) (frame : UnrecFrame) : Learner :=
  { l with
    ufifo := l.ufifo ++ [frame.words], pushed := l.pushed ++ [frame],
    dev := { l.dev with isr := l.dev.isr || l.ufifo.isEmpty } }

/-- `wr_rtu_interrupt`, when its interrupt is pending and enabled. -/
def Learner.interrupt (l : Learner) : Learner :=
  if l.dev.isr && l.dev.imr then
    -- with an empty queue it returns `IRQ_NONE`
    if l.ufifo = [] then l
    else { l with dev := { l.dev with irqDisable := true, imr := false }, pc := l.pc.wake }
  else l

/-- The port of a request is in use and down. -/
def portDown (ps : HalPortState) (req : RtuRequest) : Bool :=
  ps.inUse && decide (ps.hwIndex = req.portId) && !stateUp ps

/-- A step of the learning thread: whether the kernel restarts an interrupted call, the clock,
and what the registers of an empty queue show. -/
def Learner.turn (l : Learner) (ports : Nat → HalPortState) (restart : Bool) (now : Word)
    (stale : UfifoWords) : Learner :=
  match l.pc with
  | .call => { l with
      dev := if l.irqDisabled then l.dev.irqena else l.dev, irqDisabled := false, pc := .look }
  | .look => { l with pc := if l.ufifo = [] then .irqwait else .read }
  -- `EAGAIN` makes `rtu_read_learning_queue` return 2
  | .irqwait => { l with pc := if l.dev.irqDisable then .call else .check }
  | .check => { l with pc := if l.ufifo ≠ [] ∨ l.sigPending then .woken else .asleep }
  | .asleep => l
  | .woken =>
    if l.sigPending then { l with sigPending := false, pc := if restart then .irqwait else .call }
    else { l with pc := .read }
  | .read =>
    match l.ufifo with
    | [] => { l with pc := .irqena (ufifoRequest stale) }
    | w :: ufifo => { l with ufifo := ufifo, pc := .irqena (ufifoRequest w) }
  | .irqena req => { l with dev := l.dev.irqena, pc := .scan req 0 }
  | .scan req i =>
    if (i : Int) ≤ maxPort then
      if portDown (ports i) req then
        { l with pc := .call, handled := l.handled ++ [(req, none)] }
      else { l with pc := .scan req (i + 1) }
    else { l with pc := .create req }
  | .create req => { l with pc := .call, handled := l.handled ++ [(req, some now)] }

/-- The daemon. `ops` records what was done to the tables. -/
structure Rtud where
  rtu : RtuState
  halPortsLocalCopy : Nat → HalPortState
  portWasUp : Nat → Bool
  aging : AgingPc
  learner : Learner
  ops : List (Thread × RtudOp)

inductive RtudEvent
  /-- a frame from an unknown address -/
  | push (frame : UnrecFrame)
  /-- the hardware raises the interrupt without a new request -/
  | raise
  | interrupt
  | signal
  | learn (restart : Bool) (now : Word) (stale : UfifoWords)
  /-- `read_ports` stores the state of a port -/
  | copyPort (i : Nat) (ps : HalPortState)
  | age (bitmap : Nat → Word) (t₁ t₂ : Word)
  /-- a request of another process -/
  | serve (op : RtudOp)

def Rtud.perform (s : Rtud) (thread : Thread) (op : RtudOp) : Rtud :=
  { s with rtu := rtudStep s.rtu op, ops := s.ops ++ [(thread, op)] }

/-- The call of `rtu_fd_create_entry` for a request. -/
def learnOp (req : RtuRequest) (now : Word) : RtudOp :=
  let vid := if req.hasVid ≠ 0 then req.vid else 0
  let portMap := portBit req.portId
  .fd (.create req.src vid portMap rtuEntryTypeDynamic overrideExistingDynamic now)

def Rtud.learnTurn (s : Rtud) (restart : Bool) (now : Word) (stale : UfifoWords) : Rtud :=
  let learner := s.learner.turn s.halPortsLocalCopy restart now stale
  match s.learner.pc with
  | .create req => { s.perform .learning (learnOp req now) with learner := learner }
  | _ => { s with learner := learner }

/-- One turn of the loop of `rtu_update_ports_state`. -/
def Rtud.updatePortState (s : Rtud) (i : Nat) : Rtud :=
  let ps := s.halPortsLocalCopy i
  if !ps.inUse then s
  else
    let linkUp := stateUp ps
    let s := if s.portWasUp i && !linkUp then
        s.perform .aging (.fd (.clear ps.hwIndex rtuEntryTypeDynamic))
      else s
    { s with portWasUp := Function.update s.portWasUp i linkUp }

def Rtud.agingTurn (s : Rtud) (bitmap : Nat → Word) (t₁ t₂ : Word) : Rtud :=
  match s.aging with
  | .readPorts => { s with aging := .link 0 }
  | .link i =>
    if (i : Int) ≤ maxPort ∧ (i : Int) < s.rtu.halNportsLocal.val then
      { s.updatePortState i with aging := .link (i + 1) }
    else { s with aging := .flush }
  | .flush => { s.perform .aging (.fd (.flush bitmap t₁ t₂)) with aging := .readPorts }

def Rtud.step (s : Rtud) : RtudEvent → Rtud
  | .push frame => { s with learner := s.learner.push frame }
  | .raise => { s with learner := { s.learner with dev := { s.learner.dev with isr := true } } }
  | .interrupt => { s with learner := s.learner.interrupt }
  | .signal => { s with
      learner := { s.learner with sigPending := true, pc := s.learner.pc.wake } }
  | .learn restart now stale => s.learnTurn restart now stale
  | .copyPort i ps =>
    if s.aging = .readPorts then
      { s with halPortsLocalCopy := Function.update s.halPortsLocalCopy i ps }
    else s
  | .age bitmap t₁ t₂ => s.agingTurn bitmap t₁ t₂
  | .serve op => s.perform .wripc op

/-- The daemon as its threads start. The flag of the driver, the pending bit and the queue are
what an earlier run of the daemon left. -/
def Rtud.start (rtu : RtuState) (ports : Nat → HalPortState) (irqDisable isr : Bool)
    (queue : List UnrecFrame) : Rtud where
  rtu := rtu
  halPortsLocalCopy := ports
  portWasUp := fun i => stateUp (ports i)
  aging := .readPorts
  learner :=
    { irqDisabled := true
      pc := .call
      sigPending := false
      dev := ⟨irqDisable, isr, !irqDisable⟩
      ufifo := queue.map UnrecFrame.words
      pushed := queue
      handled := [] }
  ops := []

end WrSwitch.Rtu
