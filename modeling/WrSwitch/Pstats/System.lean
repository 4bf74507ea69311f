import WrSwitch.Machine.Run
import WrSwitch.Pstats.Device

/-!
# Counters, interrupts and readouts

The FPGA counts events and raises a flag whenever 16 bits of a counter wrap. The interrupt
handler, which runs between any two steps of the tasklet, stores flags in a ring, the tasklet
adds them to the counters, and readouts and zeroing requests come at any time.
-/
namespace WrSwitch.Pstats

/-! ### The FPGA -/

def crPort (cr : Word) : Nat := ((cr >>> crPortShift) &&& 0x1f).toNat
def crAddr (cr : Word) : Nat := ((cr >>> crAddrShift) &&& 0x1f).toNat

/-- Four bytes in one register. -/
def packBytes (b : Nat → Nat) : Word :=
  BitVec.ofNat 32 (b 0 % 256 + 256 * (b 1 % 256) + 65536 * (b 2 % 256) + 16777216 * (b 3 % 256))

/-- L1 and L2 for a value of CR: the low and the high bytes of four counters. -/
def fpgaRegs (events : Nat → Nat → Nat) (cr : Word) : Word × Word :=
  let word := events (crPort cr)
  (packBytes fun i => word (4 * crAddr cr + i),
    packBytes fun i => word (4 * crAddr cr + i) / 256)

private theorem field_toNat (x : Word) (k : Nat) :
    ((x >>> k) &&& 0x1f).toNat = x.toNat / 2 ^ k % 32 := by
  rw [BitVec.toNat_and, BitVec.toNat_ushiftRight, Nat.shiftRight_eq_div_pow]
  exact Nat.and_two_pow_sub_one_eq_mod _ 5

private theorem crValue_toNat {port adr : Nat} (portFits : port < 32) (adrFits : adr < 32) :
    (crValue port adr).toNat = 65536 * adr + (256 * port + 1) := by
  have low : (BitVec.ofNat 32 port <<< crPortShift).toNat = 256 * port := by
    simp only [crPortShift, BitVec.toNat_shiftLeft, BitVec.toNat_ofNat, Nat.shiftLeft_eq]
    omega
  have high : (BitVec.ofNat 32 adr <<< crAddrShift).toNat = 65536 * adr := by
    simp only [crAddrShift, BitVec.toNat_shiftLeft, BitVec.toNat_ofNat, Nat.shiftLeft_eq]
    omega
  rw [crValue, BitVec.or_assoc, BitVec.toNat_or, BitVec.toNat_or, low, high]
  have enabled : 256 * port ||| crRdEn.toNat = 256 * port + 1 :=
    (Nat.two_pow_add_eq_or_of_lt (i := 8) (by decide : 1 < 2 ^ 8) port).symm
  rw [enabled]
  exact (Nat.two_pow_add_eq_or_of_lt (i := 16) (by omega : 256 * port + 1 < 2 ^ 16) adr).symm

private theorem crPort_crValue {port adr : Nat} (portFits : port < 32) (adrFits : adr < 32) :
    crPort (crValue port adr) = port := by
  rw [crPort, field_toNat, crValue_toNat portFits adrFits, crPortShift]
  omega

private theorem crAddr_crValue {port adr : Nat} (portFits : port < 32) (adrFits : adr < 32) :
    crAddr (crValue port adr) = adr := by
  rw [crAddr, field_toNat, crValue_toNat portFits adrFits, crAddrShift]
  omega

private theorem packBytes_byte (b : Nat → Nat) {n : Nat} (inside : n < 4) :
    (packBytes b).toNat / 2 ^ (8 * n) % 256 = b n % 256 := by
  have bound : b 0 % 256 + 256 * (b 1 % 256) + 65536 * (b 2 % 256) + 16777216 * (b 3 % 256) <
      2 ^ 32 := by omega
  rw [packBytes, BitVec.toNat_ofNat, Nat.mod_eq_of_lt bound]
  have cases : n = 0 ∨ n = 1 ∨ n = 2 ∨ n = 3 := by omega
  rcases cases with rfl | rfl | rfl | rfl <;> omega

/-! ### State -/

/-- Where the tasklet is; `irqs` is its local variable. -/
inductive TletPc
  | idle
  /-- at the ring-full check -/
  | full
  /-- at the condition of the `while` loop -/
  | while
  /-- at the load of `irqs` -/
  | load
  | port (irqs : Word) (port : Nat)
  | cntr (irqs : Word) (port cntr : Nat)
  /-- at the update of `irqs_tail` -/
  | advance
deriving DecidableEq, Repr

structure System where
  dev : CntrsDev
  tlet : TletPc
  /-- by `tasklet_schedule` -/
  scheduled : Bool
  /-- the warning of the ring-full check was printed -/
  warned : Bool
  /-- events of each port and counter -/
  events : Nat → Nat → Nat
  /-- those since the last `pstats_zero` of the port -/
  since : Nat → Nat → Nat
  /-- overflow flags raised by the FPGA, read by the handler, added by the tasklet -/
  raised : Nat → Nat → Nat
  fetched : Nat → Nat → Nat
  added : Nat → Nat → Nat

def System.init : System where
  dev := .cleared
  tlet := .idle
  scheduled := false
  warned := false
  events := fun _ _ => 0
  since := fun _ _ => 0
  raised := fun _ _ => 0
  fetched := fun _ _ => 0
  added := fun _ _ => 0

def System.regs (s : System) : Word → Word × Word := fpgaRegs s.events

/-- Value of the counter in the FPGA. -/
def System.hw (s : System) (p c : Nat) : Nat := s.events p c % 2 ^ pstatsMsbShift

/-- The registers deliver each counter's value. -/
theorem System.hwcnt_eq (s : System) {p c : Nat} (port : p < pstatsMaxNports)
    (cntr : c < pstatsMaxNumOfCounters) : (hwcnt s.regs p c).toNat = s.hw p c := by
  have portFits : p < 32 := lt_trans port (by decide)
  have adrFits : c / 4 < 32 := by
    rw [pstatsMaxNumOfCounters] at cntr
    omega
  have place : 4 * (c / 4) + c % 4 = c := Nat.div_add_mod c 4
  rw [hwcnt, hwcntToSw_toNat, System.regs, fpgaRegs, crPort_crValue portFits adrFits,
    crAddr_crValue portFits adrFits, packBytes_byte _ (Nat.mod_lt c (by decide)),
    packBytes_byte _ (Nat.mod_lt c (by decide)), place, System.hw, pstatsMsbShift]
  omega

/-- One more at one place. -/
def bump (f : Nat → Nat → Nat) (p c : Nat) : Nat → Nat → Nat := setAt f p c (f p c + 1)

variable (cfg : Config)

/-! ### Steps -/

inductive Event
  /-- an event that a counter of the FPGA counts -/
  | count (port : Fin cfg.nports) (cntr : Fin cfg.counters)
  /-- the interrupt handler, with what it reads: EIC_ISR, and L1 and L2 of each port -/
  | irq (irqs : Word) (flags : Nat → Word × Word)
  /-- one step of the tasklet -/
  | tlet
  | read (port : Fin cfg.nports)
  | zero (port : Fin cfg.nports)

/-- A flag of a counter in what the handler reads. -/
def Flagged (flags : Nat → Word × Word) (p c : Nat) : Prop :=
  p < cfg.nports ∧ c < cfg.counters ∧
    bitSet (pstatsIrqCntrs (flags p).1 (flags p).2) c = true

instance (flags : Nat → Word × Word) (p c : Nat) : Decidable (Flagged cfg flags p c) :=
  inferInstanceAs (Decidable (_ ∧ _))

def System.count (s : System) (p c : Nat) : System :=
  { s with
    events := bump s.events p c
    since := bump s.since p c
    raised := if (s.events p c + 1) % 2 ^ pstatsMsbShift = 0 then bump s.raised p c else s.raised }

def System.irq (s : System) (irqs : Word) (flags : Nat → Word × Word) : System :=
  { s with
    dev := pstatsIrqHandler cfg irqs flags s.dev
    scheduled := true
    fetched := fun p c => if Flagged cfg flags p c then s.fetched p c + 1 else s.fetched p c }

/-- One step of `pstats_tlet_fn`, or its start if it is scheduled. -/
def System.tletStep (s : System) : System :=
  match s.tlet with
  | .idle => if s.scheduled then { s with tlet := .full, scheduled := false } else s
  | .full =>
    if (s.dev.irqsHead : Int) - s.dev.irqsTail > pstatsIrqbufsz then
      { s with
        warned := true
        dev := { s.dev with irqsTail := s.dev.irqsTail + pstatsIrqbufsz }
        tlet := .while }
    else { s with tlet := .while }
  | .while =>
    if s.dev.irqsTail ≠ s.dev.irqsHead then { s with tlet := .load } else { s with tlet := .idle }
  | .load => { s with tlet := .port (s.dev.portIrqs s.dev.irqsTail) 0 }
  | .port irqs p =>
    if p < cfg.nports then
      if bitSet irqs p then { s with tlet := .cntr irqs p 0 }
      else { s with tlet := .port irqs (p + 1) }
    else { s with tlet := .advance }
  | .cntr irqs p c =>
    if c < cfg.counters then
      if bitSet (s.dev.overflows s.dev.irqsTail p) c then
        { s with
          dev := addOverflow p c s.dev
          added := bump s.added p c
          tlet := .cntr irqs p (c + 1) }
      else { s with tlet := .cntr irqs p (c + 1) }
    else { s with tlet := .port irqs (p + 1) }
  | .advance =>
    { s with
      dev := { s.dev with irqsTail := (s.dev.irqsTail + 1) % pstatsIrqbufsz }
      tlet := .while }

def System.read (s : System) (p : Nat) : System :=
  { s with dev := pstatsRdCntrs cfg s.regs p s.dev }

def System.zero (s : System) (p : Nat) : System :=
  { s with
    dev := pstatsZero cfg s.regs p s.dev
    since := fun p' c => if p' = p then 0 else s.since p' c }

def System.step (s : System) : Event cfg → System
  | .count p c => s.count p c
  | .irq irqs flags => s.irq cfg irqs flags
  | .tlet => s.tletStep cfg
  | .read p => s.read cfg p
  | .zero p => s.zero cfg p

/-! ### What a step of the tasklet changes -/

/-- The tasklet changes a counter only by an addition that is counted. -/
theorem System.tletStep_adds (s : System) :
    ((s.tletStep cfg).dev.cntrs = s.dev.cntrs ∧ (s.tletStep cfg).added = s.added) ∨
      ∃ p c, (s.tletStep cfg).dev.cntrs = (addOverflow p c s.dev).cntrs ∧
        (s.tletStep cfg).added = bump s.added p c := by
  rw [System.tletStep]
  split
  case h_6 irqs p c at_cntr =>
    split
    · split
      · exact .inr ⟨p, c, rfl, rfl⟩
      · exact .inl ⟨rfl, rfl⟩
    · exact .inl ⟨rfl, rfl⟩
  all_goals
    left
    (try split_ifs) <;> exact ⟨rfl, rfl⟩

theorem System.tletStep_frame (s : System) :
    (s.tletStep cfg).dev.zeros = s.dev.zeros ∧ (s.tletStep cfg).events = s.events ∧
      (s.tletStep cfg).since = s.since ∧ (s.tletStep cfg).raised = s.raised := by
  rw [System.tletStep]
  split <;> (try split_ifs) <;> exact ⟨rfl, rfl, rfl, rfl⟩

/-! ### The smallest device -/

/-- One port with one counter. -/
def Config.single : Config := ⟨1, 1, by decide, by decide⟩

/-- Its port and its counter. -/
def single.port : Fin Config.single.nports := ⟨0, by decide⟩
def single.cntr : Fin Config.single.counters := ⟨0, by decide⟩

end WrSwitch.Pstats
