import Mathlib.Data.BitVec
import Mathlib.Tactic.SplitIfs

/-!
# The statistics device

A counter is split: its low 16 bits are in the FPGA, packed with three others in two
registers, the driver keeps the rest and an offset that is taken off at each readout.
-/
namespace WrSwitch.Pstats

abbrev Word := BitVec 32

/-! ### Constants -/

def pstatsMaxNumOfCounters : Nat := 40
def pstatsMaxNports : Nat := 18
def pstatsMsbShift : Nat := 16
def pstatsLsbMsk : BitVec 64 := 0x000000000000ffff
def pstatsMsbMsk : BitVec 64 := 0xffffffffffff0000
def pstatsIrqbufsz : Nat := 16

def crRdEn : Word := 1
def crPortShift : Nat := 8
def crAddrShift : Nat := 16

/-- `pstats_nports` and `firmware_counters` as `pstats_init` accepts them. -/
structure Config where
  nports : Nat
  counters : Nat
  portsFit : nports ≤ pstatsMaxNports
  countersFit : counters ≤ pstatsMaxNumOfCounters

/-- `firmware_adr_pp` -/
def Config.adrPp (cfg : Config) : Nat := (cfg.counters + 3) / 4

/-- `struct cntrs_dev` -/
structure CntrsDev where
  cntrs : Nat → Nat → BitVec 64
  zeros : Nat → Nat → BitVec 16
  portIrqs : Nat → Word
  overflows : Nat → Nat → BitVec 64
  irqsHead : Nat
  irqsTail : Nat

/-- Static data, cleared at build time. -/
def CntrsDev.cleared : CntrsDev := ⟨fun _ _ => 0, fun _ _ => 0, fun _ => 0, fun _ _ => 0, 0, 0⟩

/-- A row of an array of rows with one element replaced. -/
def setAt {α : Type} (f : Nat → Nat → α) (row column : Nat) (v : α) : Nat → Nat → α :=
  fun i j => if i = row ∧ j = column then v else f i j

theorem setAt_self {α : Type} (f : Nat → Nat → α) (row column : Nat) (v : α) :
    setAt f row column v row column = v := by simp [setAt]

theorem setAt_other {α : Type} (f : Nat → Nat → α) {row column i j : Nat} (v : α)
    (other : ¬(i = row ∧ j = column)) : setAt f row column v i j = f i j := by
  simp [setAt, other]

/-! ### Readout -/

def hwcntToSw (l1 l2 : Word) (n : Nat) : Word :=
  let lsb := ((l1 &&& ((0xff : Word) <<< (8 * n))) >>> (8 * n)) &&& 0xff
  let msb := ((l2 &&& ((0xff : Word) <<< (8 * n))) >>> (8 * n)) &&& 0xff
  (msb <<< 8) ||| lsb

/-- What `rd_cnt_word` does with one counter. -/
def rdCntr (zero : BitVec 16) (hwcnt : Word) (cntr : BitVec 64) : BitVec 64 :=
  ((cntr &&& pstatsMsbMsk) ||| hwcnt.setWidth 64) - zero.setWidth 64

/-- The loop of `rd_cnt_word` from counter `i` of the word on, `left` rounds. -/
def rdCntFrom (cfg : Config) (port adr : Nat) (val : Word × Word) :
    Nat → Nat → CntrsDev → CntrsDev
  | 0, _, dev => dev
  | left + 1, i, dev =>
    if 4 * adr + i ≥ cfg.counters then dev
    else
      let cntr := rdCntr (dev.zeros port (4 * adr + i)) (hwcntToSw val.1 val.2 i)
        (dev.cntrs port (4 * adr + i))
      rdCntFrom cfg port adr val left (i + 1)
        { dev with cntrs := setAt dev.cntrs port (4 * adr + i) cntr }

def crValue (port adr : Nat) : Word :=
  BitVec.ofNat 32 adr <<< crAddrShift ||| BitVec.ofNat 32 port <<< crPortShift ||| crRdEn

/-- `rd_cnt_word`; `regs` is what the registers L1 and L2 give for a value of CR. -/
def rdCntWord (cfg : Config) (regs : Word → Word × Word) (port adr : Nat) (dev : CntrsDev) :
    CntrsDev :=
  rdCntFrom cfg port adr (regs (crValue port adr)) 4 0 dev

def pstatsRdCntrs (cfg : Config) (regs : Word → Word × Word) (port : Nat) (dev : CntrsDev) :
    CntrsDev :=
  (List.range cfg.adrPp).foldl (fun dev adr => rdCntWord cfg regs port adr dev) dev

/-- One round of the loop of `pstats_zero`. -/
def zeroCntr (port : Nat) (dev : CntrsDev) (i : Nat) : CntrsDev :=
  let cntr := (dev.cntrs port i + (dev.zeros port i).setWidth 64) &&& pstatsLsbMsk
  { dev with
    cntrs := setAt dev.cntrs port i cntr
    zeros := setAt dev.zeros port i (cntr.setWidth 16) }

def pstatsZero (cfg : Config) (regs : Word → Word × Word) (port : Nat) (dev : CntrsDev) :
    CntrsDev :=
  (List.range pstatsMaxNumOfCounters).foldl (zeroCntr port) (pstatsRdCntrs cfg regs port dev)

/-! ### Values -/

private theorem byte_getLsbD (i : Nat) : (0xff : Word).getLsbD i = decide (i < 8) := by
  have ones : (0xff : Word) = BitVec.ofNat 32 (2 ^ 8 - 1) := rfl
  rw [ones, BitVec.getLsbD_ofNat, Nat.testBit_two_pow_sub_one]
  by_cases low : i < 8
  · simp [low, show i < 32 by omega]
  · simp [low]

/-- The mask within the word is made up for by the one after the shift. -/
theorem byte_toNat (x : Word) (k : Nat) :
    (((x &&& ((0xff : Word) <<< k)) >>> k) &&& 0xff).toNat = x.toNat / 2 ^ k % 256 := by
  have low : ((x &&& ((0xff : Word) <<< k)) >>> k) &&& 0xff = (x >>> k) &&& 0xff := by
    apply BitVec.eq_of_getLsbD_eq
    intro i bound
    simp only [BitVec.getLsbD_and, BitVec.getLsbD_ushiftRight, BitVec.getLsbD_shiftLeft,
      byte_getLsbD, Nat.add_sub_cancel_left]
    by_cases inside : k + i < 32
    · simp [inside, show ¬k + i < k by omega]
    · simp [BitVec.getLsbD_of_ge x (k + i) (by omega)]
  rw [low, BitVec.toNat_and, BitVec.toNat_ushiftRight, Nat.shiftRight_eq_div_pow]
  exact Nat.and_two_pow_sub_one_eq_mod _ 8

/-- The two bytes of a counter in its two words. -/
theorem hwcntToSw_toNat (l1 l2 : Word) (n : Nat) :
    (hwcntToSw l1 l2 n).toNat =
      256 * (l2.toNat / 2 ^ (8 * n) % 256) + l1.toNat / 2 ^ (8 * n) % 256 := by
  rw [hwcntToSw, BitVec.toNat_or, BitVec.toNat_shiftLeft, byte_toNat,
    byte_toNat, Nat.shiftLeft_eq, Nat.mod_eq_of_lt (by omega), Nat.mul_comm]
  exact (Nat.two_pow_add_eq_or_of_lt (by omega : _ < 2 ^ 8) _).symm

private theorem msb_toNat (x : BitVec 64) :
    (x &&& pstatsMsbMsk).toNat = x.toNat / 65536 * 65536 := by
  have high : x &&& pstatsMsbMsk = (x >>> 16) <<< 16 := by
    apply BitVec.eq_of_getLsbD_eq
    intro i bound
    have mask : pstatsMsbMsk = ~~~(BitVec.ofNat 64 (2 ^ 16 - 1)) := rfl
    simp only [mask, BitVec.getLsbD_and, BitVec.getLsbD_not, BitVec.getLsbD_ofNat,
      Nat.testBit_two_pow_sub_one, BitVec.getLsbD_shiftLeft, BitVec.getLsbD_ushiftRight, bound,
      decide_true, Bool.true_and]
    by_cases low : i < 16
    · simp [low]
    · simp [low, show 16 + (i - 16) = i by omega]
  rw [high, BitVec.toNat_shiftLeft, BitVec.toNat_ushiftRight, Nat.shiftRight_eq_div_pow,
    Nat.shiftLeft_eq, Nat.mod_eq_of_lt]
  have := x.isLt
  omega

/-- The mask keeps the low 16 bits. -/
theorem lsb_toNat (x : BitVec 64) : (x &&& pstatsLsbMsk).toNat = x.toNat % 65536 := by
  rw [BitVec.toNat_and]
  exact Nat.and_two_pow_sub_one_eq_mod _ 16

/-- A software counter that is read: its high part, the hardware's low part, less the zero. -/
theorem rdCntr_toNat (zero : BitVec 16) (hwcnt : Word) (cntr : BitVec 64)
    (low : hwcnt.toNat < 65536) :
    (rdCntr zero hwcnt cntr).toNat =
      (cntr.toNat / 65536 * 65536 + hwcnt.toNat + (2 ^ 64 - zero.toNat)) % 2 ^ 64 := by
  have bound := cntr.isLt
  have joined : (cntr &&& pstatsMsbMsk ||| hwcnt.setWidth 64).toNat =
      cntr.toNat / 65536 * 65536 + hwcnt.toNat := by
    rw [BitVec.toNat_or, msb_toNat, BitVec.toNat_setWidth, Nat.mod_eq_of_lt (by omega),
      Nat.mul_comm]
    exact (Nat.two_pow_add_eq_or_of_lt (i := 16) low _).symm
  have small : (zero.setWidth 64).toNat = zero.toNat := by
    have := zero.isLt
    rw [BitVec.toNat_setWidth, Nat.mod_eq_of_lt (by omega)]
  rw [rdCntr, BitVec.toNat_sub, joined, small, Nat.add_comm]

/-! ### Loops -/

/-- The value of counter `c` that the registers give. -/
def hwcnt (regs : Word → Word × Word) (port c : Nat) : Word :=
  hwcntToSw (regs (crValue port (c / 4))).1 (regs (crValue port (c / 4))).2 (c % 4)

private theorem rdCntFrom_eq (cfg : Config) (port adr : Nat) (val : Word × Word) (left i : Nat)
    (dev : CntrsDev) :
    rdCntFrom cfg port adr val left i dev =
      { dev with cntrs := fun p c =>
          if p = port ∧ 4 * adr + i ≤ c ∧ c < 4 * adr + i + left ∧ c < cfg.counters then
            rdCntr (dev.zeros p c) (hwcntToSw val.1 val.2 (c - 4 * adr)) (dev.cntrs p c)
          else dev.cntrs p c } := by
  induction left generalizing i dev with
  | zero =>
    have empty (c : Nat) :
        ¬(4 * adr + i ≤ c ∧ c < 4 * adr + i + 0 ∧ c < cfg.counters) := by omega
    simp only [rdCntFrom, empty, and_false, if_false]
  | succ left ih =>
    rw [rdCntFrom]
    split
    -- the word has more places than counters are left
    next past =>
      have empty (c : Nat) :
          ¬(4 * adr + i ≤ c ∧ c < 4 * adr + i + (left + 1) ∧ c < cfg.counters) := by omega
      simp [empty]
    next inside =>
      rw [ih]
      congr 1
      funext p c
      -- this round reads one counter, the rest of the word the others
      by_cases here : p = port ∧ c = 4 * adr + i
      · obtain ⟨rfl, rfl⟩ := here
        have first : ¬(4 * adr + (i + 1) ≤ 4 * adr + i) := by omega
        simp [first, setAt_self, Nat.not_le.mp inside]
      · dsimp only
        rw [setAt_other _ _ here]
        split_ifs <;> first | rfl | omega

private theorem rdCntWord_eq (cfg : Config) (regs : Word → Word × Word) (port adr : Nat)
    (dev : CntrsDev) :
    rdCntWord cfg regs port adr dev =
      { dev with cntrs := fun p c =>
          if p = port ∧ c / 4 = adr ∧ c < cfg.counters then
            rdCntr (dev.zeros p c) (hwcnt regs port c) (dev.cntrs p c)
          else dev.cntrs p c } := by
  rw [rdCntWord, rdCntFrom_eq]
  congr 1
  funext p c
  by_cases word : c / 4 = adr
  · have offset : c - 4 * adr = c % 4 := by omega
    rw [hwcnt, word, offset]
    split_ifs <;> first | rfl | omega
  · have outside : ¬(4 * adr + 0 ≤ c ∧ c < 4 * adr + 0 + 4) := by omega
    grind

/-- A readout of a port reads each of its counters once. -/
theorem pstatsRdCntrs_eq (cfg : Config) (regs : Word → Word × Word) (port : Nat)
    (dev : CntrsDev) :
    pstatsRdCntrs cfg regs port dev =
      { dev with cntrs := fun p c =>
          if p = port ∧ c < cfg.counters then
            rdCntr (dev.zeros p c) (hwcnt regs port c) (dev.cntrs p c)
          else dev.cntrs p c } := by
  -- the words of the loop cover the counters four by four
  have words (n : Nat) : (List.range n).foldl
      (fun dev adr => rdCntWord cfg regs port adr dev) dev =
      { dev with cntrs := fun p c =>
          if p = port ∧ c / 4 < n ∧ c < cfg.counters then
            rdCntr (dev.zeros p c) (hwcnt regs port c) (dev.cntrs p c)
          else dev.cntrs p c } := by
    induction n with
    | zero => simp
    | succ n ih =>
      rw [List.range_succ, List.foldl_append, ih, List.foldl_cons, List.foldl_nil, rdCntWord_eq]
      congr 1
      funext p c
      dsimp only
      split_ifs <;> first | rfl | omega
  rw [pstatsRdCntrs, words]
  congr 1
  funext p c
  have covered : c < cfg.counters → c / 4 < cfg.adrPp := by
    rw [Config.adrPp]
    omega
  split_ifs <;> first | rfl | omega

/-- Zeroing takes the counters of the port as they are. -/
theorem pstatsZero_eq (cfg : Config) (regs : Word → Word × Word) (port : Nat) (dev : CntrsDev) :
    let rd := pstatsRdCntrs cfg regs port dev
    let low := fun p c => (rd.cntrs p c + (rd.zeros p c).setWidth 64) &&& pstatsLsbMsk
    pstatsZero cfg regs port dev =
      { rd with
        cntrs := fun p c =>
          if p = port ∧ c < pstatsMaxNumOfCounters then low p c else rd.cntrs p c
        zeros := fun p c =>
          if p = port ∧ c < pstatsMaxNumOfCounters then (low p c).setWidth 16
          else rd.zeros p c } := by
  intro rd low
  -- each round folds one counter into its zero
  have rounds (n : Nat) : (List.range n).foldl (zeroCntr port) rd =
      { rd with
        cntrs := fun p c => if p = port ∧ c < n then low p c else rd.cntrs p c
        zeros := fun p c =>
          if p = port ∧ c < n then (low p c).setWidth 16 else rd.zeros p c } := by
    induction n with
    | zero => simp
    | succ n ih =>
      rw [List.range_succ, List.foldl_append, ih, List.foldl_cons, List.foldl_nil, zeroCntr]
      congr 1
      · funext p c
        simp only [setAt]
        split_ifs <;> grind
      · funext p c
        simp only [setAt]
        split_ifs <;> grind
  exact rounds pstatsMaxNumOfCounters

/-! ### Overflow flags -/

def pstatsIrqCntrs (l1 l2 : Word) : BitVec 64 := l2.setWidth 64 <<< 32 ||| l1.setWidth 64

/-- `x >> bit & 0x01` -/
def bitSet {w : Nat} (x : BitVec w) (bit : Nat) : Bool := (x >>> bit) &&& 1 ≠ 0

/-- `pstats_irq_handler`, with the word read from EIC_ISR and the words that L1 and L2 give
for each port. -/
def pstatsIrqHandler (cfg : Config) (irqs : Word) (flags : Nat → Word × Word) (dev : CntrsDev) :
    CntrsDev :=
  { dev with
    portIrqs := fun i => if i = dev.irqsHead then irqs else dev.portIrqs i
    overflows := fun i port =>
      if i = dev.irqsHead ∧ port < cfg.nports then pstatsIrqCntrs (flags port).1 (flags port).2
      else dev.overflows i port
    irqsHead := (dev.irqsHead + 1) % pstatsIrqbufsz }

/-- The tasklet's addition to one counter. -/
def addOverflow (port cntr : Nat) (dev : CntrsDev) : CntrsDev :=
  let value := dev.cntrs port cntr + (1 : BitVec 64) <<< pstatsMsbShift
  { dev with cntrs := setAt dev.cntrs port cntr value }

end WrSwitch.Pstats
