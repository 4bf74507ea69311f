import WrSwitch.Nic.Driver
import WrSwitch.Ppsg.Counter

/-!
# Timestamps

The hardware captures the tick in which a frame passes, and the driver adds the second that it
reads later from the PPS generator.
-/
namespace WrSwitch.Nic

open Ppsg (refclkFreq)

/-! ### The clock -/

/-- `CNTR_UTCLO` at a time in ticks. -/
def cntrUtclo (now : Nat) : Word := BitVec.ofNat 32 (now / refclkFreq)

/-- `CNTR_NSEC` at a time in ticks. -/
def cntrNsec (now : Nat) : Word := BitVec.ofNat 32 (now % refclkFreq)

/-- When the four registers are read; the last one may not be. -/
structure ReadTimes where
  utc1 : Nat
  cnt : Nat
  utc2 : Nat
  cntAgain : Nat
deriving DecidableEq, Repr

/-- `fine_counter` and `utc` -/
def wrnPpsgReadTime (r : ReadTimes) : Word × Word :=
  let utc1 := cntrUtclo r.utc1
  let cnt := cntrNsec r.cnt
  let utc2 := cntrUtclo r.utc2
  let cnt := if utc2 ≠ utc1 then cntrNsec r.cntAgain else cnt
  (cnt, utc2)

/-! ### The driver -/

/-- `NSEC_PER_TICK` -/
def nsecPerTick : Nat := 1000000000 / refclkFreq

/-- `struct timespec`, with a long for each field. -/
structure Timespec where
  tvSec : Word
  tvNsec : Word
deriving DecidableEq, Repr

def nicRx1D1Error : Word := 0x2
def nicRx1D1GotTs : Word := 0x4000
def nicRx1D1TsIncorrect : Word := 0x8000
/-- NIC_RX1_D2_TS_R_R -/
def rx1D2TsR (r2 : Word) : Word := r2 &&& 0xfffffff

/-- NIC_RX1_D2_TS_F_R -/
def rx1D2TsF (r2 : Word) : Word := r2 >>> 28

/-- The time in `__wrn_rx_descriptor`, from the descriptor and the time that is read. -/
def rxTimespec (r2 counterPpsg utc : Word) : Timespec :=
  let tsR := rx1D2TsR r2
  let tsF := rx1D2TsF r2
  let utc := if counterPpsg < BitVec.ofNat 32 (refclkFreq / 4) ∧
    tsR > BitVec.ofNat 32 (3 * refclkFreq / 4) then utc - 1 else utc
  let tvSec := utc &&& 0x7fffffff
  let cntrDiff := (tsR &&& 0xf) - tsF
  -- the rising edge's counter is one tick ahead
  let tvSec := if cntrDiff = 1 ∨ cntrDiff = -0xf then tvSec ||| 0x80000000 else tvSec
  ⟨tvSec, tsR * BitVec.ofNat 32 nsecPerTick⟩

/-- What `__wrn_rx_descriptor` attaches to a frame. -/
def wrnRxDescriptor (r1 r2 : Word) (reads : ReadTimes) : Option Timespec :=
  if r1 &&& nicRx1D1Error ≠ 0 then none
  else if r1 &&& nicRx1D1GotTs = 0 then none
  else
    let (counterPpsg, utc) := wrnPpsgReadTime reads
    let ts := rxTimespec r2 counterPpsg utc
    if r1 &&& nicRx1D1TsIncorrect = 0 then some ts else none

/-- The second changed between the reads. -/
def ReadTimes.Again (r : ReadTimes) : Prop := cntrUtclo r.utc2 ≠ cntrUtclo r.utc1

instance (r : ReadTimes) : Decidable r.Again := inferInstanceAs (Decidable (_ ≠ _))

/-- When the counter was read that is used. -/
def ReadTimes.used (r : ReadTimes) : Nat := if r.Again then r.cntAgain else r.cnt

/-- The reads come one after the other and take less than a second. -/
structure ReadTimes.InOrder (r : ReadTimes) : Prop where
  cnt : r.utc1 ≤ r.cnt
  utc2 : r.cnt ≤ r.utc2
  again : r.Again → r.utc2 ≤ r.cntAgain
  together : (if r.Again then r.cntAgain else r.utc2) < r.utc1 + refclkFreq

end WrSwitch.Nic
