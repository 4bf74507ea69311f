import Mathlib.Logic.Function.Iterate
import Mathlib.Tactic.SplitIfs

/-!
# The tick counter

`CNTR_NSEC` of the PPS generator: the ticks of the reference clock since the last second, in 28
bits with a sign. An adjustment loads any value.
-/
namespace WrSwitch.Ppsg

/-- `REFCLK_FREQ` of the switch, as the preprocessor's `125000000 / 2`. -/
def refclkFreq : Nat := 62500000

/-- One tick of the reference clock. -/
def tick (counter : BitVec 28) : BitVec 28 :=
  if counter.toInt = refclkFreq - 1 then 0 else counter + 1

/-- From below a second the counter wraps at the second, from above it runs into its sign. -/
def ticked (counter : Int) (ticks : Nat) : Int :=
  if counter < 62500000 then
    if counter + ticks < 62500000 then counter + ticks else counter + ticks - 62500000
  else if counter + ticks < 134217728 then counter + ticks
  else counter + ticks - 268435456

private theorem tick_toInt (counter : BitVec 28) :
    (tick counter).toInt =
      if counter.toInt = 62499999 then 0
      else if counter.toInt = 134217727 then -134217728
      else counter.toInt + 1 := by
  have low := BitVec.le_toInt counter
  have high := BitVec.toInt_lt (x := counter)
  have one : (1 : BitVec 28).toInt = 1 := by decide
  have second : (refclkFreq : Int) - 1 = 62499999 := rfl
  by_cases wraps : counter.toInt = 62499999
  · rw [tick, second, if_pos wraps, if_pos wraps]
    rfl
  · rw [tick, second, if_neg wraps, if_neg wraps, BitVec.toInt_add, one]
    split
    next largest =>
      rw [largest]
      decide
    next => exact Int.bmod_eq_of_le (by omega) (by omega)

/-- The counter after less than a second of ticks. -/
theorem ticks_toInt (counter : BitVec 28) {ticks : Nat} (soon : ticks < refclkFreq) :
    (tick^[ticks] counter).toInt = ticked counter.toInt ticks := by
  have low := BitVec.le_toInt counter
  have high := BitVec.toInt_lt (x := counter)
  unfold refclkFreq at soon
  induction ticks with
  | zero =>
    unfold ticked
    change counter.toInt = _
    split_ifs <;> omega
  | succ ticks ih =>
    have before := ih (by omega)
    rw [Function.iterate_succ_apply', tick_toInt, before]
    unfold ticked
    split_ifs <;> omega

end WrSwitch.Ppsg
