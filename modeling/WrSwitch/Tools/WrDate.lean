import Mathlib.Algebra.Group.Int.Defs
import Mathlib.Algebra.Group.Nat.Defs
import Mathlib.Tactic.Common

/-!
# The host's time and its offset

What `wr_date get tohost` does to the time that it sets. A long has 32 bits on the switch; the
overflow that C leaves undefined wraps here.
-/
namespace WrSwitch.Tools

/-- `struct timeval` -/
structure Timeval where
  tvSec : BitVec 32
  tvUsec : BitVec 32
deriving DecidableEq, Repr

/-! ### The loops -/

/-- `while (time_hw.tv_usec + opt_offset_us > 1000000)`; none if the turns run out. -/
def carryLoop : Nat → Timeval → BitVec 32 → Option (Timeval × BitVec 32)
  | 0, _, _ => none
  | turns + 1, timeHw, optOffsetUs =>
    if (1000000 : BitVec 32).slt (timeHw.tvUsec + optOffsetUs) then
      carryLoop turns { timeHw with tvSec := timeHw.tvSec + 1 } (optOffsetUs - 1000000)
    else some (timeHw, optOffsetUs)

/-- `while (time_hw.tv_usec + opt_offset_us < 0)` -/
def borrowLoop : Nat → Timeval → BitVec 32 → Option (Timeval × BitVec 32)
  | 0, _, _ => none
  | turns + 1, timeHw, optOffsetUs =>
    if (timeHw.tvUsec + optOffsetUs).slt 0 then
      borrowLoop turns { timeHw with tvSec := timeHw.tvSec - 1 } (optOffsetUs + 1000000)
    else some (timeHw, optOffsetUs)

/-- What `wrdate_get` does with the offset before it sets the host's time. -/
def applyOffset (turns : Nat) (timeHw : Timeval) (optOffsetUs : BitVec 32) : Option Timeval := do
  let (timeHw, optOffsetUs) ← carryLoop turns timeHw optOffsetUs
  let (timeHw, optOffsetUs) ← borrowLoop turns timeHw optOffsetUs
  return { timeHw with tvUsec := timeHw.tvUsec + optOffsetUs }

/-! ### What the loops compute -/

private theorem toInt_sub_of_fits {x y : BitVec 32} (low : -2 ^ 31 ≤ x.toInt - y.toInt)
    (high : x.toInt - y.toInt < 2 ^ 31) : (x - y).toInt = x.toInt - y.toInt := by
  rw [BitVec.toInt_sub]
  exact Int.bmod_eq_of_le (by omega) (by omega)

private theorem toInt_add_of_fits {x y : BitVec 32} (low : -2 ^ 31 ≤ x.toInt + y.toInt)
    (high : x.toInt + y.toInt < 2 ^ 31) : (x + y).toInt = x.toInt + y.toInt := by
  rw [BitVec.toInt_add]
  exact Int.bmod_eq_of_le (by omega) (by omega)

/-- The loop ends after `k` turns, when the sum is at most a second. -/
theorem carryLoop_eq (more k : Nat) (r : Int) (sec usec optOffsetUs : BitVec 32)
    (sum : (usec + optOffsetUs).toInt = 1000000 * k + r) (done : r ≤ 1000000)
    (turned : k = 0 ∨ 0 < r) :
    ∃ rest : BitVec 32, (usec + rest).toInt = r ∧
      carryLoop (k + more + 1) ⟨sec, usec⟩ optOffsetUs =
        some (⟨sec + BitVec.ofInt 32 k, usec⟩, rest) := by
  have bound : (1000000 : BitVec 32).toInt = 1000000 := by decide
  induction k generalizing sec optOffsetUs with
  | zero =>
    -- at most a second is left, so the loop stops
    have stop : ¬(1000000 : BitVec 32).slt (usec + optOffsetUs) := by
      rw [BitVec.slt_iff_toInt_lt, bound, sum]
      omega
    refine ⟨optOffsetUs, by omega, ?_⟩
    rw [carryLoop, if_neg stop]
    simp
  | succ k ih =>
    have go : (1000000 : BitVec 32).slt (usec + optOffsetUs) := by
      rw [BitVec.slt_iff_toInt_lt, bound, sum]
      omega
    have high := BitVec.toInt_lt (x := usec + optOffsetUs)
    -- each turn takes a second off
    have less : (usec + (optOffsetUs - 1000000)).toInt = 1000000 * k + r := by
      have regroup : usec + (optOffsetUs - 1000000) =
          usec + optOffsetUs - 1000000 := by
        rw [BitVec.sub_eq_add_neg, BitVec.sub_eq_add_neg, BitVec.add_assoc]
      rw [regroup, toInt_sub_of_fits (by omega) (by omega), sum, bound]
      omega
    obtain ⟨rest, left, run⟩ := ih (sec + 1) _ less (by omega)
    refine ⟨rest, left, ?_⟩
    have moved : sec + 1 + BitVec.ofInt 32 k =
        sec + BitVec.ofInt 32 (k + 1 : Nat) := by
      rw [BitVec.add_assoc, Nat.add_comm, Int.natCast_add, BitVec.ofInt_add]
      rfl
    rw [show k + 1 + more + 1 = (k + more + 1) + 1 by omega, carryLoop, if_pos go, run, moved]

/-- The loop ends after `k` turns, when the sum is not negative. -/
theorem borrowLoop_eq (more k : Nat) (r : Int) (sec usec optOffsetUs : BitVec 32)
    (sum : (usec + optOffsetUs).toInt = r - 1000000 * k) (done : 0 ≤ r)
    (turned : k = 0 ∨ r < 1000000) :
    ∃ rest : BitVec 32, (usec + rest).toInt = r ∧
      borrowLoop (k + more + 1) ⟨sec, usec⟩ optOffsetUs =
        some (⟨sec + BitVec.ofInt 32 (-k), usec⟩, rest) := by
  have step : (1000000 : BitVec 32).toInt = 1000000 := by decide
  have zero : (0 : BitVec 32).toInt = 0 := by decide
  induction k generalizing sec optOffsetUs with
  | zero =>
    -- nothing is left to borrow, so the loop stops
    have stop : ¬(usec + optOffsetUs).slt 0 := by
      rw [BitVec.slt_iff_toInt_lt, zero, sum]
      omega
    refine ⟨optOffsetUs, by omega, ?_⟩
    rw [borrowLoop, if_neg stop]
    simp
  | succ k ih =>
    have go : (usec + optOffsetUs).slt 0 := by
      rw [BitVec.slt_iff_toInt_lt, zero, sum]
      omega
    have low := BitVec.le_toInt (usec + optOffsetUs)
    have more_left : (usec + (optOffsetUs + 1000000)).toInt = r - 1000000 * k := by
      rw [← BitVec.add_assoc, toInt_add_of_fits (by omega) (by omega), sum, step]
      omega
    obtain ⟨rest, left, run⟩ := ih (sec - 1) _ more_left (by omega)
    refine ⟨rest, left, ?_⟩
    have moved : sec - 1 + BitVec.ofInt 32 (-k) =
        sec + BitVec.ofInt 32 (-(k + 1 : Nat)) := by
      rw [BitVec.sub_eq_add_neg, BitVec.add_assoc, Nat.add_comm, Int.natCast_add, Int.neg_add,
        BitVec.ofInt_add]
      rfl
    rw [show k + 1 + more + 1 = (k + more + 1) + 1 by omega, borrowLoop, if_pos go, run, moved]

/-- The seconds that the loops move out of a sum: a whole second is left in it. -/
def carried (sum : Int) : Int := if 0 < sum then (sum - 1) / 1000000 else sum / 1000000

private theorem carried_le (sum : Int) : sum - 1000000 * carried sum ≤ 1000000 := by
  unfold carried
  split <;> omega

private theorem le_carried (sum : Int) : 0 ≤ sum - 1000000 * carried sum := by
  unfold carried
  split <;> omega

/-- Only one of the loops turns. -/
theorem applyOffset_eq (sec usec optOffsetUs : BitVec 32) :
    let sum := (usec + optOffsetUs).toInt
    ∃ turns, ∀ more, applyOffset (turns + more) ⟨sec, usec⟩ optOffsetUs = some
      ⟨sec + BitVec.ofInt 32 (carried sum), BitVec.ofInt 32 (sum - 1000000 * carried sum)⟩ := by
  intro sum
  have most := carried_le sum
  have least := le_carried sum
  have usec_eq : ∀ rest : BitVec 32, (usec + rest).toInt = sum - 1000000 * carried sum →
      usec + rest = BitVec.ofInt 32 (sum - 1000000 * carried sum) := by
    intro rest left
    rw [← left, BitVec.ofInt_toInt]
  -- one of the two loops turns, the other one stops at once
  by_cases positive : 0 < sum
  · have count : carried sum = ((sum - 1) / 1000000).toNat := by
      rw [carried, if_pos positive]
      omega
    have some_left : 0 < sum - 1000000 * carried sum := by
      rw [carried, if_pos positive]
      omega
    generalize ((sum - 1) / 1000000).toNat = k at count
    refine ⟨k + 1, fun more => ?_⟩
    obtain ⟨rest, left, carry⟩ := carryLoop_eq more k _ sec usec optOffsetUs
      (by omega : sum = 1000000 * k + (sum - 1000000 * carried sum)) most (Or.inr some_left)
    obtain ⟨rest', left', borrow⟩ := borrowLoop_eq (k + more) 0 (sum - 1000000 * carried sum)
      (sec + BitVec.ofInt 32 k) usec rest (by omega) least (Or.inl rfl)
    rw [show k + 1 + more = k + more + 1 by omega]
    rw [show 0 + (k + more) + 1 = k + more + 1 by omega] at borrow
    simp only [applyOffset, carry, borrow, Option.bind_eq_bind, Option.bind_some, usec_eq _ left',
      count]
    simp
  · have count : carried sum = -((-carried sum).toNat : Int) := by
      rw [carried, if_neg positive]
      omega
    have under : sum - 1000000 * carried sum < 1000000 := by
      rw [carried, if_neg positive]
      omega
    generalize (-carried sum).toNat = k at count
    refine ⟨k + 1, fun more => ?_⟩
    obtain ⟨rest, left, carry⟩ := carryLoop_eq (k + more) 0 sum sec usec optOffsetUs
      (by omega : sum = 1000000 * (0 : Nat) + sum) (by omega) (Or.inl rfl)
    obtain ⟨rest', left', borrow⟩ := borrowLoop_eq more k (sum - 1000000 * carried sum)
      (sec + BitVec.ofInt 32 (0 : Nat)) usec rest (by omega) least (Or.inr under)
    rw [show k + 1 + more = k + more + 1 by omega]
    rw [show 0 + (k + more) + 1 = k + more + 1 by omega] at carry
    simp only [applyOffset, carry, borrow, Option.bind_eq_bind, Option.bind_some, usec_eq _ left',
      count]
    simp

/-! ### The time that is set -/

def Timeval.Valid (time : Timeval) : Prop := 0 ≤ time.tvUsec.toInt ∧ time.tvUsec.toInt < 1000000

instance (time : Timeval) : Decidable time.Valid := inferInstanceAs (Decidable (_ ∧ _))

def Timeval.total (time : Timeval) : Int := time.tvSec.toInt * 1000000 + time.tvUsec.toInt

/-- The sum is not a whole number of seconds, except zero or fewer, and neither it nor the seconds
overflow. -/
def OffsetFits (timeHw : Timeval) (optOffsetUs : BitVec 32) : Prop :=
  let sum := timeHw.tvUsec.toInt + optOffsetUs.toInt
  ¬(0 < sum ∧ 1000000 ∣ sum) ∧ sum < 2 ^ 31 ∧
    -2 ^ 31 ≤ timeHw.tvSec.toInt + sum / 1000000 ∧ timeHw.tvSec.toInt + sum / 1000000 < 2 ^ 31

instance (timeHw : Timeval) (optOffsetUs : BitVec 32) : Decidable (OffsetFits timeHw optOffsetUs) :=
  inferInstanceAs (Decidable (_ ∧ _ ∧ _ ∧ _))

/-- A sum wraps by a multiple of 2^32 into the range of a long. -/
theorem toInt_add_wraps (x y : BitVec 32) :
    ∃ wraps : Int, (x + y).toInt = x.toInt + y.toInt - 4294967296 * wraps := by
  refine ⟨Int.bdiv (x.toInt + y.toInt) (2 ^ 32), ?_⟩
  rw [BitVec.toInt_add, Int.bmod_eq_self_sub_mul_bdiv]
  rfl

/-- The loops end, and the time that they leave is valid and differs by the offset exactly if the
offset fits. -/
theorem applyOffset_valid_iff (timeHw : Timeval) (optOffsetUs : BitVec 32)
    (valid : timeHw.Valid) :
    ∃ turns r, (∀ more, applyOffset (turns + more) timeHw optOffsetUs = some r) ∧
      (r.Valid ∧ r.total = timeHw.total + optOffsetUs.toInt ↔ OffsetFits timeHw optOffsetUs) := by
  obtain ⟨sec, usec⟩ := timeHw
  obtain ⟨turns, run⟩ := applyOffset_eq sec usec optOffsetUs
  refine ⟨turns, _, run, ?_⟩
  obtain ⟨wraps, sum⟩ := toInt_add_wraps usec optOffsetUs
  have least := le_carried (usec + optOffsetUs).toInt
  have most := carried_le (usec + optOffsetUs).toInt
  -- the loops carry as the division does, but for whole seconds above zero
  have seconds : (usec + optOffsetUs).toInt ≤ 0 ∨ ¬1000000 ∣ (usec + optOffsetUs).toInt →
      carried (usec + optOffsetUs).toInt = (usec + optOffsetUs).toInt / 1000000 := by
    intro fraction
    unfold carried
    split <;> omega
  have whole : 0 < (usec + optOffsetUs).toInt → 1000000 ∣ (usec + optOffsetUs).toInt →
      (usec + optOffsetUs).toInt - 1000000 * carried (usec + optOffsetUs).toInt = 1000000 := by
    intro positive divides
    rw [carried, if_pos positive]
    omega
  have low := BitVec.le_toInt (usec + optOffsetUs)
  have high := BitVec.toInt_lt (x := usec + optOffsetUs)
  have low' := BitVec.le_toInt optOffsetUs
  have high' := BitVec.toInt_lt (x := optOffsetUs)
  generalize (usec + optOffsetUs).toInt = left at *
  -- both sums are taken at 32 bits
  obtain ⟨wraps', moved⟩ := toInt_add_wraps sec (BitVec.ofInt 32 (carried left))
  have sec_low := BitVec.le_toInt (sec + BitVec.ofInt 32 (carried left))
  have sec_high := BitVec.toInt_lt (x := sec + BitVec.ofInt 32 (carried left))
  have small : (BitVec.ofInt 32 (carried left)).toInt = carried left :=
    BitVec.toInt_ofInt_eq_self (by decide) (by omega) (by omega)
  have usec_toInt : (BitVec.ofInt 32 (left - 1000000 * carried left)).toInt =
      left - 1000000 * carried left :=
    BitVec.toInt_ofInt_eq_self (by decide) (by omega) (by omega)
  rw [small] at moved
  simp only [Timeval.Valid, Timeval.total, OffsetFits, usec_toInt, moved] at valid sec_low sec_high ⊢
  have sec_low' := BitVec.le_toInt sec
  have sec_high' := BitVec.toInt_lt (x := sec)
  constructor
  · rintro ⟨⟨-, under⟩, same⟩
    have no_wrap : wraps = 0 ∧ wraps' = 0 := by omega
    obtain ⟨rfl, rfl⟩ := no_wrap
    have fraction : ¬(0 < left ∧ 1000000 ∣ left) := by
      rintro ⟨positive, divides⟩
      have := whole positive divides
      omega
    have := seconds (by omega)
    exact ⟨by omega, by omega, by omega, by omega⟩
  · rintro ⟨fraction, fits, sec_fits, sec_fits'⟩
    have no_wrap : wraps = 0 := by omega
    subst no_wrap
    have := seconds (by omega)
    have no_wrap' : wraps' = 0 := by omega
    exact ⟨⟨least, by omega⟩, by omega⟩

/-- A sum of one second is not carried. -/
theorem applyOffset_whole_second :
    (⟨100, 999999⟩ : Timeval).Valid ∧ ∀ more, ∃ r,
      applyOffset (1 + more) ⟨100, 999999⟩ 1 = some r ∧ r = ⟨100, 1000000⟩ ∧ ¬r.Valid := by
  refine ⟨by decide, fun more => ⟨⟨100, 1000000⟩, ?_, rfl, by decide⟩⟩
  rw [Nat.add_comm]
  simp only [applyOffset, carryLoop, borrowLoop]
  rfl

/-- A microsecond more is. -/
theorem applyOffset_past_second :
    ∃ turns r, (∀ more, applyOffset (turns + more) ⟨100, 999999⟩ 2 = some r) ∧
      r.Valid ∧ r.total = 101000001 := by
  obtain ⟨turns, r, run, good⟩ := applyOffset_valid_iff ⟨100, 999999⟩ 2 (by decide)
  exact ⟨turns, r, run, good.mpr (by decide)⟩

end WrSwitch.Tools
