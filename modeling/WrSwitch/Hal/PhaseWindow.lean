import Mathlib.Tactic.Linarith
import WrSwitch.Hal.TxRetries

/-!
# The window of the phase

`_within_range` with its loops. On a circle of circumference `wrap` a window is an interval or,
where it goes through 0, what is left of the circle without one.
-/
namespace WrSwitch.Hal

/-! ### `_within_range` -/

/-- An `int` -/
abbrev CInt := BitVec 32

/-- `while (v >= wrap) v -= wrap`, at most so many turns. -/
def subtractLoop (wrap : CInt) : Nat → CInt → Option CInt
  | 0, _ => none
  | turns + 1, v => if wrap.sle v then subtractLoop wrap turns (v - wrap) else some v

/-- `while (v < 0) v += wrap` -/
def addLoop (wrap : CInt) : Nat → CInt → Option CInt
  | 0, _ => none
  | turns + 1, v => if v.slt 0 then addLoop wrap turns (v + wrap) else some v

/-- `_within_range`, with at most so many turns of each loop. -/
def withinRangeLoops (turns : Nat) (x minval maxval wrap : CInt) : Option Int := do
  let maxval ← subtractLoop wrap turns maxval
  let maxval ← addLoop wrap turns maxval
  let minval ← subtractLoop wrap turns minval
  let minval ← addLoop wrap turns minval
  let x ← addLoop wrap turns x
  let x ← subtractLoop wrap turns x
  some (if minval.slt maxval then (if minval.sle x ∧ x.sle maxval then 1 else 0)
    else if minval.sle x ∨ x.sle maxval then 1 else 0)

/-! ### What the loops compute -/

section Loops

variable {wrap : CInt} (positive : 0 < wrap.toInt)
include positive

private theorem subtractLoop_eq (turns : Nat) (v : CInt) (enough : v.toInt < turns)
    (turning : 0 < turns) :
    ∃ r, subtractLoop wrap turns v = some r ∧
      r.toInt = if 0 ≤ v.toInt then v.toInt % wrap.toInt else v.toInt := by
  induction turns generalizing v with
  | zero => omega
  | succ turns ih =>
    rw [subtractLoop]
    by_cases above : wrap.toInt ≤ v.toInt
    · rw [if_pos (BitVec.sle_iff_toInt_le.mpr above)]
      have upper := BitVec.toInt_lt (x := v)
      -- the difference of two values of this sign cannot overflow
      have less : (v - wrap).toInt = v.toInt - wrap.toInt := by
        rw [BitVec.toInt_sub]
        exact Int.bmod_eq_of_le (by omega) (by omega)
      obtain ⟨r, returned, value⟩ := ih (v - wrap) (by omega) (by omega)
      refine ⟨r, returned, ?_⟩
      rw [value, less, if_pos (by omega), if_pos (by omega), Int.sub_emod_right]
    · rw [if_neg (mt BitVec.sle_iff_toInt_le.mp above)]
      refine ⟨v, rfl, ?_⟩
      split_ifs with natural
      · exact (Int.emod_eq_of_lt natural (by omega)).symm
      · rfl

private theorem addLoop_eq (turns : Nat) (v : CInt) (enough : -v.toInt < turns)
    (turning : 0 < turns) :
    ∃ r, addLoop wrap turns v = some r ∧
      r.toInt = if v.toInt < 0 then v.toInt % wrap.toInt else v.toInt := by
  induction turns generalizing v with
  | zero => omega
  | succ turns ih =>
    have zero : (0 : CInt).toInt = 0 := rfl
    rw [addLoop]
    by_cases below : v.toInt < 0
    · rw [if_pos (BitVec.slt_iff_toInt_lt.mpr (zero.symm ▸ below)), if_pos below]
      have lower := BitVec.le_toInt v
      have upper := BitVec.toInt_lt (x := wrap)
      -- nor can the sum of a negative value and the window
      have more : (v + wrap).toInt = v.toInt + wrap.toInt := by
        rw [BitVec.toInt_add]
        exact Int.bmod_eq_of_le (by omega) (by omega)
      obtain ⟨r, returned, value⟩ := ih (v + wrap) (by omega) (by omega)
      refine ⟨r, returned, ?_⟩
      rw [value, more]
      split_ifs with again
      · exact Int.add_emod_right ..
      · -- the last turn: the sum is smaller than `wrap`
        rw [← Int.add_emod_right v.toInt wrap.toInt]
        exact (Int.emod_eq_of_lt (by omega) (by omega)).symm
    · rw [if_neg (mt BitVec.slt_iff_toInt_lt.mp (zero.symm ▸ below)), if_neg below]
      exact ⟨v, rfl, rfl⟩

private theorem subtract_add (turns : Nat) (many : 2 ^ 31 < turns) (v : CInt) :
    ∃ r, (subtractLoop wrap turns v).bind (addLoop wrap turns) = some r ∧
      r.toInt = v.toInt % wrap.toInt := by
  have lower := BitVec.le_toInt v
  have upper := BitVec.toInt_lt (x := v)
  obtain ⟨r, returned, value⟩ := subtractLoop_eq positive turns v (by omega) (by omega)
  have lower' := BitVec.le_toInt r
  obtain ⟨r', returned', value'⟩ := addLoop_eq positive turns r (by omega) (by omega)
  refine ⟨r', by rw [returned, Option.bind_some, returned'], ?_⟩
  have natural := Int.emod_nonneg v.toInt (Int.ne_of_gt positive)
  rw [value', value]
  split_ifs <;> first | rfl | omega

private theorem add_subtract (turns : Nat) (many : 2 ^ 31 < turns) (v : CInt) :
    ∃ r, (addLoop wrap turns v).bind (subtractLoop wrap turns) = some r ∧
      r.toInt = v.toInt % wrap.toInt := by
  have lower := BitVec.le_toInt v
  obtain ⟨r, returned, value⟩ := addLoop_eq positive turns v (by omega) (by omega)
  have upper' := BitVec.toInt_lt (x := r)
  obtain ⟨r', returned', value'⟩ := subtractLoop_eq positive turns r (by omega) (by omega)
  refine ⟨r', by rw [returned, Option.bind_some, returned'], ?_⟩
  have natural := Int.emod_nonneg v.toInt (Int.ne_of_gt positive)
  rw [value', value]
  split_ifs <;> first | exact Int.emod_emod .. | rfl | omega

/-- The loops end, and what they leave is the remainder modulo `wrap`. -/
theorem withinRangeLoops_eq (turns : Nat) (many : 2 ^ 31 < turns) (x minval maxval : CInt) :
    withinRangeLoops turns x minval maxval wrap =
      some (if withinRange x.toInt minval.toInt maxval.toInt wrap.toInt then 1 else 0) := by
  obtain ⟨upper, returned, value⟩ := subtract_add positive turns many maxval
  obtain ⟨lower, returned', value'⟩ := subtract_add positive turns many minval
  obtain ⟨reduced, returned'', value''⟩ := add_subtract positive turns many x
  simp only [Option.bind_eq_some_iff] at returned returned' returned''
  obtain ⟨a, first, second⟩ := returned
  obtain ⟨b, third, fourth⟩ := returned'
  obtain ⟨c, fifth, sixth⟩ := returned''
  simp only [withinRangeLoops, first, second, third, fourth, fifth, sixth, Option.bind_eq_bind,
    Option.bind_some, BitVec.slt_iff_toInt_lt, BitVec.sle_iff_toInt_le, value, value', value'']
  rw [withinRange]
  by_cases straight : minval.toInt % wrap.toInt < maxval.toInt % wrap.toInt
  · rw [if_pos straight, if_pos straight]
    simp only [ge_iff_le, Bool.and_eq_true, decide_eq_true_eq]
  · rw [if_neg straight, if_neg straight]
    simp only [ge_iff_le, Bool.or_eq_true, decide_eq_true_eq]

end Loops

/-! ### Windows on a circle -/

private theorem turns_lt {wrap n k : Int} (positive : 0 < wrap) (less : n * wrap < k * wrap) :
    n < k :=
  Int.lt_of_mul_lt_mul_right less (Int.le_of_lt positive)

/-- The window between 0 and `wrap`, which the upper end may leave by one turn. -/
theorem window_iff {x minval maxval wrap t : Int} (x_in : 0 ≤ x ∧ x < wrap)
    (min_in : 0 ≤ minval ∧ minval < wrap) (max_in : 0 ≤ maxval ∧ maxval < wrap)
    (turn : t = 0 ∨ t = 1) (order : 0 < maxval + t * wrap - minval)
    (narrow : maxval + t * wrap - minval < wrap) :
    (if minval < maxval then minval ≤ x ∧ x ≤ maxval else minval ≤ x ∨ x ≤ maxval) ↔
      ∃ k : Int, minval ≤ x + k * wrap ∧ x + k * wrap ≤ maxval + t * wrap := by
  have positive : 0 < wrap := by omega
  rcases turn with rfl | rfl
  -- both ends are in the same turn: only k = 0 can bring the value between them
  · rw [if_pos (by omega)]
    constructor
    · rintro ⟨low, high⟩
      exact ⟨0, by omega, by omega⟩
    · rintro ⟨k, low, high⟩
      have least : -1 < k := turns_lt positive (by omega)
      have most : k < 1 := turns_lt positive (by omega)
      obtain rfl : k = 0 := by omega
      exact ⟨by omega, by omega⟩
  -- the upper end is in the next turn, and the value in this one or the next
  · rw [if_neg (by omega)]
    constructor
    · rintro (low | high)
      · exact ⟨0, by omega, by omega⟩
      · exact ⟨1, by omega, by omega⟩
    · rintro ⟨k, low, high⟩
      have least : -1 < k := turns_lt positive (by omega)
      have most : k < 2 := turns_lt positive (by omega)
      obtain rfl | rfl : k = 0 ∨ k = 1 := by omega
      · exact .inl (by omega)
      · exact .inr (by omega)

/-- A value is accepted if whole turns bring it into the window. -/
theorem withinRange_iff {x minval maxval wrap : Int} (positive : 0 < wrap)
    (order : 0 < maxval - minval) (narrow : maxval - minval < wrap) :
    withinRange x minval maxval wrap = true ↔
      ∃ k : Int, minval ≤ x + k * wrap ∧ x + k * wrap ≤ maxval := by
  have x_in := And.intro (Int.emod_nonneg x (Int.ne_of_gt positive)) (Int.emod_lt_of_pos x positive)
  have min_in :=
    And.intro (Int.emod_nonneg minval (Int.ne_of_gt positive)) (Int.emod_lt_of_pos minval positive)
  have max_in :=
    And.intro (Int.emod_nonneg maxval (Int.ne_of_gt positive)) (Int.emod_lt_of_pos maxval positive)
  have here := Int.emod_add_ediv_mul x wrap
  have low := Int.emod_add_ediv_mul minval wrap
  have high := Int.emod_add_ediv_mul maxval wrap
  -- the ends are in the same turn, or the upper one is in the next
  have apart := Int.sub_mul (maxval / wrap) (minval / wrap) wrap
  have least : -1 < maxval / wrap - minval / wrap := turns_lt positive (by omega)
  have most : maxval / wrap - minval / wrap < 2 := turns_lt positive (by omega)
  have reduced := window_iff x_in min_in max_in
    (t := maxval / wrap - minval / wrap) (by omega) (by omega) (by omega)
  have accepted : withinRange x minval maxval wrap = true ↔
      if minval % wrap < maxval % wrap then minval % wrap ≤ x % wrap ∧ x % wrap ≤ maxval % wrap
      else minval % wrap ≤ x % wrap ∨ x % wrap ≤ maxval % wrap := by
    rw [withinRange]
    split_ifs <;> simp
  rw [accepted, reduced]
  constructor
  · rintro ⟨k, above, below⟩
    have moved := Int.add_mul (k - x / wrap) (minval / wrap) wrap
    have moved' := Int.sub_mul k (x / wrap) wrap
    exact ⟨k - x / wrap + minval / wrap, by omega, by omega⟩
  · rintro ⟨k, above, below⟩
    have moved := Int.sub_mul (k + x / wrap) (minval / wrap) wrap
    have moved' := Int.add_mul k (x / wrap) wrap
    exact ⟨k + x / wrap - minval / wrap, by omega, by omega⟩

/-- `_within_range` ends, and returns 1 for the values that whole turns bring into the window. -/
theorem withinRangeLoops_iff (turns : Nat) (many : 2 ^ 31 < turns) (x minval maxval wrap : CInt)
    (positive : 0 < wrap.toInt) (order : 0 < maxval.toInt - minval.toInt)
    (narrow : maxval.toInt - minval.toInt < wrap.toInt) :
    ∃ rv, withinRangeLoops turns x minval maxval wrap = some rv ∧
      (rv = 1 ↔ ∃ k : Int, minval.toInt ≤ x.toInt + k * wrap.toInt ∧
        x.toInt + k * wrap.toInt ≤ maxval.toInt) := by
  refine ⟨_, withinRangeLoops_eq positive turns many x minval maxval, ?_⟩
  rw [← withinRange_iff positive order narrow]
  split_ifs with accepted
  · exact iff_of_true rfl accepted
  · exact iff_of_false (by decide) accepted

/-- The values of the comment above `_within_range`: the window goes through 0. -/
theorem withinRangeLoops_past_zero :
    ∃ rv, withinRangeLoops (2 ^ 31 + 1) 9631 (-269) 331 16000 = some rv ∧
      (rv = 1 ↔ ∃ k : Int, (-269 : CInt).toInt ≤ (9631 : CInt).toInt + k * (16000 : CInt).toInt ∧
        (9631 : CInt).toInt + k * (16000 : CInt).toInt ≤ (331 : CInt).toInt) :=
  withinRangeLoops_iff (2 ^ 31 + 1) (Nat.lt_succ_self _) 9631 (-269) 331 16000 (by decide)
    (by decide) (by decide)

/-! ### The window of a measurement -/

/-- A window with a tolerance that leaves a part of the period out accepts the phases that differ
from the middle by at most the tolerance, up to whole periods of 16 ns. -/
theorem LpdcTx.accepts_iff (txSetup : LpdcTx) (phase : Int) (some_room : 0 < txSetup.window.2)
    (narrow : 2 * txSetup.window.2 < 16000) :
    txSetup.accepts phase = true ↔
      ∃ k : Int, |phase + k * 16000 - txSetup.window.1| ≤ txSetup.window.2 := by
  rw [LpdcTx.accepts, withinRange_iff (by decide) (by omega) (by omega)]
  refine exists_congr fun k => ?_
  rw [abs_le]
  omega

end WrSwitch.Hal
