import Mathlib.Algebra.CharP.Two
import Mathlib.Algebra.Field.ZMod
import Mathlib.Algebra.Polynomial.Div
import Mathlib.Data.BitVec
import Mathlib.Tactic.LinearCombination

/-!
# Cyclic redundancy checks

A check of `w` bits over a polynomial of degree `w`, with the most significant bit first and
nothing reflected: a shift register, and the remainder over GF(2) that it computes.
-/
namespace WrSwitch.Machine

open Polynomial

/-! ### Bit vectors as polynomials -/

/-- Bit `i` is the coefficient of `X ^ i`. -/
noncomputable def bitPoly {w : Nat} (v : BitVec w) : (ZMod 2)[X] :=
  ∑ i ∈ Finset.range w, if v.getLsbD i then X ^ i else 0

private theorem bitPoly_coeff {w : Nat} (v : BitVec w) (i : Nat) :
    (bitPoly v).coeff i = if v.getLsbD i then 1 else 0 := by
  have single (j : Nat) : (if v.getLsbD j then (X : (ZMod 2)[X]) ^ j else 0).coeff i =
      if i = j then (if v.getLsbD j then 1 else 0) else 0 := by
    split_ifs <;> simp_all [coeff_X_pow]
  rw [bitPoly, finsetSum_coeff, Finset.sum_congr rfl fun j _ => single j, Finset.sum_ite_eq]
  by_cases inside : i < w
  · rw [if_pos (Finset.mem_range.mpr inside)]
  · have outside : v.getLsbD i = false := BitVec.getLsbD_of_ge v i (by omega)
    simp [inside, outside]

private theorem bitPoly_inj {w : Nat} {u v : BitVec w} (same : bitPoly u = bitPoly v) : u = v := by
  apply BitVec.eq_of_getLsbD_eq
  intro i _
  have coefficient : (bitPoly u).coeff i = (bitPoly v).coeff i := by rw [same]
  rw [bitPoly_coeff, bitPoly_coeff] at coefficient
  cases left : u.getLsbD i <;> cases right : v.getLsbD i <;> simp_all

private theorem bitPoly_zero (w : Nat) : bitPoly (0 : BitVec w) = 0 := by
  ext i
  simp [bitPoly_coeff]

private theorem bitPoly_xor {w : Nat} (u v : BitVec w) :
    bitPoly (u ^^^ v) = bitPoly u + bitPoly v := by
  ext i
  rw [coeff_add, bitPoly_coeff, bitPoly_coeff, bitPoly_coeff, BitVec.getLsbD_xor]
  cases u.getLsbD i <;> cases v.getLsbD i <;> decide

private theorem bitPoly_degree_lt {w : Nat} (v : BitVec w) : (bitPoly v).degree < w := by
  rw [degree_lt_iff_coeff_zero]
  intro i outside
  rw [bitPoly_coeff, BitVec.getLsbD_of_ge v i outside]
  rfl

/-! ### The register -/

section Register

variable {w : Nat} (poly : BitVec w)

/-- One message bit goes into the register. -/
def crcShift (reg : BitVec w) (bit : Bool) : BitVec w :=
  if reg.msb ^^ bit then reg <<< 1 ^^^ poly else reg <<< 1

/-- The register after a message, from the initial value `init`. -/
def crcBits (init : BitVec w) (message : List Bool) : BitVec w := message.foldl (crcShift poly) init

/-- The polynomial of a message. -/
noncomputable def messagePoly : List Bool → (ZMod 2)[X]
  | [] => 0
  | b :: bs => (if b then X ^ bs.length else 0) + messagePoly bs

/-- What the check divides by. -/
noncomputable def crcDivisor : (ZMod 2)[X] := X ^ w + bitPoly poly

private theorem crcDivisor_monic :
    (crcDivisor poly).Monic := monic_X_pow_add (bitPoly_degree_lt poly)

private theorem crcDivisor_degree : (crcDivisor poly).degree = w := by
  rw [crcDivisor, add_comm, degree_add_eq_right_of_degree_lt, degree_X_pow]
  rw [degree_X_pow]
  exact bitPoly_degree_lt poly

/-- What is congruent to a register has the register as its remainder. -/
theorem remainder_eq {f q : (ZMod 2)[X]} {reg : BitVec w}
    (congruent : f = bitPoly reg + crcDivisor poly * q) : f %ₘ crcDivisor poly = bitPoly reg := by
  refine (div_modByMonic_unique q (bitPoly reg) (crcDivisor_monic poly)
    ⟨congruent.symm, ?_⟩).2
  rw [crcDivisor_degree]
  exact bitPoly_degree_lt reg

/-- The register's top bit leaves it in a shift. -/
theorem X_mul_bitPoly (reg : BitVec w) (positive : 0 < w) :
    X * bitPoly reg = bitPoly (reg <<< 1) + if reg.msb then X ^ w else 0 := by
  ext i
  have top : (if reg.msb then (X : (ZMod 2)[X]) ^ w else 0).coeff i =
      if i = w ∧ reg.getLsbD (w - 1) then 1 else 0 := by
    rw [BitVec.msb_eq_getLsbD_last]
    split_ifs <;> simp_all [coeff_X_pow]
  rw [coeff_add, top, bitPoly_coeff, BitVec.getLsbD_shiftLeft]
  cases i with
  | zero => simp [positive.ne]
  | succ i =>
    rw [coeff_X_mul, bitPoly_coeff, Nat.add_sub_cancel]
    rcases Nat.lt_trichotomy (i + 1) w with inside | rfl | outside
    · simp [inside, inside.ne]
    · simp
    · have beyond : reg.getLsbD i = false := BitVec.getLsbD_of_ge reg i (by omega)
      simp [beyond, outside.ne']

private theorem X_mul_bitPoly_add (reg : BitVec w) (bit : Bool) (positive : 0 < w) :
    X * bitPoly reg + (if bit then X ^ w else 0) =
      bitPoly (crcShift poly reg bit) + crcDivisor poly * if reg.msb ^^ bit then 1 else 0 := by
  have twice (p : (ZMod 2)[X]) : p + p = 0 := CharTwo.add_self_eq_zero p
  rw [X_mul_bitPoly reg positive, crcShift, crcDivisor]
  cases reg.msb <;> cases bit
  · simp
  · simp only [Bool.false_xor, if_true, Bool.false_eq_true, if_false, bitPoly_xor]
    linear_combination -twice (bitPoly poly)
  · simp only [Bool.true_xor, if_true, Bool.not_false, Bool.false_eq_true, if_false, bitPoly_xor]
    linear_combination -twice (bitPoly poly)
  · simp only [Bool.true_xor, if_true, Bool.not_true, Bool.false_eq_true, if_false]
    linear_combination twice (X ^ w)

/-- The division invariant of the register. -/
theorem crcBits_congruent (positive : 0 < w) (init : BitVec w) (message : List Bool) :
    ∃ q, bitPoly init * X ^ message.length + messagePoly message * X ^ w =
      bitPoly (crcBits poly init message) + crcDivisor poly * q := by
  induction message generalizing init with
  | nil => exact ⟨0, by simp [messagePoly, crcBits]⟩
  | cons b bs ih =>
    obtain ⟨q, rest⟩ := ih (crcShift poly init b)
    have shift := X_mul_bitPoly_add poly init b positive
    refine ⟨q + (if init.msb ^^ b then 1 else 0) * X ^ bs.length, ?_⟩
    have later : crcBits poly init (b :: bs) = crcBits poly (crcShift poly init b) bs := rfl
    have here : (if b then X ^ bs.length else 0 : (ZMod 2)[X]) * X ^ w =
        (if b then X ^ w else 0) * X ^ bs.length := by
      cases b <;> simp [mul_comm]
    rw [later, messagePoly, List.length_cons, add_mul, here]
    linear_combination X ^ bs.length * shift + rest

/-- The register holds the remainder of the message, with the initial value added to its first
bits. -/
theorem crcBits_remainder (positive : 0 < w) (init : BitVec w) (message : List Bool) :
    bitPoly (crcBits poly init message) =
      (bitPoly init * X ^ message.length + messagePoly message * X ^ w) %ₘ crcDivisor poly := by
  obtain ⟨q, congruent⟩ := crcBits_congruent poly positive init message
  exact (remainder_eq poly congruent).symm

end Register

/-! ### Messages -/

/-- The bits of `v`, the most significant one first. -/
def msbFirst {n : Nat} (v : BitVec n) : List Bool := (List.range n).map v.getMsbD

@[simp] theorem msbFirst_length {n : Nat} (v : BitVec n) : (msbFirst v).length = n := by
  simp [msbFirst]

private theorem msbFirst_succ {n : Nat} (v : BitVec (n + 1)) :
    msbFirst v = v.msb :: msbFirst (v.setWidth n) := by
  rw [msbFirst, List.range_succ_eq_map, List.map_cons, List.map_map, msbFirst, BitVec.msb]
  congr 1
  apply List.map_congr_left
  intro i member
  have inside : i < n := List.mem_range.mp member
  have shifted : n - 1 - i < n := by omega
  simp only [Function.comp_apply, BitVec.getMsbD, BitVec.getLsbD_setWidth, inside, shifted,
    Nat.succ_lt_succ inside, decide_true, Bool.true_and, Nat.succ_eq_add_one]
  congr 1
  omega

private theorem msbFirst_append {m n : Nat} (u : BitVec m) (v : BitVec n) :
    msbFirst (u ++ v) = msbFirst u ++ msbFirst v := by
  rw [msbFirst, List.range_add, List.map_append, List.map_map]
  congr 1
  · apply List.map_congr_left
    intro i member
    have inside : i < m := List.mem_range.mp member
    simp [BitVec.getMsbD_append, inside]
  · apply List.map_congr_left
    intro i _
    simp [BitVec.getMsbD_append]

private theorem messagePoly_msbFirst {n : Nat} (v : BitVec n) :
    messagePoly (msbFirst v) = bitPoly v := by
  induction n with
  | zero =>
    have empty : v = 0 := BitVec.eq_nil v
    rw [empty, bitPoly_zero]
    rfl
  | succ n ih =>
    rw [msbFirst_succ, messagePoly, ih, msbFirst_length]
    ext i
    -- the leading bit gives the leading coefficient, the others are the shorter vector
    have top : (if v.msb then (X : (ZMod 2)[X]) ^ n else 0).coeff i =
        if i = n ∧ v.getLsbD n then 1 else 0 := by
      rw [BitVec.msb_eq_getLsbD_last, Nat.add_sub_cancel]
      split_ifs <;> simp_all [coeff_X_pow]
    rw [coeff_add, top, bitPoly_coeff, bitPoly_coeff, BitVec.getLsbD_setWidth]
    rcases Nat.lt_trichotomy i n with inside | rfl | outside
    · simp [inside, inside.ne]
    · simp
    · have beyond : v.getLsbD i = false := BitVec.getLsbD_of_ge v i outside
      simp [beyond, outside.ne']

section Check

variable {w : Nat} (poly : BitVec w)

/-- The check of the message `v`. -/
def crc {n : Nat} (init : BitVec w) (v : BitVec n) : BitVec w := crcBits poly init (msbFirst v)

/-- The usual check value, of the digits 1 to 9 in ASCII. -/
example : crc (0x1021 : BitVec 16) 0xFFFF (0x313233343536373839 : BitVec 72) = 0x29B1 := by
  decide +kernel

/-- The check of two parts, one after the other. -/
theorem crc_append {m n : Nat} (init : BitVec w) (u : BitVec m) (v : BitVec n) :
    crc poly init (u ++ v) = crc poly (crc poly init u) v := by
  rw [crc, msbFirst_append, crcBits, List.foldl_append]
  rfl

/-- The check is the remainder of the polynomial division. -/
theorem crc_remainder {n : Nat} (init : BitVec w) (v : BitVec n) (positive : 0 < w) :
    bitPoly (crc poly init v) =
      (bitPoly init * X ^ n + bitPoly v * X ^ w) %ₘ crcDivisor poly := by
  rw [crc, crcBits_remainder poly positive, messagePoly_msbFirst, msbFirst_length]

/-- A check is affine in its message. -/
theorem crc_xor {n : Nat} (init : BitVec w) (x y z : BitVec n) (positive : 0 < w) :
    crc poly init (x ^^^ y ^^^ z) = crc poly init x ^^^ crc poly init y ^^^ crc poly init z := by
  have twice (p : (ZMod 2)[X]) : p + p = 0 := CharTwo.add_self_eq_zero p
  apply bitPoly_inj
  simp only [bitPoly_xor, crc_remainder poly _ _ positive, ← add_modByMonic]
  congr 1
  linear_combination -twice (bitPoly init * X ^ n)

/-- Shifting in zeros. -/
theorem crcBits_zeros (reg : BitVec w) (n : Nat) :
    crcBits poly reg (List.replicate n false) = (fun r => crcShift poly r false)^[n] reg := by
  induction n generalizing reg with
  | zero => rfl
  | succ n ih => exact ih (crcShift poly reg false)

private theorem messagePoly_zeros (n : Nat) : messagePoly (List.replicate n false) = 0 := by
  induction n with
  | zero => rfl
  | succ n ih => simp [List.replicate_succ, messagePoly, ih]

/-- A word as wide as the register may be added to it at once, before its bits are shifted. -/
theorem crc_word (init word : BitVec w) (positive : 0 < w) :
    crc poly init word = (fun r => crcShift poly r false)^[w] (init ^^^ word) := by
  apply bitPoly_inj
  rw [crc_remainder poly init word positive, ← crcBits_zeros, crcBits_remainder poly positive,
    messagePoly_zeros, List.length_replicate, bitPoly_xor, zero_mul, add_zero, add_mul]

end Check

end WrSwitch.Machine
