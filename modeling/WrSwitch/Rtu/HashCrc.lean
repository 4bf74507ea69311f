import WrSwitch.Machine.Crc
import WrSwitch.Rtu.Hash

/-!
# The hash is a CRC

`crc16` of `rtu_hash.c` works on a 32-bit word whose bits 4 to 19 are the register: the first
four of its twenty turns bring the word there, the other sixteen shift.
-/
namespace WrSwitch.Rtu

open WrSwitch.Machine
open Polynomial

/-! ### The turns of the loop -/

private theorem uppermost_iff (remainder : Word) :
    remainder &&& 0x80000 ≠ 0 ↔ remainder.getLsbD 19 = true := by
  have single : (0x80000 : Word) = BitVec.twoPow 32 19 := rfl
  rw [single, BitVec.and_twoPow]
  cases remainder.getLsbD 19 <;> decide

/-- A turn before the word has reached bit 19. -/
theorem crc16Step_below (hashPoly remainder : Word) (clear : remainder.getLsbD 19 = false) :
    crc16Step hashPoly remainder = remainder <<< 1 := by
  rw [crc16Step, if_neg]
  rw [uppermost_iff, clear]
  exact Bool.false_ne_true

private theorem crc16Step_top (hashPoly remainder : Word) (set : remainder.getLsbD 19 = true) :
    crc16Step hashPoly remainder = (remainder ^^^ hashPoly) <<< 1 := by
  rw [crc16Step, if_pos ((uppermost_iff remainder).mpr set)]

/-- The word that holds the register `reg` after `k` turns without a division. -/
def raised (reg : BitVec 16) (k : Nat) : Word := reg.setWidth 32 <<< k

private theorem raised_getLsbD (reg : BitVec 16) (k i : Nat) (small : k ≤ 4) :
    (raised reg k).getLsbD i = (decide (k ≤ i) && reg.getLsbD (i - k)) := by
  rw [raised, BitVec.getLsbD_shiftLeft, BitVec.getLsbD_setWidth]
  by_cases inside : i < 32
  · have fits : i - k < 32 := by omega
    by_cases low : k ≤ i <;> simp [inside, fits, low]
  · have beyond : reg.getLsbD (i - k) = false := BitVec.getLsbD_of_ge reg _ (by omega)
    simp [inside, beyond]

private theorem crc16Step_raised_below (hashPoly : Word) (reg : BitVec 16) (k : Nat)
    (early : k < 4) :
    crc16Step hashPoly (raised reg k) = raised reg (k + 1) := by
  have clear : (raised reg k).getLsbD 19 = false := by
    rw [raised_getLsbD reg k 19 early.le, BitVec.getLsbD_of_ge reg _ (by omega), Bool.and_false]
  rw [crc16Step_below hashPoly _ clear, raised, raised, BitVec.shiftLeft_add]

private theorem rtuHashSetPoly_getLsbD (poly : BitVec 16) (i : Nat) :
    (rtuHashSetPoly poly).getLsbD i =
      (decide (3 ≤ i) && (decide (i = 19) || poly.getLsbD (i - 3))) := by
  have leading : (0x10000 : Word) = BitVec.twoPow 32 16 := rfl
  rw [rtuHashSetPoly, leading, BitVec.getLsbD_shiftLeft, BitVec.getLsbD_or, BitVec.getLsbD_twoPow,
    BitVec.getLsbD_setWidth]
  by_cases low : 3 ≤ i
  · by_cases inside : i < 32
    · have shifted : i - 3 < 32 := by omega
      have same : 16 = i - 3 ↔ i = 19 := by omega
      simp [low, inside, shifted, same]
    · have beyond : poly.getLsbD (i - 3) = false := BitVec.getLsbD_of_ge poly _ (by omega)
      have other : i ≠ 19 := by omega
      simp [inside, beyond, other]
  · simp [low, Nat.not_le.mp low]

/-- Moving the word moves the register, but for the bit that leaves it. -/
theorem raised_shiftLeft (reg : BitVec 16) (i : Nat) (inside : i < 32) :
    (raised reg 4 <<< 1).getLsbD i =
      ((raised (reg <<< 1) 4).getLsbD i ^^ (decide (i = 20) && reg.msb)) := by
  rw [BitVec.getLsbD_shiftLeft, raised_getLsbD _ 4 _ le_rfl, raised_getLsbD _ 4 _ le_rfl,
    BitVec.getLsbD_shiftLeft, BitVec.msb_eq_getLsbD_last]
  have same : i - 1 - 4 = i - 4 - 1 := by omega
  rw [same]
  -- below bit 5 both sides are zero
  rcases Nat.lt_or_ge i 5 with low | low
  · have other : i ≠ 20 := by omega
    have first : ¬(1 ≤ i ∧ 4 ≤ i - 1) := by omega
    have zeroth : i - 4 < 1 := by omega
    simp only [zeroth, other, decide_true, decide_false, Bool.not_true, Bool.and_false,
      Bool.false_and, Bool.xor_false, Bool.and_eq_false_iff, decide_eq_false_iff_not]
    omega
  · have bit : ¬i - 4 < 1 := by omega
    have above : 4 ≤ i - 1 := by omega
    have over_four : 4 ≤ i := by omega
    have moved : ¬i < 1 := by omega
    simp only [inside, bit, above, over_four, moved, decide_true, decide_false, Bool.not_false,
      Bool.true_and, Bool.and_true]
    -- within the register, at its top bit, or beyond it
    rcases Nat.lt_trichotomy i 20 with register | rfl | beyond
    · have short : i - 4 < 16 := by omega
      simp [short, register.ne]
    · simp
    · have short : ¬i - 4 < 16 := by omega
      simp [short, beyond.ne', BitVec.getLsbD_of_ge reg (i - 4 - 1) (by omega)]

/-- The divisor in its place: one turn brings it to bits 4 to 20. -/
theorem hashPoly_shiftLeft (poly : BitVec 16) (i : Nat) (inside : i < 32) :
    (rtuHashSetPoly poly <<< 1).getLsbD i = ((raised poly 4).getLsbD i ^^ decide (i = 20)) := by
  rw [BitVec.getLsbD_shiftLeft, rtuHashSetPoly_getLsbD, raised_getLsbD _ 4 _ le_rfl]
  have same : i - 1 - 3 = i - 4 := by omega
  have leading : i - 1 = 19 ↔ i = 20 := by omega
  by_cases low : 4 ≤ i
  · have above : 3 ≤ i - 1 := by omega
    have moved : ¬i < 1 := by omega
    simp only [inside, low, above, moved, same, leading, decide_true, decide_false, Bool.not_false,
      Bool.true_and]
    by_cases top : i = 20
    · subst top
      simp
    · simp [top]
  · have other : i ≠ 20 := by omega
    have below : ¬3 ≤ i - 1 := by omega
    simp [low, below, other]

/-- From bit 4 on a turn is a shift of the register: the bit that leaves it meets the leading bit
of the divisor. -/
theorem crc16Step_raised (poly reg : BitVec 16) :
    crc16Step (rtuHashSetPoly poly) (raised reg 4) = raised (crcShift poly reg false) 4 := by
  have top : (raised reg 4).getLsbD 19 = reg.msb := by
    rw [raised_getLsbD reg 4 19 le_rfl, BitVec.msb_eq_getLsbD_last]
    rfl
  apply BitVec.eq_of_getLsbD_eq
  intro i inside
  cases leaving : reg.msb with
  | false =>
    rw [crc16Step_below _ _ (top.trans leaving), raised_shiftLeft reg i inside, crcShift, leaving]
    simp
  | true =>
    rw [crc16Step_top _ _ (top.trans leaving), BitVec.shiftLeft_xor_distrib, BitVec.getLsbD_xor,
      raised_shiftLeft reg i inside, hashPoly_shiftLeft poly i inside, crcShift, leaving]
    simp only [raised_getLsbD _ 4 i le_rfl, Bool.xor_false, if_true, BitVec.getLsbD_xor,
      Bool.and_true]
    by_cases low : 4 ≤ i <;> by_cases gone : i = 20 <;> simp [low, gone]

private theorem iterate_crc16Step_raised (poly reg : BitVec 16) (k : Nat) :
    (crc16Step (rtuHashSetPoly poly))^[k] (raised reg 4) =
      raised ((fun r => crcShift poly r false)^[k] reg) 4 := by
  induction k generalizing reg with
  | zero => rfl
  | succ k ih => rw [Function.iterate_succ_apply, crc16Step_raised, ih, Function.iterate_succ_apply]

/-- The first four turns only move the word. -/
theorem iterate_crc16Step_below (hashPoly : Word) (reg : BitVec 16) (k : Nat) (early : k ≤ 4) :
    (crc16Step hashPoly)^[k] (raised reg 0) = raised reg k := by
  induction k with
  | zero => rfl
  | succ k ih =>
    rw [Function.iterate_succ_apply', ih (by omega), crc16Step_raised_below hashPoly reg k early]

private theorem crc16_eq_crc (poly initCrc message : BitVec 16) :
    crc16 (rtuHashSetPoly poly) initCrc message = crc poly initCrc message := by
  have start : (message ^^^ initCrc).setWidth 32 = raised (initCrc ^^^ message) 0 := by
    rw [raised, BitVec.shiftLeft_zero, BitVec.xor_comm]
  have turns : (crc16Step (rtuHashSetPoly poly))^[20] (raised (initCrc ^^^ message) 0) =
      raised ((fun r => crcShift poly r false)^[16] (initCrc ^^^ message)) 4 := by
    rw [show 20 = 16 + 4 from rfl, Function.iterate_add_apply,
      iterate_crc16Step_below _ _ 4 le_rfl, iterate_crc16Step_raised]
  rw [crc16, start, turns, ← crc_word poly initCrc message (by decide)]
  apply BitVec.eq_of_getLsbD_eq
  intro i inside
  rw [BitVec.getLsbD_setWidth, BitVec.getLsbD_ushiftRight, raised_getLsbD _ 4 _ le_rfl]
  simp [inside]

/-! ### The widths of the words -/

/-- A turn on a number of any size. -/
def crc16StepExact (hashPoly remainder : Nat) : Nat :=
  (if remainder &&& 0x80000 ≠ 0 then remainder ^^^ hashPoly else remainder) <<< 1

private theorem crc16Step_toNat (hashPoly remainder : Word) (divisor : hashPoly.toNat < 2 ^ 20)
    (small : remainder.toNat < 2 ^ 20) :
    (crc16Step hashPoly remainder).toNat = crc16StepExact hashPoly.toNat remainder.toNat := by
  have condition : remainder &&& 0x80000 ≠ 0 ↔ remainder.toNat &&& 0x80000 ≠ 0 := by
    rw [not_iff_not, ← BitVec.toNat_inj, BitVec.toNat_and]
    rfl
  have exact (v : Word) (bound : v.toNat < 2 ^ 20) : (v <<< 1).toNat = v.toNat <<< 1 := by
    rw [BitVec.toNat_shiftLeft]
    exact Nat.mod_eq_of_lt (by omega)
  rw [crc16Step, crc16StepExact]
  by_cases top : remainder &&& 0x80000 ≠ 0
  · rw [if_pos top, if_pos (condition.mp top), ← BitVec.toNat_xor]
    apply exact
    rw [BitVec.toNat_xor]
    exact Nat.xor_lt_two_pow small divisor
  · rw [if_neg top, if_neg (mt condition.mpr top), exact remainder small]

/-- The divisor has 17 bits. -/
theorem leading_or_lt (poly : BitVec 16) : 0x10000 ||| poly.toNat < 2 ^ 17 :=
  Nat.or_lt_two_pow (by decide) (Nat.lt_trans poly.isLt (by decide))

private theorem rtuHashSetPoly_toNat (poly : BitVec 16) :
    (rtuHashSetPoly poly).toNat = (0x10000 ||| poly.toNat) <<< 3 := by
  have leading := leading_or_lt poly
  have short : poly.toNat < 2 ^ 32 := BitVec.toNat_lt_twoPow_of_le (by decide)
  have divisor : ((0x10000 : Word) ||| poly.setWidth 32).toNat = 0x10000 ||| poly.toNat := by
    rw [BitVec.toNat_or, BitVec.toNat_setWidth, Nat.mod_eq_of_lt short]
    rfl
  rw [rtuHashSetPoly, BitVec.toNat_shiftLeft, divisor]
  refine Nat.mod_eq_of_lt ?_
  rw [Nat.shiftLeft_eq]
  omega

private theorem rtuHashSetPoly_lt (poly : BitVec 16) : (rtuHashSetPoly poly).toNat < 2 ^ 20 := by
  have leading := leading_or_lt poly
  rw [rtuHashSetPoly_toNat, Nat.shiftLeft_eq]
  omega

private theorem raised_toNat_lt (reg : BitVec 16) (k : Nat) (small : k ≤ 4) :
    (raised reg k).toNat < 2 ^ 20 := by
  have short : reg.toNat < 2 ^ 32 := BitVec.toNat_lt_twoPow_of_le (by decide)
  rw [raised, BitVec.toNat_shiftLeft, BitVec.toNat_setWidth, Nat.mod_eq_of_lt short,
    Nat.shiftLeft_eq]
  calc reg.toNat * 2 ^ k % 2 ^ 32 ≤ reg.toNat * 2 ^ k := Nat.mod_le _ _
    _ ≤ reg.toNat * 2 ^ 4 := Nat.mul_le_mul_left _ (Nat.pow_le_pow_right (by decide) small)
    _ < 2 ^ 16 * 2 ^ 4 := Nat.mul_lt_mul_of_pos_right reg.isLt (by decide)

/-- After any number of turns the word is a register in one of the places up to bit 4. -/
theorem iterate_crc16Step_raised_zero (poly reg : BitVec 16) (k : Nat) :
    ∃ reg' k', k' ≤ 4 ∧
      (crc16Step (rtuHashSetPoly poly))^[k] (raised reg 0) = raised reg' k' := by
  rcases Nat.le_total k 4 with early | late
  · exact ⟨reg, k, early, iterate_crc16Step_below _ reg k early⟩
  · obtain ⟨n, rfl⟩ := Nat.exists_eq_add_of_le' late
    refine ⟨(fun r => crcShift poly r false)^[n] reg, 4, le_rfl, ?_⟩
    rw [Function.iterate_add_apply, iterate_crc16Step_below _ _ 4 le_rfl, iterate_crc16Step_raised]

private theorem iterate_crc16Step_toNat (poly reg : BitVec 16) (k : Nat) :
    ((crc16Step (rtuHashSetPoly poly))^[k] (raised reg 0)).toNat =
      (crc16StepExact (rtuHashSetPoly poly).toNat)^[k] reg.toNat := by
  induction k with
  | zero =>
    rw [Function.iterate_zero_apply, Function.iterate_zero_apply, raised, BitVec.shiftLeft_zero,
      BitVec.toNat_setWidth, Nat.mod_eq_of_lt (by have := reg.isLt; omega)]
  | succ k ih =>
    obtain ⟨reg', k', small, word⟩ := iterate_crc16Step_raised_zero poly reg k
    rw [Function.iterate_succ_apply', Function.iterate_succ_apply', ← ih]
    apply crc16Step_toNat _ _ (rtuHashSetPoly_lt poly)
    rw [word]
    exact raised_toNat_lt reg' k' small

/-- Every word of the computation holds the number that it would hold without a width. -/
structure HashWordsExact (poly : BitVec 16) : Prop where
  divisor : (rtuHashSetPoly poly).toNat = (0x10000 ||| poly.toNat) <<< 3
  pair : ∀ hi lo : Byte, (macPair hi lo).toNat = hi.toNat <<< 8 ||| lo.toNat
  turn : ∀ (initCrc message : BitVec 16) (k : Nat),
    ((crc16Step (rtuHashSetPoly poly))^[k] ((message ^^^ initCrc).setWidth 32)).toNat =
      (crc16StepExact (rtuHashSetPoly poly).toNat)^[k] (message.toNat ^^^ initCrc.toNat)
  result : ∀ initCrc message : BitVec 16,
    (crc16 (rtuHashSetPoly poly) initCrc message).toNat =
      (crc16StepExact (rtuHashSetPoly poly).toNat)^[20] (message.toNat ^^^ initCrc.toNat) >>> 4

private theorem hashWordsExact (poly : BitVec 16) : HashWordsExact poly where
  divisor := rtuHashSetPoly_toNat poly
  pair := by
    intro hi lo
    have short (b : Byte) : b.toNat < 2 ^ 16 := BitVec.toNat_lt_twoPow_of_le (by decide)
    have shifted : hi.toNat <<< 8 < 2 ^ 16 := by
      have byte := hi.isLt
      rw [Nat.shiftLeft_eq]
      omega
    rw [macPair, BitVec.toNat_or, BitVec.toNat_shiftLeft, BitVec.toNat_setWidth,
      BitVec.toNat_setWidth, Nat.mod_eq_of_lt (short hi), Nat.mod_eq_of_lt (short lo),
      Nat.mod_eq_of_lt shifted]
  turn := by
    intro initCrc message k
    have word := iterate_crc16Step_toNat poly (message ^^^ initCrc) k
    rwa [raised, BitVec.shiftLeft_zero, BitVec.toNat_xor] at word
  result := by
    intro initCrc message
    -- twenty turns lead to a raised register, whose low bits are zero
    have word := iterate_crc16Step_toNat poly (message ^^^ initCrc) 20
    obtain ⟨reg', k', small, final⟩ :=
      iterate_crc16Step_raised_zero poly (message ^^^ initCrc) 20
    have bound := raised_toNat_lt reg' k' small
    rw [raised, BitVec.shiftLeft_zero, BitVec.toNat_xor] at word
    rw [← final, raised, BitVec.shiftLeft_zero] at bound
    rw [← word, crc16, BitVec.toNat_setWidth, BitVec.toNat_ushiftRight, Nat.mod_eq_of_lt]
    rw [Nat.shiftRight_eq_div_pow]
    omega

/-! ### The hash -/

/-- The FID, as a number of 16 bits, and the six bytes of the address. -/
def hashMessage (mac : Mac) (fid : Byte) : BitVec 64 :=
  fid.setWidth 16 ++ mac.b0 ++ mac.b1 ++ mac.b2 ++ mac.b3 ++ mac.b4 ++ mac.b5

def Mac.xor (a b : Mac) : Mac :=
  ⟨a.b0 ^^^ b.b0, a.b1 ^^^ b.b1, a.b2 ^^^ b.b2, a.b3 ^^^ b.b3, a.b4 ^^^ b.b4, a.b5 ^^^ b.b5⟩

private theorem macPair_eq (hi lo : Byte) : macPair hi lo = hi ++ lo := by
  apply BitVec.eq_of_getLsbD_eq
  intro i inside
  rw [macPair, BitVec.getLsbD_or, BitVec.getLsbD_shiftLeft, BitVec.getLsbD_append,
    BitVec.getLsbD_setWidth, BitVec.getLsbD_setWidth]
  by_cases low : i < 8
  · simp [low, inside]
  · have beyond : lo.getLsbD i = false := BitVec.getLsbD_of_ge lo i (Nat.not_lt.mp low)
    have shifted : i - 8 < 16 := by omega
    simp [low, inside, beyond, shifted]

/-- Two bytes of the address, taken in by `crc16` at once. -/
theorem crc16_macPair (poly initCrc : BitVec 16) (hi lo : Byte) :
    crc16 (rtuHashSetPoly poly) initCrc (macPair hi lo) = crc poly (crc poly initCrc hi) lo := by
  rw [crc16_eq_crc, macPair_eq]
  exact crc_append poly initCrc hi lo

private theorem rtuHash_eq_crc (poly : BitVec 16) (mac : Mac) (fid : Byte) :
    rtuHash (rtuHashSetPoly poly) mac fid =
      (crc poly 0xFFFF (hashMessage mac fid)).toNat &&& (htabEntries - 1) := by
  have whole : (0xFFFF : BitVec 16) &&& fid.setWidth 16 = fid.setWidth 16 := BitVec.allOnes_and
  have message : crc poly 0xFFFF (hashMessage mac fid) =
      crc poly (crc poly (crc poly (crc poly (crc poly (crc poly (crc poly 0xFFFF
        (fid.setWidth 16)) mac.b0) mac.b1) mac.b2) mac.b3) mac.b4) mac.b5 := by
    simp only [← crc_append]
    rfl
  rw [message, rtuHash, whole, crc16_macPair, crc16_macPair, crc16_macPair, crc16_eq_crc]

private theorem hashMessage_xor (a b : Mac) (f g : Byte) :
    hashMessage (a.xor b) (f ^^^ g) = hashMessage a f ^^^ hashMessage b g := by
  simp only [hashMessage, Mac.xor, BitVec.setWidth_xor, ← BitVec.xor_append]

/-- The hash of `rtu_hash` is the masked CRC-16 of its message, the remainder of a division over
GF(2); no word of the computation overflows; and the hash is affine in address and FID. -/
theorem rtuHash_spec (poly : BitVec 16) :
    (∀ mac fid, ∃ check : BitVec 16,
      rtuHash (rtuHashSetPoly poly) mac fid = check.toNat &&& (htabEntries - 1) ∧
      check = crc poly 0xFFFF (hashMessage mac fid) ∧
      bitPoly check = (bitPoly (0xFFFF : BitVec 16) * X ^ 64 +
        bitPoly (hashMessage mac fid) * X ^ 16) %ₘ (X ^ 16 + bitPoly poly)) ∧
    HashWordsExact poly ∧
    ∀ a b c f g h,
      rtuHash (rtuHashSetPoly poly) ((a.xor b).xor c) (f ^^^ g ^^^ h) =
        rtuHash (rtuHashSetPoly poly) a f ^^^ rtuHash (rtuHashSetPoly poly) b g ^^^
          rtuHash (rtuHashSetPoly poly) c h := by
  refine ⟨fun mac fid => ?_, hashWordsExact poly, fun a b c f g h => ?_⟩
  · exact ⟨_, rtuHash_eq_crc poly mac fid, rfl,
      crc_remainder poly 0xFFFF (hashMessage mac fid) (by decide)⟩
  · simp only [rtuHash_eq_crc, hashMessage_xor, crc_xor poly _ _ _ _ (show 0 < 16 by decide),
      BitVec.toNat_xor, Nat.and_xor_distrib_right]

end WrSwitch.Rtu
