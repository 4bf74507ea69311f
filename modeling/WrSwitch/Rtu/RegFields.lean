import WrSwitch.Rtu.Driver

/-!
# Fields of a register

What `WBGEN2_GEN_READ` finds in a word that is put together from `WBGEN2_GEN_WRITE` and
`WBGEN2_GEN_MASK`: a field gives back what was written to it, and nothing of the others.
-/
namespace WrSwitch.Rtu

/-! ### Bits -/

theorem zero_bit (j : Nat) : (0 : Word).getLsbD j = false := BitVec.getLsbD_zero

private theorem ones_bit (size j : Nat) (bound : j < 32) :
    (((1 : Word) <<< size) - 1).getLsbD j = decide (j < size) := by
  have ones : ((1 : Word) <<< size) - 1 = BitVec.ofNat 32 (2 ^ size - 1) := by
    have positive : 0 < 2 ^ size := Nat.two_pow_pos size
    apply BitVec.eq_of_toNat_eq
    rw [BitVec.toNat_sub, BitVec.toNat_shiftLeft, BitVec.toNat_ofNat]
    change (2 ^ 32 - 1 + 1 <<< size % 2 ^ 32) % 2 ^ 32 = _
    rw [Nat.one_shiftLeft]
    omega
  rw [ones, BitVec.getLsbD_ofNat, Nat.testBit_two_pow_sub_one]
  simp only [bound, decide_true, Bool.true_and]

/-- The bits of a mask. -/
theorem genMask_bit (offset size j : Nat) (bound : j < 32) :
    (wbgen2GenMask offset size).getLsbD j = (decide (offset ≤ j) && decide (j < offset + size)) := by
  rw [wbgen2GenMask, BitVec.getLsbD_shiftLeft]
  by_cases low : offset ≤ j
  · rw [ones_bit size (j - offset) (by omega)]
    have width : (j - offset < size) = (j < offset + size) := by rw [eq_iff_iff]; omega
    have above : ¬j < offset := by omega
    simp only [bound, above, low, width, decide_true, decide_false, Bool.not_false, Bool.true_and]
  · have below : j < offset := by omega
    simp only [below, low, decide_true, decide_false, Bool.not_true, Bool.and_false,
      Bool.false_and]

/-- The bits of a field that is written. -/
theorem genWrite_bit (value : Word) (offset size j : Nat) (bound : j < 32) :
    (wbgen2GenWrite value offset size).getLsbD j =
      (decide (offset ≤ j) && decide (j < offset + size) && value.getLsbD (j - offset)) := by
  rw [wbgen2GenWrite, BitVec.getLsbD_shiftLeft, BitVec.getLsbD_and]
  by_cases low : offset ≤ j
  · rw [ones_bit size (j - offset) (by omega)]
    have width : (j - offset < size) = (j < offset + size) := by rw [eq_iff_iff]; omega
    have above : ¬j < offset := by omega
    simp only [bound, above, low, width, decide_true, decide_false, Bool.not_false, Bool.true_and]
    exact Bool.and_comm _ _
  · have below : j < offset := by omega
    simp only [below, low, decide_true, decide_false, Bool.not_true, Bool.and_false,
      Bool.false_and]

private theorem genRead_bit (reg : Word) (offset size j : Nat) (bound : j < 32) :
    (wbgen2GenRead reg offset size).getLsbD j =
      (decide (j < size) && reg.getLsbD (offset + j)) := by
  rw [wbgen2GenRead, BitVec.getLsbD_and, BitVec.getLsbD_ushiftRight, ones_bit size j bound]
  exact Bool.and_comm _ _

/-! ### Fields -/

/-- Fields are read through `or`. -/
theorem genRead_or (a b : Word) (offset size : Nat) :
    wbgen2GenRead (a ||| b) offset size =
      wbgen2GenRead a offset size ||| wbgen2GenRead b offset size := by
  apply BitVec.eq_of_getLsbD_eq
  intro j bound
  simp only [BitVec.getLsbD_or, genRead_bit _ _ _ j bound, Bool.and_or_distrib_left]

private theorem genRead_zero (offset size : Nat) : wbgen2GenRead 0 offset size = 0 := by
  apply BitVec.eq_of_getLsbD_eq
  intro j bound
  simp [genRead_bit _ _ _ j bound]

theorem genRead_ite (c : Prop) [Decidable c] (a : Word) (offset size : Nat) :
    wbgen2GenRead (if c then a else 0) offset size =
      if c then wbgen2GenRead a offset size else 0 := by
  split
  · rfl
  · exact genRead_zero offset size

/-- A value that fits the field is read back. -/
theorem genRead_write_same (value : Word) (offset size : Nat) (fits : offset + size ≤ 32) :
    wbgen2GenRead (wbgen2GenWrite value offset size) offset size =
      wbgen2GenRead value 0 size := by
  apply BitVec.eq_of_getLsbD_eq
  intro j bound
  rw [genRead_bit _ _ _ j bound, genRead_bit _ _ _ j bound]
  by_cases inside : j < size
  · rw [genWrite_bit _ _ _ _ (by omega)]
    have low : offset ≤ offset + j := Nat.le_add_right _ _
    have high : offset + j < offset + size := by omega
    simp only [low, high, decide_true, Bool.true_and, Nat.add_sub_cancel_left, Nat.zero_add]
  · simp only [inside, decide_false, Bool.false_and]

/-- A field does not show in the bits of another one. -/
theorem genRead_write_other (value : Word) (offset size offset' size' : Nat)
    (apart : offset + size ≤ offset' ∨ offset' + size' ≤ offset) :
    wbgen2GenRead (wbgen2GenWrite value offset size) offset' size' = 0 := by
  apply BitVec.eq_of_getLsbD_eq
  intro j bound
  rw [genRead_bit _ _ _ j bound, zero_bit]
  by_cases inside : j < size' ∧ offset' + j < 32
  · rw [genWrite_bit _ _ _ _ inside.2]
    have outside : ¬(offset ≤ offset' + j ∧ offset' + j < offset + size) := by omega
    by_cases low : offset ≤ offset' + j
    · have high : ¬offset' + j < offset + size := by omega
      simp only [high, decide_false, Bool.and_false, Bool.false_and]
    · simp only [low, decide_false, Bool.and_false, Bool.false_and]
  · by_cases high : j < size'
    · rw [BitVec.getLsbD_of_ge _ _ (by omega), Bool.and_false]
    · simp only [high, decide_false, Bool.false_and]

/-- A mask is its field with all bits set. -/
theorem genMask_eq_write (offset size : Nat) :
    wbgen2GenMask offset size = wbgen2GenWrite (BitVec.allOnes 32) offset size := by
  apply BitVec.eq_of_getLsbD_eq
  intro j bound
  rw [genMask_bit _ _ j bound, genWrite_bit _ _ _ j bound, BitVec.getLsbD_allOnes]
  by_cases low : offset ≤ j
  · have inside : j - offset < 32 := by omega
    simp only [inside, decide_true, Bool.and_true]
  · simp only [low, decide_false, Bool.false_and]

theorem genRead_mask_other (offset size offset' size' : Nat)
    (apart : offset + size ≤ offset' ∨ offset' + size' ≤ offset) :
    wbgen2GenRead (wbgen2GenMask offset size) offset' size' = 0 := by
  rw [genMask_eq_write, genRead_write_other _ _ _ _ _ apart]

/-- A field that was cleared reads as 0. -/
theorem genRead_clear_same (reg : Word) (offset size : Nat) :
    wbgen2GenRead (reg &&& ~~~wbgen2GenMask offset size) offset size = 0 := by
  apply BitVec.eq_of_getLsbD_eq
  intro j bound
  rw [genRead_bit _ _ _ j bound, BitVec.getLsbD_and, BitVec.getLsbD_not, zero_bit]
  by_cases inside : j < size ∧ offset + j < 32
  · rw [genMask_bit _ _ _ inside.2]
    have low : offset ≤ offset + j := Nat.le_add_right _ _
    have high : offset + j < offset + size := by omega
    simp only [low, high, decide_true, Bool.and_true, Bool.not_true, Bool.and_false]
  · by_cases high : j < size
    · rw [BitVec.getLsbD_of_ge _ _ (by omega), Bool.false_and, Bool.and_false]
    · simp only [high, decide_false, Bool.false_and]

/-- Clearing a field leaves the others. -/
theorem genRead_clear_other (reg : Word) (offset size offset' size' : Nat)
    (apart : offset + size ≤ offset' ∨ offset' + size' ≤ offset) :
    wbgen2GenRead (reg &&& ~~~wbgen2GenMask offset size) offset' size' =
      wbgen2GenRead reg offset' size' := by
  apply BitVec.eq_of_getLsbD_eq
  intro j bound
  rw [genRead_bit _ _ _ j bound, genRead_bit _ _ _ j bound, BitVec.getLsbD_and, BitVec.getLsbD_not]
  by_cases inside : j < size' ∧ offset' + j < 32
  · rw [genMask_bit _ _ _ inside.2]
    by_cases low : offset ≤ offset' + j
    · have high : ¬offset' + j < offset + size := by omega
      simp only [high, inside.2, decide_false, decide_true, Bool.and_false, Bool.not_false,
        Bool.and_true]
    · simp only [low, inside.2, decide_false, decide_true, Bool.false_and, Bool.not_false,
        Bool.and_true]
  · by_cases high : j < size'
    · rw [BitVec.getLsbD_of_ge _ _ (by omega), Bool.false_and]
    · simp only [high, decide_false, Bool.false_and]

/-- The mask of a field cuts it out. -/
theorem and_genMask_eq_zero (reg : Word) (offset size : Nat) (fits : offset + size ≤ 32) :
    reg &&& wbgen2GenMask offset size = 0 ↔ wbgen2GenRead reg offset size = 0 := by
  constructor
  · intro cut
    apply BitVec.eq_of_getLsbD_eq
    intro j bound
    rw [genRead_bit _ _ _ j bound, zero_bit]
    -- a bit of the field is a bit of the word at its offset
    by_cases inside : j < size
    · have bit := congrArg (fun word => word.getLsbD (offset + j)) cut
      have low : offset ≤ offset + j := Nat.le_add_right _ _
      have high : offset + j < offset + size := by omega
      simp only [BitVec.getLsbD_and, genMask_bit _ _ _ (show offset + j < 32 by omega), low, high,
        decide_true, Bool.and_true, zero_bit] at bit
      rw [bit, Bool.and_false]
    · simp only [inside, decide_false, Bool.false_and]
  · intro read
    apply BitVec.eq_of_getLsbD_eq
    intro j bound
    rw [BitVec.getLsbD_and, genMask_bit _ _ j bound, zero_bit]
    by_cases inside : offset ≤ j ∧ j < offset + size
    · have bit := congrArg (fun word => word.getLsbD (j - offset)) read
      have place : offset + (j - offset) = j := by omega
      have width : j - offset < size := by omega
      simp only [genRead_bit _ _ _ (j - offset) (by omega), place, width, decide_true,
        Bool.true_and, zero_bit] at bit
      rw [bit, Bool.false_and]
    · by_cases low : offset ≤ j
      · have high : ¬j < offset + size := by omega
        simp only [high, decide_false, Bool.and_false]
      · simp only [low, decide_false, Bool.false_and, Bool.and_false]

theorem and_genMask_eq_read (reg : Word) (size : Nat) :
    reg &&& wbgen2GenMask 0 size = wbgen2GenRead reg 0 size := by
  rw [wbgen2GenMask, wbgen2GenRead, BitVec.shiftLeft_zero, BitVec.ushiftRight_zero]

/-- A value below the size of the field loses nothing. -/
theorem genRead_small (value : Word) (size : Nat) (small : value.toNat < 2 ^ size) :
    wbgen2GenRead value 0 size = value := by
  apply BitVec.eq_of_getLsbD_eq
  intro j bound
  rw [genRead_bit _ _ _ j bound, Nat.zero_add]
  by_cases inside : j < size
  · simp only [inside, decide_true, Bool.true_and]
  · have clear : value.getLsbD j = false := by
      rw [BitVec.getLsbD, Nat.testBit_lt_two_pow]
      exact Nat.lt_of_lt_of_le small (Nat.pow_le_pow_right (by omega) (by omega))
    rw [clear, Bool.and_false]

end WrSwitch.Rtu
