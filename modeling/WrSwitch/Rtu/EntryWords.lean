import WrSwitch.Rtu.Driver

/-!
# The five words of an entry

Every field of `mac_entry_word0_w` to `mac_entry_word4_w` has its own bits, so the words
determine the fields the lookup of the hardware uses.
-/
namespace WrSwitch.Rtu

/-- Bit `j` of a field of `w` bits that is masked and shifted to bit `k`. -/
theorem field_bit (x : Word) (w k j : Nat) (bound : j < 32) :
    ((BitVec.ofNat 32 (2 ^ w - 1) &&& x) <<< k).getLsbD j =
      (decide (k ≤ j) && decide (j < k + w) && x.getLsbD (j - k)) := by
  rw [BitVec.getLsbD_shiftLeft, BitVec.getLsbD_and, BitVec.getLsbD_ofNat,
    Nat.testBit_two_pow_sub_one]
  by_cases low : k ≤ j
  · have inside : j - k < 32 := by omega
    have width : (j - k < w) = (j < k + w) := by rw [eq_iff_iff]; omega
    have above : ¬j < k := by omega
    simp only [bound, inside, above, low, width, decide_true, decide_false, Bool.not_false,
      Bool.true_and]
  · have below : j < k := by omega
    simp only [below, low, decide_true, decide_false, Bool.not_true, Bool.and_false,
      Bool.false_and]

private theorem byte_bit (x : Byte) (k j : Nat) (bound : j < 32) :
    ((0xFF &&& x.setWidth 32) <<< k : Word).getLsbD j =
      (decide (k ≤ j) && decide (j < k + 8) && x.getLsbD (j - k)) := by
  rw [show (0xFF : Word) = BitVec.ofNat 32 (2 ^ 8 - 1) from rfl, field_bit _ _ _ _ bound,
    BitVec.getLsbD_setWidth]
  by_cases low : k ≤ j
  · have inside : j - k < 32 := by omega
    simp only [inside, decide_true, Bool.true_and]
  · simp only [low, decide_false, Bool.false_and]

private theorem half_bit (x : Word) (k j : Nat) (bound : j < 32) :
    ((0xFFFF &&& x) <<< k : Word).getLsbD j =
      (decide (k ≤ j) && decide (j < k + 16) && x.getLsbD (j - k)) :=
  field_bit x 16 k j bound

private theorem flag_bit (x : Word) (k j : Nat) (bound : j < 32) :
    ((0x1 &&& x) <<< k : Word).getLsbD j =
      (decide (k ≤ j) && decide (j < k + 1) && x.getLsbD (j - k)) :=
  field_bit x 1 k j bound

private theorem last_byte_bit (x : Byte) (j : Nat) (bound : j < 32) :
    (0xFF &&& x.setWidth 32 : Word).getLsbD j = (decide (j < 8) && x.getLsbD j) := by
  have shifted := byte_bit x 0 j bound
  simpa only [BitVec.shiftLeft_zero, Nat.zero_le, decide_true, Bool.true_and, Nat.zero_add,
    Nat.sub_zero] using shifted

private theorem last_half_bit (x : Word) (j : Nat) (bound : j < 32) :
    (0xFFFF &&& x : Word).getLsbD j = (decide (j < 16) && x.getLsbD j) := by
  have shifted := half_bit x 0 j bound
  simpa only [BitVec.shiftLeft_zero, Nat.zero_le, decide_true, Bool.true_and, Nat.zero_add,
    Nat.sub_zero] using shifted

private theorem last_flag_bit (x : Word) (j : Nat) (bound : j < 32) :
    (0x1 &&& x : Word).getLsbD j = (decide (j < 1) && x.getLsbD j) := by
  have shifted := flag_bit x 0 j bound
  simpa only [BitVec.shiftLeft_zero, Nat.zero_le, decide_true, Bool.true_and, Nat.zero_add,
    Nat.sub_zero] using shifted

/-- A field that has bits `k` and up of a word to itself is determined by the word. -/
private theorem field_inj {α : Type} {w : Nat} (word : α → Word) (field : α → BitVec w) (k : Nat)
    (bits : ∀ a, ∀ i < w, (word a).getLsbD (k + i) = (field a).getLsbD i) {a a' : α}
    (same : word a = word a') : field a = field a' := by
  refine BitVec.eq_of_getLsbD_eq fun i inside => ?_
  rw [← bits a i inside, same, bits a' i inside]

/-- The first word keeps the two high address bytes, the FID and the valid flag apart. -/
theorem macEntryWord0W_inj {e e' : RtuFilteringEntry}
    (same : macEntryWord0W e = macEntryWord0W e') :
    e.mac.b0 = e'.mac.b0 ∧ e.mac.b1 = e'.mac.b1 ∧ e.fid = e'.fid ∧
      e.valid.getLsbD 0 = e'.valid.getLsbD 0 := by
  have flag := congrArg (fun word => word.getLsbD 0) same
  simp (disch := omega) only [macEntryWord0W, BitVec.getLsbD_or, byte_bit, flag_bit,
    last_flag_bit, decide_eq_true, decide_eq_false, Bool.true_and, Bool.false_and,
    Bool.false_or] at flag
  refine ⟨field_inj macEntryWord0W (·.mac.b0) 24 ?_ same,
    field_inj macEntryWord0W (·.mac.b1) 16 ?_ same,
    field_inj macEntryWord0W (·.fid) 4 ?_ same, flag⟩
  -- the other fields are zero at the bits of this one
  all_goals
    intro e i inside
    simp (disch := omega) only [macEntryWord0W, BitVec.getLsbD_or, byte_bit, flag_bit,
      last_flag_bit, decide_eq_true, decide_eq_false, Bool.true_and, Bool.false_and,
      Bool.or_false, Bool.false_or, Nat.add_sub_cancel_left]

/-- The second word keeps the four low address bytes apart. -/
theorem macEntryWord1W_inj {e e' : RtuFilteringEntry}
    (same : macEntryWord1W e = macEntryWord1W e') :
    e.mac.b2 = e'.mac.b2 ∧ e.mac.b3 = e'.mac.b3 ∧ e.mac.b4 = e'.mac.b4 ∧ e.mac.b5 = e'.mac.b5 := by
  refine ⟨field_inj macEntryWord1W (·.mac.b2) 24 ?_ same,
    field_inj macEntryWord1W (·.mac.b3) 16 ?_ same,
    field_inj macEntryWord1W (·.mac.b4) 8 ?_ same,
    field_inj macEntryWord1W (·.mac.b5) 0 ?_ same⟩
  -- every other byte is zero at the bits of this one
  all_goals
    intro e i inside
    simp (disch := omega) only [macEntryWord1W, BitVec.getLsbD_or, byte_bit, last_byte_bit,
      decide_eq_true, decide_eq_false, Bool.true_and, Bool.false_and, Bool.or_false,
      Bool.false_or, Nat.zero_add, Nat.add_sub_cancel_left]

private theorem halves_ext {x y : Word} (low : ∀ i < 16, x.getLsbD i = y.getLsbD i)
    (high : ∀ i < 16, x.getLsbD (16 + i) = y.getLsbD (16 + i)) : x = y := by
  refine BitVec.eq_of_getLsbD_eq fun i inside => ?_
  by_cases half : i < 16
  · exact low i half
  · obtain ⟨k, rfl⟩ := Nat.exists_eq_add_of_le (Nat.not_lt.mp half)
    exact high k (by omega)

/-- The last two words hold the low and the high halves of the two masks. -/
theorem macEntryWord34W_inj {e e' : RtuFilteringEntry}
    (low : macEntryWord3W e = macEntryWord3W e') (high : macEntryWord4W e = macEntryWord4W e') :
    e.portMaskSrc = e'.portMaskSrc ∧ e.portMaskDst = e'.portMaskDst := by
  unfold macEntryWord3W at low
  unfold macEntryWord4W at high
  constructor
  · apply halves_ext
    · intro i half
      have bit := congrArg (fun word => word.getLsbD i) low
      simp (disch := omega) only [BitVec.getLsbD_or, half_bit, last_half_bit, decide_eq_true,
        decide_eq_false, Bool.true_and, Bool.false_and, Bool.false_or] at bit
      exact bit
    · intro i half
      have bit := congrArg (fun word => word.getLsbD i) high
      simp (disch := omega) only [BitVec.getLsbD_or, half_bit, last_half_bit, decide_eq_true,
        decide_eq_false, Bool.true_and, Bool.false_and, Bool.false_or,
        BitVec.getLsbD_ushiftRight] at bit
      exact bit
  -- the halves of the other mask stand sixteen bits further up
  · apply halves_ext
    · intro i half
      have bit := congrArg (fun word => word.getLsbD (16 + i)) low
      simp (disch := omega) only [BitVec.getLsbD_or, half_bit, last_half_bit, decide_eq_true,
        decide_eq_false, Bool.true_and, Bool.false_and, Bool.or_false,
        Nat.add_sub_cancel_left] at bit
      exact bit
    · intro i half
      have bit := congrArg (fun word => word.getLsbD (16 + i)) high
      simp (disch := omega) only [BitVec.getLsbD_or, half_bit, last_half_bit, decide_eq_true,
        decide_eq_false, Bool.true_and, Bool.false_and, Bool.or_false,
        Nat.add_sub_cancel_left, BitVec.getLsbD_ushiftRight] at bit
      exact bit

/-- A flag that is only ever 0 or 1 is determined by its lowest bit. -/
theorem flag_ext {x y : Word} (left : x = 0 ∨ x = 1) (right : y = 0 ∨ y = 1)
    (bit : x.getLsbD 0 = y.getLsbD 0) : x = y := by
  rcases left with rfl | rfl <;> rcases right with rfl | rfl
  · rfl
  · exact absurd bit (by decide)
  · exact absurd bit (by decide)
  · rfl

/-- The five words determine the fields that the lookup uses. -/
theorem macEntryWords_inj {e e' : RtuFilteringEntry} (same : macEntryWords e = macEntryWords e')
    (left : e.valid = 0 ∨ e.valid = 1) (right : e'.valid = 0 ∨ e'.valid = 1) :
    e.valid = e'.valid ∧ e.mac = e'.mac ∧ e.fid = e'.fid ∧ e.portMaskSrc = e'.portMaskSrc ∧
      e.portMaskDst = e'.portMaskDst := by
  unfold macEntryWords at same
  simp only [List.cons.injEq, and_true] at same
  obtain ⟨word0, word1, _, word3, word4⟩ := same
  obtain ⟨b0, b1, fid, bit⟩ := macEntryWord0W_inj word0
  obtain ⟨b2, b3, b4, b5⟩ := macEntryWord1W_inj word1
  obtain ⟨src, dst⟩ := macEntryWord34W_inj word3 word4
  have mac : e.mac = e'.mac := by
    cases left : e.mac
    cases right : e'.mac
    rw [left, right] at b0 b1 b2 b3 b4 b5
    rw [Mac.mk.injEq]
    exact ⟨b0, b1, b2, b3, b4, b5⟩
  exact ⟨flag_ext left right bit, mac, fid, src, dst⟩

/-- An empty entry has zeros in all words. -/
theorem macEntryWords_zero : macEntryWords .zero = [0, 0, 0, 0, 0] := by decide

end WrSwitch.Rtu
