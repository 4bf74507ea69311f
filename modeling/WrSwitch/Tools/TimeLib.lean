import WrSwitch.Machine.Decimal

/-!
# Times as text

The functions of the tools that print times. The times of ppsi have fractions of 16 bits.
-/
namespace WrSwitch.Tools

open Machine

/-! ### Values -/

/-- `struct pp_time` -/
structure PpTime where
  secs : BitVec 64
  scaledNsecs : BitVec 64
deriving DecidableEq, Repr

/-- `UInteger48` -/
structure SecondsField where
  msb : BitVec 16
  lsb : BitVec 32
deriving DecidableEq, Repr

structure Timestamp where
  secondsField : SecondsField
  nanosecondsField : BitVec 32
deriving DecidableEq, Repr

/-- TIME_FRACBITS and TIME_INTERVAL_FRACBITS -/
def timeFracbits : Nat := 16

def timeFracmask : BitVec 64 := 0xffff

def timeRoundingValue : BitVec 64 := 0x8000

/-! ### The functions -/

/-- `time >> TIME_FRACBITS` -/
def wholeNanos (time : BitVec 64) : BitVec 64 := time.sshiftRight timeFracbits

/-- `((time & TIME_FRACMASK) * 1000 + TIME_ROUNDING_VALUE) >> TIME_FRACBITS` -/
def roundedPicos (time : BitVec 64) : BitVec 64 :=
  ((time &&& timeFracmask) * 1000 + timeRoundingValue).sshiftRight timeFracbits

def timeIntervalToString (time : BitVec 64) : List Char :=
  let (sign, time) : BitVec 64 × BitVec 64 :=
    if time.slt 0 ∧ time ≠ BitVec.intMin 64 then (-1, -time) else (1, time)
  decimal (sign * wholeNanos time).toInt ++ '.' :: zeroPadded 3 (roundedPicos time).toInt

def incorrectText : List Char :=
  ['-', '-', 'I', 'n', 'c', 'o', 'r', 'r', 'e', 'c', 't', '-', '-']

/-- `is_incorrect` is a function of ppsi. -/
def timeToString (isIncorrect : PpTime → Bool) (time : PpTime) : List Char :=
  if !isIncorrect time then
    let (sign, secs, scaledNsecs) :=
      if time.scaledNsecs.slt 0 ∨ time.secs.slt 0 then ('-', -time.secs, -time.scaledNsecs)
      else ('+', time.secs, time.scaledNsecs)
    sign :: decimal secs.toInt ++ '.' :: (zeroPadded 9 (wholeNanos scaledNsecs).toInt ++
      zeroPadded 3 (roundedPicos scaledNsecs).toInt)
  else incorrectText

/-- The shift is by `sizeof` the field, 2 bytes, and not by the bits of `lsb`; the sum has 32
bits. -/
def timestampToString (time : Timestamp) : List Char :=
  let sec := ((time.secondsField.msb.zeroExtend 32 <<< 2) + time.secondsField.lsb).zeroExtend 64
  decimal sec.toNat ++ '.' :: (zeroPadded 9 time.nanosecondsField.toNat ++ ['0', '0', '0'])

/-! ### Numbers -/

private theorem wholeNanos_toInt (time : BitVec 64) :
    (wholeNanos time).toInt = time.toInt / 65536 := by
  rw [wholeNanos, BitVec.toInt_sshiftRight, Int.shiftRight_eq_div_pow]
  rfl

private theorem roundedPicos_toInt (time : BitVec 64) :
    (roundedPicos time).toInt = (time.toInt % 65536 * 1000 + 32768) / 65536 := by
  have frac : (time &&& timeFracmask).toNat = time.toNat % 65536 := by
    rw [BitVec.toNat_and]
    exact Nat.and_two_pow_sub_one_eq_mod time.toNat 16
  have scaled : ((time &&& timeFracmask) * 1000 + timeRoundingValue).toNat =
      time.toNat % 65536 * 1000 + 32768 := by
    rw [BitVec.toNat_add, BitVec.toNat_mul, frac]
    change (time.toNat % 65536 * 1000 % 2 ^ 64 + 32768) % 2 ^ 64 = _
    omega
  have same : (time.toNat % 65536 : Nat) = time.toInt % 65536 := by
    rw [BitVec.toInt_eq_toNat_cond]
    split <;> omega
  rw [roundedPicos, BitVec.toInt_sshiftRight, Int.shiftRight_eq_div_pow,
    BitVec.toInt_eq_toNat_of_lt (by omega), scaled]
  change ((time.toNat % 65536 * 1000 + 32768 : Nat) : Int) / 65536 = _
  rw [← same]
  push_cast
  rfl

/-- Negation wraps at the smallest number only. -/
theorem neg_toInt {x : BitVec 64} (inside : x.toInt ≠ -2 ^ 63) : (-x).toInt = -x.toInt := by
  have low := BitVec.le_toInt x
  have high := BitVec.toInt_lt (x := x)
  rw [BitVec.toInt_neg]
  exact Int.bmod_eq_of_le (by omega) (by omega)

private theorem slt_zero (x : BitVec 64) : x.slt 0 ↔ x.toInt < 0 := by
  rw [BitVec.slt_iff_toInt_lt]
  rfl

/-- The nanoseconds in a number of fractions, without what is left over. -/
def wholeTowardZero (n : Int) : Int := if n < 0 then -(-n / 65536) else n / 65536

/-- The nearest picosecond of a number of fractions, counted in the last nanosecond. -/
def nearestPicos (n : Nat) : Nat := (n % 65536 * 1000 + 32768) / 65536

/-- The rounding carries for the last 32 fractions. -/
theorem nearestPicos_lt_iff (n : Nat) : nearestPicos n < 1000 ↔ n % 65536 < 65504 := by
  unfold nearestPicos
  omega

/-! ### Intervals -/

private theorem timeIntervalToString_eq (time : BitVec 64) :
    timeIntervalToString time =
      decimal (wholeTowardZero time.toInt) ++ '.' :: zeroPadded 3 (nearestPicos time.toInt.natAbs) := by
  have low := BitVec.le_toInt time
  have high := BitVec.toInt_lt (x := time)
  -- the smallest time cannot be negated
  have smallest : time ≠ BitVec.intMin 64 ↔ time.toInt ≠ -2 ^ 63 := by
    rw [ne_eq, ← BitVec.toInt_inj]
    rfl
  unfold timeIntervalToString
  by_cases negated : time.slt 0 ∧ time ≠ BitVec.intMin 64
  · rw [if_pos negated]
    obtain ⟨negative, inside⟩ := negated
    rw [slt_zero] at negative
    rw [smallest] at inside
    have positive := neg_toInt inside
    have whole := wholeNanos_toInt (-time)
    have signed : (-1 * wholeNanos (-time)).toInt = wholeTowardZero time.toInt := by
      rw [BitVec.neg_mul, BitVec.ofNat_eq_ofNat, BitVec.one_mul, neg_toInt (by omega), whole,
        positive, wholeTowardZero, if_pos negative]
    have picos : (roundedPicos (-time)).toInt = nearestPicos time.toInt.natAbs := by
      rw [roundedPicos_toInt, positive, nearestPicos]
      omega
    dsimp only
    rw [signed, picos]
  · rw [if_neg negated]
    rw [slt_zero, smallest, not_and, not_not] at negated
    have whole : (1 * wholeNanos time).toInt = wholeTowardZero time.toInt := by
      rw [BitVec.ofNat_eq_ofNat, BitVec.one_mul, wholeNanos_toInt, wholeTowardZero]
      split <;> omega
    have picos : (roundedPicos time).toInt = nearestPicos time.toInt.natAbs := by
      rw [roundedPicos_toInt, nearestPicos]
      omega
    dsimp only
    rw [whole, picos]

/-- An interval that is printed right: it is not between -1 and 0, and its picoseconds do not round
up to a nanosecond. -/
def IntervalPrintable (time : BitVec 64) : Prop :=
  ¬(-65536 < time.toInt ∧ time.toInt < 0) ∧ time.toInt.natAbs % 65536 < 65504

private theorem timeIntervalToString_nearest_iff (time : BitVec 64) :
    ShowsNearest [] 3 65536 time.toInt (timeIntervalToString time) ↔ IntervalPrintable time := by
  rw [timeIntervalToString_eq]
  constructor
  · rintro ⟨p, -, same⟩
    obtain ⟨whole, frac⟩ := fixedText_eq (by split <;> decide)
      (not_mem_decimal (by decide) (by decide) _) same
    -- a negative time above -1 ns loses its sign; a carry would need a fourth digit
    constructor
    · rintro ⟨above, negative⟩
      have zero : wholeTowardZero time.toInt = 0 := by
        rw [wholeTowardZero, if_pos negative]
        omega
      rw [zero, if_pos negative] at whole
      exact absurd (List.cons.inj whole).1 (by decide)
    · rw [← nearestPicos_lt_iff]
      have tight : (zeroPadded 3 (nearestPicos time.toInt.natAbs)).length ≤ 3 := by
        rw [frac, lastDigits_length]
      have unsigned : '-' ∉ zeroPadded 3 (nearestPicos time.toInt.natAbs) := by
        rw [frac]
        exact fun member => absurd (isDigit_of_mem_lastDigits member) (by decide)
      have := fits_of_zeroPadded (by decide) tight unsigned
      omega
  · rintro ⟨signed, carry⟩
    have small := (nearestPicos_lt_iff _).mpr carry
    refine ⟨time.toInt.natAbs / 65536 * 10 ^ 3 + nearestPicos time.toInt.natAbs, ?_, ?_⟩
    · unfold nearestPicos
      push_cast
      simp only [Int.abs_eq_natAbs]
      omega
    · rw [fixedText_of_parts _ rfl small, zeroPadded_of_fits (by decide) small]
      have whole : decimal (wholeTowardZero time.toInt) =
          (if time.toInt < 0 then ['-'] else []) ++ Nat.toDigits 10 (time.toInt.natAbs / 65536) := by
        unfold wholeTowardZero decimal
        by_cases negative : time.toInt < 0
        · have count : (-(-time.toInt / 65536)).natAbs = time.toInt.natAbs / 65536 := by omega
          rw [if_pos negative, if_pos negative, if_pos (by omega), count]
          rfl
        · have count : (time.toInt / 65536).natAbs = time.toInt.natAbs / 65536 := by omega
          rw [if_neg negative, if_neg negative, if_neg (by omega), count]
          rfl
      rw [whole]

/-! ### Times -/

/-- What is printed after the sign is chosen. -/
def signedTime (sign : Char) (secs scaledNsecs : BitVec 64) : List Char :=
  sign :: decimal secs.toInt ++ '.' :: (zeroPadded 9 (wholeNanos scaledNsecs).toInt ++
    zeroPadded 3 (roundedPicos scaledNsecs).toInt)

private theorem timeToString_eq (isIncorrect : PpTime → Bool) (time : PpTime) :
    timeToString isIncorrect time =
      if isIncorrect time then incorrectText
      else if time.scaledNsecs.toInt < 0 ∨ time.secs.toInt < 0 then
        signedTime '-' (-time.secs) (-time.scaledNsecs)
      else signedTime '+' time.secs time.scaledNsecs := by
  unfold timeToString
  simp only [slt_zero]
  cases isIncorrect time with
  | true => rfl
  | false => by_cases negative : time.scaledNsecs.toInt < 0 ∨ time.secs.toInt < 0 <;>
      simp only [negative, if_true, if_false] <;> rfl

/-- Neither part is negative, the nanoseconds are less than a second, and the picoseconds do not
round up to a nanosecond. -/
def InFields (secs scaledNsecs : Int) : Prop :=
  0 ≤ secs ∧ 0 ≤ scaledNsecs ∧ scaledNsecs < 10 ^ 9 * 65536 ∧ scaledNsecs % 65536 < 65504

private theorem signedTime_eq (sign : Char) {secs scaledNsecs : BitVec 64}
    (fields : InFields secs.toInt scaledNsecs.toInt) :
    signedTime sign secs scaledNsecs = fixedText [sign] 12
      (secs.toInt.natAbs * 10 ^ 12 + (scaledNsecs.toInt.natAbs / 65536 * 10 ^ 3 +
        nearestPicos scaledNsecs.toInt.natAbs)) := by
  obtain ⟨natural, natural', small, carry⟩ := fields
  -- within the fields the rounding does not carry into the nanoseconds
  have picos_small : nearestPicos scaledNsecs.toInt.natAbs < 10 ^ 3 := by
    have := nearestPicos_lt_iff scaledNsecs.toInt.natAbs
    omega
  have nanos_small : scaledNsecs.toInt.natAbs / 65536 < 10 ^ 9 := by omega
  have whole : (wholeNanos scaledNsecs).toInt = (scaledNsecs.toInt.natAbs / 65536 : Nat) := by
    rw [wholeNanos_toInt]
    omega
  have picos : (roundedPicos scaledNsecs).toInt = nearestPicos scaledNsecs.toInt.natAbs := by
    rw [roundedPicos_toInt, nearestPicos, ← Int.natAbs_of_nonneg natural']
    omega
  rw [fixedText_of_parts _ rfl (by omega), signedTime, whole, picos,
    zeroPadded_of_fits (by decide) nanos_small, zeroPadded_of_fits (by decide) picos_small,
    ← lastDigits_append 9 3 _ picos_small, decimal, if_neg (by omega)]
  rfl

private theorem inFields_of_signedTime {sign sign' : Char} {secs scaledNsecs : BitVec 64} {p : Nat}
    (plain : sign ≠ '.') (plain' : sign' ≠ '.')
    (same : signedTime sign secs scaledNsecs = fixedText [sign'] 12 p) :
    InFields secs.toInt scaledNsecs.toInt := by
  have clean : '.' ∉ sign :: decimal secs.toInt := by
    rw [List.mem_cons, not_or]
    exact ⟨Ne.symm plain, not_mem_decimal (by decide) (by decide) _⟩
  obtain ⟨whole, frac⟩ := fixedText_eq (by rw [List.mem_singleton]; exact Ne.symm plain') clean same
  have digits : ∀ c ∈ zeroPadded 9 (wholeNanos scaledNsecs).toInt ++
      zeroPadded 3 (roundedPicos scaledNsecs).toInt, c.isDigit := by
    rw [frac]
    exact fun c => isDigit_of_mem_lastDigits
  have unsigned : '-' ∉ zeroPadded 9 (wholeNanos scaledNsecs).toInt ++
      zeroPadded 3 (roundedPicos scaledNsecs).toInt :=
    fun member => absurd (digits _ member) (by decide)
  rw [List.mem_append, not_or] at unsigned
  -- three and nine digits are left only when neither part is wider
  have length := congrArg List.length frac
  rw [List.length_append, lastDigits_length] at length
  have long := zeroPadded_length_le 9 (by decide) (wholeNanos scaledNsecs).toInt
  have long' := zeroPadded_length_le 3 (by decide) (roundedPicos scaledNsecs).toInt
  have nanos := fits_of_zeroPadded (by decide) (by omega) unsigned.1
  have picos := fits_of_zeroPadded (by decide) (by omega) unsigned.2
  rw [wholeNanos_toInt] at nanos
  rw [roundedPicos_toInt] at picos
  have natural : 0 ≤ secs.toInt := by
    by_contra negative
    have head := (List.cons.inj whole).2
    rw [decimal, if_pos (by omega)] at head
    exact not_mem_toDigits (by decide) _ (head ▸ List.mem_cons_self : '-' ∈ _)
  exact ⟨natural, by omega, by omega, by omega⟩

/-- In units of 2^-16 ns. -/
def PpTime.value (time : PpTime) : Int :=
  time.secs.toInt * (10 ^ 9 * 65536) + time.scaledNsecs.toInt

/-- A time that is printed right: it is not marked as incorrect, its parts are of one sign and
can be negated, the nanoseconds are less than a second, and the picoseconds do not round up to a
nanosecond. -/
def TimePrintable (isIncorrect : PpTime → Bool) (time : PpTime) : Prop :=
  isIncorrect time = false ∧
    (0 ≤ time.secs.toInt ∧ 0 ≤ time.scaledNsecs.toInt ∨
      time.secs.toInt ≤ 0 ∧ time.scaledNsecs.toInt ≤ 0) ∧
    time.secs.toInt ≠ -2 ^ 63 ∧ time.scaledNsecs.toInt.natAbs < 10 ^ 9 * 65536 ∧
    time.scaledNsecs.toInt.natAbs % 65536 < 65504

private theorem neg_toInt_of_natural {x : BitVec 64} (natural : 0 ≤ (-x).toInt) :
    x.toInt ≠ -2 ^ 63 ∧ (-x).toInt = -x.toInt := by
  have inside : x.toInt ≠ -2 ^ 63 := by
    intro smallest
    rw [BitVec.toInt_neg, smallest] at natural
    exact absurd natural (by decide)
  exact ⟨inside, neg_toInt inside⟩

/-- Seconds and picoseconds together are as near as the picoseconds. -/
theorem picos_nearest {value : Int} (secs scaledNsecs : Nat)
    (size : |value| = secs * (10 ^ 9 * 65536) + scaledNsecs) :
    2 * |((secs * 10 ^ 12 + (scaledNsecs / 65536 * 10 ^ 3 + nearestPicos scaledNsecs) : Nat) : Int) *
      ((10 ^ 9 * 65536 : Nat) : Int) - |value| * 10 ^ 12| ≤ ((10 ^ 9 * 65536 : Nat) : Int) := by
  rw [size]
  unfold nearestPicos
  push_cast
  rw [Int.abs_eq_natAbs]
  omega

private theorem timeToString_nearest_iff (isIncorrect : PpTime → Bool) (time : PpTime) :
    ShowsNearest ['+'] 12 (10 ^ 9 * 65536) time.value (timeToString isIncorrect time) ↔
      TimePrintable isIncorrect time := by
  rw [timeToString_eq]
  cases incorrect : isIncorrect time with
  | true =>
    refine iff_of_false ?_ fun printable => absurd (incorrect.symm.trans printable.1) (by decide)
    -- the text for an incorrect time has no point
    rintro ⟨p, -, same⟩
    have point : '.' ∈ incorrectText := by
      rw [if_pos rfl] at same
      rw [same, fixedText, List.mem_append]
      exact Or.inr List.mem_cons_self
    exact absurd point (by decide)
  | false =>
    rw [if_neg (by decide)]
    have sign_plain : ∃ sign, sign ≠ '.' ∧
        (if time.value < 0 then ['-'] else ['+']) = [sign] := by
      split
      next => exact ⟨'-', by decide, rfl⟩
      next => exact ⟨'+', by decide, rfl⟩
    -- a time is negated as a whole before it is shown
    by_cases negative : time.scaledNsecs.toInt < 0 ∨ time.secs.toInt < 0
    · rw [if_pos negative]
      constructor
      · rintro ⟨p, -, same⟩
        obtain ⟨sign, plain, signed⟩ := sign_plain
        rw [signed] at same
        obtain ⟨natural, natural', small, carry⟩ := inFields_of_signedTime (by decide) plain same
        obtain ⟨inside, secs⟩ := neg_toInt_of_natural natural
        obtain ⟨-, nanos⟩ := neg_toInt_of_natural natural'
        exact ⟨incorrect, Or.inr (by omega), inside, by omega, by omega⟩
      · rintro ⟨-, signs, inside, small, carry⟩
        have secs := neg_toInt inside
        have nanos := neg_toInt (x := time.scaledNsecs) (by omega)
        have below : time.value < 0 := by
          unfold PpTime.value
          omega
        have fields : InFields (-time.secs).toInt (-time.scaledNsecs).toInt :=
          ⟨by omega, by omega, by omega, by omega⟩
        refine ⟨_, ?_, by rw [if_pos below]; exact signedTime_eq '-' fields⟩
        apply picos_nearest
        rw [Int.abs_eq_natAbs, PpTime.value]
        omega
    · rw [if_neg negative]
      constructor
      · rintro ⟨p, -, same⟩
        obtain ⟨sign, plain, signed⟩ := sign_plain
        rw [signed] at same
        obtain ⟨natural, natural', small, carry⟩ := inFields_of_signedTime (by decide) plain same
        exact ⟨incorrect, Or.inl ⟨natural, natural'⟩, by omega, by omega, by omega⟩
      · rintro ⟨-, signs, inside, small, carry⟩
        have above : ¬time.value < 0 := by
          unfold PpTime.value
          omega
        have fields : InFields time.secs.toInt time.scaledNsecs.toInt :=
          ⟨by omega, by omega, by omega, by omega⟩
        refine ⟨_, ?_, by rw [if_neg above]; exact signedTime_eq '+' fields⟩
        apply picos_nearest
        rw [Int.abs_eq_natAbs, PpTime.value]
        omega

/-! ### Timestamps -/

def SecondsField.value (s : SecondsField) : Nat := s.msb.toNat * 2 ^ 32 + s.lsb.toNat

/-- In nanoseconds. -/
def Timestamp.value (time : Timestamp) : Nat :=
  time.secondsField.value * 10 ^ 9 + time.nanosecondsField.toNat

/-- A timestamp that is printed right: its seconds have 32 bits, and its nanoseconds are less than
a second. -/
def TimestampPrintable (time : Timestamp) : Prop :=
  time.secondsField.msb = 0 ∧ time.nanosecondsField.toNat < 10 ^ 9

/-- The seconds that are printed. -/
theorem timestampToString_eq (time : Timestamp) :
    timestampToString time = Nat.toDigits 10
        ((time.secondsField.msb.toNat * 4 + time.secondsField.lsb.toNat) % 2 ^ 32) ++
      '.' :: (zeroPadded 9 time.nanosecondsField.toNat ++ ['0', '0', '0']) := by
  have small := time.secondsField.msb.isLt
  have sec : (((time.secondsField.msb.zeroExtend 32 <<< 2) +
      time.secondsField.lsb).zeroExtend 64).toNat =
      (time.secondsField.msb.toNat * 4 + time.secondsField.lsb.toNat) % 2 ^ 32 := by
    rw [BitVec.toNat_setWidth, BitVec.toNat_add, BitVec.toNat_shiftLeft, BitVec.toNat_setWidth,
      Nat.shiftLeft_eq]
    omega
  rw [timestampToString, sec, decimal, if_neg (by omega)]
  rfl

private theorem upper_seconds_lost {msb lsb : Nat}
    (same : (msb * 4 + lsb) % 2 ^ 32 = msb * 2 ^ 32 + lsb) : msb = 0 := by
  have bound : msb * 2 ^ 32 + lsb < 2 ^ 32 := same ▸ Nat.mod_lt _ (Nat.two_pow_pos 32)
  clear same
  omega

private theorem timestampToString_nearest_iff (time : Timestamp) :
    ShowsNearest [] 12 (10 ^ 9) time.value (timestampToString time) ↔ TimestampPrintable time := by
  have sign : (if (time.value : Int) < 0 then ['-'] else []) = ([] : List Char) :=
    if_neg (by omega)
  have low := time.secondsField.lsb.isLt
  rw [timestampToString_eq, ShowsNearest, sign]
  constructor
  · rintro ⟨p, near, same⟩
    obtain ⟨whole, frac⟩ := fixedText_eq List.not_mem_nil (not_mem_toDigits (by decide) _) same
    have length := congrArg List.length frac
    rw [List.length_append, lastDigits_length] at length
    have unsigned : '-' ∉ zeroPadded 9 time.nanosecondsField.toNat := by
      intro member
      have digit := isDigit_of_mem_lastDigits (frac ▸ List.mem_append_left _ member)
      exact absurd digit (by decide)
    have nanos := fits_of_zeroPadded (by decide) (Nat.le_of_add_le_add_right (b := 3)
      (Nat.le_of_eq length)) unsigned
    -- only the lower 32 bits of the seconds are shown
    have seconds := congrArg (Nat.ofDigitChars 10 · 0) whole
    simp only [List.nil_append, Nat.ofDigitChars_ten_toDigits] at seconds
    have exact_value : p = time.value * 1000 := by
      rw [Int.abs_eq_natAbs, Int.abs_eq_natAbs] at near
      omega
    have small : time.nanosecondsField.toNat < 10 ^ 9 := by omega
    have parts : time.value * 1000 / 10 ^ 12 = time.secondsField.value := by
      rw [Timestamp.value]
      omega
    rw [exact_value, parts, SecondsField.value] at seconds
    have zero := upper_seconds_lost seconds
    exact ⟨BitVec.eq_of_toNat_eq zero, small⟩
  · rintro ⟨high, nanos⟩
    have zero : time.secondsField.msb.toNat = 0 := by rw [high]; rfl
    refine ⟨time.value * 1000, ?_, ?_⟩
    · rw [Int.abs_eq_natAbs, Int.abs_eq_natAbs]
      omega
    · have parts : time.value * 1000 =
          time.secondsField.lsb.toNat * 10 ^ 12 + (time.nanosecondsField.toNat * 10 ^ 3 + 0) := by
        rw [Timestamp.value, SecondsField.value]
        omega
      have sec : (time.secondsField.msb.toNat * 4 + time.secondsField.lsb.toNat) % 2 ^ 32 =
          time.secondsField.lsb.toNat := by omega
      rw [fixedText_of_parts _ parts (by omega), sec, zeroPadded_of_fits (by decide) nanos,
        lastDigits_append 9 3 _ (by decide)]
      rfl

/-- Each of the three texts shows its value to the nearest picosecond exactly if the value is one
that the function prints right. -/
theorem times_nearest_iff (isIncorrect : PpTime → Bool) (interval : BitVec 64) (time : PpTime)
    (stamp : Timestamp) :
    (ShowsNearest [] 3 65536 interval.toInt (timeIntervalToString interval) ↔
      IntervalPrintable interval) ∧
    (ShowsNearest ['+'] 12 (10 ^ 9 * 65536) time.value (timeToString isIncorrect time) ↔
      TimePrintable isIncorrect time) ∧
    (ShowsNearest [] 12 (10 ^ 9) stamp.value (timestampToString stamp) ↔
      TimestampPrintable stamp) :=
  ⟨timeIntervalToString_nearest_iff interval, timeToString_nearest_iff isIncorrect time,
    timestampToString_nearest_iff stamp⟩

/-- Half a nanosecond before zero loses its sign, the last fraction before a nanosecond gets four
digits, and the first second that needs 33 bits is printed as 4. -/
theorem times_not_nearest :
    (timeIntervalToString (-32768) = ['0', '.', '5', '0', '0'] ∧
      ¬ShowsNearest [] 3 65536 (-32768) (timeIntervalToString (-32768))) ∧
    (timeIntervalToString 65535 = ['0', '.', '1', '0', '0', '0'] ∧
      ¬ShowsNearest [] 3 65536 65535 (timeIntervalToString 65535)) ∧
    ((timestampToString ⟨⟨1, 0⟩, 0⟩).head? = some '4' ∧
      ¬ShowsNearest [] 12 (10 ^ 9) (2 ^ 32 * 10 ^ 9) (timestampToString ⟨⟨1, 0⟩, 0⟩)) := by
  refine ⟨⟨by decide, fun shown => ?_⟩, ⟨by decide, fun shown => ?_⟩, by decide, fun shown => ?_⟩
  · have := (timeIntervalToString_nearest_iff (-32768)).mp shown
    exact this.1 (by decide)
  · have := (timeIntervalToString_nearest_iff 65535).mp shown
    exact absurd this.2 (by decide)
  · have := (timestampToString_nearest_iff ⟨⟨1, 0⟩, 0⟩).mp shown
    exact absurd this.1 (by decide)

end WrSwitch.Tools
