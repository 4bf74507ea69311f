import Mathlib.Algebra.Order.Group.Unbundled.Int
import Mathlib.Tactic.Positivity
import Mathlib.Tactic.Ring
import WrSwitch.Machine.Text

/-!
# Fixed-point numbers as text

Numbers printed with a fixed number of digits, and what it means that such a text shows the
nearest value.
-/
namespace WrSwitch.Machine

/-! ### Digits -/

/-- The last `k` digits, zeros included. -/
def lastDigits : Nat → Nat → List Char
  | 0, _ => []
  | k + 1, n => lastDigits k (n / 10) ++ [Nat.digitChar (n % 10)]

@[simp]
theorem lastDigits_length (k n : Nat) : (lastDigits k n).length = k := by
  induction k generalizing n with
  | zero => rfl
  | succ k ih => rw [lastDigits, List.length_append, ih, List.length_singleton]

private theorem lastDigits_zero (k : Nat) : lastDigits k 0 = List.replicate k '0' := by
  induction k with
  | zero => rfl
  | succ k ih =>
    rw [lastDigits, Nat.zero_div, ih, List.replicate_succ']
    rfl

theorem isDigit_of_mem_lastDigits {k n : Nat} {c : Char} (member : c ∈ lastDigits k n) :
    c.isDigit := by
  induction k generalizing n with
  | zero => cases member
  | succ k ih =>
    rw [lastDigits, List.mem_append, List.mem_singleton] at member
    rcases member with front | rfl
    · exact ih front
    · have small : n % 10 < 10 := Nat.mod_lt n (by decide)
      exact Nat.isDigit_of_mem_toDigits (b := 10) (n := n % 10) (by decide) (by decide)
        (Nat.toDigits_of_lt_base small ▸ List.mem_singleton_self _)

/-- The digits of a number in two parts. -/
theorem lastDigits_append (a b x : Nat) {y : Nat} (small : y < 10 ^ b) :
    lastDigits (a + b) (x * 10 ^ b + y) = lastDigits a x ++ lastDigits b y := by
  induction b generalizing y with
  | zero =>
    have : y = 0 := by omega
    rw [this, Nat.pow_zero, Nat.mul_one, Nat.add_zero, Nat.add_zero, lastDigits, List.append_nil]
  | succ b ih =>
    have front : (x * 10 ^ (b + 1) + y) / 10 = x * 10 ^ b + y / 10 := by
      rw [Nat.pow_succ, ← Nat.mul_assoc]
      omega
    have last : (x * 10 ^ (b + 1) + y) % 10 = y % 10 := by
      rw [Nat.pow_succ, ← Nat.mul_assoc]
      omega
    have small' : y / 10 < 10 ^ b := by
      rw [Nat.pow_succ] at small
      omega
    rw [← Nat.add_assoc, lastDigits, front, last, ih small', List.append_assoc]
    rfl

/-- The digits of a number that fits, padded with zeros. -/
theorem leftpad_toDigits {k n : Nat} (positive : 0 < k) (fits : n < 10 ^ k) :
    (Nat.toDigits 10 n).leftpad k '0' = lastDigits k n := by
  induction k generalizing n with
  | zero => cases positive
  | succ k ih =>
    by_cases short : n < 10
    · have : n / 10 = 0 := by omega
      rw [Nat.toDigits_of_lt_base short, lastDigits, this, lastDigits_zero,
        Nat.mod_eq_of_lt short]
      rfl
    · -- a number of two digits needs two places
      have positive' : 0 < k := by
        rcases Nat.eq_zero_or_pos k with rfl | positive'
        · omega
        · exact positive'
      have fits' : n / 10 < 10 ^ k := by
        rw [Nat.pow_succ] at fits
        omega
      rw [Nat.toDigits_of_base_le (by decide) (by omega), lastDigits, ← ih positive' fits']
      simp only [List.leftpad, List.length_append, List.length_singleton, Nat.add_sub_add_right,
        List.append_assoc]

/-- A number that does not fit has more digits. -/
theorem lt_length_toDigits {k n : Nat} (positive : 0 < k) (large : 10 ^ k ≤ n) :
    k < (Nat.toDigits 10 n).length := by
  by_contra short
  have := (Nat.length_toDigits_le_iff (n := n) (b := 10) (by decide) positive).mp (by omega)
  omega

/-- The format `%0kd`. -/
def zeroPadded (width : Nat) (n : Int) : List Char :=
  if n < 0 then '-' :: (Nat.toDigits 10 n.natAbs).leftpad (width - 1) '0'
  else (Nat.toDigits 10 n.natAbs).leftpad width '0'

/-- A number that fits is padded to the width. -/
theorem zeroPadded_of_fits {k n : Nat} (positive : 0 < k) (fits : n < 10 ^ k) :
    zeroPadded k n = lastDigits k n := by
  rw [zeroPadded, if_neg (by omega), Int.natAbs_natCast, leftpad_toDigits positive fits]

/-- No number is shorter than the width. -/
theorem zeroPadded_length_le (width : Nat) (positive : 0 < width) (n : Int) :
    width ≤ (zeroPadded width n).length := by
  rw [zeroPadded]
  split
  · rw [List.length_cons, List.length_leftpad]
    omega
  · rw [List.length_leftpad]
    omega

/-- Only a number that fits takes just the width and has no sign. -/
theorem fits_of_zeroPadded {k : Nat} {n : Int} (positive : 0 < k)
    (tight : (zeroPadded k n).length ≤ k) (unsigned : '-' ∉ zeroPadded k n) :
    0 ≤ n ∧ n < 10 ^ k := by
  rw [zeroPadded] at tight unsigned
  split at tight
  next negative =>
    rw [if_pos negative] at unsigned
    exact (unsigned List.mem_cons_self).elim
  next natural =>
    have fits : n.natAbs < 10 ^ k := by
      by_contra large
      have := lt_length_toDigits positive (Nat.le_of_not_lt large)
      rw [List.length_leftpad] at tight
      omega
    have : ((10 ^ k : Nat) : Int) = 10 ^ k := by push_cast; rfl
    omega

/-! ### Texts with a point -/

private theorem point_unique {whole frac whole' frac' : List Char} (clean : '.' ∉ whole)
    (clean' : '.' ∉ whole') (same : whole ++ '.' :: frac = whole' ++ '.' :: frac') :
    whole = whole' ∧ frac = frac' := by
  induction whole generalizing whole' with
  | nil =>
    cases whole' with
    | nil => exact ⟨rfl, (List.cons.inj same).2⟩
    | cons c whole' => exact (clean' ((List.cons.inj same).1 ▸ List.mem_cons_self)).elim
  | cons c whole ih =>
    rw [List.mem_cons, not_or] at clean
    cases whole' with
    | nil => exact (clean.1 (List.cons.inj same).1.symm).elim
    | cons c' whole' =>
      rw [List.mem_cons, not_or] at clean'
      obtain ⟨rfl, rest⟩ := List.cons.inj same
      obtain ⟨rfl, fracs⟩ := ih clean.2 clean'.2 rest
      exact ⟨rfl, fracs⟩

theorem not_mem_toDigits {c : Char} (other : c.isDigit = false) (n : Nat) :
    c ∉ Nat.toDigits 10 n := by
  intro member
  rw [Nat.isDigit_of_mem_toDigits (by decide) (by decide) member] at other
  cases other

/-- A decimal has digits and a minus in it, nothing else. -/
theorem not_mem_decimal {c : Char} (other : c.isDigit = false) (unsigned : c ≠ '-') (n : Int) :
    c ∉ decimal n := by
  intro member
  rcases decimal_chars n c member with sign | digit
  · exact unsigned sign
  · rw [digit] at other
    cases other

/-- `p` in units of the last of `k` decimals. -/
def fixedText (sign : List Char) (k p : Nat) : List Char :=
  sign ++ Nat.toDigits 10 (p / 10 ^ k) ++ '.' :: lastDigits k (p % 10 ^ k)

/-- The text shows `num / den` to the nearest of `k` decimals, a negative value with its sign and
others with the sign `plus`. -/
def ShowsNearest (plus : List Char) (k den : Nat) (num : Int) (text : List Char) : Prop :=
  ∃ p : Nat, 2 * |(p : Int) * den - |num| * 10 ^ k| ≤ den ∧
    text = fixedText (if num < 0 then ['-'] else plus) k p

/-- A text with a point is read in one way. -/
theorem fixedText_eq {sign whole frac : List Char} {k p : Nat} (clean : '.' ∉ sign)
    (clean' : '.' ∉ whole) (same : whole ++ '.' :: frac = fixedText sign k p) :
    whole = sign ++ Nat.toDigits 10 (p / 10 ^ k) ∧ frac = lastDigits k (p % 10 ^ k) := by
  refine point_unique clean' ?_ same
  rw [List.mem_append, not_or]
  exact ⟨clean, not_mem_toDigits (by decide) _⟩

/-- The text of a number with a fixed count of decimals. -/
theorem fixedText_of_parts (sign : List Char) {k p n frac : Nat} (parts : p = n * 10 ^ k + frac)
    (small : frac < 10 ^ k) :
    fixedText sign k p = sign ++ Nat.toDigits 10 n ++ '.' :: lastDigits k frac := by
  have whole : p / 10 ^ k = n := by
    rw [parts, Nat.mul_comm, Nat.mul_add_div (by positivity), Nat.div_eq_of_lt small, Nat.add_zero]
  have rest : p % 10 ^ k = frac := by
    rw [parts, Nat.mul_comm, Nat.mul_add_mod, Nat.mod_eq_of_lt small]
  rw [fixedText, whole, rest]

end WrSwitch.Machine
