import Mathlib.Algebra.Group.Nat.Defs
import Mathlib.Data.List.TakeWhile
import Mathlib.Tactic.SplitIfs

/-!
# Text files

Lines as a buffer of limited size takes them, and decimal numbers.
-/
namespace WrSwitch.Machine

/-! ### Strings -/

/-- A string in memory ends at its first zero. -/
def cString (s : List Char) : List Char := s.takeWhile fun c => decide (c.toNat ≠ 0)

/-- The first character that stops, and what is in front of it. -/
theorem takeWhile_append_cons {p : Char → Bool} {front : List Char} {c : Char}
    (all : ∀ a ∈ front, p a = true) (stop : p c = false) (rest : List Char) :
    (front ++ c :: rest).takeWhile p = front ∧ (front ++ c :: rest).dropWhile p = c :: rest := by
  induction front with
  | nil => simp [stop]
  | cons a front ih =>
    obtain ⟨own, others⟩ := List.forall_mem_cons.mp all
    obtain ⟨taken, dropped⟩ := ih others
    simp only [List.cons_append, List.takeWhile_cons, List.dropWhile_cons, own, if_true, taken,
      dropped, and_self]

theorem forall_ne_of_not_mem {a : Char} {s : List Char} (plain : a ∉ s) :
    ∀ c ∈ s, decide (c ≠ a) = true := fun c member => by
  rw [decide_eq_true_eq]
  rintro rfl
  exact plain member

/-- A text is cut at the first place of a character. -/
theorem cut_at {a : Char} {front : List Char} (plain : a ∉ front) (rest : List Char) :
    (front ++ a :: rest).takeWhile (· ≠ a) = front ∧
      (front ++ a :: rest).dropWhile (· ≠ a) = a :: rest :=
  takeWhile_append_cons (forall_ne_of_not_mem plain) (by simp) rest

/-! ### Lines -/

/-- The characters through the next end of line, as far as there is room, and the rest. -/
def takeLine : Nat → List Char → List Char × List Char
  | 0, s => ([], s)
  | _ + 1, [] => ([], [])
  | room + 1, c :: s =>
    if c = '\n' then ([c], s) else (c :: (takeLine room s).1, (takeLine room s).2)

/-- Lines until the end of the file; the fuel is the length of the file. -/
def linesOf (room : Nat) : Nat → List Char → List (List Char)
  | 0, _ => []
  | _ + 1, [] => []
  | fuel + 1, s => (takeLine room s).1 :: linesOf room fuel (takeLine room s).2

def readLines (room : Nat) (s : List Char) : List (List Char) := linesOf room s.length s

private theorem takeLine_append (room : Nat) (s : List Char) :
    (takeLine room s).1 ++ (takeLine room s).2 = s := by
  induction room generalizing s with
  | zero => rfl
  | succ room ih =>
    cases s with
    | nil => rfl
    | cons c s =>
      rw [takeLine]
      split
      · rfl
      · exact congrArg (c :: ·) (ih s)

private theorem takeLine_length (room : Nat) (s : List Char) :
    (takeLine room s).1.length ≤ room := by
  induction room generalizing s with
  | zero => exact Nat.le_refl 0
  | succ room ih =>
    cases s with
    | nil => exact Nat.zero_le _
    | cons c s =>
      rw [takeLine]
      split
      · exact Nat.succ_le_succ (Nat.zero_le room)
      · exact Nat.succ_le_succ (ih s)

private theorem takeLine_rest {room : Nat} (positive : 0 < room) {s : List Char} (more : s ≠ []) :
    (takeLine room s).2.length < s.length := by
  have whole := congrArg List.length (takeLine_append room s)
  have taken : 0 < (takeLine room s).1.length := by
    obtain ⟨c, s, rfl⟩ := List.exists_cons_of_ne_nil more
    obtain ⟨room, rfl⟩ := Nat.exists_eq_succ_of_ne_zero (Nat.ne_of_gt positive)
    rw [takeLine]
    split <;> exact Nat.succ_pos _
  rw [List.length_append] at whole
  omega

private theorem linesOf_fuel {room : Nat} (positive : 0 < room) {fuel : Nat} {s : List Char}
    (enough : s.length ≤ fuel) : linesOf room fuel s = readLines room s := by
  suffices same : ∀ fuel more s, s.length ≤ fuel → linesOf room (fuel + more) s =
      linesOf room fuel s by
    obtain ⟨more, rfl⟩ := Nat.exists_eq_add_of_le enough
    exact same _ more s (Nat.le_refl _)
  intro fuel more s enough
  induction fuel generalizing s with
  | zero =>
    rw [List.eq_nil_of_length_eq_zero (Nat.le_zero.mp enough)]
    cases more <;> rfl
  | succ fuel ih =>
    cases s with
    | nil =>
      rw [Nat.succ_add]
      rfl
    | cons c s =>
      rw [Nat.succ_add, linesOf, linesOf, ih]
      have shorter := takeLine_rest positive (List.cons_ne_nil c s)
      omega
      all_goals simp

@[simp]
theorem readLines_nil (room : Nat) : readLines room [] = [] := rfl

private theorem readLines_cons {room : Nat} (positive : 0 < room) {s : List Char} (more : s ≠ []) :
    readLines room s = (takeLine room s).1 :: readLines room (takeLine room s).2 := by
  have shorter := takeLine_rest positive more
  obtain ⟨c, cs, rfl⟩ := List.exists_cons_of_ne_nil more
  rw [readLines, List.length_cons, linesOf, linesOf_fuel positive]
  · rw [List.length_cons] at shorter
    omega
  · simp

/-- No line is longer than the buffer. -/
theorem readLines_length_le (room : Nat) (s : List Char) :
    ∀ line ∈ readLines room s, line.length ≤ room := by
  suffices each : ∀ fuel s, ∀ line ∈ linesOf room fuel s, line.length ≤ room from each _ s
  intro fuel
  induction fuel with
  | zero => exact fun _ _ member => absurd member List.not_mem_nil
  | succ fuel ih =>
    intro s line member
    cases s with
    | nil => cases member
    | cons c s =>
      rw [linesOf] at member
      · obtain rfl | member := List.mem_cons.mp member
        · exact takeLine_length room _
        · exact ih _ line member
      · simp

private theorem takeLine_line {room : Nat} {text : List Char} (line : '\n' ∉ text)
    (fits : text.length < room) (rest : List Char) :
    takeLine room (text ++ '\n' :: rest) = (text ++ ['\n'], rest) := by
  induction text generalizing room with
  | nil =>
    obtain ⟨room, rfl⟩ := Nat.exists_eq_succ_of_ne_zero (Nat.ne_of_gt fits)
    rw [List.nil_append, takeLine, if_pos rfl]
    rfl
  | cons c text ih =>
    rw [List.mem_cons, not_or] at line
    obtain ⟨room, rfl⟩ := Nat.exists_eq_succ_of_ne_zero (Nat.ne_of_gt (Nat.zero_lt_of_lt fits))
    rw [List.cons_append, takeLine, if_neg (Ne.symm line.1), ih line.2 (Nat.lt_of_succ_lt_succ fits)]
    rfl

/-- A text that fills the room leaves its end of line behind. -/
theorem takeLine_full {text : List Char} (line : '\n' ∉ text) (rest : List Char) :
    takeLine text.length (text ++ rest) = (text, rest) := by
  induction text with
  | nil => rfl
  | cons c text ih =>
    rw [List.mem_cons, not_or] at line
    rw [List.cons_append, List.length_cons, takeLine, if_neg (Ne.symm line.1), ih line.2]

/-- Texts with an end of line behind each. -/
def unlines (texts : List (List Char)) : List Char := texts.flatMap (· ++ ['\n'])

private theorem readLines_unlines_cons {room : Nat} {text : List Char} (line : '\n' ∉ text)
    (fits : text.length < room) (rest : List Char) :
    readLines room (text ++ '\n' :: rest) = (text ++ ['\n']) :: readLines room rest := by
  rw [readLines_cons (Nat.zero_lt_of_lt fits) (by simp), takeLine_line line fits]

/-- Lines that fit come back as they are. -/
theorem readLines_unlines {room : Nat} {texts : List (List Char)}
    (each : ∀ text ∈ texts, '\n' ∉ text ∧ text.length < room) :
    readLines room (unlines texts) = texts.map (· ++ ['\n']) := by
  induction texts with
  | nil => rfl
  | cons text texts ih =>
    obtain ⟨own, others⟩ := List.forall_mem_cons.mp each
    rw [unlines, List.flatMap_cons, List.append_assoc, List.singleton_append,
      readLines_unlines_cons own.1 own.2, ← unlines, ih others]
    rfl

/-- A text that fills the room makes a line more. -/
theorem readLines_unlines_length {room : Nat} (positive : 0 < room) {texts : List (List Char)}
    (each : ∀ text ∈ texts, '\n' ∉ text ∧ text.length ≤ room) :
    texts.length ≤ (readLines room (unlines texts)).length ∧
      ((readLines room (unlines texts)).length = texts.length →
        ∀ text ∈ texts, text.length < room) := by
  induction texts with
  | nil => exact ⟨Nat.le_refl _, fun _ _ member => absurd member List.not_mem_nil⟩
  | cons text texts ih =>
    obtain ⟨own, others⟩ := List.forall_mem_cons.mp each
    obtain ⟨more, tight⟩ := ih others
    have shape : unlines (text :: texts) = text ++ '\n' :: unlines texts := by
      rw [unlines, List.flatMap_cons, List.append_assoc, List.singleton_append, ← unlines]
    rw [shape]
    -- a line that fills the buffer is read without its end, which makes one more line
    by_cases fits : text.length < room
    · rw [readLines_unlines_cons own.1 fits, List.length_cons, List.length_cons]
      refine ⟨Nat.succ_le_succ more, fun same => List.forall_mem_cons.mpr ⟨fits, tight ?_⟩⟩
      omega
    · have full : room = text.length := by omega
      subst full
      rw [readLines_cons positive (by simp), takeLine_full own.1,
        ← List.nil_append ('\n' :: unlines texts),
        readLines_unlines_cons List.not_mem_nil positive, List.length_cons, List.length_cons,
        List.length_cons]
      exact ⟨by omega, fun same => by omega⟩

/-! ### Decimal numbers -/

/-- `isspace` -/
def isWhite (c : Char) : Bool := c.toNat = 32 ∨ 9 ≤ c.toNat ∧ c.toNat ≤ 13

/-- The format `%d`. -/
def decimal (n : Int) : List Char :=
  if n < 0 then '-' :: Nat.toDigits 10 n.natAbs else Nat.toDigits 10 n.natAbs

def digitsValue (s : List Char) : Int := Nat.ofDigitChars 10 (s.takeWhile Char.isDigit) 0

/-- The number at the front of a text, as `strtol` with base 10 reads it. -/
def decimalValue (s : List Char) : Int :=
  match s.dropWhile isWhite with
  | '-' :: s => -digitsValue s
  | '+' :: s => digitsValue s
  | s => digitsValue s

/-- A decimal has digits and a minus. -/
theorem decimal_chars (n : Int) : ∀ c ∈ decimal n, c = '-' ∨ c.isDigit := by
  intro c member
  have digits : c ∈ Nat.toDigits 10 n.natAbs → c.isDigit :=
    Nat.isDigit_of_mem_toDigits (by decide) (by decide)
  rw [decimal] at member
  split at member
  · obtain rfl | member := List.mem_cons.mp member
    · exact .inl rfl
    · exact .inr (digits member)
  · exact .inr (digits member)

private theorem digitsValue_toDigits (n : Nat) : digitsValue (Nat.toDigits 10 n) = n := by
  have all : (Nat.toDigits 10 n).takeWhile Char.isDigit = Nat.toDigits 10 n := by
    refine List.takeWhile_eq_self_iff.mpr fun c member => ?_
    exact Nat.isDigit_of_mem_toDigits (by decide) (by decide) member
  rw [digitsValue, all, Nat.ofDigitChars_ten_toDigits]

theorem not_white_of_digit {c : Char} (digit : c.isDigit) : isWhite c = false := by
  simp only [Char.isDigit, Bool.and_eq_true, decide_eq_true_eq, UInt32.le_iff_toNat_le] at digit
  have low : 48 ≤ c.toNat := digit.1
  have high : c.toNat ≤ 57 := digit.2
  simp only [isWhite, decide_eq_false_iff_not]
  omega

/-- A number that is printed is read back. -/
theorem decimalValue_decimal (n : Int) : decimalValue (decimal n) = n := by
  rw [decimal]
  split
  next negative =>
    have white : isWhite '-' = false := by decide
    rw [decimalValue, List.dropWhile_cons, white]
    change -digitsValue (Nat.toDigits 10 n.natAbs) = n
    rw [digitsValue_toDigits]
    omega
  next positive =>
    -- the first character is a digit, hence no blank and no sign
    have value := digitsValue_toDigits n.natAbs
    obtain ⟨c, cs, shape⟩ := List.exists_cons_of_ne_nil (Nat.toDigits_ne_nil (n := n.natAbs) (b := 10))
    have digit : c.isDigit := Nat.isDigit_of_mem_toDigits (b := 10) (n := n.natAbs) (by decide)
      (by decide) (by rw [shape]; exact List.mem_cons_self)
    rw [shape] at value ⊢
    rw [decimalValue, List.dropWhile_cons, not_white_of_digit digit, if_neg Bool.false_ne_true]
    split
    next same =>
      cases same
      exact absurd digit (by decide)
    next same =>
      cases same
      exact absurd digit (by decide)
    next =>
      rw [value]
      omega

/-- The length of a number of limited size. -/
theorem decimal_length {n : Int} {k : Nat} (small : n.natAbs < 10 ^ (k + 1)) :
    (decimal n).length ≤ k + 2 := by
  have digits := (Nat.length_toDigits_le_iff (b := 10) (by decide) (Nat.succ_pos k)).mpr small
  rw [decimal]
  split
  · exact Nat.succ_le_succ digits
  · omega

end WrSwitch.Machine
