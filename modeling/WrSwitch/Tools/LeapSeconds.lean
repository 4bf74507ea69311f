import WrSwitch.Libwr.SfpDb
import WrSwitch.Machine.Text
import WrSwitch.Machine.Timeline

/-!
# Leap seconds

`getTaiOffsetFromLeapSecondsFile` of `tools/time_lib.c`, which looks up the offset of TAI in the
file of leap seconds, for now and for the next twelve hours.
-/
namespace WrSwitch.Tools

open Machine

/-! ### Lines -/

/-- `sscanf` with `%llu`, and the rest of the string. -/
def scanUInt64 (s : List Char) : Option (Nat × List Char) :=
  let body := s.dropWhile isSpace
  let (negative, body) := match body with
    | '-' :: cs => (true, cs)
    | '+' :: cs => (false, cs)
    | _ => (false, body)
  if digitValue (body.headD ' ') < 10 then
    let (n, endptr) := digits 10 body 0
    some (if n ≥ 2 ^ 64 then 2 ^ 64 - 1 else if negative then (2 ^ 64 - n) % 2 ^ 64 else n, endptr)
  else none

structure LeapEntry where
  leapNtpTime : Nat
  tai : Int
deriving DecidableEq, Repr

/-- `#@ %llu` -/
def scanExpiration : List Char → Option Nat
  | '#' :: '@' :: rest => (scanUInt64 rest).map Prod.fst
  | _ => none

/-- `%llu %i` -/
def scanLeapEntry (line : List Char) : Option LeapEntry :=
  match scanUInt64 line with
  | none => none
  | some (leapNtpTime, rest) => (Libwr.scanNumber rest).map fun found => ⟨leapNtpTime, found.1⟩

/-! ### The lookup -/

/-- `OFFSET_NTP_TIME_TO_UTC` -/
def offsetNtpTimeToUtc : Int := 2208988800
def twelveHours : Int := 60 * 60 * 12

/-- A number as `uint64_t`. -/
def toUInt64 (x : Int) : Int := x % 2 ^ 64

/-- The result and what the pointers lead to; `none` is a null pointer. -/
structure LeapLookup where
  taiOffset : Int
  nextTai : Option Int
  hasExpired : Option Int
deriving DecidableEq, Repr

/-- The scan of the file, line by line. -/
def scanLeapLines (ntpTime nextNtpTime : Int) : List (List Char) → LeapLookup → LeapLookup
  | [], out => out
  | line :: lines, out =>
    if line = ['#', ' '] then scanLeapLines ntpTime nextNtpTime lines out
    else
      match scanExpiration line with
      | some expirationDate =>
        scanLeapLines ntpTime nextNtpTime lines
          { out with hasExpired := out.hasExpired.map fun _ =>
              if ntpTime > expirationDate then 1 else 0 }
      | none =>
        match scanLeapEntry line with
        | none => scanLeapLines ntpTime nextNtpTime lines out
        | some e =>
          if e.leapNtpTime < ntpTime then
            scanLeapLines ntpTime nextNtpTime lines
              { out with taiOffset := e.tai, nextTai := out.nextTai.map fun _ => e.tai }
          else if e.leapNtpTime ≤ nextNtpTime then
            { out with nextTai := out.nextTai.map fun _ => e.tai }
          else out

/-- What `fgets` and `sscanf` see of the file, with a buffer of 128 characters. -/
def leapLines (file : List Char) : List (List Char) := (readLines 127 file).map cString

def defaultLeapSecondsFile : List Char := "/etc/leap-seconds.list".toList

def getTaiOffsetFromLeapSecondsFile (fopen : List Char → Option (List Char))
    (leapSecondsFile : Option (List Char)) (utc : Int) (nextTai hasExpired : Option Int) :
    LeapLookup :=
  let ntpTime := toUInt64 (utc + offsetNtpTimeToUtc)
  let nextNtpTime := toUInt64 (ntpTime + twelveHours)
  match fopen (leapSecondsFile.getD defaultLeapSecondsFile) with
  | none => ⟨-1, nextTai, hasExpired⟩
  -- before 1972 the offset is 9
  | some file => scanLeapLines ntpTime nextNtpTime (leapLines file) ⟨9, nextTai, hasExpired⟩

/-! ### The table -/

/-- The entries of the file, one a line. -/
def leapTable (file : List Char) : List LeapEntry := (leapLines file).filterMap scanLeapEntry

def LeapEntry.time (e : LeapEntry) : Int := e.leapNtpTime

/-- The offset in force at an instant in NTP time. -/
def offsetAt (table : List LeapEntry) (t : Int) : Int :=
  valueAt LeapEntry.time LeapEntry.tai 9 table t

/-! ### Written tables -/

private theorem scanLeapEntry_comment (line : List Char) : scanLeapEntry ('#' :: line) = none := by
  have no_space : isSpace '#' = false := by decide
  have no_digit : ¬digitValue '#' < 10 := by decide
  simp [scanLeapEntry, scanUInt64, no_space, no_digit]

private theorem scanExpiration_comment {line : List Char} {date : Nat}
    (expires : scanExpiration line = some date) : scanLeapEntry line = none := by
  unfold scanExpiration at expires
  split at expires
  · exact scanLeapEntry_comment _
  · cases expires

private theorem digitValue_of_isDigit {c : Char} (digit : c.isDigit = true) :
    digitValue c = c.toNat - '0'.toNat ∧ digitValue c < 10 := by
  simp only [Char.isDigit, Bool.and_eq_true, decide_eq_true_eq, UInt32.le_iff_toNat_le] at digit
  have low : 48 ≤ c.toNat := digit.1
  have high : c.toNat ≤ 57 := digit.2
  have zero : '0'.toNat = 48 := rfl
  rw [digitValue, if_pos ⟨low, high⟩, zero]
  omega

/-- Digits are read up to the first character that is none. -/
theorem digits_append {cs rest : List Char} (all : ∀ c ∈ cs, c.isDigit = true)
    (stop : 10 ≤ digitValue (rest.headD ' ')) (n : Nat) :
    digits 10 (cs ++ rest) n = (Nat.ofDigitChars 10 cs n, rest) := by
  induction cs generalizing n with
  | nil =>
    cases rest with
    | nil => rfl
    | cons c rest => exact if_neg (Nat.not_lt.mpr stop)
  | cons c cs ih =>
    obtain ⟨own, others⟩ := List.forall_mem_cons.mp all
    obtain ⟨value, small⟩ := digitValue_of_isDigit own
    rw [List.cons_append, digits, if_pos small, ih others, value, Nat.ofDigitChars,
      Nat.ofDigitChars, List.foldl_cons]

private theorem toDigits_all (n : Nat) :
    ∀ c ∈ Nat.toDigits 10 n, c.isDigit = true := fun _ member =>
  Nat.isDigit_of_mem_toDigits (by decide) (by decide) member

/-- A positive number is written without zeros in front. -/
theorem toDigits_cons {n : Nat} (positive : 0 < n) :
    ∃ c cs, Nat.toDigits 10 n = c :: cs ∧ c ≠ '0' := by
  induction n using Nat.strongRecOn with
  | ind n ih =>
    rw [Nat.toDigits_eq_if (by decide)]
    split_ifs with small
    · have nonzero : ∀ m < 10, 0 < m → Nat.digitChar m ≠ '0' := by decide
      exact ⟨n.digitChar, [], rfl, nonzero n small positive⟩
    · obtain ⟨c, cs, shape, lead⟩ := ih (n / 10) (by omega) (by omega)
      exact ⟨c, _, by rw [shape, List.cons_append], lead⟩

private theorem numberBase_of_lead {c : Char} (lead : c ≠ '0') (cs : List Char) :
    numberBase (c :: cs) = (10, c :: cs) := by
  unfold numberBase
  split
  next same => exact absurd (List.cons.inj same).1 lead
  next same => exact absurd (List.cons.inj same).1 lead
  next => rfl

private theorem not_space_of_digit {c : Char} (digit : c.isDigit = true) : isSpace c = false :=
  not_white_of_digit digit

private theorem scanUInt64_toDigits {n : Nat} (small : n < 2 ^ 64) {rest : List Char}
    (stop : 10 ≤ digitValue (rest.headD ' ')) :
    scanUInt64 (Nat.toDigits 10 n ++ rest) = some (n, rest) := by
  have read := digits_append (toDigits_all n) stop 0
  -- a number starts with a digit, so there is neither white space nor a sign to skip
  obtain ⟨c, cs, shape⟩ := List.exists_cons_of_ne_nil (Nat.toDigits_ne_nil (n := n) (b := 10))
  have digit : c.isDigit = true := toDigits_all n c (by rw [shape]; exact List.mem_cons_self)
  rw [Nat.ofDigitChars_ten_toDigits, shape, List.cons_append] at read
  rw [shape, List.cons_append, scanUInt64, List.dropWhile_cons, not_space_of_digit digit,
    if_neg Bool.false_ne_true]
  dsimp only
  split
  next same =>
    obtain ⟨rfl, -⟩ := List.cons.inj same
    exact absurd digit (by decide)
  next same =>
    obtain ⟨rfl, -⟩ := List.cons.inj same
    exact absurd digit (by decide)
  next =>
    rw [List.headD_cons, if_pos (digitValue_of_isDigit digit).2, read]
    simp only [ge_iff_le, if_neg (Nat.not_le.mpr small), Bool.false_eq_true, if_false]

private theorem strtol_toDigits {n : Nat} (positive : 0 < n) (small : n < 2 ^ 31) {rest : List Char}
    (stop : 10 ≤ digitValue (rest.headD ' ')) :
    strtol (' ' :: (Nat.toDigits 10 n ++ rest)) = ((n : Int), rest) := by
  have read := digits_append (toDigits_all n) stop 0
  obtain ⟨c, cs, shape, lead⟩ := toDigits_cons positive
  have digit : c.isDigit = true := toDigits_all n c (by rw [shape]; exact List.mem_cons_self)
  rw [Nat.ofDigitChars_ten_toDigits, shape, List.cons_append] at read
  have blank : isSpace ' ' = true := by decide
  rw [shape, List.cons_append, strtol, List.dropWhile_cons, blank, if_pos rfl,
    List.dropWhile_cons, not_space_of_digit digit, if_neg Bool.false_ne_true]
  dsimp only
  split
  next same =>
    obtain ⟨rfl, -⟩ := List.cons.inj same
    exact absurd digit (by decide)
  next same =>
    obtain ⟨rfl, -⟩ := List.cons.inj same
    exact absurd digit (by decide)
  next =>
    -- a leading zero would make it octal
    rw [numberBase_of_lead lead]
    simp only [List.headD_cons, if_pos (digitValue_of_isDigit digit).2, read, longMin, longMax,
      Bool.false_eq_true, if_false, Prod.mk.injEq, and_true]
    omega

/-- A line of the file: an entry with a remark, or a comment. -/
def leapLine : Option LeapEntry × List Char → List Char
  | (none, remark) => '#' :: remark
  | (some e, remark) =>
    Nat.toDigits 10 e.leapNtpTime ++ ' ' :: (Nat.toDigits 10 e.tai.toNat ++ remark)

/-- What an entry and a remark must be to stand on a line. -/
structure Writable (e : Option LeapEntry) (remark : List Char) : Prop where
  fits : (leapLine (e, remark)).length < 127
  plain : '\n' ∉ remark ∧ ∀ c ∈ remark, c.toNat ≠ 0
  entry : ∀ e' ∈ e, e'.leapNtpTime < 2 ^ 64 ∧ 0 < e'.tai ∧ e'.tai < 2 ^ 31 ∧
    10 ≤ digitValue (remark.headD ' ')

private theorem scanLeapEntry_leapLine {e : Option LeapEntry} {remark : List Char}
    (writable : Writable e remark) : scanLeapEntry (leapLine (e, remark) ++ ['\n']) = e := by
  cases e with
  | none => exact scanLeapEntry_comment _
  | some e =>
    obtain ⟨time, positive, small, stop⟩ := writable.entry e rfl
    have stop' : 10 ≤ digitValue ((remark ++ ['\n']).headD ' ') := by
      cases remark with
      | nil => decide
      | cons c remark => exact stop
    have number := strtol_toDigits (n := e.tai.toNat) (by omega) (by omega) stop'
    have shape : leapLine (some e, remark) ++ ['\n'] = Nat.toDigits 10 e.leapNtpTime ++
        ' ' :: (Nat.toDigits 10 e.tai.toNat ++ (remark ++ ['\n'])) := by
      simp [leapLine]
    -- the second number was read: something is gone from the line
    have used : remark ++ ['\n'] ≠ ' ' :: (Nat.toDigits 10 e.tai.toNat ++ (remark ++ ['\n'])) := by
      intro same
      have := congrArg List.length same
      simp only [List.length_cons, List.length_append] at this
      omega
    rw [shape, scanLeapEntry, scanUInt64_toDigits time (by
      rw [List.headD_cons]
      decide)]
    simp only [Libwr.scanNumber, number, if_neg used, Option.map_some]
    rw [Int.toNat_of_nonneg (by omega)]

/-- A written table is read as it is. -/
theorem leapTable_unlines {lines : List (Option LeapEntry × List Char)}
    (writable : ∀ line ∈ lines, Writable line.1 line.2) :
    leapTable (unlines (lines.map leapLine)) = lines.filterMap Prod.fst := by
  -- a line has no newline and no zero within itself
  have plain (line : Option LeapEntry × List Char) (member : line ∈ lines) :
      ∀ c ∈ leapLine line, c ≠ '\n' ∧ c.toNat ≠ 0 := by
    obtain ⟨e, remark⟩ := line
    have own := (writable _ member).plain
    have remarks (c : Char) (there : c ∈ remark) : c ≠ '\n' ∧ c.toNat ≠ 0 :=
      ⟨fun same => own.1 (same ▸ there), own.2 c there⟩
    have numerals (n : Nat) (c : Char) (there : c ∈ Nat.toDigits 10 n) :
        c ≠ '\n' ∧ c.toNat ≠ 0 := by
      have digit := toDigits_all n c there
      constructor
      · rintro rfl
        exact absurd digit (by decide)
      · intro zero
        have low := (digitValue_of_isDigit digit).2
        rw [digitValue, zero] at low
        exact absurd low (by decide)
    cases e with
    | none => exact List.forall_mem_cons.mpr ⟨by decide, remarks⟩
    | some e =>
      intro c there
      rcases List.mem_append.mp there with there | there
      · exact numerals _ c there
      · rcases List.mem_cons.mp there with rfl | there
        · decide
        · rcases List.mem_append.mp there with there | there
          · exact numerals _ c there
          · exact remarks c there
  -- so the file splits back into its lines
  have parts : readLines 127 (unlines (lines.map leapLine)) =
      (lines.map leapLine).map (· ++ ['\n']) := by
    refine readLines_unlines fun text member => ?_
    obtain ⟨line, there, rfl⟩ := List.mem_map.mp member
    exact ⟨fun stop => (plain line there _ stop).1 rfl, (writable line there).fits⟩
  rw [leapTable, leapLines, parts, List.map_map, List.map_map, List.filterMap_map]
  refine List.filterMap_congr fun line member => ?_
  have whole : cString (leapLine line ++ ['\n']) = leapLine line ++ ['\n'] := by
    refine List.takeWhile_eq_self_iff.mpr fun c there => ?_
    rcases List.mem_append.mp there with there | there
    · exact decide_eq_true (plain line member c there).2
    · rw [List.mem_singleton.mp there]
      decide
  rw [Function.comp_apply, Function.comp_apply, Function.comp_apply, whole]
  exact scanLeapEntry_leapLine (writable line member)

/-- No two entries within twelve hours. -/
def Spaced (table : List LeapEntry) : Prop :=
  table.Pairwise fun a b => a.time + twelveHours ≤ b.time

/-- The times of a table rise. -/
theorem Spaced.rising {table : List LeapEntry} (spaced : Spaced table) :
    table.Pairwise fun a b => a.time < b.time :=
  spaced.imp fun apart => by
    rw [twelveHours] at apart
    omega

private theorem LeapEntry.time_nonneg (e : LeapEntry) : 0 ≤ e.time := Int.natCast_nonneg _

private theorem offsetAt_append {front back : List LeapEntry} {t : Int}
    (past : ∀ e ∈ front, e.time ≤ t) (future : ∀ e ∈ back, t < e.time) :
    offsetAt (front ++ back) t = lastValue LeapEntry.tai 9 front :=
  valueAt_append past future 9

private theorem offsetAt_concat {front back : List LeapEntry} {e : LeapEntry} {t : Int}
    (past : ∀ f ∈ front, f.time ≤ t) (now : e.time ≤ t) (future : ∀ f ∈ back, t < f.time) :
    offsetAt (front ++ e :: back) t = e.tai := by
  rw [List.append_cons, offsetAt_append _ future, lastValue_concat]
  intro f member
  rcases List.mem_append.mp member with member | member
  · exact past f member
  · rw [List.mem_singleton.mp member]
    exact now

/-- In the first twelve hours there is at most one entry. -/
theorem offsetAt_eq_nine_iff {table : List LeapEntry} (spaced : Spaced table) {t : Int}
    (early : t < twelveHours) :
    offsetAt table t = 9 ↔ ∀ e ∈ table, e.time ≤ t → e.tai = 9 := by
  cases table with
  | nil => simp [offsetAt, valueAt]
  | cons e table =>
    -- the entries are twelve hours apart, so only the first can be reached this early
    have later (f : LeapEntry) (member : f ∈ table) : t < f.time := by
      have := (List.pairwise_cons.mp spaced).1 f member
      have := e.time_nonneg
      omega
    rw [List.forall_mem_cons]
    have none_later : ∀ f ∈ table, f.time ≤ t → f.tai = 9 := fun f member reached =>
      absurd reached (Int.not_le.mpr (later f member))
    by_cases reached : e.time ≤ t
    · rw [← List.nil_append (e :: table), offsetAt_concat (by simp) reached later]
      exact ⟨fun nine => ⟨fun _ => nine, none_later⟩, fun each => each.1 reached⟩
    · have all_later : ∀ f ∈ e :: table, t < f.time :=
        List.forall_mem_cons.mpr ⟨Int.not_le.mp reached, later⟩
      have start : offsetAt ([] ++ e :: table) t = 9 := offsetAt_append (by simp) all_later
      exact ⟨fun _ => ⟨fun now => absurd now reached, none_later⟩, fun _ => start⟩

/-! ### What the scan leaves -/

/-- The next offset, of the first entry that is left or else as it was. -/
def lookAhead (nextNtpTime v : Int) : List LeapEntry → Int
  | [] => v
  | e :: _ => if e.time ≤ nextNtpTime then e.tai else v

private theorem lookAhead_near {nextNtpTime : Int} {e : LeapEntry} (near : e.time ≤ nextNtpTime)
    (v : Int) (back : List LeapEntry) : lookAhead nextNtpTime v (e :: back) = e.tai :=
  if_pos near

private theorem lookAhead_far {nextNtpTime : Int} {e : LeapEntry} (far : ¬e.time ≤ nextNtpTime)
    (v : Int) (back : List LeapEntry) : lookAhead nextNtpTime v (e :: back) = v :=
  if_neg far

/-- The scan takes the entries before now, and looks at the one behind them. -/
theorem scanLeapLines_split {ntpTime : Int} (nextNtpTime : Int) {lines : List (List Char)}
    {front back : List LeapEntry} (table : lines.filterMap scanLeapEntry = front ++ back)
    (past : ∀ e ∈ front, e.time < ntpTime) (future : ∀ e ∈ back, ntpTime ≤ e.time)
    (out : LeapLookup) :
    (scanLeapLines ntpTime nextNtpTime lines out).taiOffset =
        lastValue LeapEntry.tai out.taiOffset front ∧
      (scanLeapLines ntpTime nextNtpTime lines out).nextTai = out.nextTai.map fun v =>
        lookAhead nextNtpTime (lastValue LeapEntry.tai v front) back := by
  induction lines generalizing front out with
  | nil =>
    obtain ⟨rfl, rfl⟩ := List.append_eq_nil_iff.mp table.symm
    simp [scanLeapLines, lookAhead]
  | cons line lines ih =>
    rw [scanLeapLines]
    -- a blank line, a comment and the expiry say nothing about the offset
    split_ifs with blank
    · rw [blank, List.filterMap_cons_none (scanLeapEntry_comment _)] at table
      exact ih table past out
    · split
      next expires =>
        rw [List.filterMap_cons_none (scanExpiration_comment expires)] at table
        exact ih table past _
      next =>
        split
        next other =>
          rw [List.filterMap_cons_none other] at table
          exact ih table past out
        next e entry =>
          rw [List.filterMap_cons_some entry] at table
          -- the entries of the past are taken first
          cases front with
          | cons e' front =>
            obtain ⟨rfl, rest⟩ := List.cons.inj table
            obtain ⟨before, past⟩ := List.forall_mem_cons.mp past
            have before : (e.leapNtpTime : Int) < ntpTime := before
            have taken := ih rest past
              { out with taiOffset := e.tai, nextTai := out.nextTai.map fun _ => e.tai }
            rw [if_pos before]
            refine ⟨taken.1.trans (lastValue_cons _ e front).symm, taken.2.trans ?_⟩
            rw [Option.map_map]
            congr 1
            funext v
            rw [Function.comp_apply, lastValue_cons]
          | nil =>
            subst table
            have later : ¬(e.leapNtpTime : Int) < ntpTime :=
              Int.not_lt.mpr (future e List.mem_cons_self)
            rw [if_neg later]
            split_ifs with near
            · refine ⟨rfl, ?_⟩
              simp only [lookAhead_near (e := e) near]
            · refine ⟨rfl, ?_⟩
              simp only [lookAhead_far (e := e) near, lastValue_nil, Option.map_id']

/-! ### When the lookup is right -/

/-- An entry exactly at the instant repeats the offset before it, and one twelve hours later as
well. -/
def RepeatsAt (table : List LeapEntry) (t : Int) : Prop :=
  ∀ front e back, table = front ++ e :: back → e.time = t →
    e.tai = lastValue LeapEntry.tai 9 front ∧ ∀ f ∈ back, f.time = t + twelveHours → f.tai = e.tai

/-- Before 1900 the instant counts as `ntpTime`, far in the future: the offset is 9 there, in the
window behind it, and in the hours of 1900 that the window truly reaches. -/
def NineAround (table : List LeapEntry) (t ntpTime nextNtpTime : Int) : Prop :=
  (∀ front e back, table = front ++ e :: back → e.time < ntpTime → (∀ f ∈ back, ntpTime ≤ f.time) →
    e.tai = 9) ∧
  (∀ front e back, table = front ++ e :: back → (∀ f ∈ front, f.time < ntpTime) →
    ntpTime ≤ e.time → e.time ≤ nextNtpTime → e.tai = 9) ∧
  ∀ e ∈ table, e.time ≤ t + twelveHours → e.tai = 9

/-- The next offset is written just if there is an entry by the end of the window. -/
theorem lookAhead_written_iff {front back : List LeapEntry} {ntpTime nextNtpTime : Int}
    (spaced : Spaced (front ++ back)) (future : ∀ e ∈ back, ntpTime ≤ e.time)
    (past : ∀ e ∈ front, e.time < ntpTime) :
    (∀ v, lookAhead nextNtpTime (lastValue LeapEntry.tai v front) back =
        lookAhead nextNtpTime (lastValue LeapEntry.tai 9 front) back) ↔
      ∃ e ∈ front ++ back, e.time < ntpTime ∨ e.time ≤ nextNtpTime := by
  cases front with
  | cons e front =>
    refine ⟨fun _ => ⟨e, List.mem_cons_self, .inl (past e List.mem_cons_self)⟩, fun _ v => ?_⟩
    rw [lastValue_start (List.cons_ne_nil e front) v 9]
  | nil =>
    simp only [lastValue_nil, List.nil_append]
    cases back with
    | nil =>
      refine ⟨fun same => absurd (same 0) (by simp [lookAhead]), fun ⟨e, member, _⟩ => ?_⟩
      cases member
    | cons e back =>
      -- an entry within the window gives the answer whatever came before it
      by_cases near : e.time ≤ nextNtpTime
      · refine ⟨fun _ => ⟨e, List.mem_cons_self, .inr near⟩, fun _ v => ?_⟩
        rw [lookAhead_near near, lookAhead_near near]
      · constructor
        · intro same
          have zero := same 0
          rw [lookAhead_far near, lookAhead_far near] at zero
          cases zero
        · -- the first entry that is left is the earliest
          rintro ⟨f, member, before | near'⟩
          · have := future f member
            omega
          · rcases List.mem_cons.mp member with rfl | member
            · exact absurd near' near
            · have := (List.pairwise_cons.mp (Spaced.rising spaced)).1 f member
              omega

/-- With an entry at the instant, the window ends twelve hours behind it. -/
theorem offsetAt_window_end {front back : List LeapEntry} {e : LeapEntry} {t : Int}
    (spaced : Spaced (front ++ e :: back)) (past : ∀ f ∈ front, f.time < t) (now : e.time = t) :
    e.tai = offsetAt (front ++ e :: back) (t + twelveHours) ↔
      ∀ f ∈ back, f.time = t + twelveHours → f.tai = e.tai := by
  have window : 0 < twelveHours := by decide
  obtain ⟨-, apart, -⟩ := List.pairwise_append.mp spaced
  obtain ⟨after, apart⟩ := List.pairwise_cons.mp apart
  -- an entry of the past is behind the window too
  have in_window (f : LeapEntry) (member : f ∈ front) : f.time ≤ t + twelveHours := by
    have := past f member
    omega
  cases back with
  | nil => simp [offsetAt_concat in_window (show e.time ≤ t + twelveHours by omega)]
  | cons f back =>
    obtain ⟨behind, -⟩ := List.pairwise_cons.mp apart
    have first := after f List.mem_cons_self
    have not_others (g : LeapEntry) (member : g ∈ back) : t + twelveHours < g.time := by
      have := behind g member
      omega
    -- only an entry at the end of the window may answer differently
    by_cases reached : f.time = t + twelveHours
    · have value : offsetAt (front ++ e :: f :: back) (t + twelveHours) = f.tai := by
        rw [List.append_cons, offsetAt_concat _ (Int.le_of_eq reached) not_others]
        intro g member
        rcases List.mem_append.mp member with member | member
        · exact in_window g member
        · rw [List.mem_singleton.mp member]
          omega
      rw [value, List.forall_mem_cons]
      refine ⟨fun same => ⟨fun _ => same.symm, fun g member last => ?_⟩,
        fun each => (each.1 reached).symm⟩
      have := not_others g member
      omega
    · have later : ∀ g ∈ f :: back, t + twelveHours < g.time :=
        List.forall_mem_cons.mpr ⟨by omega, not_others⟩
      rw [offsetAt_concat in_window (by omega) later]
      refine ⟨fun _ g member last => ?_, fun _ => rfl⟩
      have := later g member
      omega

/-- The entry at the instant is one of the table at one place. -/
theorem repeatsAt_iff {front back : List LeapEntry} {e : LeapEntry} {t : Int}
    (spaced : Spaced (front ++ e :: back)) (past : ∀ f ∈ front, f.time < t) (now : e.time = t) :
    RepeatsAt (front ++ e :: back) t ↔ e.tai = lastValue LeapEntry.tai 9 front ∧
      ∀ f ∈ back, f.time = t + twelveHours → f.tai = e.tai := by
  refine ⟨fun repeats => repeats front e back rfl now, fun repeats => ?_⟩
  intro front' e' back' same now'
  have from_here {e : LeapEntry} {front back : List LeapEntry} (now : e.time = t)
      (rising : (front ++ e :: back).Pairwise fun a b => a.time < b.time) :
      (∀ f ∈ front, f.time < t) ∧ ∀ f ∈ e :: back, t ≤ f.time := by
    obtain ⟨-, tail, across⟩ := List.pairwise_append.mp rising
    refine ⟨fun f member => now ▸ across f member e List.mem_cons_self, ?_⟩
    refine List.forall_mem_cons.mpr ⟨Int.le_of_eq now.symm, fun f member => ?_⟩
    have := (List.pairwise_cons.mp tail).1 f member
    omega
  have here := from_here now spaced.rising
  have there := from_here now' (same ▸ spaced.rising)
  obtain ⟨rfl, tail⟩ := split_unique same past here.2 there.1 there.2
  obtain ⟨rfl, rfl⟩ := List.cons.inj tail
  exact repeats

/-- From 1900 on, with the entries before the instant in `front`. -/
theorem lookup_iff_repeatsAt {front back : List LeapEntry} {t : Int}
    (spaced : Spaced (front ++ back)) (past : ∀ e ∈ front, e.time < t)
    (future : ∀ e ∈ back, t ≤ e.time) :
    (lastValue LeapEntry.tai 9 front = offsetAt (front ++ back) t ∧
      lookAhead (t + twelveHours) (lastValue LeapEntry.tai 9 front) back =
        offsetAt (front ++ back) (t + twelveHours)) ↔ RepeatsAt (front ++ back) t := by
  have window : 0 < twelveHours := by decide
  have reached (e : LeapEntry) (member : e ∈ front) : e.time ≤ t := Int.le_of_lt (past e member)
  have in_window (e : LeapEntry) (member : e ∈ front) : e.time ≤ t + twelveHours := by
    have := past e member
    omega
  have apart := (List.pairwise_append.mp spaced).2.1
  -- without an entry at the instant there is nothing to repeat
  have vacuous (none_now : ∀ e ∈ back, t < e.time) : RepeatsAt (front ++ back) t := by
    intro front' e back' same now
    have member : e ∈ front ++ back := by
      rw [same]
      exact List.mem_append_right front' List.mem_cons_self
    rcases List.mem_append.mp member with member | member
    · have := past e member
      omega
    · have := none_now e member
      omega
  cases back with
  | nil =>
    refine ⟨fun _ => vacuous (by simp), fun _ => ⟨?_, ?_⟩⟩
    · exact (offsetAt_append reached (by simp)).symm
    · exact (offsetAt_append in_window (by simp)).symm
  | cons e back =>
    obtain ⟨after, -⟩ := List.pairwise_cons.mp apart
    by_cases now : e.time = t
    · have here : offsetAt (front ++ e :: back) t = e.tai := by
        refine offsetAt_concat reached (Int.le_of_eq now) fun f member => ?_
        have := after f member
        omega
      rw [here, lookAhead_near (by omega), offsetAt_window_end spaced past now,
        repeatsAt_iff spaced past now, eq_comm]
    · have none_now : ∀ f ∈ e :: back, t < f.time := by
        refine List.forall_mem_cons.mpr ⟨?_, fun f member => ?_⟩
        · have := future e List.mem_cons_self
          omega
        · have := future e List.mem_cons_self
          have := after f member
          omega
      refine ⟨fun _ => vacuous none_now, fun _ => ⟨(offsetAt_append reached none_now).symm, ?_⟩⟩
      by_cases near : e.time ≤ t + twelveHours
      · rw [lookAhead_near near, offsetAt_concat in_window near]
        intro f member
        have := after f member
        have := future e List.mem_cons_self
        omega
      · rw [lookAhead_far near]
        refine (offsetAt_append in_window (List.forall_mem_cons.mpr ⟨by omega, ?_⟩)).symm
        intro f member
        have := after f member
        omega

/-- The last entry before `ntpTime` is the last one of `front`. -/
theorem lastValue_eq_nine_iff {front back : List LeapEntry} {ntpTime : Int}
    (rising : (front ++ back).Pairwise fun a b => a.time < b.time)
    (past : ∀ e ∈ front, e.time < ntpTime) (future : ∀ e ∈ back, ntpTime ≤ e.time) :
    lastValue LeapEntry.tai 9 front = 9 ↔
      ∀ front' e back', front ++ back = front' ++ e :: back' → e.time < ntpTime →
        (∀ f ∈ back', ntpTime ≤ f.time) → e.tai = 9 := by
  constructor
  · intro nine front' e back' same before future'
    -- the entry is the last of the past ones, wherever the list is cut
    have past' : ∀ f ∈ front' ++ [e], f.time < ntpTime := by
      intro f member
      rcases List.mem_append.mp member with member | member
      · have := (List.pairwise_append.mp (same ▸ rising)).2.2 f member e List.mem_cons_self
        omega
      · rw [List.mem_singleton.mp member]
        exact before
    rw [List.append_cons] at same
    obtain ⟨rfl, -⟩ := split_unique same past future past' future'
    rwa [lastValue_concat] at nine
  · intro each
    rcases List.eq_nil_or_concat front with rfl | ⟨front, e, rfl⟩
    · rfl
    · rw [List.concat_eq_append] at each past ⊢
      rw [lastValue_concat]
      exact each front e back (by simp) (past e (by simp)) future

/-- The entry that the scan stops at is the first one from `ntpTime` on. -/
theorem lookAhead_eq_nine_iff {front back : List LeapEntry} {ntpTime nextNtpTime : Int}
    (rising : (front ++ back).Pairwise fun a b => a.time < b.time)
    (past : ∀ e ∈ front, e.time < ntpTime) (future : ∀ e ∈ back, ntpTime ≤ e.time) :
    lookAhead nextNtpTime 9 back = 9 ↔
      ∀ front' e back', front ++ back = front' ++ e :: back' → (∀ f ∈ front', f.time < ntpTime) →
        ntpTime ≤ e.time → e.time ≤ nextNtpTime → e.tai = 9 := by
  constructor
  · intro nine front' e back' same past' reached near
    -- the entry is the first of the future ones, wherever the list is cut
    have future' : ∀ f ∈ e :: back', ntpTime ≤ f.time := by
      refine List.forall_mem_cons.mpr ⟨reached, fun f member => ?_⟩
      have tail := (List.pairwise_append.mp (same ▸ rising)).2.1
      have := (List.pairwise_cons.mp tail).1 f member
      omega
    obtain ⟨-, rfl⟩ := split_unique same past future past' future'
    rwa [lookAhead_near near] at nine
  · intro each
    cases back with
    | nil => rfl
    | cons e back =>
      by_cases near : e.time ≤ nextNtpTime
      · rw [lookAhead_near near]
        exact each front e back rfl past (future e List.mem_cons_self) near
      · exact lookAhead_far near 9 back

/-- Before 1900 the time wraps round, and the window may reach over the end. -/
theorem lookup_iff_nineAround {front back : List LeapEntry} {t ntpTime nextNtpTime : Int}
    (spaced : Spaced (front ++ back)) (past : ∀ e ∈ front, e.time < ntpTime)
    (future : ∀ e ∈ back, ntpTime ≤ e.time) (early : t < 0) (wraps : ntpTime = t + 2 ^ 64)
    (next : 0 ≤ t + twelveHours → nextNtpTime = t + twelveHours) :
    (lastValue LeapEntry.tai 9 front = offsetAt (front ++ back) t ∧
      lookAhead nextNtpTime (lastValue LeapEntry.tai 9 front) back =
        offsetAt (front ++ back) (t + twelveHours)) ↔
      NineAround (front ++ back) t ntpTime nextNtpTime := by
  -- no entry is before the epoch, so the offset there is the one it starts with
  have start : offsetAt ([] ++ (front ++ back)) t = 9 := offsetAt_append (by simp) fun e _ => by
    have := e.time_nonneg
    omega
  rw [List.nil_append] at start
  have window := offsetAt_eq_nine_iff spaced (show t + twelveHours < twelveHours by omega)
  rw [NineAround, ← lastValue_eq_nine_iff spaced.rising past future,
    ← lookAhead_eq_nine_iff spaced.rising past future, ← window, start]
  refine and_congr_right fun nine => ?_
  rw [nine]
  by_cases over_end : 0 ≤ t + twelveHours
  · -- no entry lies behind the wrapped time and in the window at once
    have far : lookAhead nextNtpTime 9 back = 9 := by
      cases back with
      | nil => rfl
      | cons e back =>
        have := future e List.mem_cons_self
        have := next over_end
        rw [twelveHours] at this over_end
        exact lookAhead_far (by omega) 9 back
    rw [far]
    exact ⟨fun same => ⟨rfl, same.symm⟩, fun both => both.2.symm⟩
  · have none_yet : offsetAt (front ++ back) (t + twelveHours) = 9 := by
      refine window.mpr fun e _ reached => ?_
      have := e.time_nonneg
      omega
    rw [none_yet]
    exact ⟨fun same => ⟨same, rfl⟩, And.left⟩

/-! ### The lookup in a file -/

private theorem toUInt64_of_range {x : Int} (low : 0 ≤ x) (high : x < 2 ^ 64) : toUInt64 x = x :=
  Int.emod_eq_of_lt low high

private theorem toUInt64_negative {x : Int} (low : -2 ^ 64 ≤ x) (negative : x < 0) :
    toUInt64 x = x + 2 ^ 64 := by
  rw [toUInt64, ← Int.add_emod_right]
  exact Int.emod_eq_of_lt (by omega) (by omega)

/-- There is an entry by the end of the window, and no entry right at the instant changes the
offset. Before 1900 the table must say 9 where the wrapped instant looks. -/
def FoundAt (table : List LeapEntry) (t : Int) : Prop :=
  let ntpTime := toUInt64 t
  let nextNtpTime := toUInt64 (ntpTime + twelveHours)
  (∃ e ∈ table, e.time < ntpTime ∨ e.time ≤ nextNtpTime) ∧
    if 0 ≤ t then RepeatsAt table t else NineAround table t ntpTime nextNtpTime

/-- The lookup gives the offset in force, and writes the one in force twelve hours later. -/
theorem taiOffset_iff (fopen : List Char → Option (List Char))
    (leapSecondsFile : Option (List Char)) (file : List Char)
    (opened : fopen (leapSecondsFile.getD defaultLeapSecondsFile) = some file)
    (spaced : Spaced (leapTable file)) (utc : Int) (low : -2 ^ 63 ≤ utc) (high : utc < 2 ^ 63)
    (hasExpired : Option Int) :
    (∀ nextTai : Int,
      let found :=
        getTaiOffsetFromLeapSecondsFile fopen leapSecondsFile utc (some nextTai) hasExpired
      found.taiOffset = offsetAt (leapTable file) (utc + offsetNtpTimeToUtc) ∧
        found.nextTai =
          some (offsetAt (leapTable file) (utc + offsetNtpTimeToUtc + twelveHours))) ↔
      FoundAt (leapTable file) (utc + offsetNtpTimeToUtc) := by
  obtain ⟨t, moved⟩ : ∃ t, t = utc + offsetNtpTimeToUtc := ⟨_, rfl⟩
  obtain ⟨front, back, parts, past, future⟩ := exists_split_at spaced.rising (toUInt64 t)
  have scanned := scanLeapLines_split (toUInt64 (toUInt64 t + twelveHours)) parts past future
  simp only [getTaiOffsetFromLeapSecondsFile, opened, ← moved, scanned, Option.map_some,
    Option.some.injEq]
  rw [parts] at spaced ⊢
  rw [FoundAt, ← lookAhead_written_iff spaced future past]
  have table : (lastValue LeapEntry.tai 9 front = offsetAt (front ++ back) t ∧
      lookAhead (toUInt64 (toUInt64 t + twelveHours)) (lastValue LeapEntry.tai 9 front) back =
        offsetAt (front ++ back) (t + twelveHours)) ↔
      if 0 ≤ t then RepeatsAt (front ++ back) t
      else NineAround (front ++ back) t (toUInt64 t) (toUInt64 (toUInt64 t + twelveHours)) := by
    rw [offsetNtpTimeToUtc] at moved
    -- before the epoch the time wraps to the end of the range
    split_ifs with since
    · have same := toUInt64_of_range since (by omega)
      rw [same] at past future ⊢
      rw [toUInt64_of_range (by rw [twelveHours]; omega) (by rw [twelveHours]; omega)]
      exact lookup_iff_repeatsAt spaced past future
    · have wraps := toUInt64_negative (by omega) (Int.not_le.mp since)
      refine lookup_iff_nineAround spaced past future (Int.not_le.mp since) wraps fun over_end => ?_
      rw [wraps, toUInt64, show t + 2 ^ 64 + twelveHours = t + twelveHours + 2 ^ 64 by omega,
        Int.add_emod_right]
      exact Int.emod_eq_of_lt over_end (by rw [twelveHours]; omega)
  constructor
  · intro every
    refine ⟨fun v => (every v).2.trans (every 9).2.symm, table.mp (every 9)⟩
  · rintro ⟨written, right⟩ v
    obtain ⟨now, next⟩ := table.mpr right
    exact ⟨now, (written v).trans next⟩

/-- One second behind the second of two entries. -/
theorem taiOffset_after_second_entry :
    let file := "#@ 3975868800\n2272060800 10 # 1 Jan 1972\n2287785600 11 # 1 Jul 1972\n".toList
    (∀ nextTai : Int,
      let found := getTaiOffsetFromLeapSecondsFile (fun _ => some file) none 78796801 (some nextTai)
        none
      found.taiOffset = offsetAt (leapTable file) 2287785601 ∧
        found.nextTai = some (offsetAt (leapTable file) 2287828801)) ↔
      FoundAt (leapTable file) 2287785601 := by
  intro file
  have table : leapTable file = [⟨2272060800, 10⟩, ⟨2287785600, 11⟩] := by decide +kernel
  refine taiOffset_iff (fun _ => some file) none file rfl ?_ 78796801 (by decide) (by decide) none
  rw [table, Spaced]
  decide

/-- At the instant of a leap second the offset is the old one, twelve hours before the first entry
no next offset is written, and before 1900 the last entry is taken. -/
theorem leap_instant_missed :
    let file := "#@ 3975868800\n2272060800 10 # 1 Jan 1972\n2287785600 11 # 1 Jul 1972\n".toList
    let lookup := fun utc =>
      getTaiOffsetFromLeapSecondsFile (fun _ => some file) none utc (some 77) none
    Spaced (leapTable file) ∧
      (lookup 78796800).taiOffset = 10 ∧
      offsetAt (leapTable file) (78796800 + offsetNtpTimeToUtc) = 11 ∧
      (lookup 0).nextTai = some 77 ∧
      offsetAt (leapTable file) (0 + offsetNtpTimeToUtc + twelveHours) = 9 ∧
      (lookup (-2208988801)).taiOffset = 11 ∧
      offsetAt (leapTable file) (-2208988801 + offsetNtpTimeToUtc) = 9 := by
  intro file lookup
  have table : leapTable file = [⟨2272060800, 10⟩, ⟨2287785600, 11⟩] := by decide +kernel
  rw [table]
  refine ⟨by rw [Spaced]; decide, by decide +kernel, by decide, by decide +kernel, by decide,
    by decide +kernel, by decide⟩

end WrSwitch.Tools
