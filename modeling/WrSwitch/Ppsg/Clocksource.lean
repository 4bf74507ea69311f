import Mathlib.Data.Nat.Bitwise
import WrSwitch.Machine.Run
import WrSwitch.Ppsg.Counter

/-!
# The clocksource

`wrcs_read` extends the tick counter, which starts again every second and may be set to negative
values, to a counter of 32 bits.
-/
namespace WrSwitch.Ppsg

open Machine

/-! ### The driver -/

/-- `WRCS_FREQUENCY` -/
def wrcsFrequency : BitVec 32 := 62500000

/-- The static variables of `wrcs_read`. -/
structure Wrcs where
  offset : BitVec 32
  last : BitVec 32
  adjustOffset : BitVec 32
  cntWasNeg : Bool
deriving DecidableEq, Repr

def Wrcs.init : Wrcs := ⟨0, 0, 0, false⟩

/-- The counter with its sign, and what a negative one does to `adjustOffset`. -/
def readTicks (w : Wrcs) (cntrNsec : BitVec 32) : BitVec 32 × Wrcs :=
  if cntrNsec &&& 0x8000000 ≠ 0 then
    let ticksCounter := cntrNsec ||| 0xF0000000
    if !w.cntWasNeg then
      -- jump from a positive to a negative counter
      (ticksCounter, { w with
        adjustOffset := (w.adjustOffset + -ticksCounter) % wrcsFrequency
        cntWasNeg := true })
    else (ticksCounter, w)
  else (cntrNsec, { w with cntWasNeg := false })

/-- The value that is returned, and the variables after it. -/
def wrcsRead (w : Wrcs) (cntrNsec : BitVec 32) : BitVec 32 × Wrcs :=
  let (ticksCounter, w) := readTicks w cntrNsec
  let this := (ticksCounter + w.adjustOffset) % wrcsFrequency
  let w := if this < w.last then { w with offset := w.offset + wrcsFrequency } else w
  (w.offset + this, { w with last := this })

/-! ### The system -/

structure Clock where
  /-- `CNTR_NSEC` -/
  counter : BitVec 28
  wrcs : Wrcs
deriving DecidableEq, Repr

inductive ClockEvent
  | tick
  /-- an adjustment of the PPS generator loads the counter -/
  | adjust (counter : BitVec 28)
  | read
deriving DecidableEq, Repr

/-- What `wrcs_read` returns. -/
def Clock.value (c : Clock) : BitVec 32 := (wrcsRead c.wrcs (c.counter.zeroExtend 32)).1

def Clock.step (c : Clock) : ClockEvent → Clock
  | .tick => { c with counter := Ppsg.tick c.counter }
  | .adjust counter => { c with counter := counter }
  | .read => { c with wrcs := (wrcsRead c.wrcs (c.counter.zeroExtend 32)).2 }

/-! ### One read -/

/-- `adjustOffset` after a read. -/
def adjusted (adjustOffset : Nat) (cntWasNeg : Bool) (counter : Int) : Nat :=
  if counter < 0 ∧ !cntWasNeg then (adjustOffset + counter.natAbs) % 62500000 else adjustOffset

/-- `this`: the sum of the ticks and the offset as an unsigned number, in a second. -/
def inSecond (adjustOffset : Nat) (counter : Int) : Nat :=
  ((counter + adjustOffset) % 4294967296).toNat % 62500000

private theorem sign_bit (counter : BitVec 28) :
    counter.zeroExtend 32 &&& 0x8000000 ≠ 0 ↔ counter.toInt < 0 := by
  have bit : (counter.zeroExtend 32 &&& 0x8000000).toNat = counter.toNat / 2 ^ 27 * 2 ^ 27 := by
    have small := counter.isLt
    rw [BitVec.toNat_and, BitVec.toNat_setWidth, Nat.mod_eq_of_lt (by omega)]
    change counter.toNat &&& 2 ^ 27 = _
    rw [Nat.and_two_pow, Nat.testBit_eq_decide_div_mod_eq]
    have : counter.toNat / 2 ^ 27 < 2 := by omega
    by_cases one : counter.toNat / 2 ^ 27 = 1
    · rw [one]
      rfl
    · have zero : counter.toNat / 2 ^ 27 = 0 := by omega
      rw [zero]
      rfl
  rw [ne_eq, ← BitVec.toNat_inj, bit, BitVec.toInt_eq_toNat_cond]
  change ¬_ = 0 ↔ _
  split <;> omega

private theorem extended_toInt (counter : BitVec 28) (negative : counter.toInt < 0) :
    (counter.zeroExtend 32 ||| 0xF0000000 : BitVec 32).toInt = counter.toInt := by
  have small := counter.isLt
  -- the sign extension sets bits that the counter does not have
  have disjoint : counter.zeroExtend 32 &&& 0xF0000000 = 0 := by
    apply BitVec.eq_of_toNat_eq
    rw [BitVec.toNat_and, BitVec.toNat_setWidth, Nat.mod_eq_of_lt (by omega)]
    change counter.toNat &&& 15 * 2 ^ 28 = 0
    refine Nat.eq_of_testBit_eq fun i => ?_
    rw [Nat.testBit_and, Nat.testBit_mul_two_pow, Nat.zero_testBit]
    by_cases upper : 28 ≤ i
    · have clear : counter.toNat.testBit i = false :=
        Nat.testBit_lt_two_pow (lt_of_lt_of_le small (Nat.pow_le_pow_right (by decide) upper))
      rw [clear, Bool.false_and]
    · rw [decide_eq_false upper, Bool.false_and, Bool.and_false]
  have sum : (counter.zeroExtend 32 ||| 0xF0000000 : BitVec 32).toNat =
      counter.toNat + 4026531840 := by
    have ones : (0xF0000000 : BitVec 32).toNat = 4026531840 := rfl
    rw [← BitVec.add_eq_or_of_and_eq_zero _ _ disjoint, BitVec.toNat_add, BitVec.toNat_setWidth,
      Nat.mod_eq_of_lt (by omega), ones]
    omega
  rw [BitVec.toInt_eq_toNat_cond] at negative
  rw [BitVec.toInt_eq_toNat_cond, BitVec.toInt_eq_toNat_cond, sum]
  split at negative
  next => omega
  next large =>
    rw [if_neg large, if_neg (by omega), Int.natCast_add]
    change (counter.toNat : Int) + 4026531840 - 4294967296 = counter.toNat - 268435456
    omega

private theorem plain_toInt (counter : BitVec 28) (natural : ¬counter.toInt < 0) :
    (counter.zeroExtend 32 : BitVec 32).toInt = counter.toInt := by
  have small := counter.isLt
  rw [BitVec.toInt_eq_toNat_cond] at natural ⊢
  rw [BitVec.toInt_eq_toNat_cond, BitVec.toNat_setWidth, Nat.mod_eq_of_lt (by omega)]
  split at natural
  next half => rw [if_pos half, if_pos (by omega)]
  next => omega

private theorem negated_toNat {x : BitVec 32} (negative : x.toInt < 0) :
    (-x).toNat = x.toInt.natAbs := by
  have small := x.isLt
  rw [BitVec.toInt_eq_toNat_cond] at negative ⊢
  rw [BitVec.toNat_neg]
  split at negative
  next => omega
  next large =>
    rw [if_neg large]
    omega

private theorem readTicks_spec (w : Wrcs) (counter : BitVec 28)
    (reduced : w.adjustOffset.toNat < 62500000) :
    (readTicks w (counter.zeroExtend 32)).1.toInt = counter.toInt ∧
      (readTicks w (counter.zeroExtend 32)).2.adjustOffset.toNat =
        adjusted w.adjustOffset.toNat w.cntWasNeg counter.toInt ∧
      (readTicks w (counter.zeroExtend 32)).2.cntWasNeg = decide (counter.toInt < 0) := by
  have low := BitVec.le_toInt counter
  unfold readTicks adjusted
  by_cases negative : counter.toInt < 0
  · rw [if_pos ((sign_bit counter).mpr negative), decide_eq_true negative]
    have extended := extended_toInt counter negative
    cases was : w.cntWasNeg with
    | true => exact ⟨extended, (if_neg (by simp)).symm, was⟩
    -- the counter has just become negative, so the offset grows by its size
    | false =>
      have size := negated_toNat (extended.symm ▸ negative :
        (counter.zeroExtend 32 ||| 0xF0000000 : BitVec 32).toInt < 0)
      have frequency : wrcsFrequency.toNat = 62500000 := rfl
      have sum : ((w.adjustOffset + -(counter.zeroExtend 32 ||| 0xF0000000)) %
          wrcsFrequency).toNat = (w.adjustOffset.toNat + counter.toInt.natAbs) % 62500000 := by
        rw [BitVec.toNat_umod, BitVec.toNat_add, size, extended, frequency]
        omega
      exact ⟨extended, sum.trans (if_pos ⟨negative, rfl⟩).symm, rfl⟩
  · have clear : ¬(counter.zeroExtend 32 &&& 0x8000000 ≠ 0) :=
      fun set => negative ((sign_bit counter).mp set)
    rw [if_neg clear, if_neg (fun both => negative both.1), decide_eq_false negative]
    exact ⟨plain_toInt counter negative, rfl, rfl⟩

private theorem readTicks_kept (w : Wrcs) (cntrNsec : BitVec 32) :
    (readTicks w cntrNsec).2.offset = w.offset ∧ (readTicks w cntrNsec).2.last = w.last := by
  unfold readTicks
  split
  next =>
    dsimp only
    split <;> exact ⟨rfl, rfl⟩
  next => exact ⟨rfl, rfl⟩

/-- What a read does to the variables, and what it returns. -/
structure ReadAs (w : Wrcs) (counter : Int) (w' : Wrcs) (value : BitVec 32) : Prop where
  adjust : w'.adjustOffset.toNat = adjusted w.adjustOffset.toNat w.cntWasNeg counter
  was_neg : w'.cntWasNeg = decide (counter < 0)
  last : w'.last.toNat = inSecond w'.adjustOffset.toNat counter
  offset : w'.offset = if w'.last < w.last then w.offset + wrcsFrequency else w.offset
  value : value = w'.offset + w'.last

private theorem wrcsRead_readAs (w : Wrcs) (counter : BitVec 28)
    (reduced : w.adjustOffset.toNat < 62500000) :
    ReadAs w counter.toInt (wrcsRead w (counter.zeroExtend 32)).2
      (wrcsRead w (counter.zeroExtend 32)).1 := by
  obtain ⟨ticks, adjust, was_neg⟩ := readTicks_spec w counter reduced
  obtain ⟨offset, last⟩ := readTicks_kept w (counter.zeroExtend 32)
  unfold wrcsRead
  generalize readTicks w (counter.zeroExtend 32) = next at *
  obtain ⟨ticksCounter, w'⟩ := next
  dsimp only at *
  have this : ((ticksCounter + w'.adjustOffset) % wrcsFrequency).toNat =
      inSecond w'.adjustOffset.toNat counter.toInt := by
    have frequency : wrcsFrequency.toNat = 62500000 := rfl
    -- the sum is taken in unsigned words, the counter may be negative
    have sum : (ticksCounter + w'.adjustOffset).toNat =
        ((counter.toInt + w'.adjustOffset.toNat) % 4294967296).toNat := by
      rw [← ticks, BitVec.toNat_add, BitVec.toInt_eq_toNat_cond]
      split <;> omega
    rw [BitVec.toNat_umod, sum, frequency]
    rfl
  split
  next wraps => exact ⟨adjust, was_neg, this, by rw [if_pos (last ▸ wraps), offset], rfl⟩
  next no_wrap => exact ⟨adjust, was_neg, this, by rw [if_neg (last ▸ no_wrap), offset], rfl⟩

/-! ### Two reads -/

/-- What is returned grows by what `this` grows in a second. -/
theorem difference_iff {w w' w'' : Wrcs} {counter counter' : Int} {value value' : BitVec 32}
    (first : ReadAs w counter w' value) (second : ReadAs w' counter' w'' value') {elapsed : Nat}
    (soon : elapsed < 62500000) :
    value' - value = BitVec.ofNat 32 elapsed ↔
      (w'.last.toNat + elapsed) % 62500000 = w''.last.toNat := by
  -- both readings are within a second
  have small : w'.last.toNat < 62500000 := by
    rw [first.last, inSecond]
    omega
  have small' : w''.last.toNat < 62500000 := by
    rw [second.last, inSecond]
    omega
  rw [first.value, second.value, second.offset, ← BitVec.toNat_inj]
  have frequency : wrcsFrequency.toNat = 62500000 := rfl
  split
  next wraps =>
    rw [BitVec.lt_def] at wraps
    have value : (w'.offset + wrcsFrequency + w''.last - (w'.offset + w'.last)).toNat =
        62500000 + w''.last.toNat - w'.last.toNat := by
      have := w'.offset.isLt
      rw [BitVec.toNat_sub, BitVec.toNat_add, BitVec.toNat_add, BitVec.toNat_add, frequency]
      omega
    rw [value, BitVec.toNat_ofNat]
    omega
  next no_wrap =>
    rw [BitVec.lt_def] at no_wrap
    have value : (w'.offset + w''.last - (w'.offset + w'.last)).toNat =
        w''.last.toNat - w'.last.toNat := by
      have := w'.offset.isLt
      rw [BitVec.toNat_sub, BitVec.toNat_add, BitVec.toNat_add]
      omega
    rw [value, BitVec.toNat_ofNat]
    omega

/-- The reads, `elapsed` ticks apart, see the same second: a counter at or above a second does not
run into its sign in between, or by the one number that does no harm, and the sum with
`adjustOffset` does not grow from a negative to a positive number. -/
def CountsThrough (adjustOffset : Nat) (cntWasNeg : Bool) (counter : Int) (elapsed : Nat) : Prop :=
  if 0 ≤ counter then
    counter < 62500000 ∨ counter + elapsed < 134217728 ∨ counter + elapsed = 169967296
  else if cntWasNeg then
    ¬(adjustOffset < counter.natAbs ∧ counter.natAbs ≤ adjustOffset + elapsed)
  else
    ¬(62500000 ≤ adjustOffset + counter.natAbs ∧ adjustOffset + counter.natAbs < 125000000 ∧
      62500000 ≤ adjustOffset + elapsed)

instance (adjustOffset : Nat) (cntWasNeg : Bool) (counter : Int) (elapsed : Nat) :
    Decidable (CountsThrough adjustOffset cntWasNeg counter elapsed) :=
  inferInstanceAs (Decidable (if 0 ≤ counter then _ else if cntWasNeg then _ else _))

private theorem inSecond_natural {a : Nat} {counter : Int} (natural : 0 ≤ counter + a)
    (small : counter + a < 4294967296) :
    (inSecond a counter : Int) = (counter + a) % 62500000 := by
  unfold inSecond
  omega

/-- A negative sum is taken as an unsigned number. -/
theorem inSecond_negative {a : Nat} {counter : Int} (negative : counter + a < 0)
    (small : -4294967296 ≤ counter + a) :
    (inSecond a counter : Int) = (counter + a + 44967296) % 62500000 := by
  unfold inSecond
  omega

/-- The ticks between two reads are counted modulo a second where both sums have one sign. -/
theorem inSecond_grows_iff {a : Nat} {counter : Int} {elapsed : Nat}
    (low : -134217728 ≤ counter + a) (high : counter + a + elapsed < 4294967296) :
    (inSecond a counter + elapsed) % 62500000 = inSecond a (counter + elapsed) ↔
      ¬(counter + a < 0 ∧ 0 ≤ counter + a + elapsed) := by
  by_cases before : counter + a < 0
  · have first := inSecond_negative before (by omega)
    by_cases after : counter + elapsed + a < 0
    · have second := inSecond_negative after (by omega)
      omega
    · have second := inSecond_natural (Int.not_lt.mp after) (by omega)
      omega
  · have first := inSecond_natural (Int.not_lt.mp before) (by omega)
    have second : (inSecond a (counter + elapsed) : Int) = _ :=
      inSecond_natural (by omega) (by omega)
    omega

private theorem last_grows_iff {w w' w'' : Wrcs} {counter : Int} {value value' : BitVec 32}
    {elapsed : Nat} (low : -134217728 ≤ counter) (high : counter < 134217728)
    (reduced : w.adjustOffset.toNat < 62500000) (soon : elapsed < 62500000)
    (first : ReadAs w counter w' value) (second : ReadAs w' (ticked counter elapsed) w'' value') :
    (w'.last.toNat + elapsed) % 62500000 = w''.last.toNat ↔
      CountsThrough w.adjustOffset.toNat w.cntWasNeg counter elapsed := by
  have adjust := first.adjust
  have adjust' := second.adjust
  rw [first.was_neg] at adjust'
  rw [first.last, second.last, adjust', adjust]
  generalize w.adjustOffset.toNat = a at *
  unfold CountsThrough
  -- the first reading leaves the flag: cleared by a natural counter, set by a negative one
  by_cases natural : 0 ≤ counter
  · have same : adjusted a w.cntWasNeg counter = a := if_neg (by omega)
    rw [if_pos natural, same, decide_eq_false (by omega)]
    have start := inSecond_natural (counter.add_nonneg natural (Int.natCast_nonneg a)) (by omega)
    by_cases below : counter < 62500000
    · -- the counter stays below a second
      have inside : 0 ≤ ticked counter elapsed ∧ ticked counter elapsed < 62500000 ∧
          (ticked counter elapsed - counter - elapsed) % 62500000 = 0 := by
        rw [ticked, if_pos below]
        split <;> omega
      have same' : adjusted a false (ticked counter elapsed) = a := if_neg (by omega)
      have stop : (inSecond a (ticked counter elapsed) : Int) = _ :=
        inSecond_natural (by omega) (by omega)
      rw [same']
      refine iff_of_true ?_ (Or.inl below)
      omega
    · by_cases signed : counter + elapsed < 134217728
      · have ahead : ticked counter elapsed = counter + elapsed := by
          rw [ticked, if_neg below, if_pos signed]
        have same' : adjusted a false (counter + elapsed) = a := if_neg (by omega)
        rw [ahead, same', inSecond_grows_iff (by omega) (by omega)]
        omega
      · -- a new jump to a negative counter: `adjustOffset` is set again
        have behind : ticked counter elapsed = counter + elapsed - 268435456 := by
          rw [ticked, if_neg below, if_neg signed]
        have moved : adjusted a false (ticked counter elapsed) =
            (a + (ticked counter elapsed).natAbs) % 62500000 := if_pos ⟨by omega, rfl⟩
        rw [moved]
        have stop : (inSecond ((a + (ticked counter elapsed).natAbs) % 62500000)
            (ticked counter elapsed) : Int) = _ := inSecond_negative (by omega) (by omega)
        omega
  · rw [if_neg natural, decide_eq_true (by omega)]
    have ahead : ticked counter elapsed = counter + elapsed := by
      rw [ticked, if_pos (by omega), if_pos (by omega)]
    -- with the flag set the second reading takes the offset as it finds it
    have kept : ∀ a', adjusted a' true (ticked counter elapsed) = a' := fun a' => if_neg (by simp)
    rw [kept, ahead]
    cases was : w.cntWasNeg with
    | true =>
      have same : adjusted a true counter = a := if_neg (by simp)
      rw [same, inSecond_grows_iff (by omega) (by omega)]
      simp only [if_true]
      omega
    | false =>
      have moved : adjusted a false counter = (a + counter.natAbs) % 62500000 :=
        if_pos ⟨by omega, rfl⟩
      rw [moved, inSecond_grows_iff (by omega) (by omega)]
      simp only [Bool.false_eq_true, if_false]
      omega

/-! ### Runs -/

private theorem Clock.step_reduced (c : Clock) (e : ClockEvent)
    (reduced : c.wrcs.adjustOffset.toNat < 62500000) :
    (c.step e).wrcs.adjustOffset.toNat < 62500000 := by
  cases e with
  | tick => exact reduced
  | adjust _ => exact reduced
  | read =>
    have adjust : (c.step .read).wrcs.adjustOffset.toNat = _ :=
      (wrcsRead_readAs c.wrcs c.counter reduced).adjust
    rw [adjust, adjusted]
    split <;> omega

private theorem run_ticks (c : Clock) (ticks : Nat) :
    run Clock.step c (List.replicate ticks .tick) = { c with counter := tick^[ticks] c.counter } := by
  induction ticks generalizing c with
  | zero => rfl
  | succ ticks ih =>
    rw [List.replicate_succ, run_cons, ih]
    rfl

/-- In every run, two reads less than a second apart and with no adjustment in between differ by
the ticks between them exactly if they see the same second. -/
theorem reads_count_iff (start : BitVec 28) (events : List ClockEvent) (elapsed : Nat)
    (soon : elapsed < refclkFreq) :
    let c := run Clock.step ⟨start, .init⟩ events
    let later := run Clock.step c (.read :: List.replicate elapsed .tick)
    later.value - c.value = BitVec.ofNat 32 elapsed ↔
      CountsThrough c.wrcs.adjustOffset.toNat c.wrcs.cntWasNeg c.counter.toInt elapsed := by
  intro c later
  have reduced : c.wrcs.adjustOffset.toNat < 62500000 :=
    run_preserves (fun c : Clock => c.wrcs.adjustOffset.toNat < 62500000) Clock.step
      Clock.step_reduced _ events (by decide : 0 < 62500000)
  have reduced' := Clock.step_reduced c .read reduced
  have later_eq : later = ⟨tick^[elapsed] c.counter, (c.step .read).wrcs⟩ :=
    run_ticks (c.step .read) elapsed
  have first := wrcsRead_readAs c.wrcs c.counter reduced
  have second := wrcsRead_readAs (c.step .read).wrcs (tick^[elapsed] c.counter) reduced'
  rw [ticks_toInt c.counter soon] at second
  rw [later_eq, Clock.value, Clock.value, difference_iff first second soon]
  exact last_grows_iff (BitVec.le_toInt c.counter) BitVec.toInt_lt reduced soon first second

/-- The counter is set to -5 and, before it is positive again, to -10: five ticks later the
clocksource is 17532709 ticks ahead. -/
theorem reads_count_wrong :
    let c := run Clock.step ⟨0, .init⟩ [.adjust (-5), .read, .adjust (-10)]
    let later := run Clock.step c (.read :: List.replicate 5 .tick)
    later.value - c.value = 17532709 := by decide

/-- Four ticks are counted. -/
theorem reads_count_four :
    let c := run Clock.step ⟨0, .init⟩ [.adjust (-5), .read, .adjust (-10)]
    let later := run Clock.step c (.read :: List.replicate 4 .tick)
    later.value - c.value = 4 :=
  (reads_count_iff 0 [.adjust (-5), .read, .adjust (-10)] 4 (by decide)).mpr (by decide)

end WrSwitch.Ppsg
