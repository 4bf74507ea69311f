import Mathlib.Algebra.Group.Int.Defs
import Mathlib.Algebra.Group.Nat.Defs
import Mathlib.Tactic.SplitIfs

/-!
# Linear timestamps

`ptpd_netif_linearize_rx_timestamp` of `libwr/ptpd_netif.c` adds the phase that the DMTD measures
to the time of a received frame, which is a number of ticks of the clock.
-/
namespace WrSwitch.Libwr

/-! ### The function -/

/-- What an `int` of 32 bits keeps of a result. -/
def toInt32 (x : Int) : Int := Int.bmod x (2 ^ 32)

/-- `struct wr_tstamp`, without what is left alone. -/
structure WrTstamp where
  sec : Int
  nsec : Int
  phase : Int
  rawPhase : Int
deriving DecidableEq, Repr

def insideRange (min max x : Int) : Bool :=
  if min < max then x ≥ min ∧ x ≤ max else x ≤ max ∨ x ≥ min

/-- The ends of the range around the transition. -/
def tripLo (transitionPoint clockPeriod : Int) : Int :=
  let tripLo := toInt32 (transitionPoint - clockPeriod / 4)
  if tripLo < 0 then toInt32 (tripLo + clockPeriod) else tripLo

def tripHi (transitionPoint clockPeriod : Int) : Int :=
  let tripHi := toInt32 (transitionPoint + clockPeriod / 4)
  if tripHi ≥ clockPeriod then toInt32 (tripHi - clockPeriod) else tripHi

def linearizeRxTimestamp (ts : WrTstamp) (dmtdPhase cntrAhead transitionPoint clockPeriod : Int) :
    WrTstamp :=
  let phase := toInt32 (clockPeriod - 1 - dmtdPhase)
  let lo := tripLo transitionPoint clockPeriod
  let hi := tripHi transitionPoint clockPeriod
  let nsec :=
    if insideRange lo hi phase then
      let nsec := toInt32 (ts.nsec - if cntrAhead ≠ 0 then clockPeriod / 1000 else 0)
      -- before the transition the falling edge's counter is one behind
      if insideRange lo transitionPoint phase then toInt32 (nsec + clockPeriod / 1000) else nsec
    else ts.nsec
  let tsPhase := toInt32 (phase - transitionPoint - 1)
  let tsPhase := if tsPhase < 0 then toInt32 (tsPhase + clockPeriod) else tsPhase
  { ts with nsec := nsec, phase := toInt32 (clockPeriod - 1 - tsPhase), rawPhase := dmtdPhase }

/-! ### Windows -/

/-- `x` is at most `len` behind `lo`, going round. -/
def InWindow (clockPeriod lo len x : Int) : Prop := (x - lo) % clockPeriod ≤ len

instance (clockPeriod lo len x : Int) : Decidable (InWindow clockPeriod lo len x) :=
  inferInstanceAs (Decidable (_ ≤ _))

/-- The phases up to a quarter of the period away from the transition. -/
def NearTransition (transitionPoint clockPeriod phase : Int) : Prop :=
  InWindow clockPeriod (transitionPoint - clockPeriod / 4) (clockPeriod / 2) phase

/-- Those that are not behind it. -/
def BeforeTransition (transitionPoint clockPeriod phase : Int) : Prop :=
  InWindow clockPeriod (transitionPoint - clockPeriod / 4) (clockPeriod / 4) phase

instance (t p x : Int) : Decidable (NearTransition t p x) := inferInstanceAs (Decidable (_ ≤ _))

instance (t p x : Int) : Decidable (BeforeTransition t p x) := inferInstanceAs (Decidable (_ ≤ _))

/-- The time of a timestamp in nanoseconds. -/
def WrTstamp.instant (ts : WrTstamp) : Int := ts.sec * 10 ^ 9 + ts.nsec

/-- The ticks that are added to the time. -/
def tickCorrection (transitionPoint clockPeriod phase cntrAhead : Int) : Int :=
  if NearTransition transitionPoint clockPeriod phase then
    (if BeforeTransition transitionPoint clockPeriod phase then 1 else 0) -
      (if cntrAhead ≠ 0 then 1 else 0)
  else 0

private theorem tickCorrection_eq_zero {t p x a : Int} (far : ¬NearTransition t p x) :
    tickCorrection t p x a = 0 :=
  if_neg far

private theorem tickCorrection_range (t p x a : Int) :
    -1 ≤ tickCorrection t p x a ∧ tickCorrection t p x a ≤ 1 := by
  unfold tickCorrection
  split_ifs <;> omega

/-- The counter that is one tick ahead is worth one tick less. -/
theorem tickCorrection_ahead {t p x a : Int} (near : NearTransition t p x) (ahead : a ≠ 0) :
    tickCorrection t p x a = tickCorrection t p x 0 - 1 := by
  simp only [tickCorrection, if_pos near, if_pos ahead, ne_eq, not_true, if_false]
  omega

/-! ### The ranges of the code are the windows -/

private theorem toInt32_of_range {x : Int} (low : -2 ^ 31 ≤ x) (high : x < 2 ^ 31) :
    toInt32 x = x := by
  apply Int.bmod_eq_of_le
  · omega
  · omega

/-- One turn back or forth is enough for what is less than a turn away. -/
theorem emod_turn {x p : Int} (low : -p ≤ x) (high : x < 2 * p) :
    x % p = if x < 0 then x + p else if x < p then x else x - p := by
  split_ifs with negative small
  · rw [← Int.add_emod_right]
    exact Int.emod_eq_of_lt (by omega) (by omega)
  · exact Int.emod_eq_of_lt (by omega) small
  · rw [← Int.sub_emod_right]
    exact Int.emod_eq_of_lt (by omega) (by omega)

/-- A range from `lo` to `len` further, which goes round when its end lies below its start. -/
theorem insideRange_iff {p lo len x : Int} (lo_low : 0 ≤ lo) (lo_high : lo < p) (x_low : 0 ≤ x)
    (x_high : x < p) (len_pos : 0 < len) (len_high : len < p) :
    insideRange lo ((lo + len) % p) x = true ↔ InWindow p lo len x := by
  have stop := emod_turn (x := lo + len) (p := p) (by omega) (by omega)
  have place := emod_turn (x := x - lo) (p := p) (by omega) (by omega)
  simp only [InWindow, insideRange, stop, place]
  -- the window goes round the end of the period or not, and `x` lies behind its start or not
  by_cases round : lo + len < p <;> by_cases behind : x < lo
  · simp [show ¬lo + len < 0 by omega, round, show lo < lo + len by omega,
      show x - lo < 0 by omega]
    omega
  · simp [show ¬lo + len < 0 by omega, round, show lo < lo + len by omega,
      show ¬x - lo < 0 by omega, show x - lo < p by omega]
    omega
  · simp [show ¬lo + len < 0 by omega, round, show ¬lo < lo + len - p by omega,
      show x - lo < 0 by omega]
    omega
  · simp [show ¬lo + len < 0 by omega, round, show ¬lo < lo + len - p by omega,
      show ¬x - lo < 0 by omega, show x - lo < p by omega]
    omega

private theorem inWindow_emod {p lo len x : Int} :
    InWindow p (lo % p) len x ↔ InWindow p lo len x := by
  unfold InWindow
  rw [Int.sub_emod_emod]

/-! ### What the period promises

A period of whole nanoseconds, of which a quarter is also whole, and that fits into an `int`. -/

section Period

variable {clockPeriod transitionPoint : Int} (least : 1000 ≤ clockPeriod)
  (whole : 4000 ∣ clockPeriod) (period_int : clockPeriod < 2 ^ 31)
  (transition_low : 0 ≤ transitionPoint) (transition_high : transitionPoint < clockPeriod)

include least period_int transition_low transition_high in
private theorem tripLo_eq :
    tripLo transitionPoint clockPeriod = (transitionPoint - clockPeriod / 4) % clockPeriod := by
  rw [tripLo, emod_turn (by omega) (by omega), toInt32_of_range (by omega) (by omega)]
  split_ifs with negative small
  · exact toInt32_of_range (by omega) (by omega)
  · rfl
  · omega

include least period_int transition_low transition_high in
private theorem tripHi_eq (trip_int : transitionPoint + clockPeriod / 4 < 2 ^ 31) :
    tripHi transitionPoint clockPeriod = (transitionPoint + clockPeriod / 4) % clockPeriod := by
  rw [tripHi, emod_turn (by omega) (by omega), toInt32_of_range (by omega) trip_int]
  split_ifs with reached negative small
  · omega
  · omega
  · exact toInt32_of_range (by omega) (by omega)
  · omega
  · rfl
  · omega

include least whole period_int transition_low transition_high in
/-- The first range of the code holds the phases near the transition. -/
theorem insideRange_near (trip_int : transitionPoint + clockPeriod / 4 < 2 ^ 31) (phase : Int)
    (phase_low : 0 ≤ phase) (phase_high : phase < clockPeriod) :
    insideRange (tripLo transitionPoint clockPeriod) (tripHi transitionPoint clockPeriod) phase =
      true ↔ NearTransition transitionPoint clockPeriod phase := by
  have start := tripLo_eq least period_int transition_low transition_high
  have half : (transitionPoint + clockPeriod / 4) % clockPeriod =
      ((transitionPoint - clockPeriod / 4) % clockPeriod + clockPeriod / 2) % clockPeriod := by
    rw [Int.emod_add_emod]
    congr 1
    omega
  rw [tripHi_eq least period_int transition_low transition_high trip_int, start, half,
    insideRange_iff (Int.emod_nonneg _ (by omega)) (Int.emod_lt_of_pos _ (by omega)) phase_low
      phase_high (by omega) (by omega)]
  exact inWindow_emod

include least period_int transition_low transition_high in
/-- The second holds those before it. -/
theorem insideRange_before (phase : Int) (phase_low : 0 ≤ phase)
    (phase_high : phase < clockPeriod) :
    insideRange (tripLo transitionPoint clockPeriod) transitionPoint phase = true ↔
      BeforeTransition transitionPoint clockPeriod phase := by
  have stop : ((transitionPoint - clockPeriod / 4) % clockPeriod + clockPeriod / 4) % clockPeriod =
      transitionPoint := by
    rw [Int.emod_add_emod, Int.sub_add_cancel]
    exact Int.emod_eq_of_lt transition_low transition_high
  have window : insideRange ((transitionPoint - clockPeriod / 4) % clockPeriod)
      (((transitionPoint - clockPeriod / 4) % clockPeriod + clockPeriod / 4) % clockPeriod) phase =
      true ↔ _ :=
    insideRange_iff (Int.emod_nonneg _ (by omega)) (Int.emod_lt_of_pos _ (by omega)) phase_low
      phase_high (by omega) (by omega)
  rw [stop] at window
  rw [tripLo_eq least period_int transition_low transition_high, window]
  exact inWindow_emod

/-! ### Phase and time -/

section Capture

variable {dmtdPhase : Int} (dmtd_low : 0 ≤ dmtdPhase) (dmtd_high : dmtdPhase < clockPeriod)

include least period_int transition_low transition_high dmtd_low dmtd_high in
private theorem linearizeRxTimestamp_phase (ts : WrTstamp) (cntrAhead : Int) :
    (linearizeRxTimestamp ts dmtdPhase cntrAhead transitionPoint clockPeriod).phase =
      (dmtdPhase + transitionPoint + 1) % clockPeriod := by
  have turn := emod_turn (x := dmtdPhase + transitionPoint + 1) (p := clockPeriod) (by omega)
    (by omega)
  simp only [linearizeRxTimestamp]
  rw [toInt32_of_range (x := clockPeriod - 1 - dmtdPhase) (by omega) (by omega),
    toInt32_of_range (x := clockPeriod - 1 - dmtdPhase - transitionPoint - 1) (by omega)
      (by omega), turn]
  -- every branch computes in 32 bits, and none of the sums leaves them
  split_ifs with behind negative small
  · omega
  · rw [toInt32_of_range (x := clockPeriod - 1 - dmtdPhase - transitionPoint - 1 + clockPeriod)
      (by omega) (by omega), toInt32_of_range (by omega) (by omega)]
    omega
  · rw [toInt32_of_range (x := clockPeriod - 1 - dmtdPhase - transitionPoint - 1 + clockPeriod)
      (by omega) (by omega), toInt32_of_range (by omega) (by omega)]
    omega
  · omega
  · rw [toInt32_of_range (by omega) (by omega)]
    omega
  · rw [toInt32_of_range (by omega) (by omega)]
    omega

include least whole period_int transition_low transition_high dmtd_low dmtd_high in
/-- The nanoseconds of a normalised time move by the ticks of the correction. -/
theorem linearizeRxTimestamp_nsec (trip_int : transitionPoint + clockPeriod / 4 < 2 ^ 31)
    {ts : WrTstamp} (nsec_low : 0 ≤ ts.nsec) (nsec_high : ts.nsec < 10 ^ 9) (cntrAhead : Int) :
    (linearizeRxTimestamp ts dmtdPhase cntrAhead transitionPoint clockPeriod).nsec =
      ts.nsec + tickCorrection transitionPoint clockPeriod (clockPeriod - 1 - dmtdPhase) cntrAhead *
        (clockPeriod / 1000) := by
  -- the distance that the code folds at the clock period
  have near := insideRange_near least whole period_int transition_low transition_high trip_int
    (clockPeriod - 1 - dmtdPhase) (by omega) (by omega)
  have before := insideRange_before least period_int transition_low transition_high
    (clockPeriod - 1 - dmtdPhase) (by omega) (by omega)
  simp only [linearizeRxTimestamp, tickCorrection]
  rw [toInt32_of_range (x := clockPeriod - 1 - dmtdPhase) (by omega) (by omega)]
  simp only [near, before]
  -- only near the transition is the falling edge consulted
  by_cases reliable : NearTransition transitionPoint clockPeriod (clockPeriod - 1 - dmtdPhase)
  · simp only [if_pos reliable]
    split_ifs with behind ahead ahead
    · rw [toInt32_of_range (x := ts.nsec - clockPeriod / 1000) (by omega) (by omega),
        toInt32_of_range (by omega) (by omega)]
      omega
    · rw [toInt32_of_range (x := ts.nsec - 0) (by omega) (by omega),
        toInt32_of_range (by omega) (by omega)]
      omega
    · rw [toInt32_of_range (by omega) (by omega)]
      omega
    · rw [toInt32_of_range (by omega) (by omega)]
      omega
  · simp [if_neg reliable]

end Capture

/-! ### Timestamps -/

include least whole period_int transition_low transition_high in
/-- The phase turns by the transition point, and near the transition the nanoseconds lose the tick
that the counter is ahead and gain one before it. Two captures of one instant agree. The seconds
stay, so the nanoseconds may leave their second by a tick on either side. -/
theorem linearizeRxTimestamp_spec (trip_int : transitionPoint + clockPeriod / 4 < 2 ^ 31)
    (dmtdPhase : Int) (dmtd_low : 0 ≤ dmtdPhase) (dmtd_high : dmtdPhase < clockPeriod)
    (ts : WrTstamp) (nsec_low : 0 ≤ ts.nsec) (nsec_high : ts.nsec < 10 ^ 9) (cntrAhead : Int) :
    let linear := fun (ts : WrTstamp) (ahead : Int) =>
      linearizeRxTimestamp ts dmtdPhase ahead transitionPoint clockPeriod
    let phase := clockPeriod - 1 - dmtdPhase
    ((linear ts cntrAhead).phase = (dmtdPhase + transitionPoint + 1) % clockPeriod ∧
      0 ≤ (linear ts cntrAhead).phase ∧ (linear ts cntrAhead).phase < clockPeriod) ∧
    ((linear ts cntrAhead).sec = ts.sec ∧
      (linear ts cntrAhead).nsec = ts.nsec +
        tickCorrection transitionPoint clockPeriod phase cntrAhead * (clockPeriod / 1000) ∧
      (¬NearTransition transitionPoint clockPeriod phase →
        (linear ts cntrAhead).nsec = ts.nsec)) ∧
    (-(clockPeriod / 1000) ≤ (linear ts cntrAhead).nsec ∧
      (linear ts cntrAhead).nsec < 10 ^ 9 + clockPeriod / 1000) ∧
    (NearTransition transitionPoint clockPeriod phase → ∀ tsAhead : WrTstamp,
      0 ≤ tsAhead.nsec → tsAhead.nsec < 10 ^ 9 →
      tsAhead.instant = ts.instant + clockPeriod / 1000 →
      (linear tsAhead 1).instant = (linear ts 0).instant ∧
        (linear tsAhead 1).phase = (linear ts 0).phase ∧
        (tsAhead.sec = ts.sec → linear tsAhead 1 = linear ts 0)) := by
  intro linear phase
  have turned (ts : WrTstamp) (ahead : Int) :
      (linear ts ahead).phase = (dmtdPhase + transitionPoint + 1) % clockPeriod :=
    linearizeRxTimestamp_phase least period_int transition_low transition_high dmtd_low dmtd_high
      ts ahead
  have moved {ts : WrTstamp} (low : 0 ≤ ts.nsec) (high : ts.nsec < 10 ^ 9) (ahead : Int) :
      (linear ts ahead).nsec = ts.nsec +
        tickCorrection transitionPoint clockPeriod phase ahead * (clockPeriod / 1000) :=
    linearizeRxTimestamp_nsec least whole period_int transition_low transition_high dmtd_low
      dmtd_high trip_int low high ahead
  have stays (ts : WrTstamp) (ahead : Int) : (linear ts ahead).sec = ts.sec := rfl
  refine ⟨⟨turned ts cntrAhead, ?_, ?_⟩, ⟨rfl, moved nsec_low nsec_high cntrAhead, ?_⟩, ?_, ?_⟩
  · rw [turned ts cntrAhead]
    exact Int.emod_nonneg _ (by omega)
  · rw [turned ts cntrAhead]
    exact Int.emod_lt_of_pos _ (by omega)
  · intro far
    rw [moved nsec_low nsec_high cntrAhead, tickCorrection_eq_zero far]
    omega
  · have range := tickCorrection_range transitionPoint clockPeriod phase cntrAhead
    rw [moved nsec_low nsec_high cntrAhead]
    obtain minus | none | plus :
        tickCorrection transitionPoint clockPeriod phase cntrAhead = -1 ∨
          tickCorrection transitionPoint clockPeriod phase cntrAhead = 0 ∨
          tickCorrection transitionPoint clockPeriod phase cntrAhead = 1 := by omega
    · rw [minus]
      omega
    · rw [none]
      omega
    · rw [plus]
      omega
  · intro near tsAhead ahead_low ahead_high same
    have late := moved ahead_low ahead_high 1
    have early := moved nsec_low nsec_high 0
    -- the tick that the counter is ahead is the one that the correction lacks
    rw [tickCorrection_ahead near Int.one_ne_zero, Int.sub_mul, Int.one_mul] at late
    have phases := (turned tsAhead 1).trans (turned ts 0).symm
    simp only [WrTstamp.instant] at same
    refine ⟨?_, phases, ?_⟩
    · simp only [WrTstamp.instant, stays]
      omega
    · intro second
      have nsecs : (linear tsAhead 1).nsec = (linear ts 0).nsec := by omega
      have secs : (linear tsAhead 1).sec = (linear ts 0).sec := second
      calc linear tsAhead 1
          = ⟨(linear tsAhead 1).sec, (linear tsAhead 1).nsec, (linear tsAhead 1).phase,
              dmtdPhase⟩ := rfl
        _ = ⟨(linear ts 0).sec, (linear ts 0).nsec, (linear ts 0).phase, dmtdPhase⟩ := by
          rw [secs, nsecs, phases]

end Period

/-- The same instant as nanoseconds beyond a second and as those of the next second. -/
theorem linearizeRxTimestamp_gigabit :
    (linearizeRxTimestamp ⟨7, 10 ^ 9 - 4, 0, 0⟩ 8010 0 8000 16000).nsec = 10 ^ 9 + 12 ∧
      (linearizeRxTimestamp ⟨8, 12, 0, 0⟩ 8010 1 8000 16000).instant =
        (linearizeRxTimestamp ⟨7, 10 ^ 9 - 4, 0, 0⟩ 8010 0 8000 16000).instant := by
  refine ⟨by decide, ?_⟩
  exact ((linearizeRxTimestamp_spec (by decide) (by decide) (by decide) (by decide) (by decide)
    (by decide) 8010 (by decide) (by decide) ⟨7, 10 ^ 9 - 4, 0, 0⟩ (by decide) (by decide) 0).2.2.2
    (by decide) ⟨8, 12, 0, 0⟩ (by decide) (by decide) (by decide)).1

/-- A tick taken from the start of a second is not borrowed from it, and with a period near the
largest `int` the upper end of the range is lost, so that a phase next to the transition is left
alone. -/
theorem tick_not_borrowed :
    linearizeRxTimestamp ⟨5, 0, 0, 0⟩ 15998 1 0 16000 = ⟨5, -16, 15999, 15998⟩ ∧
      NearTransition 2147479999 2147480000 0 ∧
      ¬BeforeTransition 2147479999 2147480000 0 ∧
      linearizeRxTimestamp ⟨5, 500000000, 0, 0⟩ 2147479999 1 2147479999 2147480000 =
        ⟨5, 500000000, 2147479999, 2147479999⟩ := by
  decide

end WrSwitch.Libwr
