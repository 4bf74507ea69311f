import WrSwitch.Hal.Timers
import WrSwitch.Machine.Run

/-!
# Periodic timeouts

A timeout that repeats stays on the grid of its start and its period, however late it is polled.
It does so as long as the grid has a period and its next point is a number of 64 bits.
-/
namespace WrSwitch.Hal

open Machine

/-! ### The loop that catches up -/

/-- The loop goes on up to the last point of the grid before now. -/
theorem Tmo.catchUp_eq (time n left : Nat) (tmo : Tmo)
    (behind : tmo.startTics + n * tmo.timeout < time)
    (reached : time ≤ tmo.startTics + (n + 1) * tmo.timeout)
    (fits : tmo.startTics + (n + 1) * tmo.timeout < 2 ^ 64) (enough : n < left) :
    Tmo.catchUp time left tmo =
      some { tmo with startTics := tmo.startTics + n * tmo.timeout } := by
  induction n generalizing left tmo with
  | zero =>
    obtain ⟨left, rfl⟩ : ∃ m, left = m + 1 := ⟨left - 1, by omega⟩
    have stop : tmo.stop = tmo.startTics + tmo.timeout := Nat.mod_eq_of_lt (by omega)
    rw [Tmo.catchUp, if_neg (by omega), Nat.zero_mul, Nat.add_zero]
  | succ n ih =>
    obtain ⟨left, rfl⟩ : ∃ m, left = m + 1 := ⟨left - 1, by omega⟩
    simp only [Nat.succ_mul] at behind reached fits ih
    have stop : tmo.stop = tmo.startTics + tmo.timeout := Nat.mod_eq_of_lt (by omega)
    rw [Tmo.catchUp, if_pos (by omega), ih left _ (by dsimp only; omega) (by dsimp only; omega)
      (by dsimp only; omega) (by omega)]
    simp only [Option.some.injEq, Tmo.mk.injEq, true_and, and_true, Nat.succ_mul, stop]
    omega

/-- Without a period the loop does not end. -/
theorem Tmo.catchUp_stuck (time left : Nat) (tmo : Tmo) (late : tmo.startTics < time)
    (small : time < 2 ^ 64) (still : tmo.timeout = 0) : Tmo.catchUp time left tmo = none := by
  have stop : tmo.stop = tmo.startTics := by
    rw [Tmo.stop, still, Nat.add_zero, Nat.mod_eq_of_lt (by omega)]
  induction left with
  | zero => rfl
  | succ left ih =>
    rw [Tmo.catchUp, if_pos (by omega), stop]
    exact ih

private theorem Tmo.catchUp_exit (time left : Nat) (tmo tmo' : Tmo)
    (ended : Tmo.catchUp time left tmo = some tmo') : ¬time > tmo'.stop := by
  induction left generalizing tmo with
  | zero => cases ended
  | succ left ih =>
    rw [Tmo.catchUp] at ended
    split_ifs at ended with late
    · exact ih _ ended
    · cases ended
      exact late

/-! ### One poll -/

/-- What a poll at a time is to return and to leave. -/
structure OnSchedule (time : Nat) (tmo : Tmo) (expired : Bool) (tmo' : Tmo) : Prop where
  expired_iff : expired = true ↔ tmo.startTics + tmo.timeout < time
  kept : tmo'.timeout = tmo.timeout ∧ tmo'.repeats = tmo.repeats
  /-- A timeout that does not expire, or does not repeat, is not moved. -/
  still : expired = false ∨ tmo.repeats = false → tmo'.startTics = tmo.startTics
  periods : ∃ k, tmo'.startTics = tmo.startTics + k * tmo.timeout
  /-- The new start is the last point of the grid before now. -/
  latest : tmo.repeats = true →
    time ≤ tmo'.startTics + tmo.timeout ∧ (tmo.startTics < time → tmo'.startTics < time)
  /-- The end of the period that is counted is not ahead of the new start. -/
  once : expired = true → tmo.repeats = true → tmo.startTics + tmo.timeout ≤ tmo'.startTics

/-- The poll returns, and what it returns and leaves is right. -/
def PollsRight (time : Nat) (tmo : Tmo) : Prop :=
  ∃ expired tmo', libwrTmoExpired time tmo = some (expired, tmo') ∧
    OnSchedule time tmo expired tmo'

/-- The first point of the grid that is not before a time; not the start. -/
def Tmo.boundary (tmo : Tmo) (time : Nat) : Nat :=
  tmo.startTics + ((time - tmo.startTics - 1) / tmo.timeout + 1) * tmo.timeout

/-- A timeout that repeats has a period, or is polled at its very start, and the end of the period
is a number of 64 bits. -/
structure PollOk (time : Nat) (tmo : Tmo) : Prop where
  advances : tmo.repeats = true → tmo.timeout = 0 → time ≤ tmo.startTics
  fits : (if tmo.repeats then tmo.boundary time else tmo.startTics + tmo.timeout) < 2 ^ 64

instance (time : Nat) (tmo : Tmo) : Decidable (PollOk time tmo) :=
  decidable_of_iff
    ((tmo.repeats = true → tmo.timeout = 0 → time ≤ tmo.startTics) ∧
      (if tmo.repeats then tmo.boundary time else tmo.startTics + tmo.timeout) < 2 ^ 64)
    ⟨fun ok => ⟨ok.1, ok.2⟩, fun ok => ⟨ok.advances, ok.fits⟩⟩

/-- A timeout whose end wraps around is taken for expired. -/
theorem expired_of_wrap {time : Nat} {tmo : Tmo} (started : tmo.startTics ≤ time)
    (period : tmo.timeout < 2 ^ 64) (small : time < 2 ^ 64)
    (wraps : 2 ^ 64 ≤ tmo.startTics + tmo.timeout) : ¬PollsRight time tmo := by
  rintro ⟨expired, tmo', returned, right⟩
  have late : time > tmo.stop := by
    rw [Tmo.stop, Nat.mod_eq_sub_mod wraps, Nat.mod_eq_of_lt (by omega)]
    omega
  have early : expired = false := by
    rw [← Bool.not_eq_true, right.expired_iff]
    omega
  rw [libwrTmoExpired, if_pos late] at returned
  split_ifs at returned with repeats
  · obtain ⟨_, -, equal⟩ := Option.map_eq_some_iff.mp returned
    cases equal
    cases early
  · cases returned
    cases early

private theorem pollsRight_oneShot {time : Nat} {tmo : Tmo} (once : tmo.repeats = false)
    (fits : tmo.startTics + tmo.timeout < 2 ^ 64) : PollsRight time tmo := by
  have stop : tmo.stop = tmo.startTics + tmo.timeout := Nat.mod_eq_of_lt fits
  refine ⟨decide (time > tmo.stop), tmo, ?_, ?_, ⟨rfl, rfl⟩, fun _ => rfl, ⟨0, by simp⟩,
    fun repeats => ?_, fun _ repeats => ?_⟩
  · rw [libwrTmoExpired, once]
    by_cases late : time > tmo.stop
    · rw [if_pos late, decide_eq_true late]
      rfl
    · rw [if_neg late, decide_eq_false late]
  · rw [decide_eq_true_iff, stop]
  all_goals
    rw [once] at repeats
    cases repeats

private theorem pollsRight_early {time : Nat} {tmo : Tmo}
    (early : time ≤ tmo.startTics + tmo.timeout)
    (fits : tmo.startTics + tmo.timeout < 2 ^ 64) : PollsRight time tmo := by
  have stop : tmo.stop = tmo.startTics + tmo.timeout := Nat.mod_eq_of_lt fits
  refine ⟨false, tmo, ?_, ?_, ⟨rfl, rfl⟩, fun _ => rfl, ⟨0, by simp⟩, fun _ => ⟨early, id⟩,
    fun expired => by cases expired⟩
  · rw [libwrTmoExpired, if_neg (by omega)]
  · exact iff_of_false (by decide) (by omega)

/-- A late poll of a timeout that repeats. -/
theorem pollsRight_late_iff {time : Nat} {tmo : Tmo} (repeats : tmo.repeats = true)
    (period : 0 < tmo.timeout) (small : time < 2 ^ 64) (late : tmo.startTics + tmo.timeout < time) :
    PollsRight time tmo ↔ tmo.boundary time < 2 ^ 64 := by
  have stop : tmo.stop = tmo.startTics + tmo.timeout := Nat.mod_eq_of_lt (by omega)
  have split := Nat.div_add_mod (time - tmo.startTics - 1) tmo.timeout
  have rest := Nat.mod_lt (time - tmo.startTics - 1) period
  rw [Nat.mul_comm] at split
  constructor
  · rintro ⟨expired, tmo', returned, right⟩
    -- the start that is asked for is the last point before now, where the loop does not end
    obtain ⟨k, moved⟩ := right.periods
    obtain ⟨reached, before⟩ := right.latest repeats
    have behind := before (by omega)
    rw [moved] at reached behind
    have turns : (time - tmo.startTics - 1) / tmo.timeout = k := by
      refine Nat.div_eq_of_lt_le (by omega) ?_
      rw [Nat.succ_mul]
      omega
    rw [Tmo.boundary, turns, Nat.succ_mul, ← Nat.add_assoc]
    by_contra wraps
    rw [libwrTmoExpired, if_pos (stop ▸ late), if_pos repeats] at returned
    obtain ⟨tmo'', ended, equal⟩ := Option.map_eq_some_iff.mp returned
    cases equal
    have exit := Tmo.catchUp_exit time _ tmo tmo' ended
    rw [Tmo.stop, right.kept.1, moved, Nat.mod_eq_sub_mod (by omega)] at exit
    have least := Nat.mod_le (tmo.startTics + k * tmo.timeout + tmo.timeout - 2 ^ 64) (2 ^ 64)
    omega
  · intro fits
    rw [Tmo.boundary, Nat.succ_mul] at fits
    generalize (time - tmo.startTics - 1) / tmo.timeout = n at split fits
    have turns : n ≤ n * tmo.timeout := Nat.le_mul_of_pos_right n period
    have some : 0 < n := by
      by_contra none
      rw [Nat.eq_zero_of_not_pos none, Nat.zero_mul] at split
      omega
    have moved : tmo.timeout ≤ n * tmo.timeout := Nat.le_mul_of_pos_left tmo.timeout some
    refine ⟨true, { tmo with startTics := tmo.startTics + n * tmo.timeout }, ?_, ?_, ⟨rfl, rfl⟩,
      fun still => ?_, ⟨n, rfl⟩, fun _ => ⟨by dsimp only; omega, fun _ => by dsimp only; omega⟩,
      fun _ _ => by dsimp only; omega⟩
    · rw [libwrTmoExpired, if_pos (stop ▸ late), if_pos repeats,
        Tmo.catchUp_eq time n (2 ^ 64) tmo (by omega) (by rw [Nat.succ_mul]; omega)
          (by rw [Nat.succ_mul]; omega) (by omega)]
      rfl
    · exact iff_of_true rfl late
    · rw [repeats] at still
      rcases still with still | still <;> cases still

/-- A poll is right exactly if it meets the condition. -/
theorem pollsRight_iff {time : Nat} {tmo : Tmo} (started : tmo.startTics ≤ time)
    (period : tmo.timeout < 2 ^ 64) (small : time < 2 ^ 64) :
    PollsRight time tmo ↔ PollOk time tmo := by
  by_cases wraps : 2 ^ 64 ≤ tmo.startTics + tmo.timeout
  · refine iff_of_false (expired_of_wrap started period small wraps) fun ok => ?_
    have fits := ok.fits
    unfold Tmo.boundary at fits
    split_ifs at fits
    · rw [Nat.succ_mul] at fits
      omega
    · omega
  have fits : tmo.startTics + tmo.timeout < 2 ^ 64 := Nat.lt_of_not_le wraps
  -- a one-shot timeout is never moved
  cases repeats : tmo.repeats with
  | false =>
    refine iff_of_true (pollsRight_oneShot repeats fits) ⟨fun again => ?_, ?_⟩
    · rw [repeats] at again
      cases again
    · rw [repeats]
      exact fits
  | true =>
    by_cases late : tmo.startTics + tmo.timeout < time
    · rcases Nat.eq_zero_or_pos tmo.timeout with still | positive
      · have stuck := Tmo.catchUp_stuck time (2 ^ 64) tmo (by omega) small still
        have stop : tmo.stop = tmo.startTics + tmo.timeout := Nat.mod_eq_of_lt fits
        refine iff_of_false ?_ fun ok => absurd (ok.advances repeats still) (by omega)
        rintro ⟨expired, tmo', returned, -⟩
        rw [libwrTmoExpired, if_pos (stop ▸ late), if_pos repeats, stuck] at returned
        cases returned
      · rw [pollsRight_late_iff repeats positive small late]
        constructor
        · exact fun below => ⟨fun _ still => absurd still (by omega), by rwa [if_pos repeats]⟩
        · intro ok
          have below := ok.fits
          rwa [if_pos repeats] at below
    -- not expired: the first point of the grid is the end of the period
    · refine iff_of_true (pollsRight_early (Nat.le_of_not_lt late) fits)
        ⟨fun _ still => by omega, ?_⟩
      have first : (time - tmo.startTics - 1) / tmo.timeout = 0 := by
        rcases Nat.eq_zero_or_pos tmo.timeout with still | positive
        · rw [still, Nat.div_zero]
        · exact Nat.div_eq_of_lt (by omega)
      rw [if_pos repeats, Tmo.boundary, first, Nat.zero_add, Nat.one_mul]
      exact fits

/-! ### Runs -/

inductive TmoCall
  | init (milliseconds : BitVec 32) (repeats : Bool)
  | restart
  | expired
deriving DecidableEq, Repr

/-- A timeout and the last reading of the clock. -/
structure Clocked where
  tmo : Tmo
  last : Nat
deriving DecidableEq, Repr

/-- The timeout was started at a reading of the clock; its numbers have 64 bits. -/
structure Clocked.Inv (s : Clocked) : Prop where
  started : s.tmo.startTics ≤ s.last
  period : s.tmo.timeout < 2 ^ 64

/-- What the poll leaves; what it worked on if it does not return. -/
def Tmo.polled (tmo : Tmo) (time : Nat) : Tmo := ((libwrTmoExpired time tmo).map Prod.snd).getD tmo

/-- The call reads the clock once. -/
def Clocked.step (s : Clocked) : Nat × TmoCall → Clocked
  | (time, .init milliseconds repeats) => ⟨libwrTmoInit time milliseconds.toNat repeats, time⟩
  | (time, .restart) => ⟨libwrTmoRestart time s.tmo, time⟩
  | (time, .expired) => ⟨s.tmo.polled time, time⟩

/-- The clock is monotonic. -/
def Clocked.InOrder (s : Clocked) (call : Nat × TmoCall) : Prop :=
  s.last ≤ call.1 ∧ call.1 < 2 ^ 64

instance (s : Clocked) (call : Nat × TmoCall) : Decidable (s.InOrder call) :=
  inferInstanceAs (Decidable (s.last ≤ call.1 ∧ call.1 < 2 ^ 64))

/-- A poll is to return and to be right. -/
def Clocked.Kept (s : Clocked) (call : Nat × TmoCall) : Prop :=
  call.2 = .expired → PollsRight call.1 s.tmo

def Clocked.CallOk (s : Clocked) (call : Nat × TmoCall) : Prop :=
  call.2 = .expired → PollOk call.1 s.tmo

instance (s : Clocked) (call : Nat × TmoCall) : Decidable (s.CallOk call) :=
  inferInstanceAs (Decidable (call.2 = .expired → PollOk call.1 s.tmo))

/-- The loop moves the start to times before now only, even where the sum wraps around. -/
theorem Tmo.catchUp_started (time left : Nat) (tmo tmo' : Tmo) (started : tmo.startTics ≤ time)
    (ended : Tmo.catchUp time left tmo = some tmo') :
    tmo'.startTics ≤ time ∧ tmo'.timeout = tmo.timeout := by
  induction left generalizing tmo with
  | zero => cases ended
  | succ left ih =>
    rw [Tmo.catchUp] at ended
    split_ifs at ended with late
    · exact ih { tmo with startTics := tmo.stop } (Nat.le_of_lt late) ended
    · cases ended
      exact ⟨started, rfl⟩

private theorem Tmo.polled_started (time : Nat) (tmo : Tmo) (started : tmo.startTics ≤ time) :
    (tmo.polled time).startTics ≤ time ∧ (tmo.polled time).timeout = tmo.timeout := by
  rw [Tmo.polled, libwrTmoExpired]
  split_ifs with late repeats
  · cases ended : Tmo.catchUp time (2 ^ 64) tmo with
    | none => exact ⟨started, rfl⟩
    | some tmo' => exact Tmo.catchUp_started time _ tmo tmo' started ended
  · exact ⟨started, rfl⟩
  · exact ⟨started, rfl⟩

/-- No call moves a timer past the clock. -/
theorem Clocked.step_inv (s : Clocked) (call : Nat × TmoCall) (holds : s.Inv)
    (inOrder : s.InOrder call) : (s.step call).Inv := by
  obtain ⟨time, call⟩ := call
  cases call with
  | init milliseconds repeats =>
    have bound := milliseconds.isLt
    refine ⟨Nat.le_refl _, ?_⟩
    change milliseconds.toNat * 1000 < 2 ^ 64
    omega
  | restart => exact ⟨Nat.le_refl _, holds.period⟩
  | expired =>
    have moved := Tmo.polled_started time s.tmo (Nat.le_trans holds.started inOrder.1)
    exact ⟨moved.1, moved.2 ▸ holds.period⟩

/-- In a run of starts, restarts and polls at readings of the clock, all polls return and are
right exactly if each of them meets the condition. -/
theorem Clocked.run_kept_iff (s : Clocked) (holds : s.Inv) (calls : List (Nat × TmoCall))
    (inOrder : Along Clocked.InOrder Clocked.step s calls) :
    Along Clocked.Kept Clocked.step s calls ↔ Along Clocked.CallOk Clocked.step s calls := by
  refine Along.congr_inv_of Clocked.Inv (fun s call holds inOrder _ =>
    Clocked.step_inv s call holds inOrder) (fun s call holds inOrder => ?_) holds inOrder
  -- both sides ask something of the polls only
  refine forall_congr' fun _ => ?_
  exact pollsRight_iff (Nat.le_trans holds.started inOrder.1) holds.period inOrder.2

/-- A period of ten milliseconds; the second poll is late by more than a period. -/
theorem Clocked.run_kept_late_poll :
    Along Clocked.Kept Clocked.step ⟨⟨true, 0, 0⟩, 0⟩
      [(0, .init 10 true), (9000, .expired), (35000, .expired), (40001, .expired)] :=
  (Clocked.run_kept_iff ⟨⟨true, 0, 0⟩, 0⟩ ⟨by decide, by decide⟩ _ (by decide)).mpr (by decide)

/-- `libwr_tmo_init` takes a period of zero, and the next poll does not end. -/
theorem zero_period_never_returns :
    ¬Along Clocked.Kept Clocked.step ⟨⟨true, 0, 0⟩, 0⟩ [(0, .init 0 true), (1, .expired)] := by
  rintro ⟨-, kept, -⟩
  obtain ⟨expired, tmo, returned, -⟩ := kept rfl
  have stuck : Tmo.catchUp 1 (2 ^ 64) ⟨true, 0, 0⟩ = none :=
    Tmo.catchUp_stuck 1 (2 ^ 64) ⟨true, 0, 0⟩ (by decide) (by decide) rfl
  have none : libwrTmoExpired 1 ⟨true, 0, 0⟩ = none := by
    rw [libwrTmoExpired, if_pos (by decide), if_pos rfl, stuck]
    rfl
  exact Option.some_ne_none _ (returned.symm.trans none)

/-! ### What is counted -/

/-- How many of the polls return 1. -/
def Tmo.expiries (tmo : Tmo) : List Nat → Nat
  | [] => 0
  | time :: times =>
    (if (libwrTmoExpired time tmo).map Prod.fst = some true then 1 else 0) +
      (tmo.polled time).expiries times

private theorem OnSchedule.periods_counted {time : Nat} {tmo tmo' : Tmo} {expired : Bool}
    (right : OnSchedule time tmo expired tmo') (repeats : tmo.repeats = true)
    (period : 0 < tmo.timeout) :
    ∃ k, tmo'.startTics = tmo.startTics + k * tmo.timeout ∧ (if expired then 1 else 0) ≤ k := by
  obtain ⟨k, moved⟩ := right.periods
  refine ⟨k, moved, ?_⟩
  split
  next counted =>
    have ahead := right.once counted repeats
    rw [moved] at ahead
    exact Nat.pos_of_mul_pos_right (Nat.lt_of_lt_of_le period (Nat.le_of_add_le_add_left ahead))
  next => exact Nat.zero_le k

/-- However late the polls are, there are no more expiries than periods by which the start has
moved. -/
theorem Tmo.expiries_le (tmo : Tmo) (repeats : tmo.repeats = true) (period : 0 < tmo.timeout)
    (times : List Nat) (kept : Along (fun tmo time => PollsRight time tmo) Tmo.polled tmo times) :
    ∃ k, (run Tmo.polled tmo times).startTics = tmo.startTics + k * tmo.timeout ∧
      tmo.expiries times ≤ k := by
  induction times generalizing tmo with
  | nil => exact ⟨0, by rw [run_nil, Nat.zero_mul, Nat.add_zero], Nat.le_refl 0⟩
  | cons time times ih =>
    obtain ⟨⟨expired, tmo', returned, right⟩, rest⟩ := kept
    have polled : tmo.polled time = tmo' := by rw [Tmo.polled, returned]; rfl
    rw [polled] at rest
    obtain ⟨k, moved, counted⟩ := right.periods_counted repeats period
    obtain ⟨n, movedOn, countedOn⟩ :=
      ih tmo' (right.kept.2 ▸ repeats) (right.kept.1 ▸ period) rest
    refine ⟨k + n, ?_, ?_⟩
    · rw [run_cons, polled, movedOn, right.kept.1, moved, Nat.add_mul, Nat.add_assoc]
    · rw [Tmo.expiries, returned, polled]
      simp only [Option.map_some, Option.some.injEq]
      omega

end WrSwitch.Hal
