import Mathlib.Tactic.SplitIfs
import WrSwitch.Snmp.StatusGroups

/-!
# Errors that the status groups report

`wrsRTUStatus` is compared with the table whenever the table was read again. `wrsPTPStatus` is
evaluated only when two tables are newer than the last update, and every update moves that
time forward: a table can be read again and never be compared.
-/
namespace WrSwitch.Snmp

open Machine

/-! ### What has to be reported -/

/-- A call of `wrsTimingStatus_data_fill` that returns a new time, with the SoftPLL a slave,
reports every error counter that differs from the last evaluation. A call of
`wrsNetworkingStatus_data_fill` that returns a new time reports every drop counter that
differs from the last comparison. -/
def Reports (s : Agent) : Request → Prop
  | .timing c =>
    let s' := step s (.timing c)
    s'.timing.timeUpdate ≠ s.timing.timeUpdate → s'.spllMode.value = wrsSpllModeSlave →
      ∀ seen ∈ s.evaluated,
        (∃ i, (s'.ptpData.value.rows i).errCounters ≠ (seen.2.rows i).errCounters) →
        s'.timing.wrsPTPStatus = wrsPtpStatusError
  | .networking c =>
    let s' := step s (.networking c)
    s'.networking.timeUpdate ≠ s.networking.timeUpdate →
      ∀ seen ∈ s.compared, (∃ i, s'.pstats.value i ≠ seen i) →
        s'.networking.wrsRTUStatus = wrsRtuStatusError
  | _ => True

instance (s : Agent) : ∀ e, Decidable (Reports s e)
  | .timing c => inferInstanceAs (Decidable ((step s (.timing c)).timing.timeUpdate ≠ _ → _ = _ →
      ∀ seen ∈ s.evaluated, (∃ _ : Fin _, _) → _ = wrsPtpStatusError))
  | .networking c => inferInstanceAs (Decidable
      ((step s (.networking c)).networking.timeUpdate ≠ _ →
        ∀ seen ∈ s.compared, (∃ _ : Fin _, _) → _ = wrsRtuStatusError))
  | .ptpData _ _ | .spll _ _ | .portStatus _ _ | .ptpInstance _ | .currentTime _
  | .pstats _ _ => isTrue trivial

/-- A call of `wrsTimingStatus_data_fill` that updates either finds the data table of the last
evaluation, or evaluates. -/
def Evaluates (s : Agent) : Request → Prop
  | .timing c =>
    let refreshed := (s.timingRefresh c).1
    refreshed.TimingCached ∨ (∀ seen ∈ s.evaluated, refreshed.ptpData.time = seen.1) ∨
      refreshed.PtpNewer
  | _ => True

instance (s : Agent) : ∀ e, Decidable (Evaluates s e)
  | .timing c => inferInstanceAs (Decidable (Agent.TimingCached _ ∨
      (∀ seen ∈ s.evaluated, (s.timingRefresh c).1.ptpData.time = seen.1) ∨ _))
  | .ptpData _ _ | .spll _ _ | .portStatus _ _ | .ptpInstance _ | .currentTime _
  | .pstats _ _ | .networking _ => isTrue trivial

/-! ### The ends of a call -/

/-- The state a call leaves that returned a new time. -/
def Agent.timed (s : Agent) (doneAt : Nat) : Agent :=
  { s with timing := { s.timing with timeUpdate := doneAt }, clock := doneAt }

/-- A call returns the old time, or evaluates, or moves the time without an evaluation. -/
theorem wrsTimingStatusDataFill_cases (s : Agent) (c : TimingCall) :
    let refreshed := s.timingRefresh c
    (refreshed.1.TimingCached ∧ wrsTimingStatusDataFill s c = refreshed.1) ∨
    (refreshed.1.PtpNewer ∧ wrsTimingStatusDataFill s c =
      (getWrsPTPStatus refreshed.1 refreshed.2.1 refreshed.2.2).timed c.doneAt) ∨
    (¬ refreshed.1.TimingCached ∧ ¬ refreshed.1.PtpNewer ∧
      wrsTimingStatusDataFill s c = refreshed.1.timed c.doneAt) := by
  simp only [wrsTimingStatusDataFill]
  split_ifs with cached newer
  · exact Or.inl ⟨cached, rfl⟩
  · exact Or.inr (Or.inl ⟨newer, rfl⟩)
  · exact Or.inr (Or.inr ⟨cached, newer, rfl⟩)

/-- The state a call of the networking group leaves that returned a new time. -/
def Agent.judged (s : Agent) (doneAt : Nat) : Agent :=
  { s with
    networking := ⟨doneAt, s.pstats.time, s.rtuStatus, s.pstats.value⟩
    clock := doneAt
    compared := if s.PstatsNewer then some s.pstats.value else s.compared }

private theorem wrsNetworkingStatusDataFill_cases (s : Agent) (c : NetworkingCall) :
    wrsNetworkingStatusDataFill s c = s.networkingRefresh c ∨
      wrsNetworkingStatusDataFill s c = (s.networkingRefresh c).judged c.doneAt := by
  by_cases cached : (s.networkingRefresh c).NetworkingCached
  · exact Or.inl (if_pos cached)
  · exact Or.inr (if_neg cached)

/-! ### The data table between two evaluations -/

structure PtpSound (s : Agent) : Prop where
  past : s.ptpData.time ≤ s.clock
  rows : s.ptpData.time ≠ 0 → s.ptpData.value.nRowsLocal = wrsMaxNServoInstances
  unevaluated : s.evaluated = none → ∀ i, s.timing.errCountersPrev i = ⟨0, 0, 0⟩
  evaluated : ∀ seen ∈ s.evaluated, 0 < seen.1 ∧ s.ptpData.Saw seen.1 seen.2 ∧
    s.timing.firstRun = false ∧
    ∀ i, s.timing.errCountersPrev i = (seen.2.rows i).errCounters

theorem PtpSound.initial : PtpSound Agent.initial where
  past := Nat.le_refl 0
  rows := fun read => absurd rfl read
  unevaluated := fun _ _ => rfl
  evaluated := fun _ none => absurd none (Option.not_mem_none _)

theorem PtpSound.frame {s s' : Agent} (sound : PtpSound s) (table : s'.ptpData = s.ptpData)
    (first : s'.timing.firstRun = s.timing.firstRun)
    (prev : s'.timing.errCountersPrev = s.timing.errCountersPrev)
    (ghost : s'.evaluated = s.evaluated) (forward : s.clock ≤ s'.clock) : PtpSound s' where
  past := table ▸ sound.past.trans forward
  rows := table ▸ sound.rows
  unevaluated := by
    rw [ghost, prev]
    exact sound.unevaluated
  evaluated := by
    rw [ghost, prev, first, table]
    exact sound.evaluated

/-- Reading the servos again keeps the counts of errors. -/
theorem PtpSound.refresh {s : Agent} (sound : PtpSound s) {now : Nat} (forward : s.clock ≤ now)
    (ppsi : Option PtpRows) : PtpSound (wrsPtpDataTableDataFill s now ppsi).1 where
  past := Cache.time_refresh_le (sound.past.trans forward) _
  rows := by
    intro read
    simp only [wrsPtpDataTableDataFill] at read ⊢
    by_cases due : s.ptpData.Due wrsPtpDataTableCacheTimeout now
    · rw [Cache.refresh_due due]
      cases ppsi <;> rfl
    · rw [Cache.refresh_fresh due] at read ⊢
      exact sound.rows read
  unevaluated := sound.unevaluated
  evaluated := by
    intro seen member
    obtain ⟨read, saw, first, prev⟩ := sound.evaluated seen member
    exact ⟨read, saw.refresh read (by decide) (sound.past.trans forward) _, first, prev⟩

/-- The number of rows falls short of the table only at its first reading, when that fails. -/
theorem ptpDataNrows_cases {s : Agent} (sound : PtpSound s) (now : Nat)
    (ppsi : Option PtpRows) :
    (wrsPtpDataTableDataFill s now ppsi).2 = wrsMaxNServoInstances ∨
      s.evaluated = none ∧
        ∀ i, (wrsPtpDataTableDataFill s now ppsi).1.ptpData.value.rows i = .cleared := by
  simp only [wrsPtpDataTableDataFill]
  by_cases due : s.ptpData.Due wrsPtpDataTableCacheTimeout now
  · cases ppsi with
    | some rows => exact Or.inl (if_pos ⟨due, rfl⟩)
    | none =>
      -- without an answer the rows are those of the last time, or were never read
      by_cases never : s.ptpData.time = 0
      · refine Or.inr ⟨?_, fun i => ?_⟩
        · cases ghost : s.evaluated with
          | none => rfl
          | some seen =>
            obtain ⟨read, saw, -⟩ := sound.evaluated seen ghost
            have := saw.1
            omega
        · rw [Cache.refresh_due due]
          rfl
      · left
        rw [if_neg (by simp)]
        exact sound.rows never
  · left
    rw [if_neg (fun both => due both.1)]
    exact sound.rows fun never => due (Or.inl never)

theorem PtpSound.timingRefresh {s : Agent} (sound : PtpSound s) {c : TimingCall}
    (forward : ClockForward s (.timing c)) : PtpSound (s.timingRefresh c).1 := by
  obtain ⟨toPtp, toSpll, toPort, toInstance, toCurrent, -⟩ := forward
  have afterwards : c.ptpDataAt ≤ c.currentTimeAt := by omega
  exact (sound.refresh toPtp c.ppsi).frame rfl rfl rfl rfl afterwards

/-- After an evaluation the saved counters are those of the table. -/
theorem PtpSound.evaluate {s : Agent} (sound : PtpSound s) {c : TimingCall}
    (forward : ClockForward s (.timing c)) (newer : (s.timingRefresh c).1.PtpNewer) :
    PtpSound (getWrsPTPStatus (s.timingRefresh c).1 (s.timingRefresh c).2.1
      (s.timingRefresh c).2.2) := by
  have refreshed := sound.timingRefresh forward
  have read : 0 < (s.timingRefresh c).1.ptpData.time := Nat.zero_lt_of_lt newer.1
  refine ⟨refreshed.past, refreshed.rows, fun none => (nomatch none), ?_⟩
  rintro seen member
  obtain rfl : _ = seen := Option.some.inj member
  refine ⟨read, Cache.saw_self _, rfl, fun i => ?_⟩
  change (if i.val < (s.timingRefresh c).2.1
    then ((s.timingRefresh c).1.ptpData.value.rows i).errCounters
    else s.timing.errCountersPrev i) = _
  split_ifs with counted
  · rfl
  · rcases ptpDataNrows_cases sound c.ptpDataAt c.ppsi with all | ⟨fresh, cleared⟩
    · -- the row would be outside the table
      refine absurd ?_ counted
      change i.val < min (wrsPtpDataTableDataFill s c.ptpDataAt c.ppsi).2 wrsMaxNServoInstances
      rw [all, min_self]
      exact i.isLt
    · rw [sound.unevaluated fresh i]
      exact congrArg PtpRow.errCounters (cleared i).symm

/-- A request for the timing status keeps the counts of errors. -/
theorem PtpSound.timing {s : Agent} (sound : PtpSound s) {c : TimingCall}
    (forward : ClockForward s (.timing c)) : PtpSound (wrsTimingStatusDataFill s c) := by
  have late : c.currentTimeAt ≤ c.doneAt := forward.2.2.2.2.2
  rcases wrsTimingStatusDataFill_cases s c with ⟨-, ends⟩ | ⟨newer, ends⟩ | ⟨-, -, ends⟩
  · exact ends ▸ sound.timingRefresh forward
  · exact ends ▸ (sound.evaluate forward newer).frame rfl rfl rfl rfl late
  · exact ends ▸ (sound.timingRefresh forward).frame rfl rfl rfl rfl late

/-- Every request keeps the counts of errors. -/
theorem PtpSound.step {s : Agent} (sound : PtpSound s) {e : Request}
    (forward : ClockForward s e) : PtpSound (step s e) := by
  cases e with
  | ptpData now ppsi => exact sound.refresh forward ppsi
  | spll now stats => exact sound.frame rfl rfl rfl rfl forward
  | portStatus now hal => exact sound.frame rfl rfl rfl rfl forward
  | ptpInstance now => exact sound.frame rfl rfl rfl rfl forward
  | currentTime now => exact sound.frame rfl rfl rfl rfl forward
  | pstats now counters => exact sound.frame rfl rfl rfl rfl forward
  | timing c => exact sound.timing forward
  | networking c =>
    obtain ⟨toPort, toPstats, toDone⟩ := forward
    have early : s.clock ≤ c.pstatsAt := by omega
    change PtpSound (wrsNetworkingStatusDataFill s c)
    rcases wrsNetworkingStatusDataFill_cases s c with ends | ends
    · exact ends ▸ sound.frame rfl rfl rfl rfl early
    · exact ends ▸ sound.frame rfl rfl rfl rfl (early.trans toDone)

/-! ### The port counters between two comparisons -/

structure PstatsSound (s : Agent) : Prop where
  past : s.pstats.time ≤ s.clock
  copy : 0 < s.networking.timePstatsPrev →
    s.pstats.Saw s.networking.timePstatsPrev s.networking.nsPstatsCopy
  compared : ∀ seen ∈ s.compared, 0 < s.networking.timePstatsPrev ∧
    s.networking.nsPstatsCopy = seen

theorem PstatsSound.initial : PstatsSound Agent.initial where
  past := Nat.le_refl 0
  copy := fun read => absurd read (Nat.lt_irrefl 0)
  compared := fun _ none => absurd none (Option.not_mem_none _)

theorem PstatsSound.frame {s s' : Agent} (sound : PstatsSound s) (table : s'.pstats = s.pstats)
    (group : s'.networking = s.networking) (ghost : s'.compared = s.compared)
    (forward : s.clock ≤ s'.clock) : PstatsSound s' where
  past := table ▸ sound.past.trans forward
  copy := by
    rw [group, table]
    exact sound.copy
  compared := by
    rw [group, ghost]
    exact sound.compared

/-- Reading the counters again keeps what was compared. -/
theorem PstatsSound.refresh {s : Agent} (sound : PstatsSound s) {now : Nat}
    (forward : s.clock ≤ now) (counters : DropRTUFull) :
    PstatsSound (wrsPstatsHCTableDataFill s now counters) where
  past := Cache.time_refresh_le (sound.past.trans forward) _
  copy := fun read =>
    (sound.copy read).refresh read (by decide) (sound.past.trans forward) counters
  compared := sound.compared

theorem PstatsSound.networkingRefresh {s : Agent} (sound : PstatsSound s) {c : NetworkingCall}
    (forward : ClockForward s (.networking c)) : PstatsSound (s.networkingRefresh c) := by
  obtain ⟨toPort, toPstats, -⟩ := forward
  have afterPorts : PstatsSound (wrsPortStatusTableDataFill s c.portStatusAt c.hal).1 :=
    sound.frame rfl rfl rfl toPort
  exact afterPorts.refresh toPstats c.counters

/-- What the group saw last is what it saved, whether or not it has just read it again. -/
theorem PstatsSound.current {s : Agent} (sound : PstatsSound s)
    (kept : ¬ s.PstatsNewer) : ∀ seen ∈ s.compared, s.pstats.value = seen := by
  intro seen member
  obtain ⟨read, saved⟩ := sound.compared seen member
  have same : s.pstats.time = s.networking.timePstatsPrev := by
    by_contra moved
    exact kept ⟨moved, Nat.ne_of_gt read⟩
  exact ((sound.copy read).2 same).trans saved

/-- A request for the networking status keeps what was compared. -/
theorem PstatsSound.networking {s : Agent} (sound : PstatsSound s) {c : NetworkingCall}
    (forward : ClockForward s (.networking c)) :
    PstatsSound (wrsNetworkingStatusDataFill s c) := by
  have refreshed := sound.networkingRefresh forward
  have late : c.pstatsAt ≤ c.doneAt := forward.2.2
  rcases wrsNetworkingStatusDataFill_cases s c with ends | ends
  · exact ends ▸ refreshed
  · rw [ends]
    refine ⟨refreshed.past.trans late, fun _ => Cache.saw_self _, fun seen member => ?_⟩
    by_cases newer : (s.networkingRefresh c).PstatsNewer
    · simp only [Agent.judged, if_pos newer] at member ⊢
      refine ⟨?_, Option.some.inj member⟩
      -- a comparison needs an earlier time, and times only grow
      have read : 0 < (s.networkingRefresh c).networking.timePstatsPrev :=
        Nat.pos_of_ne_zero newer.2
      exact read.trans_le (refreshed.copy read).1
    · simp only [Agent.judged, if_neg newer] at member ⊢
      exact ⟨(refreshed.compared seen member).1.trans_le
        (refreshed.copy (refreshed.compared seen member).1).1,
        refreshed.current newer seen member⟩

/-- Every request keeps what was compared. -/
theorem PstatsSound.step {s : Agent} (sound : PstatsSound s) {e : Request}
    (forward : ClockForward s e) : PstatsSound (step s e) := by
  cases e with
  | ptpData now ppsi => exact sound.frame rfl rfl rfl forward
  | spll now stats => exact sound.frame rfl rfl rfl forward
  | portStatus now hal => exact sound.frame rfl rfl rfl forward
  | ptpInstance now => exact sound.frame rfl rfl rfl forward
  | currentTime now => exact sound.frame rfl rfl rfl forward
  | pstats now counters => exact sound.refresh forward counters
  | timing c =>
    obtain ⟨toPtp, toSpll, toPort, toInstance, toCurrent, toDone⟩ := forward
    have early : s.clock ≤ c.currentTimeAt := by omega
    change PstatsSound (wrsTimingStatusDataFill s c)
    rcases wrsTimingStatusDataFill_cases s c with ⟨-, ends⟩ | ⟨-, ends⟩ | ⟨-, -, ends⟩
    · exact ends ▸ sound.frame rfl rfl rfl early
    · exact ends ▸ sound.frame rfl rfl rfl (early.trans toDone)
    · exact ends ▸ sound.frame rfl rfl rfl (early.trans toDone)
  | networking c => exact sound.networking forward

/-! ### The two groups report -/

/-- An evaluation that is not the first finds every counter that changed. -/
theorem ptpStatus_of_changed {s : Agent} (sound : PtpSound s) {c : TimingCall}
    (forward : ClockForward s (.timing c)) {seen : Nat × PtpData} (member : seen ∈ s.evaluated)
    (slave : (s.timingRefresh c).1.spllMode.value = wrsSpllModeSlave)
    {i : Fin wrsMaxNServoInstances}
    (changed : ((s.timingRefresh c).1.ptpData.value.rows i).errCounters ≠
      (seen.2.rows i).errCounters) (portStatusNrows : Nat) :
    (s.timingRefresh c).1.ptpStatus (s.timingRefresh c).2.1 portStatusNrows =
      wrsPtpStatusError := by
  obtain ⟨-, -, first, prev⟩ := (sound.timingRefresh forward).evaluated seen member
  -- a row beyond those read would have no counters to compare
  have counted : i.val < (s.timingRefresh c).2.1 := by
    rcases ptpDataNrows_cases sound c.ptpDataAt c.ppsi with all | ⟨fresh, -⟩
    · change i.val < min (wrsPtpDataTableDataFill s c.ptpDataAt c.ppsi).2 wrsMaxNServoInstances
      rw [all, min_self]
      exact i.isLt
    · rw [fresh] at member
      exact absurd member (Option.not_mem_none _)
  have fault : (s.timingRefresh c).1.ServoFault (s.timingRefresh c).2.1 := by
    refine ⟨i, counted, slave, ?_⟩
    -- with none of the counters moved there is no change
    by_contra sane
    simp only [PtpRow.Faulty, not_or, not_not] at sane
    obtain ⟨-, state, offset, rtt, -⟩ := sane
    refine changed ((?_ : _ = _).trans (prev i))
    rw [ErrCounters.mk.injEq]
    exact ⟨state, offset, rtt⟩
  simp only [Agent.ptpStatus, first, Bool.false_eq_true, if_false, if_pos fault, ite_self]

private theorem timing_reports {s : Agent} (sound : PtpSound s) {c : TimingCall}
    (forward : ClockForward s (.timing c)) (evaluates : Evaluates s (.timing c)) :
    Reports s (.timing c) := by
  simp only [Reports, step]
  rintro updated slave seen member ⟨i, changed⟩
  have refreshed := sound.timingRefresh forward
  rcases wrsTimingStatusDataFill_cases s c with ⟨-, ends⟩ | ⟨newer, ends⟩ | ⟨cached, newer, ends⟩
  · rw [ends] at updated
    exact absurd rfl updated
  · rw [ends] at slave changed ⊢
    exact ptpStatus_of_changed sound forward member slave changed _
  · rw [ends] at changed
    rcases evaluates with same | held | both
    · exact absurd same cached
    · obtain ⟨-, saw, -⟩ := refreshed.evaluated seen member
      refine absurd ?_ changed
      exact congrArg (fun data => (data.rows i).errCounters) (saw.2 (held seen member))
    · exact absurd both newer

/-- A call that neither evaluates nor finds the table it evaluated last keeps the status,
whatever the table holds. -/
theorem timing_masks {s : Agent} {c : TimingCall} (fails : ¬ Evaluates s (.timing c)) :
    (step s (.timing c)).timing.wrsPTPStatus = s.timing.wrsPTPStatus := by
  simp only [Evaluates, not_or] at fails
  obtain ⟨updates, -, old⟩ := fails
  simp only [step]
  rcases wrsTimingStatusDataFill_cases s c with ⟨cached, -⟩ | ⟨newer, -⟩ | ⟨-, -, ends⟩
  · exact absurd cached updates
  · exact absurd newer old
  · rw [ends]
    rfl

private theorem networking_reports {s : Agent} (sound : PstatsSound s) {c : NetworkingCall}
    (forward : ClockForward s (.networking c)) : Reports s (.networking c) := by
  simp only [Reports, step]
  rintro updated seen member ⟨i, changed⟩
  have refreshed := sound.networkingRefresh forward
  rcases wrsNetworkingStatusDataFill_cases s c with ends | ends
  · rw [ends] at updated
    exact absurd rfl updated
  · rw [ends] at changed ⊢
    by_cases newer : (s.networkingRefresh c).PstatsNewer
    · have saved := (refreshed.compared seen member).2
      have grown : getRtuStatus (s.networkingRefresh c).networking.nsPstatsCopy
          (s.networkingRefresh c).pstats.value = true := by
        refine decide_eq_true ⟨i, ?_⟩
        rw [saved]
        have moved : (s.networkingRefresh c).pstats.value i ≠ seen i := changed
        bv_omega
      simp only [Agent.judged, Agent.rtuStatus, if_neg newer.1, if_pos newer.2, if_pos grown]
    · exact absurd (congrFun (refreshed.current newer seen member) i) changed

/-! ### Runs -/

/-- Where every updating call of the timing group evaluates, or finds the table it evaluated
last, no request order hides an error. -/
theorem faults_reported (es : List Request) (forward : Along ClockForward step .initial es)
    (evaluates : Along Evaluates step .initial es) : Along Reports step .initial es := by
  have both : Along (fun s e => ClockForward s e ∧ Evaluates s e) step .initial es :=
    Along.and.mpr ⟨forward, evaluates⟩
  refine Along.strengthen (fun s => PtpSound s ∧ PstatsSound s) ?_ ?_
    ⟨.initial, .initial⟩ both
  · exact fun s e sound side => ⟨sound.1.step side.1, sound.2.step side.1⟩
  · intro s e sound side
    cases e with
    | timing c => exact timing_reports sound.1 side.1 side.2
    | networking c => exact networking_reports sound.2 side.1
    | _ => trivial

/-- A table with one servo whose clock offset was too large `errors` times. -/
def servoRows (updates errors : BitVec 32) : PtpRows := fun _ =>
  ⟨updates, ⟨0, errors, 0⟩, false, 0, 0, 0, 0⟩

/-- A SoftPLL in slave mode. -/
def slaveStats : SpllStats := ⟨spllStatsMagic, spllStatsVer, wrsSpllModeSlave⟩

/-- A call of the timing group within the second `now`. -/
def timingAt (now : Nat) (rows : PtpRows) : Request :=
  .timing ⟨now, now, now, now, now, now, some rows, some slaveStats, none⟩

/-- A call of the networking group within the second `now`. -/
def networkingAt (now : Nat) (dropped : BitVec 64) : Request :=
  .networking ⟨now, now, now, none, fun _ => dropped⟩

/-- Two polls of each group, the second with an error and three drops more. -/
theorem faults_reported_small :
    let es := [timingAt 10 (servoRows 1 0), networkingAt 10 0, timingAt 15 (servoRows 2 1),
      networkingAt 15 3]
    Along ClockForward step .initial es ∧ Along Evaluates step .initial es ∧
      Along Reports step .initial es := by
  intro es
  have forward : Along ClockForward step .initial es := by decide
  have evaluates : Along Evaluates step .initial es := by decide
  exact ⟨forward, evaluates, faults_reported es forward evaluates⟩

/-- The SoftPLL is read at 25, the data table at 27: from then on the two are never newer than
the last update together, and the error that appears at 27 goes unreported. -/
theorem faults_not_reported :
    ¬ ∀ es : List Request, Along ClockForward step .initial es →
      Along Reports step .initial es := by
  intro reported
  let es := [timingAt 10 (servoRows 1 0), timingAt 15 (servoRows 2 0),
    .spll 20 (some slaveStats), timingAt 22 (servoRows 3 0), timingAt 25 (servoRows 4 0),
    timingAt 27 (servoRows 5 1)]
  exact absurd (reported es (by decide)) (by decide)

end WrSwitch.Snmp
