import WrSwitch.Machine.Recency
import WrSwitch.Machine.Run

/-!
# The watchdog of the switching core

Once a second the states of seven machines are read for each port and for the network interface,
and the core is reset when one of them stays busy without doing anything.
-/
namespace WrSwitch.Wdog

open Machine

/-! ### The machines of a port -/

/-- RST_THR -/
def rstThr : Nat := 2

/-- FSMS_NO -/
def fsmsNo : Nat := 7

/-- The idle states of the machines, in the order of their fields in the register FSM. -/
def idles : List Nat := [0, 1, 1, 1, 5, 0, 0]

/-- One machine in `struct swc_fsms`. -/
structure SwcFsm where
  state : Nat
  act : Nat
deriving DecidableEq, Repr

/-- The registers FSM and ACT for one port. -/
structure WdogRegs where
  fsm : BitVec 32
  act : BitVec 32
deriving DecidableEq, Repr

/-- `read_port`: four bits of FSM and one of ACT for each machine. -/
def readPort (regs : WdogRegs) : List SwcFsm :=
  (List.range fsmsNo).map fun i =>
    ⟨(regs.fsm >>> (4 * i) &&& 0xf).toNat, ((regs.act &&& (1 <<< i)) >>> i).toNat⟩

/-! ### Counters -/

/-- `update_stuck`: it returns at the first counter that reaches the threshold. -/
def updateStuck : List Nat → List SwcFsm → List Nat → Bool × List Nat
  | idle :: idles, fsm :: fsms, cnt :: stuckCnt =>
    let cnt := if fsm.state ≠ idle ∧ fsm.act = 0 then cnt + 1 else 0
    if cnt ≥ rstThr then (true, cnt :: stuckCnt)
    else
      let (rst, stuckCnt) := updateStuck idles fsms stuckCnt
      (rst, cnt :: stuckCnt)
  | _, _, stuckCnt => (false, stuckCnt)

/-- The loop over the ports, which ends at the first one that is stuck; `rst` is the result of
the last port. -/
def pollPorts (rst : Bool) : List WdogRegs → List (List Nat) → Bool × List (List Nat)
  | port :: ports, cnt :: stuckCnt =>
    let (rst, cnt) := updateStuck idles (readPort port) cnt
    if rst then (rst, cnt :: stuckCnt)
    else
      let (rst, stuckCnt) := pollPorts rst ports stuckCnt
      (rst, cnt :: stuckCnt)
  | _, stuckCnt => (rst, stuckCnt)

/-- The counters are 0 for all ports up to `portNum`, which is the network interface. -/
def cleared (portNum : Nat) : List (List Nat) :=
  List.replicate (portNum + 1) (List.replicate fsmsNo 0)

/-- The variables of `endless_watchdog`. -/
structure Watchdog where
  stuckCnt : List (List Nat)
  rst : Bool
deriving DecidableEq, Repr

def Watchdog.init (portNum : Nat) : Watchdog := ⟨cleared portNum, false⟩

/-- The registers of all ports in one turn. -/
abbrev Poll : Type := Nat → WdogRegs

/-- One turn of `endless_watchdog`; the core is reset if `rst` is set after it. -/
def endlessWatchdog (portNum : Nat) (w : Watchdog) (poll : Poll) : Watchdog :=
  let (rst, stuckCnt) := pollPorts w.rst ((List.range (portNum + 1)).map poll) w.stuckCnt
  if rst then ⟨cleared portNum, rst⟩ else ⟨stuckCnt, rst⟩

/-! ### What is counted -/

/-- A machine that is not idle and does nothing. -/
def inactive (idle : Nat) (fsm : SwcFsm) : Bool := fsm.state ≠ idle ∧ fsm.act = 0

def Stuck (port fsm : Nat) (poll : Poll) : Bool :=
  match idles[fsm]?, (readPort (poll port))[fsm]? with
  | some idle, some s => inactive idle s
  | _, _ => false

/-- The polls after the last reset. -/
def sinceReset (portNum : Nat) (w : Watchdog) (since : List Poll) : List Poll → List Poll
  | [] => since
  | poll :: polls =>
    let w := endlessWatchdog portNum w poll
    sinceReset portNum w (if w.rst then [] else since ++ [poll]) polls

/-- The machine was stuck at each of the last `rstThr` polls. -/
def StuckFor (port fsm : Nat) (polls : List Poll) : Prop :=
  rstThr ≤ polls.length ∧ ∀ poll ∈ polls.reverse.take rstThr, Stuck port fsm poll

/-- A counter after a poll. -/
def counted (stuck : Bool) (cnt : Nat) : Nat := if stuck then cnt + 1 else 0

/-! ### One turn -/

/-- Unless the port is stuck, all its counters are up to date. -/
theorem updateStuck_spec (idles : List Nat) (fsms : List SwcFsm) (cnt : List Nat)
    (same : idles.length = fsms.length) (same' : fsms.length = cnt.length) :
    let next := List.zipWith counted (List.zipWith inactive idles fsms) cnt
    (updateStuck idles fsms cnt).1 = next.any (rstThr ≤ ·) ∧
      ((updateStuck idles fsms cnt).1 = false → (updateStuck idles fsms cnt).2 = next) := by
  induction idles generalizing fsms cnt with
  | nil =>
    cases fsms with
    | nil =>
      cases cnt with
      | nil => exact ⟨rfl, fun _ => rfl⟩
      | cons _ _ => cases same'
    | cons _ _ => cases same
  | cons idle idles ih =>
    cases fsms with
    | nil => cases same
    | cons fsm fsms =>
      cases cnt with
      | nil => cases same'
      | cons c cnt =>
        obtain ⟨any, rest⟩ := ih fsms cnt (Nat.succ.inj same) (Nat.succ.inj same')
        have here : (if fsm.state ≠ idle ∧ fsm.act = 0 then c + 1 else 0) =
            counted (inactive idle fsm) c := by
          unfold counted inactive
          simp only [decide_eq_true_eq]
        simp only [updateStuck, List.zipWith_cons_cons, List.any_cons, here]
        -- the first counter over the threshold ends the pass
        by_cases reached : counted (inactive idle fsm) c ≥ rstThr
        · rw [if_pos reached]
          exact ⟨by simp [reached], fun fine => by cases fine⟩
        · rw [if_neg reached]
          refine ⟨?_, fun fine => ?_⟩
          · rw [decide_eq_false reached, Bool.false_or]
            exact any
          · rw [rest fine]

/-- The counters of a port after a poll. -/
def nextRow (regs : WdogRegs) (cnt : List Nat) : List Nat :=
  List.zipWith counted (List.zipWith inactive idles (readPort regs)) cnt

/-- Unless a port is stuck, all ports are up to date. -/
theorem pollPorts_spec (ports : List WdogRegs) (stuckCnt : List (List Nat))
    (same : ports.length = stuckCnt.length) (rows : ∀ cnt ∈ stuckCnt, cnt.length = fsmsNo) :
    let next := List.zipWith nextRow ports stuckCnt
    (pollPorts false ports stuckCnt).1 = next.any (·.any (rstThr ≤ ·)) ∧
      ((pollPorts false ports stuckCnt).1 = false →
        (pollPorts false ports stuckCnt).2 = next) := by
  induction ports generalizing stuckCnt with
  | nil =>
    cases stuckCnt with
    | nil => exact ⟨rfl, fun _ => rfl⟩
    | cons _ _ => cases same
  | cons port ports ih =>
    cases stuckCnt with
    | nil => cases same
    | cons cnt stuckCnt =>
      rw [List.forall_mem_cons] at rows
      obtain ⟨any, rest⟩ := ih stuckCnt (Nat.succ.inj same) rows.2
      obtain ⟨here, row⟩ := updateStuck_spec idles (readPort port) cnt rfl rows.1.symm
      simp only [pollPorts, List.zipWith_cons_cons, List.any_cons]
      -- the first port that is stuck ends the pass
      cases stuck : (updateStuck idles (readPort port) cnt).1 with
      | true =>
        rw [stuck] at here
        simp only [if_true]
        refine ⟨?_, fun fine => by cases fine⟩
        rw [nextRow, ← here, Bool.true_or]
      | false =>
        simp only [Bool.false_eq_true, if_false]
        refine ⟨?_, fun fine => ?_⟩
        · rw [nextRow, ← here, stuck, Bool.false_or]
          exact any
        · rw [rest fine, row stuck]
          rfl

/-- Counters of the machines of all ports. -/
def table (portNum : Nat) (since : List Poll) : List (List Nat) :=
  (List.range (portNum + 1)).map fun port =>
    (List.range fsmsNo).map fun fsm => streak (Stuck port fsm) since

private theorem table_nil (portNum : Nat) : table portNum [] = cleared portNum := by
  have row : ∀ port, (List.range fsmsNo).map (fun fsm => streak (Stuck port fsm) []) =
      List.replicate fsmsNo 0 := fun _ => rfl
  simp only [table, row, List.map_const', List.length_range, cleared]

private theorem nextRow_table (port : Nat) (since : List Poll) (poll : Poll) :
    nextRow (poll port) ((List.range fsmsNo).map fun fsm => streak (Stuck port fsm) since) =
      (List.range fsmsNo).map fun fsm => streak (Stuck port fsm) (since ++ [poll]) := by
  simp only [streak_concat]
  rfl

private theorem zipWith_nextRow_table (portNum : Nat) (since : List Poll) (poll : Poll) :
    List.zipWith nextRow ((List.range (portNum + 1)).map poll) (table portNum since) =
      table portNum (since ++ [poll]) := by
  rw [table, List.zipWith_map, List.zipWith_self]
  exact List.map_congr_left fun port _ => nextRow_table port since poll

/-- There is at least the port of the network interface, so `rst` is always set anew. -/
theorem pollPorts_rst (rst : Bool) (portNum : Nat) (since : List Poll) (poll : Poll) :
    pollPorts rst ((List.range (portNum + 1)).map poll) (table portNum since) =
      pollPorts false ((List.range (portNum + 1)).map poll) (table portNum since) := by
  rw [table, List.range_succ_eq_map]
  rfl

/-- A turn resets exactly if a streak reaches the threshold, and keeps the counters right. -/
theorem endlessWatchdog_spec (portNum : Nat) {w : Watchdog} {since : List Poll}
    (counters : w.stuckCnt = table portNum since) (poll : Poll) :
    ((endlessWatchdog portNum w poll).rst = true ↔
      ∃ port ≤ portNum, ∃ fsm < fsmsNo, rstThr ≤ streak (Stuck port fsm) (since ++ [poll])) ∧
    (endlessWatchdog portNum w poll).stuckCnt =
      table portNum (if (endlessWatchdog portNum w poll).rst then [] else since ++ [poll]) := by
  have rows : ∀ cnt ∈ table portNum since, cnt.length = fsmsNo := by
    intro cnt member
    obtain ⟨port, -, rfl⟩ := List.mem_map.mp member
    rw [List.length_map, List.length_range]
  obtain ⟨reached, updated⟩ := pollPorts_spec ((List.range (portNum + 1)).map poll)
    (table portNum since) (by simp only [table, List.length_map]) rows
  rw [zipWith_nextRow_table] at reached updated
  -- the counters are the streaks, so the threshold is reached in both or in neither
  have some_streak : (table portNum (since ++ [poll])).any (·.any (rstThr ≤ ·)) = true ↔
      ∃ port ≤ portNum, ∃ fsm < fsmsNo, rstThr ≤ streak (Stuck port fsm) (since ++ [poll]) := by
    simp only [table, List.any_map, List.any_eq_true, List.mem_range, Function.comp_apply,
      decide_eq_true_eq, Nat.lt_succ_iff]
  rw [← some_streak, ← reached]
  simp only [endlessWatchdog, counters, pollPorts_rst w.rst]
  cases fired : (pollPorts false ((List.range (portNum + 1)).map poll) (table portNum since)).1 with
  | true => exact ⟨Iff.rfl, (table_nil portNum).symm⟩
  | false => exact ⟨Iff.rfl, updated fired⟩

/-! ### Runs -/

/-- The counters are the streaks since the last reset. -/
theorem run_counters (portNum : Nat) {w : Watchdog} {since : List Poll}
    (counters : w.stuckCnt = table portNum since) (polls : List Poll) :
    (run (endlessWatchdog portNum) w polls).stuckCnt =
      table portNum (sinceReset portNum w since polls) := by
  induction polls generalizing w since with
  | nil => exact counters
  | cons poll polls ih => exact ih (endlessWatchdog_spec portNum counters poll).2

/-- For any number of ports and after any polls, the core is reset at a poll exactly if some machine
of some port was stuck at it and at the polls before it, as many as the threshold says and all
after the last reset. -/
theorem reset_iff_stuck (portNum : Nat) (polls : List Poll) (poll : Poll) :
    (endlessWatchdog portNum (run (endlessWatchdog portNum) (.init portNum) polls) poll).rst = true ↔
      ∃ port ≤ portNum, ∃ fsm < fsmsNo,
        StuckFor port fsm (sinceReset portNum (.init portNum) [] polls ++ [poll]) := by
  have counters := run_counters portNum (w := .init portNum) (table_nil portNum).symm polls
  rw [(endlessWatchdog_spec portNum counters poll).1]
  simp only [le_streak_iff]
  rfl

end WrSwitch.Wdog
