import Mathlib.Algebra.BigOperators.Group.List.Basic
import Mathlib.Data.BitVec
import Mathlib.Tactic.SplitIfs
import WrSwitch.Machine.Text
import WrSwitch.Machine.Writes
import WrSwitch.Snmp.ReadRounds

/-!
# wrsPortStatusTable

`wrsPortStatusTable_data_fill` with both shared memories available and the cache expired: the
rounds over the hal's ports, the check of the SFPs, the rounds over the instances of ppsi.
-/
namespace WrSwitch.Snmp

open Machine

/-! ### The columns the hal fills -/

inductive PortColumn
  | wrsPortStatusPortName
  | wrsPortStatusLink
  | wrsPortStatusLocked
  | wrsPortStatusSfpVN
  | wrsPortStatusSfpPN
  | wrsPortStatusSfpVS
  | wrsPortStatusSfpInDB
  | wrsPortStatusSfpGbE
  | wrsPortStatusSfpError
  | wrsPortStatusMonitor
  | wrsPortStatusSfpDom
  | wrsPortStatusSfpTemp
  | wrsPortStatusSfpVcc
  | wrsPortStatusSfpTxBias
  | wrsPortStatusSfpTxPower
  | wrsPortStatusSfpRxPower
  | wrsPortStatusT24p
  | wrsPortStatusT24pValid
  | wrsPortStatusSfpTempF
  | wrsPortStatusSfpVccF
  | wrsPortStatusSfpTxPowerF
  | wrsPortStatusSfpRxPowerF
deriving DecidableEq

def PortColumn.cleared : PortColumn → Cell
  | .wrsPortStatusPortName | .wrsPortStatusSfpVN | .wrsPortStatusSfpPN
  | .wrsPortStatusSfpVS => .text []
  | _ => .int 0

/-- The raw diagnostics of an SFP, in host order. -/
structure SfpDom where
  temp : Nat
  vcc : Nat
  txBias : Nat
  txPow : Nat
  rxPow : Nat
  /-- `temp / 2.56` as the floating point division gives it -/
  tempF : Int

/-- What a pass reads of a `struct hal_port_state`. -/
structure HalPort where
  inUse : Bool
  name : List Char
  monitor : Int
  t2PhaseTransition : Int
  t24pFromConfig : Int
  /-- the state is `HAL_PORT_STATE_LINK_UP` -/
  stateUp : Bool
  /-- the state is `HAL_PORT_STATE_DISABLED` or `HAL_PORT_STATE_INIT` -/
  stateDown : Bool
  locked : Int
  sfpPresent : Bool
  /-- `SFP_FLAG_IN_DB` -/
  sfpInDb : Bool
  /-- `SFP_FLAG_1GbE` -/
  sfpGbe : Bool
  vendorName : List Char
  partNum : List Char
  vendorSerial : List Char
  hasSfpDiag : Bool
  sfpDom : SfpDom

structure HalRead where
  ports : List HalPort
  readSfpDiag : Bool

/-- The name of the port in row `i`. -/
def wriName (i : Nat) : List Char := (['w', 'r', 'i'] ++ decimal (i + 1)).take 9

def halLookupPort (ports : List HalPort) (name : List Char) : Option HalPort :=
  ports.find? fun p => p.inUse && decide (p.name = name)

def sfpErrorSfpOk : Cell := .int 1
def sfpErrorSfpError : Cell := .int 2
def sfpErrorPortDown : Cell := .int 3

/-- What the loop body writes into the row of a port. -/
def portWrites (readSfpDiag : Bool) (p : HalPort) : Writes PortColumn Cell :=
  let live (v : Cell) : Option Cell := if p.stateDown then none else some v
  let sfp (flag : Bool) : Option Cell :=
    if p.stateDown = false ∧ p.sfpPresent then some (.int (if flag then 2 else 1)) else none
  let dom (v : Int) : Option Cell :=
    if p.stateDown = false ∧ readSfpDiag ∧ p.hasSfpDiag then some (.int v) else none
  fun
  -- written before the port is looked up
  | .wrsPortStatusPortName => none
  | .wrsPortStatusMonitor => some (.int p.monitor)
  | .wrsPortStatusT24p => some (.int p.t2PhaseTransition)
  | .wrsPortStatusT24pValid => some (.int p.t24pFromConfig)
  | .wrsPortStatusLink => some (.int (if p.stateUp then 2 else 1))
  | .wrsPortStatusSfpError => if p.stateDown then some sfpErrorPortDown else none
  | .wrsPortStatusLocked => live (.int (1 + p.locked))
  | .wrsPortStatusSfpInDB => sfp p.sfpInDb
  | .wrsPortStatusSfpGbE => sfp p.sfpGbe
  | .wrsPortStatusSfpVN => live (.text (p.vendorName.take 16))
  | .wrsPortStatusSfpPN => live (.text (p.partNum.take 16))
  | .wrsPortStatusSfpVS => live (.text (p.vendorSerial.take 16))
  | .wrsPortStatusSfpDom =>
    live (.int (if readSfpDiag then if p.hasSfpDiag then 1 else 3 else 2))
  | .wrsPortStatusSfpTemp => dom (p.sfpDom.temp / 256)
  | .wrsPortStatusSfpTempF => dom p.sfpDom.tempF
  | .wrsPortStatusSfpVcc => dom (p.sfpDom.vcc / 10)
  | .wrsPortStatusSfpVccF => dom p.sfpDom.vcc
  | .wrsPortStatusSfpTxBias => dom (p.sfpDom.txBias * 2)
  | .wrsPortStatusSfpTxPower => dom (p.sfpDom.txPow / 10)
  | .wrsPortStatusSfpTxPowerF => dom p.sfpDom.txPow
  | .wrsPortStatusSfpRxPower => dom (p.sfpDom.rxPow / 10)
  | .wrsPortStatusSfpRxPowerF => dom p.sfpDom.rxPow

abbrev PortCells := Nat × PortColumn → Cell

/-- The loop over the first `n` rows. -/
def halPass (n : Nat) (read : HalRead) : Writes (Nat × PortColumn) Cell := fun k =>
  if k.1 < n then
    if k.2 = .wrsPortStatusPortName then some (.text (wriName k.1))
    else (halLookupPort read.ports (wriName k.1)).bind fun p => portWrites read.readSfpDiag p k.2
  else none

def PortCells.cleared : PortCells := fun k => k.2.cleared

/-- The check of the SFP in row `i`. -/
def sfpError (cells : PortCells) (i : Nat) : Cell :=
  if cells (i, .wrsPortStatusSfpGbE) = .int 0 then sfpErrorSfpOk
  else if cells (i, .wrsPortStatusSfpError) = sfpErrorPortDown then sfpErrorPortDown
  else if cells (i, .wrsPortStatusMonitor) = .int 2 then sfpErrorSfpOk
  else if cells (i, .wrsPortStatusSfpGbE) = .int 1 ∨ cells (i, .wrsPortStatusSfpInDB) = .int 1 then
    sfpErrorSfpError
  else sfpErrorSfpOk

def checkSfps (n : Nat) (cells : PortCells) : PortCells := fun k =>
  if k.1 < n ∧ k.2 = .wrsPortStatusSfpError then sfpError cells k.1 else cells k

/-! ### The columns ppsi fills -/

variable {w : Nat}

/-- What a pass reads of an instance of ppsi; a counter has `w` bits. -/
structure PortInstance (w : Nat) where
  ifaceName : List Char
  ptpTxCount : BitVec w
  ptpRxCount : BitVec w
  protocolExtension : Int
  desiredState : Int
  masterOnly : Bool

structure PpsiRead (w : Nat) where
  externalPortConfigurationEnabled : Bool
  slaveOnly : Bool
  instances : List (PortInstance w)

structure PortTable (w : Nat) where
  cells : PortCells
  wrsPortStatusConfiguredMode : Nat → Int
  wrsPortStatusPtpTxFrames : Nat → BitVec w
  wrsPortStatusPtpRxFrames : Nat → BitVec w

/-- The row whose name is that of the interface. -/
def matchPort (n : Nat) (ifaceName : List Char) : Option Nat :=
  (List.range n).find? fun i => decide (wriName i = ifaceName)

/-- `configuredMode`, for a port that is monitored or not. -/
def configuredMode (codes : PpsiCodes) (read : PpsiRead w) (unmonitored : Bool)
    (inst : PortInstance w) : Int :=
  if inst.protocolExtension = codes.ppsiExtWr ∨ inst.protocolExtension = codes.ppsiExtL1s then
    if unmonitored then 3
    else if (read.externalPortConfigurationEnabled ∧ inst.desiredState = codes.ppsMaster) ∨
        inst.masterOnly then 1
    else if (read.externalPortConfigurationEnabled ∧ inst.desiredState = codes.ppsSlave) ∨
        read.slaveOnly then 2
    else if read.externalPortConfigurationEnabled = false ∧ inst.masterOnly = false ∧
        read.slaveOnly = false then 4
    else 0
  else 5

def PortTable.unmonitored (t : PortTable w) (i : Nat) : Bool :=
  t.cells (i, .wrsPortStatusMonitor) = .int 2

/-- The body of the loop over the instances. -/
def PortTable.count (codes : PpsiCodes) (n : Nat) (read : PpsiRead w) (t : PortTable w)
    (inst : PortInstance w) : PortTable w :=
  match matchPort n inst.ifaceName with
  | none => t
  | some i =>
    { t with
      wrsPortStatusPtpTxFrames := Function.update t.wrsPortStatusPtpTxFrames i
        (t.wrsPortStatusPtpTxFrames i + inst.ptpTxCount)
      wrsPortStatusPtpRxFrames := Function.update t.wrsPortStatusPtpRxFrames i
        (t.wrsPortStatusPtpRxFrames i + inst.ptpRxCount)
      wrsPortStatusConfiguredMode := Function.update t.wrsPortStatusConfiguredMode i
        (configuredMode codes read (t.unmonitored i) inst) }

def ppsiPass (codes : PpsiCodes) (n : Nat) (t : PortTable w) (read : PpsiRead w) : PortTable w :=
  read.instances.foldl (PortTable.count codes n read) t

/-- The table when the rounds over the instances begin. -/
def PortTable.start (cells : PortCells) : PortTable w := ⟨cells, fun _ => 0, fun _ => 0, fun _ => 0⟩

/-- `wrsPortStatusTable_data_fill` for `n` ports. -/
def wrsPortStatusTableFill (codes : PpsiCodes) (n : Nat) (hal : List (Round HalRead))
    (ppsi : List (Round (PpsiRead w))) : Option (PortTable w) :=
  (readRounds false (fun cells read => (halPass n read).onto cells) 0 PortCells.cleared hal).bind
    fun cells => readRounds true (ppsiPass codes n) 0 (.start (checkSfps n cells)) ppsi

/-! ### The rounds over the hal's ports -/

private theorem halPass_sfpError {n : Nat} {read : HalRead} {i : Nat} {v : Cell}
    (written : halPass n read (i, .wrsPortStatusSfpError) = some v) : v = sfpErrorPortDown := by
  simp only [halPass, reduceCtorEq, if_false] at written
  split_ifs at written
  obtain ⟨p, -, wrote⟩ := Option.bind_eq_some_iff.mp written
  simp only [portWrites] at wrote
  split_ifs at wrote
  exact (Option.some.inj wrote).symm

/-- A pass that writes whether the SFP is for gigabit links has found a port that is not down. -/
theorem halPass_sfpGbe {n : Nat} {read : HalRead} {i : Nat} {v : Cell}
    (written : halPass n read (i, .wrsPortStatusSfpGbE) = some v) :
    i < n ∧ v ≠ .int 0 ∧ halPass n read (i, .wrsPortStatusSfpError) = none := by
  simp only [halPass, reduceCtorEq, if_false] at written ⊢
  split_ifs at written with inside
  obtain ⟨p, found, wrote⟩ := Option.bind_eq_some_iff.mp written
  simp only [portWrites] at wrote
  split_ifs at wrote with live flag
  all_goals
    refine ⟨inside, ?_, ?_⟩
    · rw [← Option.some.inj wrote]
      decide
    · rw [if_pos inside, found]
      exact if_neg (by simp [live.1])

/-- Two tables that agree but for `wrsPortStatusSfpError`. -/
def AgreeElsewhere (cells cells' : PortCells) : Prop :=
  ∀ k, k.2 ≠ .wrsPortStatusSfpError → cells k = cells' k

/-- Outside the column of SFP errors the cells agree. -/
theorem AgreeElsewhere.column {cells cells' : PortCells} (agree : AgreeElsewhere cells cells')
    (i : Nat) (column : PortColumn) (other : column ≠ .wrsPortStatusSfpError) :
    cells (i, column) = cells' (i, column) := agree (i, column) other

private theorem checkSfps_eq_iff {n : Nat} {cells cells' : PortCells}
    (beyond : ∀ i, n ≤ i → cells (i, .wrsPortStatusSfpError) = cells' (i, .wrsPortStatusSfpError)) :
    checkSfps n cells = checkSfps n cells' ↔
      AgreeElsewhere cells cells' ∧ ∀ i, i < n → sfpError cells i = sfpError cells' i := by
  constructor
  · intro same
    refine ⟨fun k other => ?_, fun i inside => ?_⟩
    · have here := congrFun same k
      simpa only [checkSfps, other, and_false, if_false] using here
    · have here := congrFun same (i, .wrsPortStatusSfpError)
      simpa only [checkSfps, inside, and_self, if_true] using here
  · rintro ⟨agree, checked⟩
    funext k
    simp only [checkSfps]
    split_ifs with here
    · exact checked k.1 here.1
    · -- the check writes one column of the rows below n
      by_cases error : k.2 = .wrsPortStatusSfpError
      · have outside : n ≤ k.1 := Nat.le_of_not_lt fun inside => here ⟨inside, error⟩
        obtain ⟨i, column⟩ := k
        obtain rfl : column = .wrsPortStatusSfpError := error
        exact beyond i outside
      · exact agree k error

private theorem sfpError_of_agree {cells cells' : PortCells} (agree : AgreeElsewhere cells cells')
    {i : Nat} (same : cells' (i, .wrsPortStatusSfpGbE) ≠ .int 0 →
      (cells (i, .wrsPortStatusSfpError) = sfpErrorPortDown ↔
        cells' (i, .wrsPortStatusSfpError) = sfpErrorPortDown)) :
    sfpError cells i = sfpError cells' i := by
  rw [sfpError, sfpError, agree.column i .wrsPortStatusSfpGbE (by decide),
    agree.column i .wrsPortStatusMonitor (by decide),
    agree.column i .wrsPortStatusSfpInDB (by decide)]
  by_cases absent : cells' (i, .wrsPortStatusSfpGbE) = .int 0
  · rw [if_pos absent, if_pos absent]
  · simp only [same absent]

/-- The check reports a port down where it has found one with an SFP. -/
theorem sfpError_eq_portDown (cells : PortCells) (i : Nat) :
    sfpError cells i = sfpErrorPortDown ↔
      cells (i, .wrsPortStatusSfpGbE) ≠ .int 0 ∧
        cells (i, .wrsPortStatusSfpError) = sfpErrorPortDown := by
  have ok : sfpErrorSfpOk ≠ sfpErrorPortDown := by decide
  have error : sfpErrorSfpError ≠ sfpErrorPortDown := by decide
  rw [sfpError]
  split_ifs <;> simp_all

/-- What the discarded rounds left in the columns of the hal is gone. A cell that the last round
does not write was not written with another value; and where the last round finds an SFP, none
of them saw the port down. -/
def HalClean (n : Nat) (discarded : List HalRead) (last : HalRead) : Prop :=
  (∀ k, k.2 ≠ .wrsPortStatusSfpError → halPass n last k = none →
    ∀ v ∈ lastWrite (discarded.map (halPass n)) k, v = k.2.cleared) ∧
  ∀ i, (halPass n last (i, .wrsPortStatusSfpGbE)).isSome →
    lastWrite (discarded.map (halPass n)) (i, .wrsPortStatusSfpError) = none

/-- The hal's columns after some rounds. -/
def halCells (n : Nat) (discarded : List HalRead) (last : HalRead) : PortCells :=
  (halPass n last).onto (writeAll PortCells.cleared (discarded.map (halPass n)))

private theorem halCells_agree_iff (n : Nat) (discarded : List HalRead) (last : HalRead) :
    AgreeElsewhere (halCells n discarded last) (halCells n [] last) ↔
      ∀ k, k.2 ≠ .wrsPortStatusSfpError → halPass n last k = none →
        ∀ v ∈ lastWrite (discarded.map (halPass n)) k, v = k.2.cleared :=
  forall_congr' fun k => imp_congr_right fun _ => onto_writeAll_apply_iff _ _ _ k

private theorem halCells_sfpError {n : Nat} {discarded : List HalRead} {last : HalRead} {i : Nat}
    (unwritten : halPass n last (i, .wrsPortStatusSfpError) = none) :
    halCells n discarded last (i, .wrsPortStatusSfpError) =
      (lastWrite (discarded.map (halPass n)) (i, .wrsPortStatusSfpError)).getD (.int 0) := by
  rw [halCells, Writes.onto_apply, unwritten, writeAll_eq]
  rfl

private theorem halCells_gbe {n : Nat} {last : HalRead} {i : Nat}
    (present : halCells n [] last (i, .wrsPortStatusSfpGbE) ≠ .int 0) :
    (halPass n last (i, .wrsPortStatusSfpGbE)).isSome := by
  rw [halCells, Writes.onto_apply] at present
  cases written : halPass n last (i, .wrsPortStatusSfpGbE) with
  | none =>
    rw [written] at present
    exact absurd rfl present
  | some v => rfl

private theorem checkSfps_halCells_iff (n : Nat) (discarded : List HalRead) (last : HalRead) :
    checkSfps n (halCells n discarded last) = checkSfps n (halCells n [] last) ↔
      HalClean n discarded last := by
  have outside (read : HalRead) (i : Nat) (beyond : n ≤ i) (column : PortColumn) :
      halPass n read (i, column) = none := if_neg (Nat.not_lt.mpr beyond)
  rw [checkSfps_eq_iff, halCells_agree_iff, HalClean]
  · refine and_congr_right fun clean => ?_
    have agree := (halCells_agree_iff n discarded last).mpr clean
    constructor
    · intro checked i found
      obtain ⟨v, gbe⟩ := Option.isSome_iff_exists.mp found
      obtain ⟨inside, nonzero, alive⟩ := halPass_sfpGbe gbe
      by_contra traced
      -- the port was down in a discarded round, which is what the check then reports
      obtain ⟨u, left⟩ := Option.ne_none_iff_exists'.mp traced
      obtain ⟨read, member, wrote⟩ := exists_of_lastWrite left
      obtain ⟨read, -, rfl⟩ := List.mem_map.mp member
      obtain rfl := halPass_sfpError wrote
      have present : halCells n [] last (i, .wrsPortStatusSfpGbE) ≠ .int 0 := by
        rw [halCells, Writes.onto_apply, gbe]
        exact nonzero
      have down : sfpError (halCells n discarded last) i = sfpErrorPortDown := by
        rw [sfpError_eq_portDown, agree.column i .wrsPortStatusSfpGbE (by decide),
          halCells_sfpError alive, left]
        exact ⟨present, rfl⟩
      have alone := ((sfpError_eq_portDown _ i).mp ((checked i inside).symm.trans down)).2
      rw [halCells_sfpError alive] at alone
      exact absurd alone (show Cell.int 0 ≠ sfpErrorPortDown by decide)
    · intro untouched i inside
      refine sfpError_of_agree agree fun present => ?_
      have found := halCells_gbe present
      obtain ⟨v, gbe⟩ := Option.isSome_iff_exists.mp found
      obtain ⟨-, -, alive⟩ := halPass_sfpGbe gbe
      rw [halCells_sfpError alive, halCells_sfpError alive, untouched i found]
      rfl
  · intro i beyond
    refine (onto_writeAll_apply_iff _ _ _ _).mpr fun _ v written => ?_
    obtain ⟨read, member, wrote⟩ := exists_of_lastWrite written
    obtain ⟨read, -, rfl⟩ := List.mem_map.mp member
    rw [outside read i beyond] at wrote
    cases wrote

/-! ### The rounds over the instances -/

/-- The instances of some rounds, each with the round that read it. -/
def tagged (reads : List (PpsiRead w)) : List (PpsiRead w × PortInstance w) :=
  reads.flatMap fun read => read.instances.map fun inst => (read, inst)

/-- The sum of a counter over the instances of the port in row `i`. -/
def portSum (n : Nat) (counter : PortInstance w → BitVec w)
    (counted : List (PpsiRead w × PortInstance w)) (i : Nat) : BitVec w :=
  ((counted.filter fun p => matchPort n p.2.ifaceName = some i).map fun p => counter p.2).sum

/-- What an instance writes into `wrsPortStatusConfiguredMode`. -/
def modeWrites (codes : PpsiCodes) (n : Nat) (unmonitored : Nat → Bool)
    (p : PpsiRead w × PortInstance w) : Writes Nat Int := fun i =>
  if matchPort n p.2.ifaceName = some i then
    some (configuredMode codes p.1 (unmonitored i) p.2)
  else none

def countAll (codes : PpsiCodes) (n : Nat) (t : PortTable w)
    (counted : List (PpsiRead w × PortInstance w)) : PortTable w :=
  counted.foldl (fun t p => t.count codes n p.1 p.2) t

private theorem foldl_ppsiPass (codes : PpsiCodes) (n : Nat) (t : PortTable w)
    (reads : List (PpsiRead w)) :
    reads.foldl (ppsiPass codes n) t = countAll codes n t (tagged reads) := by
  induction reads generalizing t with
  | nil => rfl
  | cons read reads ih =>
    have split : tagged (read :: reads) =
        (read.instances.map fun inst => (read, inst)) ++ tagged reads := List.flatMap_cons
    rw [List.foldl_cons, ih, split, countAll, countAll, List.foldl_append, List.foldl_map]
    rfl

@[simp]
theorem count_cells (codes : PpsiCodes) (n : Nat) (read : PpsiRead w) (t : PortTable w)
    (inst : PortInstance w) : (t.count codes n read inst).cells = t.cells := by
  rw [PortTable.count]
  split <;> rfl

private theorem countAll_cells (codes : PpsiCodes) (n : Nat) (t : PortTable w)
    (counted : List (PpsiRead w × PortInstance w)) :
    (countAll codes n t counted).cells = t.cells := by
  induction counted generalizing t with
  | nil => rfl
  | cons p counted ih => exact (ih _).trans (count_cells codes n p.1 t p.2)

private theorem portSum_cons (n : Nat) (counter : PortInstance w → BitVec w)
    (p : PpsiRead w × PortInstance w) (counted : List (PpsiRead w × PortInstance w)) (i : Nat) :
    portSum n counter (p :: counted) i =
      (if matchPort n p.2.ifaceName = some i then counter p.2 else 0) +
        portSum n counter counted i := by
  by_cases own : matchPort n p.2.ifaceName = some i
  · simp [portSum, own]
  · simp [portSum, own]

private theorem portSum_append (n : Nat) (counter : PortInstance w → BitVec w)
    (counted more : List (PpsiRead w × PortInstance w)) (i : Nat) :
    portSum n counter (counted ++ more) i =
      portSum n counter counted i + portSum n counter more i := by
  rw [portSum, List.filter_append, List.map_append, List.sum_append]
  rfl

/-- The counters are the sums over the port's instances, on top of what was there. -/
theorem countAll_frames (codes : PpsiCodes) (n : Nat) (t : PortTable w)
    (counted : List (PpsiRead w × PortInstance w)) (i : Nat) :
    (countAll codes n t counted).wrsPortStatusPtpTxFrames i =
        t.wrsPortStatusPtpTxFrames i + portSum n PortInstance.ptpTxCount counted i ∧
      (countAll codes n t counted).wrsPortStatusPtpRxFrames i =
        t.wrsPortStatusPtpRxFrames i + portSum n PortInstance.ptpRxCount counted i := by
  induction counted generalizing t with
  | nil => exact ⟨(add_zero _).symm, (add_zero _).symm⟩
  | cons p counted ih =>
    rw [countAll, List.foldl_cons]
    obtain ⟨tx, rx⟩ := ih (t.count codes n p.1 p.2)
    rw [countAll] at tx rx
    rw [tx, rx, portSum_cons, portSum_cons, ← add_assoc, ← add_assoc, PortTable.count]
    cases found : matchPort n p.2.ifaceName with
    | none => simp
    | some j =>
      -- a port is counted for the row of its interface name
      by_cases own : j = i
      · subst own
        simp
      · simp [own, Function.update_of_ne (Ne.symm own)]

private theorem countAll_mode (codes : PpsiCodes) (n : Nat) (t : PortTable w)
    (counted : List (PpsiRead w × PortInstance w)) :
    (countAll codes n t counted).wrsPortStatusConfiguredMode =
      writeAll t.wrsPortStatusConfiguredMode
        (counted.map (modeWrites codes n t.unmonitored)) := by
  induction counted generalizing t with
  | nil => rfl
  | cons p counted ih =>
    rw [countAll, List.foldl_cons, List.map_cons, writeAll_cons]
    have next := ih (t.count codes n p.1 p.2)
    rw [countAll] at next
    -- counting leaves the cells, so the same rows stay unmonitored
    have same : (t.count codes n p.1 p.2).unmonitored = t.unmonitored := by
      funext i
      rw [PortTable.unmonitored, PortTable.unmonitored, count_cells]
    rw [next, same]
    congr 1
    funext i
    rw [PortTable.count, Writes.onto_apply, modeWrites]
    cases found : matchPort n p.2.ifaceName with
    | none => simp
    | some j =>
      by_cases own : j = i
      · subst own
        simp
      · simp [own, Function.update_of_ne (Ne.symm own)]

/-! ### All rounds -/

/-- The table that the rounds leave. -/
def portTable (codes : PpsiCodes) (n : Nat) (halDiscarded : List HalRead) (halLast : HalRead)
    (ppsiReads : List (PpsiRead w)) : PortTable w :=
  countAll codes n (.start (checkSfps n (halCells n halDiscarded halLast))) (tagged ppsiReads)

/-- No discarded round left a trace: in the columns of the hal, in the counts (their instances
had counted nothing) and in the mode of a port that has no instance in the last round. -/
def PortClean (codes : PpsiCodes) (n : Nat) (halDiscarded : List HalRead) (halLast : HalRead)
    (ppsiDiscarded : List (PpsiRead w)) (ppsiLast : PpsiRead w) : Prop :=
  let modes (reads : List (PpsiRead w)) : List (Writes Nat Int) :=
    (tagged reads).map (modeWrites codes n
      (PortTable.start (checkSfps n (halCells n [] halLast)) : PortTable w).unmonitored)
  HalClean n halDiscarded halLast ∧
    (∀ i, portSum n PortInstance.ptpTxCount (tagged ppsiDiscarded) i = 0 ∧
      portSum n PortInstance.ptpRxCount (tagged ppsiDiscarded) i = 0) ∧
    NoTrace (fun _ => 0) (modes ppsiDiscarded) (lastWrite (modes [ppsiLast]))

private theorem portTable_eq_iff (codes : PpsiCodes) (n : Nat) (halDiscarded : List HalRead)
    (halLast : HalRead) (ppsiDiscarded : List (PpsiRead w)) (ppsiLast : PpsiRead w) :
    portTable codes n halDiscarded halLast (ppsiDiscarded ++ [ppsiLast]) =
        portTable codes n [] halLast [ppsiLast] ↔
      PortClean codes n halDiscarded halLast ppsiDiscarded ppsiLast := by
  have split : tagged (ppsiDiscarded ++ [ppsiLast]) = tagged ppsiDiscarded ++ tagged [ppsiLast] :=
    List.flatMap_append
  rw [PortTable.mk.injEq, portTable, portTable, countAll_cells, countAll_cells, PortClean]
  change checkSfps n _ = checkSfps n _ ∧ _ ↔ _
  rw [checkSfps_halCells_iff]
  -- the cells of the HAL first: the modes are judged on top of them
  refine and_congr_right fun clean => ?_
  have cells := (checkSfps_halCells_iff n halDiscarded halLast).mpr clean
  rw [cells, countAll_mode, countAll_mode, split, List.map_append, writeAll_append,
    writeAll_eq _ (List.map _ (tagged [ppsiLast])), writeAll_eq _ (List.map _ (tagged [ppsiLast]))]
  change Writes.onto _ (writeAll (fun _ => 0) _) = Writes.onto _ (fun _ => 0) ∧ _ ↔ _
  rw [onto_writeAll_eq_self_iff, and_comm]
  refine and_congr ?_ Iff.rfl
  simp only [funext_iff, ← forall_and, countAll_frames, portSum_append]
  refine forall_congr' fun i => ?_
  simp [PortTable.start]

private theorem wrsPortStatusTableFill_eq (codes : PpsiCodes) (n : Nat)
    {halDiscarded : List (Round HalRead)} {halLast : Round HalRead}
    {ppsiDiscarded : List (Round (PpsiRead w))} {ppsiLast : Round (PpsiRead w)}
    (halRetried : ∀ r ∈ halDiscarded, r.Discarded) (halConsistent : ¬ halLast.Discarded)
    (halFew : halDiscarded.length ≤ maxRetries)
    (ppsiRetried : ∀ r ∈ ppsiDiscarded, r.Discarded) (ppsiConsistent : ¬ ppsiLast.Discarded)
    (ppsiFew : ppsiDiscarded.length ≤ maxRetries) :
    wrsPortStatusTableFill codes n (halDiscarded ++ [halLast]) (ppsiDiscarded ++ [ppsiLast]) =
      some (portTable codes n (halDiscarded.map Round.read) halLast.read
        (ppsiDiscarded.map Round.read ++ [ppsiLast.read])) := by
  rw [wrsPortStatusTableFill,
    readRounds_eq false _ _ [] halRetried halConsistent halFew, Option.bind_some,
    readRounds_eq true _ _ [] ppsiRetried ppsiConsistent ppsiFew, portTable, ← foldl_ppsiPass,
    List.foldl_append, halCells, writeAll, List.foldl_map (f := halPass n)]
  rfl

/-- When discarded rounds leave no trace in the table of ports. -/
theorem wrsPortStatusTableFill_iff (codes : PpsiCodes) (n : Nat)
    {halDiscarded : List (Round HalRead)} {halLast : Round HalRead}
    {ppsiDiscarded : List (Round (PpsiRead w))} {ppsiLast : Round (PpsiRead w)}
    (halRetried : ∀ r ∈ halDiscarded, r.Discarded) (halConsistent : ¬ halLast.Discarded)
    (halFew : halDiscarded.length ≤ maxRetries)
    (ppsiRetried : ∀ r ∈ ppsiDiscarded, r.Discarded) (ppsiConsistent : ¬ ppsiLast.Discarded)
    (ppsiFew : ppsiDiscarded.length ≤ maxRetries) :
    wrsPortStatusTableFill codes n (halDiscarded ++ [halLast]) (ppsiDiscarded ++ [ppsiLast]) =
        wrsPortStatusTableFill codes n [halLast] [ppsiLast] ↔
      PortClean codes n (halDiscarded.map Round.read) halLast.read
        (ppsiDiscarded.map Round.read) ppsiLast.read := by
  have alone := wrsPortStatusTableFill_eq codes n
    (fun _ (none : _ ∈ []) => absurd none List.not_mem_nil) halConsistent (Nat.zero_le _)
    (fun _ (none : _ ∈ []) => absurd none List.not_mem_nil) ppsiConsistent (Nat.zero_le _)
  rw [List.nil_append, List.nil_append] at alone
  rw [wrsPortStatusTableFill_eq codes n halRetried halConsistent halFew ppsiRetried ppsiConsistent
    ppsiFew, alone, Option.some.injEq]
  exact portTable_eq_iff ..

end WrSwitch.Snmp
