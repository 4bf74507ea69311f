import WrSwitch.Hal.Types
import WrSwitch.Libwr.ConfigStore
import Mathlib.Tactic.IntervalCases

/-!
# The file of the TX calibration

`_write_tx_calibration_file` and `_load_tx_calibration_file` keep the phases of the ports, and the
MD5 of the bitstream they were measured with, in a configuration file.
-/
namespace WrSwitch.Hal

open Machine Libwr

/-- The fields of a port that the two functions use. `hal_port_init` takes `hw_index` from the name
of the interface, so it need not be the port's place in the array. -/
structure TxPort where
  hwIndex : BitVec 32
  inUse : Bool
  isSupported : Bool
  measuredPhase : BitVec 32
  calSavedPhase : BitVec 32
  calSavedPhaseValid : Bool
deriving DecidableEq, Repr

structure TxLpdc where
  calFileSynced : Bool
  firstLpdcPort : Nat
  lastLpdcPort : Nat
deriving DecidableEq, Repr

/-! ### The two functions -/

/-- One conversion of `fscanf` with `%33s` and the white space behind it. -/
def scanToken (s : List Char) : List Char × List Char :=
  let s := s.dropWhile isWhite
  let token := (s.takeWhile fun c => !isWhite c).take 33
  (token, (s.drop token.length).dropWhile isWhite)

def loadOk : List Char := ['l', 'o', 'a', 'd', '_', 'o', 'k']
def errorText : List Char := ['E', 'R', 'R', 'O', 'R']
def md5Key : List Char := ['M', 'D', '5']

/-- `get_fpga_md5` on the status file, if there is one. -/
def getFpgaMd5 : Option (List Char) → Option (List Char)
  | none => none
  | some status =>
    let state := scanToken status
    -- the FPGA is not loaded, or the file ends
    if cString state.1 ≠ loadOk ∨ state.2 = [] then none
    else some (cString (scanToken state.2).1)

/-- The format `%02d`. -/
def twoDigits (n : Int) : List Char :=
  if 0 ≤ n ∧ n < 10 then '0' :: decimal n else decimal n

def txPhasePort : List Char := ['T', 'X', '_', 'P', 'H', 'A', 'S', 'E', '_', 'P', 'O', 'R', 'T']

def phaseKey (hwIndex : BitVec 32) : List Char := txPhasePort ++ twoDigits (hwIndex + 1).toInt

/-- The loop of `_write_tx_calibration_file`. -/
def writePhases : List TxPort → ConfigFile → Option ConfigFile
  | [], cfg => some cfg
  | ps :: ports, cfg =>
    if ps.inUse ∧ ps.isSupported then
      (cfgSetInt cfg (phaseKey ps.hwIndex) ps.measuredPhase).bind (writePhases ports)
    else writePhases ports cfg

/-- The file that `cfg_load` with `overwrite` finds or creates. -/
def loadOrCreate (stale : Nat → Bool) : Option (List Char) → Option ConfigFile
  | none => some ⟨[], true⟩
  | some file => cfgLoad stale file

/-- The ports that `_ps` comes to when it starts at this one; the memory behind the array is left
out. -/
def lpdcPorts (gl : TxLpdc) (index : Nat) (ports : List TxPort) : List TxPort :=
  (ports.drop index).take (gl.lastLpdcPort + 1 - gl.firstLpdcPort)

/-- `_write_tx_calibration_file` for the port at this place. -/
def writeTxCalibrationFile (stale : Nat → Bool) (file status : Option (List Char)) (gl : TxLpdc)
    (index : Nat) (ports : List TxPort) : Option (Option (List Char) × TxLpdc) := do
  let ps ← ports[index]?
  -- the place of the first port is compared with the number in a name
  if (gl.firstLpdcPort : Int) ≠ ps.hwIndex.toInt ∨ gl.calFileSynced then some (file, gl)
  else
    let cfg ← loadOrCreate stale file
    let cfg ← cfgSetStr cfg md5Key ((getFpgaMd5 status).getD errorText)
    let cfg ← writePhases (lpdcPorts gl index ports) cfg
    let file ← cfgSave cfg
    some (some file, { gl with calFileSynced := true })

/-- The loop of `_load_tx_calibration_file`. -/
def loadPhases (cfg : ConfigFile) : List TxPort → Option (List TxPort)
  | [] => some []
  | ps :: ports => do
    let ps ← if ps.inUse ∧ ps.isSupported then
        (cfgGetInt cfg (phaseKey ps.hwIndex)).map fun value => match value with
          | some value => { ps with calSavedPhase := value, calSavedPhaseValid := true }
          | none => ps
      else some ps
    let ports ← loadPhases cfg ports
    some (ps :: ports)

/-- The comparison of the MD5s: the configuration afterwards, and whether they match. -/
def matchMd5 (cfg : ConfigFile) (status : Option (List Char)) : Option (Bool × ConfigFile) :=
  match getFpgaMd5 status with
  | none => some (true, cfg)
  | some md5 => (cfgGetStr cfg md5Key).map fun (lpdcMd5, cfg) => match lpdcMd5 with
    | some lpdcMd5 => (decide (md5.take 32 = lpdcMd5.take 32), cfg)
    | none => (true, cfg)

/-- `_load_tx_calibration_file` -/
def loadTxCalibrationFile (stale : Nat → Bool) (file status : Option (List Char)) (gl : TxLpdc)
    (ports : List TxPort) : Option (List TxPort × TxLpdc) :=
  match file with
  | none => some (ports, { gl with calFileSynced := false })
  | some file => do
    let cfg ← cfgLoad stale file
    let (same, cfg) ← matchMd5 cfg status
    let ports' ← if same then loadPhases cfg ports else some ports
    -- `cfg_close` walks through the list once more
    if cfg.ended = false then none
    else some (ports', if same then { gl with calFileSynced := true } else gl)

/-! ### Keys -/

private theorem twoDigits_value (n : Int) : decimalValue (twoDigits n) = n := by
  rw [twoDigits]
  split
  next one =>
    -- a zero in front of one digit
    obtain ⟨low, high⟩ := one
    interval_cases n <;> rfl
  next => exact decimalValue_decimal n

private theorem twoDigits_chars (n : Int) : ∀ c ∈ twoDigits n, c = '-' ∨ c.isDigit := by
  intro c member
  rw [twoDigits] at member
  split at member
  · obtain rfl | member := List.mem_cons.mp member
    · exact .inr rfl
    · exact decimal_chars n c member
  · exact decimal_chars n c member

private theorem digit_range {c : Char} (digit : c.isDigit) : 48 ≤ c.toNat ∧ c.toNat ≤ 57 := by
  simp only [Char.isDigit, Bool.and_eq_true, decide_eq_true_eq, UInt32.le_iff_toNat_le] at digit
  exact digit

private theorem toLower_digit {c : Char} (digit : c.isDigit) : c.toLower = c := by
  have range := digit_range digit
  refine dif_neg ?_
  rintro ⟨low, _⟩
  have letter : 65 ≤ c.toNat := UInt32.le_iff_toNat_le.mp low
  omega

private theorem word_decimal_length (value : BitVec 32) : (decimal value.toInt).length ≤ 11 := by
  refine decimal_length (k := 9) ?_
  have low := BitVec.le_toInt value
  have high := BitVec.toInt_lt (x := value)
  omega

private theorem twoDigits_length (value : BitVec 32) : (twoDigits value.toInt).length ≤ 12 := by
  have number := word_decimal_length value
  rw [twoDigits]
  split
  · exact Nat.succ_le_succ number
  · exact Nat.le_succ_of_le number

private theorem sameKey_phaseKey (i j : BitVec 32) :
    sameKey (phaseKey i) (phaseKey j) = decide (i = j) := by
  have lower (n : Int) : (twoDigits n).map Char.toLower = twoDigits n := by
    refine (List.map_congr_left fun c member => ?_).trans (List.map_id _)
    obtain rfl | digit := twoDigits_chars n c member
    · rfl
    · exact toLower_digit digit
  rw [Bool.eq_iff_iff, sameKey_iff, decide_eq_true_iff, phaseKey, phaseKey, List.map_append,
    List.map_append, List.append_cancel_left_eq, lower, lower]
  constructor
  · intro same
    have value := congrArg decimalValue same
    rw [twoDigits_value, twoDigits_value] at value
    exact (BitVec.add_left_inj 1).mp (BitVec.eq_of_toInt_eq value)
  · rintro rfl
    rfl

private theorem sameKey_md5 (i : BitVec 32) :
    sameKey md5Key (phaseKey i) = false ∧ sameKey (phaseKey i) md5Key = false := by
  rw [← Bool.not_eq_true, ← Bool.not_eq_true, sameKey_iff, sameKey_iff]
  constructor
  · intro same
    have first : some 'm' = some 't' := congrArg List.head? same
    exact absurd first (by decide)
  · intro same
    have first : some 't' = some 'm' := congrArg List.head? same
    exact absurd first (by decide)

/-! ### Values that can be set -/

private theorem stops_false {c : Char} (visible : 14 ≤ c.toNat) : stops c = false := by
  have newline : c ≠ '\n' := by
    rintro rfl
    exact absurd visible (by decide)
  have ret : c ≠ '\r' := by
    rintro rfl
    exact absurd visible (by decide)
  simp only [stops, decide_eq_false_iff_not, newline, ret, false_or]
  omega

private theorem decimal_textOk (n : Int) : TextOk (decimal n) := fun c member => by
  obtain rfl | digit := decimal_chars n c member
  · decide
  · exact stops_false (by have := digit_range digit; omega)

private theorem phaseKey_ok (i : BitVec 32) : KeyOk (phaseKey i) := by
  have number := twoDigits_chars (i + 1).toInt
  refine ⟨fun c member => ?_, fun member => ?_, fun start => ?_⟩
  · obtain front | back := List.mem_append.mp member
    · exact (by decide : TextOk txPhasePort) c front
    · obtain rfl | digit := number c back
      · decide
      · exact stops_false (by have := digit_range digit; omega)
  · obtain front | back := List.mem_append.mp member
    · exact absurd front (by decide)
    · exact absurd (number '=' back) (by decide)
  · have first : some 'T' = some '#' := start
    exact absurd first (by decide)

private theorem phase_setOk (store : Store) (i value : BitVec 32) :
    SetOk store (phaseKey i) (decimal value.toInt) := by
  have digits := twoDigits_length (i + 1)
  have number := word_decimal_length value
  refine ⟨decimal_textOk _, ?_, fun _ => phaseKey_ok i⟩
  rw [phaseKey, List.length_append]
  change 13 + _ + _ < 1022
  omega

private theorem scanToken_chars (s : List Char) :
    (scanToken s).1.length ≤ 33 ∧ ∀ c ∈ (scanToken s).1, isWhite c = false := by
  refine ⟨List.length_take_le _ _, fun c member => ?_⟩
  have among := List.mem_of_mem_take member
  have visible := List.mem_takeWhile_imp among
  rwa [Bool.not_eq_true'] at visible

private theorem getFpgaMd5_ok {status : Option (List Char)} {md5 : List Char}
    (read : getFpgaMd5 status = some md5) : md5.length ≤ 33 ∧ TextOk md5 := by
  cases status with
  | none => cases read
  | some status =>
    rw [getFpgaMd5] at read
    split at read
    · cases read
    · cases read
      -- a token of scanf has no white space, so no line ends within it
      obtain ⟨length, visible⟩ := scanToken_chars (scanToken status).2
      refine ⟨(List.takeWhile_prefix _).length_le.trans length, fun c member => ?_⟩
      have nonzero := List.mem_takeWhile_imp member
      rw [decide_eq_true_iff] at nonzero
      have white := visible c ((List.takeWhile_prefix _).subset member)
      rw [isWhite, decide_eq_false_iff_not, not_or] at white
      have newline : c ≠ '\n' := by
        rintro rfl
        exact white.2 (by decide)
      have ret : c ≠ '\r' := by
        rintro rfl
        exact white.2 (by decide)
      simp only [stops, decide_eq_false_iff_not, newline, ret, false_or]
      exact nonzero

private theorem md5_setOk (store : Store) (status : Option (List Char)) :
    SetOk store md5Key ((getFpgaMd5 status).getD errorText) := by
  have key : KeyOk md5Key := ⟨by decide, by decide, by decide⟩
  cases read : getFpgaMd5 status with
  | none => exact ⟨by decide, by decide, fun _ => key⟩
  | some md5 =>
    obtain ⟨length, ok⟩ := getFpgaMd5_ok read
    refine ⟨ok, ?_, fun _ => key⟩
    change 3 + md5.length < 1022
    omega

/-! ### Writing and loading -/

/-- The values of the store after the loop. -/
def phaseStore : List TxPort → Store → Store
  | [], store => store
  | ps :: ports, store =>
    phaseStore ports
      (if ps.inUse ∧ ps.isSupported then
        store.put (phaseKey ps.hwIndex) (decimal ps.measuredPhase.toInt)
      else store)

private theorem set_sound {stale : Nat → Bool} {cfg : ConfigFile} {store : Store}
    (sound : Sound stale cfg store) {key value : List Char} (ok : SetOk store key value) :
    ∃ cfg', cfgSetStr cfg key value = some cfg' ∧ Sound stale cfg' (store.put key value) :=
  ⟨_, cfgSetStr_eq sound.ended key value, (set_sound_iff sound key value).mpr ok,
    set_given sound key value⟩

private theorem writePhases_sound {stale : Nat → Bool} (ports : List TxPort) {cfg : ConfigFile}
    {store : Store} (sound : Sound stale cfg store) :
    ∃ cfg', writePhases ports cfg = some cfg' ∧ Sound stale cfg' (phaseStore ports store) := by
  induction ports generalizing cfg store with
  | nil => exact ⟨cfg, rfl, sound⟩
  | cons ps ports ih =>
    rw [writePhases, phaseStore]
    split
    next =>
      obtain ⟨cfg', done, sound'⟩ :=
        set_sound sound (phase_setOk store ps.hwIndex ps.measuredPhase)
      rw [cfgSetInt, done]
      exact ih sound'
    next => exact ih sound

/-- A key that the loop does not write keeps its value. -/
theorem phaseStore_other {ports : List TxPort} {key : List Char}
    (other : ∀ ps ∈ ports, ps.inUse ∧ ps.isSupported → sameKey (phaseKey ps.hwIndex) key = false)
    (store : Store) : phaseStore ports store key = store key := by
  induction ports generalizing store with
  | nil => rfl
  | cons ps ports ih =>
    obtain ⟨head, rest⟩ := List.forall_mem_cons.mp other
    rw [phaseStore, ih rest]
    split
    next used => rw [Store.put, head used, if_neg Bool.false_ne_true]
    next => rfl

private theorem phaseStore_written {before after : List TxPort} {ps : TxPort} (store : Store)
    (written : ps.inUse ∧ ps.isSupported)
    (last : ∀ next ∈ after, next.inUse ∧ next.isSupported → next.hwIndex ≠ ps.hwIndex) :
    phaseStore (before ++ ps :: after) store (phaseKey ps.hwIndex) =
      some (decimal ps.measuredPhase.toInt) := by
  induction before generalizing store with
  | nil =>
    rw [List.nil_append, phaseStore, if_pos written, phaseStore_other, Store.put,
      sameKey_phaseKey]
    · simp
    · intro next member used
      rw [sameKey_phaseKey, decide_eq_false_iff_not]
      exact last next member used
  | cons first before ih =>
    rw [List.cons_append, phaseStore]
    exact ih _

private theorem atoi_decimal (value : BitVec 32) : atoi (decimal value.toInt) = value := by
  have low := BitVec.le_toInt value
  have high := BitVec.toInt_lt (x := value)
  have same : max (-2147483648) (min 2147483647 value.toInt) = value.toInt := by omega
  rw [atoi, decimalValue_decimal, same, BitVec.ofInt_toInt]

private theorem loadPhases_sound {stale : Nat → Bool} {cfg : ConfigFile} {store : Store}
    (sound : Sound stale cfg store) (ports : List TxPort) :
    ∃ ports', loadPhases cfg ports = some ports' ∧
      ∀ (k : Nat) (ps : TxPort) (value : List Char), ports[k]? = some ps →
        ps.inUse ∧ ps.isSupported → store (phaseKey ps.hwIndex) = some value →
        ports'[k]? = some { ps with calSavedPhase := atoi value, calSavedPhaseValid := true } := by
  have get (key : List Char) : cfgGetInt cfg key = some ((store key).map atoi) := by
    rw [cfgGetInt_eq sound.ended sound.clean, sound.given]
  induction ports with
  | nil => exact ⟨[], rfl, fun k ps value port => by cases port⟩
  | cons ps ports ih =>
    obtain ⟨ports', loaded, each⟩ := ih
    rw [loadPhases, loaded, get]
    -- only a port in use with LPDC has a saved phase
    by_cases used : ps.inUse ∧ ps.isSupported
    · refine ⟨_ :: ports', by rw [if_pos used]; rfl, fun k ps' value port _ given => ?_⟩
      cases k with
      | zero =>
        cases port
        rw [given]
        rfl
      | succ k => exact each k ps' value port ‹_› given
    · refine ⟨ps :: ports', by rw [if_neg used]; rfl, fun k ps' value port used' given => ?_⟩
      cases k with
      | zero =>
        cases port
        exact absurd used' used
      | succ k => exact each k ps' value port used' given

/-- What the port at this place writes for the ports from it on comes back to the ports of the same
interfaces that are loaded later, with the same bitstream; of several ports of one interface the
last one's. -/
def Restored (stale stale' : Nat → Bool) (old status : Option (List Char)) (gl : TxLpdc)
    (index : Nat) (ports : List TxPort) : Prop :=
  ∃ file gl', writeTxCalibrationFile stale old status gl index ports = some (some file, gl') ∧
    gl'.calFileSynced = true ∧
    (∃ cfg, cfgLoad stale' file = some cfg ∧
      lookup cfg.nodes md5Key = some ((getFpgaMd5 status).getD errorText)) ∧
    ∀ gl₂ (ports₂ : List TxPort), ∃ ports₂' gl₂',
      loadTxCalibrationFile stale' (some file) status gl₂ ports₂ = some (ports₂', gl₂') ∧
      gl₂'.calFileSynced = true ∧
      ∀ before ps after (i : Nat) (ps₂ : TxPort),
        lpdcPorts gl index ports = before ++ ps :: after → ps.inUse ∧ ps.isSupported →
        (∀ next ∈ after, next.inUse ∧ next.isSupported → next.hwIndex ≠ ps.hwIndex) →
        ports₂[i]? = some ps₂ → ps₂.inUse ∧ ps₂.isSupported → ps₂.hwIndex = ps.hwIndex →
        ports₂'[i]? =
          some { ps₂ with calSavedPhase := ps.measuredPhase, calSavedPhaseValid := true }

private theorem loadOrCreate_sound {stale stale' : Nat → Bool} {old : Option (List Char)}
    (ok : ∀ file ∈ old, FileOk stale stale' file) :
    ∃ cfg store, loadOrCreate stale old = some cfg ∧ Sound stale' cfg store := by
  cases old with
  | none =>
    refine ⟨⟨[], true⟩, lookup [], rfl, (roundTrip_iff stale' _).mpr ⟨rfl, ?_, ?_⟩, rfl⟩
    · exact fun kv member => absurd member List.not_mem_nil
    · exact fun i kv at_i => by cases at_i
  | some file =>
    obtain ⟨cfg, loaded, trip⟩ := (loaded_iff stale stale' file).mpr (ok file rfl)
    exact ⟨cfg, _, loaded, loaded_sound loaded trip⟩

private theorem matchMd5_same {stale : Nat → Bool} {cfg : ConfigFile} {store : Store}
    (sound : Sound stale cfg store) {status : Option (List Char)}
    (given : store md5Key = some ((getFpgaMd5 status).getD errorText)) :
    matchMd5 cfg status = some (true, cfg) := by
  rw [matchMd5]
  cases read : getFpgaMd5 status with
  | none => rfl
  | some md5 =>
    rw [read] at given
    rw [cfgGetStr_present sound.clean (by rw [sound.given, given]; exact Option.some_ne_none _),
      sound.given, given]
    simp

private theorem tx_restored {stale stale' : Nat → Bool} {old : Option (List Char)}
    (ok : ∀ file ∈ old, FileOk stale stale' file) (status : Option (List Char)) {gl : TxLpdc}
    (pending : gl.calFileSynced = false) {index : Nat} {ports : List TxPort} {ps : TxPort}
    (port : ports[index]? = some ps) (first : ps.hwIndex.toInt = gl.firstLpdcPort) :
    Restored stale stale' old status gl index ports := by
  obtain ⟨cfg, store, loaded, sound⟩ := loadOrCreate_sound ok
  obtain ⟨cfg₁, md5Set, sound₁⟩ := set_sound sound (md5_setOk store status)
  obtain ⟨cfg₂, written, sound₂⟩ := writePhases_sound (lpdcPorts gl index ports) sound₁
  obtain ⟨file, saved, again⟩ := sound₂.trip
  -- the phases do not overwrite the MD5
  have md5 : phaseStore (lpdcPorts gl index ports)
      (store.put md5Key ((getFpgaMd5 status).getD errorText)) md5Key =
        some ((getFpgaMd5 status).getD errorText) := by
    rw [phaseStore_other fun next _ _ => (sameKey_md5 next.hwIndex).2, Store.put, if_pos]
    decide
  refine ⟨file, { gl with calFileSynced := true }, ?_, rfl, ⟨cfg₂, again, ?_⟩, ?_⟩
  · have starts : ¬((gl.firstLpdcPort : Int) ≠ ps.hwIndex.toInt ∨ gl.calFileSynced) := by
      simp [first, pending]
    simp only [writeTxCalibrationFile, port, if_neg starts, loaded, md5Set, written, saved,
      Option.bind_eq_bind, Option.bind_some]
  · rw [sound₂.given, md5]
  -- what any later start loads
  · intro gl₂ ports₂
    obtain ⟨ports₂', phases, each⟩ := loadPhases_sound sound₂ ports₂
    refine ⟨ports₂', { gl₂ with calFileSynced := true }, ?_, rfl, ?_⟩
    · simp only [loadTxCalibrationFile, again, matchMd5_same sound₂ md5, phases, sound₂.ended,
        Option.bind_eq_bind, Option.bind_some, if_true, Bool.true_eq_false, if_false]
    · intro before ps after i ps₂ split used last port₂ used₂ same
      have value : phaseStore (lpdcPorts gl index ports)
          (store.put md5Key ((getFpgaMd5 status).getD errorText)) (phaseKey ps₂.hwIndex) =
            some (decimal ps.measuredPhase.toInt) := by
        rw [split, same]
        exact phaseStore_written _ used last
      have back := each i ps₂ _ port₂ used₂ value
      rwa [atoi_decimal] at back

/-- The configuration keeps what it is given exactly if the file and the values make lines that fit
and read the same, only keys that exist are asked for as strings, and no comment gets used memory;
then what the calibration writes is what it loads. -/
theorem config_kept_iff (stale stale' : Nat → Bool) (file : List Char) (ops : List CfgOp) :
    (Kept stale stale' file ops ↔
      FileOk stale stale' file ∧ Along CallOk storeStep (fileStore file) ops) ∧
    ∀ old status gl index ports ps, (∀ file ∈ old, FileOk stale stale' file) →
      gl.calFileSynced = false → ports[index]? = some ps →
      ps.hwIndex.toInt = gl.firstLpdcPort → Restored stale stale' old status gl index ports :=
  ⟨kept_iff stale stale' file ops, fun _ status _ _ _ _ ok pending port first =>
    tx_restored ok status pending port first⟩

def zeroMemory : Nat → Bool := fun _ => false

/-- `# c` and `A=1` -/
def smallFile : List Char := ['#', ' ', 'c', '\n', 'A', '=', '1', '\n']

private theorem smallFile_ok : FileOk zeroMemory zeroMemory smallFile :=
  ⟨by decide, fun _ _ _ _ => rfl, fun _ _ _ _ => rfl⟩

/-- The interface `wri1` is the second port, and the third port is not in use. -/
def swappedPorts : List TxPort :=
  [⟨1, true, true, 7, 0, false⟩, ⟨0, true, true, 5, 0, false⟩, ⟨0, false, false, 0, 0, false⟩]

/-- A small file and three calls, and two ports whose names are swapped. -/
theorem config_kept_small :
    Kept zeroMemory zeroMemory smallFile [.setStr ['B'] ['2'], .setInt ['a'] 7, .getStr ['b']] ∧
    Restored zeroMemory zeroMemory (some smallFile) none ⟨false, 0, 1⟩ 1 swappedPorts :=
  have kept := config_kept_iff zeroMemory zeroMemory smallFile
    [.setStr ['B'] ['2'], .setInt ['a'] 7, .getStr ['b']]
  ⟨kept.1.mpr ⟨smallFile_ok, by decide, by decide, by decide, trivial⟩,
    kept.2 (some smallFile) none ⟨false, 0, 1⟩ 1 swappedPorts ⟨0, true, true, 5, 0, false⟩
      (fun _ same => by cases same; exact smallFile_ok) rfl rfl (by decide)⟩

/-- Asking for a string, a key with `=` and a comment in used memory. -/
theorem config_not_kept : ¬Kept zeroMemory zeroMemory smallFile [.getStr ['B']] ∧
    ¬Kept zeroMemory zeroMemory smallFile [.setStr ['B', '=', 'C'] ['2']] ∧
    ¬Kept (fun _ => true) zeroMemory smallFile [] := by
  refine ⟨fun kept => ?_, fun kept => ?_, fun kept => ?_⟩
  · obtain ⟨_, asked, _⟩ := (kept_iff _ _ _ _).mp kept
    exact asked (by decide)
  · obtain ⟨_, set, _⟩ := (kept_iff _ _ _ _).mp kept
    exact absurd (set.2.2 (by decide)) (by decide)
  · obtain ⟨⟨_, fresh, _⟩, _⟩ := (kept_iff _ _ _ _).mp kept
    exact absurd (fresh 0 ⟨some ['#', ' ', 'c'], none, none⟩ (by decide) rfl) (by decide)

end WrSwitch.Hal
