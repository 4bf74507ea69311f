import WrSwitch.Rtu.ConfigRuns

/-!
# The VLAN requests of `wrs_vlans`

How `wrs_vlans.c` checks the numbers of a VLAN request, collects the requests in a list and
passes each of them on with a remote call.
-/
namespace WrSwitch.Tools

open Machine MiniRpc Rtu

abbrev Byte := BitVec 8
abbrev Word := BitVec 32

/-! ### Numbers -/

/-- `long` has 32 bits on the switch. -/
def longMin : Int := -2147483648
def longMax : Int := 2147483647

def isSpace (c : Char) : Bool := c.toNat = 32 ∨ 9 ≤ c.toNat ∧ c.toNat ≤ 13

/-- The value of a digit or letter, 36 for other characters. -/
def digitValue (c : Char) : Nat :=
  if 48 ≤ c.toNat ∧ c.toNat ≤ 57 then c.toNat - 48
  else if 97 ≤ c.toNat ∧ c.toNat ≤ 122 then c.toNat - 87
  else if 65 ≤ c.toNat ∧ c.toNat ≤ 90 then c.toNat - 55
  else 36

/-- The digits at the front, behind those that made `n`, and the rest. -/
def digits (base : Nat) : List Char → Nat → Nat × List Char
  | [], n => (n, [])
  | c :: cs, n => if digitValue c < base then digits base cs (base * n + digitValue c) else (n, c :: cs)

/-- The base that the prefix of a number stands for, and what follows the prefix. -/
def numberBase (s : List Char) : Nat × List Char :=
  match s with
  | '0' :: x :: c :: cs => if (x = 'x' ∨ x = 'X') ∧ digitValue c < 16 then (16, c :: cs) else (8, s)
  | '0' :: _ => (8, s)
  | _ => (10, s)

/-- `strtol` with base 0: the value and `endptr`. -/
def strtol (s : List Char) : Int × List Char :=
  let body := s.dropWhile isSpace
  let (negative, body) := match body with
    | '-' :: cs => (true, cs)
    | '+' :: cs => (false, cs)
    | _ => (false, body)
  let (base, body) := numberBase body
  if digitValue (body.headD ' ') < base then
    let (n, endptr) := digits base body 0
    (max longMin (min longMax (if negative then -n else n)), endptr)
  else (0, s)

/-! ### Checks -/

def rtuVidMin : Int := 0
def rtuVidMax : Int := 4094
def rtuFidMin : Int := 0
def rtuFidMax : Int := 4094
def rtuPrioMin : Int := 0
def rtuPrioMax : Int := 7
def rtuPrioDisable : Int := -1
def rtuPmaskMin : Int := 0
/-- `RTU_PMASK_MAX(NPORTS)` -/
def rtuPmaskMax : Int := 0x3ffff

def checkRtu (argVal : List Char) (min max : Int) : Int :=
  let (val, endptr) := strtol argVal
  if argVal = [] ∨ endptr ≠ [] ∨ val < min ∨ val > max then -1 else val

def checkRtuPrio (argVal : List Char) : Int :=
  let (val, endptr) := strtol argVal
  if argVal = [] ∨ endptr ≠ [] ∨ (val < rtuPrioMin ∨ val > rtuPrioMax) ∧ val ≠ rtuPrioDisable then -2
  else val

private theorem checkRtu_cases (argVal : List Char) (min max : Int) :
    checkRtu argVal min max = -1 ∨ min ≤ checkRtu argVal min max ∧ checkRtu argVal min max ≤ max := by
  simp only [checkRtu]
  split
  next => exact .inl rfl
  next accepted =>
    right
    push Not at accepted
    exact accepted.2.2

private theorem checkRtuPrio_cases (argVal : List Char) :
    checkRtuPrio argVal = -2 ∨ -1 ≤ checkRtuPrio argVal ∧ checkRtuPrio argVal ≤ 7 := by
  have least : rtuPrioMin = 0 := rfl
  have most : rtuPrioMax = 7 := rfl
  have disable : rtuPrioDisable = -1 := rfl
  simp only [checkRtuPrio]
  split
  next => exact .inl rfl
  next accepted =>
    right
    push Not at accepted
    have range := accepted.2.2
    omega

/-! ### The list of requests -/

def validPrio : Word := 1 <<< 1
def validVid : Word := 1 <<< 2
def validFid : Word := 1 <<< 3
def validPmask : Word := 1 <<< 5
def validDrop : Word := 1 <<< 6

/-- `struct rtu_vlans_t`; the list is linked through its order. -/
structure RtuVlans where
  vid : Int
  fid : Int
  pmask : Int
  drop : Int
  prio : Int
  hasPrio : Int
  prioOverride : Int
  flags : Word
deriving DecidableEq, Repr

/-- The arguments of `set_rtu_vlan`. -/
structure SetRtuVlan where
  vid : Int
  fid : Int
  pmask : Int
  drop : Int
  prio : Int
  del : Bool
  flags : Word

/-- What `set_rtu_vlan` does to the request at the head of the list. -/
def SetRtuVlan.update (call : SetRtuVlan) (cur : RtuVlans) : RtuVlans :=
  let cur := if call.flags &&& validFid ≠ 0 then { cur with fid := call.fid } else cur
  let cur := if call.flags &&& validPmask ≠ 0 then { cur with pmask := call.pmask } else cur
  let cur := if call.flags &&& validDrop ≠ 0 then { cur with drop := call.drop } else cur
  let cur :=
    if call.flags &&& validPrio ≠ 0 ∧ call.prio ≥ 0 then
      { cur with prio := call.prio, hasPrio := 1, prioOverride := 1 }
    else if call.flags &&& validPrio ≠ 0 then
      { cur with prio := call.prio, hasPrio := 0, prioOverride := 0 }
    else cur
  let cur := if call.del then
      { cur with pmask := 0, drop := 1, prio := 0, hasPrio := 0, prioOverride := 0 }
    else cur
  let flags := if call.del then call.flags ||| (validPmask ||| validDrop ||| validPrio)
    else call.flags
  { cur with flags := cur.flags ||| flags }

/-- `set_rtu_vlan`. A VID starts a new request; without one there has to be a request. -/
def setRtuVlan (call : SetRtuVlan) (rtuVlans : List RtuVlans) : List RtuVlans :=
  if call.vid ≥ 0 then
    call.update ⟨call.vid, call.vid, 0, 0, 0, 0, 0, validVid⟩ :: rtuVlans
  else match rtuVlans with
    | [] => []
    | cur :: next => call.update cur :: next

/-- The options of the command line that make up a VLAN request. -/
inductive RtuOption
  | vid | fid | pmask | drop | prio | del

/-- A VLAN option in the loop of `main`; `none` is `exit(1)`. -/
def rtuOption (opt : RtuOption) (optarg : List Char) (rtuVlans : List RtuVlans) :
    Option (List RtuVlans) :=
  match opt with
  | .vid =>
    let ret := checkRtu optarg rtuVidMin rtuVidMax
    if ret < 0 then none else some (setRtuVlan ⟨ret, -1, -1, 0, -1, false, validVid⟩ rtuVlans)
  | .fid =>
    let ret := checkRtu optarg rtuFidMin rtuFidMax
    if ret < 0 then none else some (setRtuVlan ⟨-1, ret, -1, 0, -1, false, validFid⟩ rtuVlans)
  | .pmask =>
    let ret := checkRtu optarg rtuPmaskMin rtuPmaskMax
    if ret < 0 then none else some (setRtuVlan ⟨-1, -1, ret, 0, -1, false, validPmask⟩ rtuVlans)
  | .drop =>
    let ret := checkRtu optarg 0 1
    if ret < 0 then none else some (setRtuVlan ⟨-1, -1, -1, ret, -1, false, validDrop⟩ rtuVlans)
  | .prio =>
    let ret := checkRtuPrio optarg
    if ret < rtuPrioDisable then none
    else some (setRtuVlan ⟨-1, -1, -1, 0, ret, false, validPrio⟩ rtuVlans)
  | .del => some (setRtuVlan ⟨-1, -1, -1, 0, -1, true, 0⟩ rtuVlans)

/-- The VLAN options of a command line, from left to right. -/
def rtuOptions : List (RtuOption × List Char) → List RtuVlans → Option (List RtuVlans)
  | [], rtuVlans => some rtuVlans
  | (opt, optarg) :: opts, rtuVlans => (rtuOption opt optarg rtuVlans).bind (rtuOptions opts)

/-- The parameters of the file; `-1` stands for one that it does not have. -/
def fidParam : Option (List Char) → Int
  | none => -1
  | some buff => checkRtu buff rtuFidMin rtuFidMax

def prioParam : Option (List Char) → Int
  | none => -1
  | some buff => checkRtuPrio buff

def dropParam : Option (List Char) → Option Int
  | none => some (-1)
  | some buff =>
    if buff = ['y'] ∨ buff = ['y', 'e', 's'] ∨ buff = ['1'] then some 1
    else if buff = ['n'] ∨ buff = ['n', 'o'] ∨ buff = ['0'] then some 0
    else none

/-- The flags of the parameters that the file has. -/
def paramFlags (fid prio drop ports : Bool) : Word :=
  (if fid then validFid else 0) ||| (if prio then validPrio else 0) |||
    (if drop then validDrop else 0) ||| (if ports then validPmask else 0)

/-- One turn of the loop of `read_dot_config_vlans`: the parameters that the file has for a VLAN,
with the mask that `parse_mask` makes of the ports. `none` stops with an error. -/
def readDotConfigVlan (vlan : Int) (fid prio drop : Option (List Char)) (ports : Option Int)
    (rtuVlans : List RtuVlans) : Option (List RtuVlans) :=
  let fidVal := fidParam fid
  let prioVal := prioParam prio
  let pmask := ports.getD 0
  let vlanFlags := paramFlags fid.isSome prio.isSome drop.isSome ports.isSome
  match dropParam drop with
  | none => none
  | some dropVal =>
    if fid.isSome ∧ fidVal < 0 ∨ prio.isSome ∧ prioVal < rtuPrioDisable ∨
        ports.isSome ∧ (pmask < rtuPmaskMin ∨ pmask > rtuPmaskMax) then none
    else if vlanFlags ≠ 0 then
      some (setRtuVlan ⟨vlan, fidVal, pmask, dropVal, prioVal, false, vlanFlags ||| validVid⟩ rtuVlans)
    else some rtuVlans

/-- The numbers of a request are in the ranges that the checks enforce. -/
structure RtuVlans.Checked (cur : RtuVlans) : Prop where
  vid : 0 ≤ cur.vid ∧ cur.vid ≤ rtuVidMax
  fid : 0 ≤ cur.fid ∧ cur.fid ≤ rtuFidMax
  pmask : 0 ≤ cur.pmask ∧ cur.pmask ≤ rtuPmaskMax
  drop : cur.drop = 0 ∨ cur.drop = 1
  prio : cur.hasPrio = 0 ∧ cur.prioOverride = 0 ∨
    cur.hasPrio = 1 ∧ cur.prioOverride = 1 ∧ 0 ≤ cur.prio ∧ cur.prio ≤ rtuPrioMax

/-- The arguments that are marked as valid are checked ones. -/
structure SetRtuVlan.Checked (call : SetRtuVlan) : Prop where
  vid : call.vid ≤ rtuVidMax
  fid : call.flags &&& validFid ≠ 0 → 0 ≤ call.fid ∧ call.fid ≤ rtuFidMax
  pmask : call.flags &&& validPmask ≠ 0 → 0 ≤ call.pmask ∧ call.pmask ≤ rtuPmaskMax
  drop : call.flags &&& validDrop ≠ 0 → call.drop = 0 ∨ call.drop = 1
  prio : call.flags &&& validPrio ≠ 0 → call.prio ≤ rtuPrioMax

/-- The lists of requests that come from checked calls of `set_rtu_vlan`. -/
inductive Accepted : List RtuVlans → Prop
  | none : Accepted []
  | set {rtuVlans} (call : SetRtuVlan) : call.Checked → Accepted rtuVlans →
      Accepted (setRtuVlan call rtuVlans)

/-- An option leaves the VID of its entry. -/
theorem update_vid (call : SetRtuVlan) (cur : RtuVlans) : (call.update cur).vid = cur.vid := by
  simp only [SetRtuVlan.update, apply_ite RtuVlans.vid, ite_self]

theorem update_fid (call : SetRtuVlan) (cur : RtuVlans) :
    (call.update cur).fid = if call.flags &&& validFid ≠ 0 then call.fid else cur.fid := by
  simp only [SetRtuVlan.update, apply_ite RtuVlans.fid, ite_self]

theorem update_pmask (call : SetRtuVlan) (cur : RtuVlans) :
    (call.update cur).pmask =
      if call.del then 0 else if call.flags &&& validPmask ≠ 0 then call.pmask else cur.pmask := by
  simp only [SetRtuVlan.update, apply_ite RtuVlans.pmask, ite_self]

theorem update_drop (call : SetRtuVlan) (cur : RtuVlans) :
    (call.update cur).drop =
      if call.del then 1 else if call.flags &&& validDrop ≠ 0 then call.drop else cur.drop := by
  simp only [SetRtuVlan.update, apply_ite RtuVlans.drop, ite_self]

/-- `prio`, `has_prio` and `prio_override` change together. -/
theorem update_prio (call : SetRtuVlan) (cur : RtuVlans) :
    ((call.update cur).prio, (call.update cur).hasPrio, (call.update cur).prioOverride) =
      if call.del then (0, 0, 0)
      else if call.flags &&& validPrio ≠ 0 then
        if call.prio ≥ 0 then (call.prio, 1, 1) else (call.prio, 0, 0)
      else (cur.prio, cur.hasPrio, cur.prioOverride) := by
  simp only [SetRtuVlan.update, apply_ite RtuVlans.prio, apply_ite RtuVlans.hasPrio,
    apply_ite RtuVlans.prioOverride, ite_self]
  split_ifs <;> first | rfl | (exfalso; tauto)

private theorem update_checked {call : SetRtuVlan} {cur : RtuVlans} (args : call.Checked)
    (checked : cur.Checked) : (call.update cur).Checked := by
  refine ⟨?_, ?_, ?_, ?_, ?_⟩
  · rw [update_vid]
    exact checked.vid
  · rw [update_fid]
    split
    next valid => exact args.fid valid
    next => exact checked.fid
  · rw [update_pmask]
    split
    next => decide
    next =>
      split
      next valid => exact args.pmask valid
      next => exact checked.pmask
  · rw [update_drop]
    split
    next => exact .inr rfl
    next =>
      split
      next valid => exact args.drop valid
      next => exact checked.drop
  -- the two flags of the priority go together
  · have fields := update_prio call cur
    split_ifs at fields with del valid positive
    all_goals
      rw [Prod.mk.injEq, Prod.mk.injEq] at fields
      rw [fields.1, fields.2.1, fields.2.2]
    · exact .inl ⟨rfl, rfl⟩
    · exact .inr ⟨rfl, rfl, positive, args.prio valid⟩
    · exact .inl ⟨rfl, rfl⟩
    · exact checked.prio

/-- What the options accept is checked. -/
theorem accepted_checked {rtuVlans : List RtuVlans} (accepted : Accepted rtuVlans) :
    ∀ cur ∈ rtuVlans, cur.Checked := by
  induction accepted with
  | none => exact fun _ member => absurd member List.not_mem_nil
  | set call args _ ih =>
    simp only [setRtuVlan]
    split
    next given =>
      -- the FID of a new request is its VID
      have fresh : RtuVlans.Checked ⟨call.vid, call.vid, 0, 0, 0, 0, 0, validVid⟩ :=
        ⟨⟨given, args.vid⟩, ⟨given, args.vid⟩, ⟨Int.le_refl 0, (by decide : 0 ≤ rtuPmaskMax)⟩,
          .inl rfl, .inl ⟨rfl, rfl⟩⟩
      exact List.forall_mem_cons.mpr ⟨update_checked args fresh, ih⟩
    next =>
      split
      next => exact ih
      next cur next =>
        obtain ⟨head, tail⟩ := List.forall_mem_cons.mp ih
        exact List.forall_mem_cons.mpr ⟨update_checked args head, tail⟩

/-- A number that did not stop the program is within its range. -/
theorem checkRtu_passed {α : Type} {optarg : List Char} {min max : Int} {next done : α}
    (passed : (if checkRtu optarg min max < 0 then none else some next) = some done) :
    next = done ∧ min ≤ checkRtu optarg min max ∧ checkRtu optarg min max ≤ max := by
  split at passed
  · cases passed
  next positive =>
    cases passed
    obtain refused | range := checkRtu_cases optarg min max
    · omega
    · exact ⟨rfl, range⟩

/-- An option either stops the program or makes a checked call. -/
theorem rtuOption_accepted {opt : RtuOption} {optarg : List Char}
    {rtuVlans rtuVlans' : List RtuVlans}
    (accepted : Accepted rtuVlans) (done : rtuOption opt optarg rtuVlans = some rtuVlans') :
    Accepted rtuVlans' := by
  -- each option gives a value that passed its own check, and no other value
  cases opt with
  | vid =>
    obtain ⟨rfl, range⟩ := checkRtu_passed done
    refine .set _ ⟨range.2, ?_, ?_, ?_, ?_⟩ accepted
    all_goals
      dsimp only
      decide
  | fid =>
    obtain ⟨rfl, range⟩ := checkRtu_passed done
    refine .set _ ⟨?_, fun _ => range, ?_, ?_, ?_⟩ accepted
    all_goals
      dsimp only
      decide
  | pmask =>
    obtain ⟨rfl, range⟩ := checkRtu_passed done
    refine .set _ ⟨?_, ?_, fun _ => range, ?_, ?_⟩ accepted
    all_goals
      dsimp only
      decide
  | drop =>
    obtain ⟨rfl, range⟩ := checkRtu_passed done
    have flag : checkRtu optarg 0 1 = 0 ∨ checkRtu optarg 0 1 = 1 := by omega
    refine .set _ ⟨?_, ?_, ?_, fun _ => flag, ?_⟩ accepted
    all_goals
      dsimp only
      decide
  | prio =>
    simp only [rtuOption] at done
    split at done
    · cases done
    next passed =>
      cases done
      have disable : rtuPrioDisable = -1 := rfl
      obtain refused | range := checkRtuPrio_cases optarg
      · omega
      · refine .set _ ⟨?_, ?_, ?_, ?_, fun _ => range.2⟩ accepted
        all_goals
          dsimp only
          decide
  | del =>
    cases done
    refine .set _ ⟨?_, ?_, ?_, ?_, ?_⟩ accepted
    all_goals
      dsimp only
      decide

/-- Every option that is accepted leaves checked entries. -/
theorem rtuOptions_accepted {opts : List (RtuOption × List Char)}
    {rtuVlans rtuVlans' : List RtuVlans}
    (accepted : Accepted rtuVlans) (done : rtuOptions opts rtuVlans = some rtuVlans') :
    Accepted rtuVlans' := by
  induction opts generalizing rtuVlans with
  | nil =>
    cases done
    exact accepted
  | cons opt opts ih =>
    obtain ⟨next, first, others⟩ := Option.bind_eq_some_iff.mp done
    exact ih (rtuOption_accepted accepted first) others

end WrSwitch.Tools
