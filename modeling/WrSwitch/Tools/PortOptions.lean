import WrSwitch.Tools.PortList

/-!
# The port options of `wrs_vlans`

`--port` chooses a set of ports, and the options behind it change the settings of each of them.
The settings of all ports that were chosen are sent to the daemon at the end.
-/
namespace WrSwitch.Tools

def validQmode : Word := 1 <<< 0
def validUntag : Word := 1 <<< 4

/-- `struct s_port_vlans` -/
structure SPortVlans where
  validMask : Word := 0
  pmode : Int := 0
  fixPrio : Int := 0
  prioVal : Int := 0
  vid : Int := 0
  untagMask : Int := 0
deriving DecidableEq, Repr

/-! ### The settings of a port -/

def setPUntag (argUntag : Int) (vlan : SPortVlans) : SPortVlans :=
  { vlan with untagMask := argUntag, validMask := vlan.validMask ||| validUntag }

def setPPmode (argMode : Int) (vlan : SPortVlans) : SPortVlans :=
  let vlan := { vlan with pmode := argMode, validMask := vlan.validMask ||| validQmode }
  -- the user has not specified it
  if vlan.validMask &&& validUntag = 0 then setPUntag (if argMode = 0 then 1 else 0) vlan
  else vlan

def setPVid (argVid : List Char) (vlan : SPortVlans) : Option SPortVlans :=
  let (vid, endptr) := strtol argVid
  if argVid = [] ∨ endptr ≠ [] ∨ vid < rtuVidMin ∨ vid > rtuVidMax then none
  else some { vlan with vid := vid, validMask := vlan.validMask ||| validVid }

def setPPrio (argPrio : List Char) (vlan : SPortVlans) : Option SPortVlans :=
  let (prio, endptr) := strtol argPrio
  if argPrio = [] ∨ endptr ≠ [] ∨ (prio < rtuPrioMin ∨ prio > rtuPrioMax) ∧ prio ≠ rtuPrioDisable
  then none
  else
    let vlan := { vlan with validMask := vlan.validMask ||| validPrio }
    some (if prio = rtuPrioDisable then { vlan with prioVal := rtuPrioMin, fixPrio := 0 }
      else { vlan with prioVal := prio, fixPrio := 1 })

/-! ### The options -/

inductive PortOption
  | port | pmode | pprio | pvid | puntag
deriving DecidableEq, Repr

/-- `vlans`, the ports chosen by the last `--port`, and those of all of them. -/
structure PortSettings where
  vlans : Nat → SPortVlans := fun _ => {}
  confPmask : Word := 0
  portmask : Word := 0

/-- `iterate_ports`; `none` is `exit(1)`. -/
def iteratePorts (pmask : Word) (f : SPortVlans → Option SPortVlans) (vlans : Nat → SPortVlans) :
    Option (Nat → SPortVlans) :=
  (List.range nports).foldlM
    (fun vlans i =>
      if pmask.getLsbD i then (f (vlans i)).map fun v => Function.update vlans i v
      else some vlans)
    vlans

/-- A setting of the ports that are chosen. -/
def PortSettings.change (s : PortSettings) (f : SPortVlans → Option SPortVlans) :
    Option PortSettings :=
  (iteratePorts s.confPmask f s.vlans).map fun vlans => { s with vlans := vlans }

/-- A port option in the loop of `main`. -/
def portOption (opt : PortOption) (optarg : List Char) (s : PortSettings) : Option PortSettings :=
  match opt with
  | .port =>
    let (ret, confPmask) := parseMask optarg 0
    if ret < 0 then none
    else some { s with confPmask := confPmask, portmask := s.portmask ||| confPmask }
  | .pmode =>
    let arg := checkRtu optarg 0 3
    if arg < 0 then none else s.change fun v => some (setPPmode arg v)
  | .pprio => s.change (setPPrio optarg)
  | .pvid => s.change (setPVid optarg)
  | .puntag =>
    let arg := checkRtu optarg 0 1
    if arg < 0 then none else s.change fun v => some (setPUntag arg v)

/-- The port options of a command line, from left to right. -/
def portOptions : List (PortOption × List Char) → PortSettings → Option PortSettings
  | [], s => some s
  | (opt, optarg) :: opts, s => (portOption opt optarg s).bind (portOptions opts)

/-- The calls of `rtud_export_port_cfg` in `apply_settings`. -/
def applySettings (s : PortSettings) : List (Nat × SPortVlans) :=
  ((List.range nports).filter fun ep => s.portmask.getLsbD ep).map fun ep => (ep, s.vlans ep)

/-- The untag setting that is sent, if it is marked as valid. -/
def SPortVlans.untagSent (vlan : SPortVlans) : Option Int :=
  if vlan.validMask &&& validUntag ≠ 0 then some vlan.untagMask else none

/-! ### What a command line asks for -/

/-- What an option asks of one port. -/
inductive PortChoice
  | mode (m : Int)
  | untag (u : Int)
  | other
deriving DecidableEq, Repr

def portChoice (opt : PortOption) (optarg : List Char) : PortChoice :=
  match opt with
  | .pmode => .mode (checkRtu optarg 0 3)
  | .puntag => .untag (checkRtu optarg 0 1)
  | _ => .other

/-- The options for port `p`; `chosen` is the set of the last `--port`. -/
def choicesFor (p : Nat) (chosen : Word) : List (PortOption × List Char) → List PortChoice
  | [] => []
  | (.port, optarg) :: opts => choicesFor p (parseMask optarg 0).2 opts
  | (opt, optarg) :: opts =>
    if chosen.getLsbD p then portChoice opt optarg :: choicesFor p chosen opts
    else choicesFor p chosen opts

def modes (choices : List PortChoice) : List Int :=
  choices.filterMap fun c => match c with
    | .mode m => some m
    | _ => none

def untags (choices : List PortChoice) : List Int :=
  choices.filterMap fun c => match c with
    | .untag u => some u
    | _ => none

/-- Untag for ACCESS, keep the tag for the other modes. -/
def defaultUntag (mode : Int) : Int := if mode = 0 then 1 else 0

/-- The last `--puntag`, and without one the default of the last `--pmode`. -/
def untagAsked (choices : List PortChoice) : Option Int :=
  (untags choices).getLast?.or ((modes choices).getLast?.map defaultUntag)

/-- The mode options of a port without `--puntag` begin and end alike. -/
def DefaultKept (choices : List PortChoice) : Prop :=
  untags choices ≠ [] ∨
    (modes choices).head?.map defaultUntag = (modes choices).getLast?.map defaultUntag

/-! ### One option -/

/-- What the code makes of a choice: a mode sets the default where nothing is set. -/
def settle (sent : Option Int) : PortChoice → Option Int
  | .mode m => sent.or (some (defaultUntag m))
  | .untag u => some u
  | .other => sent

/-- Setting another bit leaves the mark of the untag setting. -/
theorem untagSent_or {vlan : SPortVlans} (vlan' : SPortVlans) (bit : Word)
    (other : bit &&& validUntag = 0#32) (mask : vlan'.validMask = vlan.validMask ||| bit)
    (value : vlan'.untagMask = vlan.untagMask) : vlan'.untagSent = vlan.untagSent := by
  have same : vlan'.validMask &&& validUntag = vlan.validMask &&& validUntag := by
    rw [mask, BitVec.and_or_distrib_right, other, BitVec.or_zero]
  rw [SPortVlans.untagSent, SPortVlans.untagSent, same, value]

private theorem untagSent_setPUntag (argUntag : Int) (vlan : SPortVlans) :
    (setPUntag argUntag vlan).untagSent = some argUntag := by
  have valid : (vlan.validMask ||| validUntag) &&& validUntag ≠ 0 := by
    rw [BitVec.and_or_distrib_right, BitVec.and_self]
    intro zero
    exact absurd (BitVec.or_eq_zero_iff.mp zero).2 (by decide)
  exact if_pos valid

private theorem untagSent_setPPmode (argMode : Int) (vlan : SPortVlans) :
    (setPPmode argMode vlan).untagSent = vlan.untagSent.or (some (defaultUntag argMode)) := by
  have mode (v : SPortVlans) (same : v = { vlan with
      pmode := argMode, validMask := vlan.validMask ||| validQmode }) :
      v.untagSent = vlan.untagSent :=
    untagSent_or v validQmode (by decide) (by rw [same]) (by rw [same])
  rw [setPPmode]
  split
  next unset =>
    have none_sent : vlan.untagSent = none := by
      rw [← mode _ rfl, SPortVlans.untagSent, if_neg (not_not.mpr unset)]
    rw [untagSent_setPUntag, none_sent, Option.none_or]
    rfl
  next set =>
    have some_sent : vlan.untagSent = some vlan.untagMask := by
      rw [← mode _ rfl, SPortVlans.untagSent, if_pos set]
    rw [mode _ rfl, some_sent, Option.some_or]

private theorem untagSent_setPVid {argVid : List Char} {vlan vlan' : SPortVlans}
    (accepted : setPVid argVid vlan = some vlan') : vlan'.untagSent = vlan.untagSent := by
  simp only [setPVid, Option.ite_none_left_eq_some, Option.some.injEq] at accepted
  obtain ⟨-, rfl⟩ := accepted
  exact untagSent_or _ validVid (by decide) rfl rfl

private theorem untagSent_setPPrio {argPrio : List Char} {vlan vlan' : SPortVlans}
    (accepted : setPPrio argPrio vlan = some vlan') : vlan'.untagSent = vlan.untagSent := by
  simp only [setPPrio, Option.ite_none_left_eq_some, Option.some.injEq] at accepted
  obtain ⟨-, rfl⟩ := accepted
  apply untagSent_or _ validPrio (by decide)
  · split_ifs <;> rfl
  · split_ifs <;> rfl

/-- The loop over the ports changes each port of the set, and no other. -/
theorem iteratePorts_apply {pmask : Word} {f : SPortVlans → Option SPortVlans}
    {vlans vlans' : Nat → SPortVlans} (done : iteratePorts pmask f vlans = some vlans') (p : Nat)
    (port : p < nports) :
    if pmask.getLsbD p then f (vlans p) = some (vlans' p) else vlans' p = vlans p := by
  -- the first `n` ports are done
  have upTo (n : Nat) : ∀ vlans', (List.range n).foldlM
      (fun vlans i => if pmask.getLsbD i then (f (vlans i)).map fun v => Function.update vlans i v
        else some vlans) vlans = some vlans' →
      if p < n ∧ pmask.getLsbD p then f (vlans p) = some (vlans' p) else vlans' p = vlans p := by
    induction n with
    | zero =>
      intro vlans' same
      simp only [List.range_zero, List.foldlM_nil, Option.pure_def, Option.some.injEq] at same
      simp [same]
    | succ n ih =>
      intro vlans' turns
      rw [List.range_succ, List.foldlM_append, Option.bind_eq_bind, Option.bind_eq_some_iff]
        at turns
      obtain ⟨before, turns, last⟩ := turns
      have earlier := ih before turns
      simp only [List.foldlM_cons, List.foldlM_nil, Option.bind_eq_bind, Option.pure_def,
        Option.bind_fun_some] at last
      by_cases here : p = n
      · subst here
        rw [if_neg (fun h => absurd h.1 (Nat.lt_irrefl p))] at earlier
        by_cases chosen : pmask.getLsbD p
        · rw [if_pos chosen, Option.map_eq_some_iff] at last
          obtain ⟨v, changed, rfl⟩ := last
          rw [if_pos ⟨Nat.lt_succ_self p, chosen⟩, ← earlier, changed, Function.update_self]
        · rw [if_neg chosen, Option.some.injEq] at last
          rw [if_neg (fun h => chosen h.2), ← last, earlier]
      · have range : p < n + 1 ↔ p < n := by omega
        have kept : vlans' p = before p := by
          split at last
          next =>
            obtain ⟨v, -, rfl⟩ := Option.map_eq_some_iff.mp last
            exact Function.update_of_ne here v before
          next =>
            rw [Option.some.injEq] at last
            rw [last]
        simp only [range, kept]
        exact earlier
  have all := upTo nports vlans' done
  simpa [port] using all

private theorem change_untagSent {s s' : PortSettings} {f : SPortVlans → Option SPortVlans}
    {c : PortChoice} (changed : s.change f = some s')
    (effect : ∀ v v', f v = some v' → v'.untagSent = settle v.untagSent c) (p : Nat)
    (port : p < nports) :
    s'.confPmask = s.confPmask ∧ (s'.vlans p).untagSent =
      if s.confPmask.getLsbD p then settle (s.vlans p).untagSent c
      else (s.vlans p).untagSent := by
  obtain ⟨vlans, done, rfl⟩ := Option.map_eq_some_iff.mp changed
  have here := iteratePorts_apply done p port
  refine ⟨rfl, ?_⟩
  by_cases chosen : s.confPmask.getLsbD p
  · rw [if_pos chosen] at here ⊢
    exact effect _ _ here
  · rw [if_neg chosen] at here ⊢
    exact congrArg SPortVlans.untagSent here

/-- An option other than `--port` settles its choice for the ports that are chosen. -/
theorem portOption_untagSent {opt : PortOption} {optarg : List Char} {s s' : PortSettings}
    (done : portOption opt optarg s = some s') (setting : opt ≠ .port) (p : Nat)
    (port : p < nports) :
    s'.confPmask = s.confPmask ∧ (s'.vlans p).untagSent =
      if s.confPmask.getLsbD p then settle (s.vlans p).untagSent (portChoice opt optarg)
      else (s.vlans p).untagSent := by
  -- each option changes the chosen ports by its own function
  cases opt with
  | port => exact absurd rfl setting
  | pmode =>
    simp only [portOption, Option.ite_none_left_eq_some] at done
    refine change_untagSent done.2 (fun v v' changed => ?_) p port
    rw [← Option.some.inj changed]
    exact untagSent_setPPmode _ v
  | pprio =>
    refine change_untagSent (c := .other) done (fun v v' changed => ?_) p port
    exact untagSent_setPPrio changed
  | pvid =>
    refine change_untagSent (c := .other) done (fun v v' changed => ?_) p port
    exact untagSent_setPVid changed
  | puntag =>
    simp only [portOption, Option.ite_none_left_eq_some] at done
    refine change_untagSent done.2 (fun v v' changed => ?_) p port
    rw [← Option.some.inj changed]
    exact untagSent_setPUntag _ v

/-! ### All options -/

private theorem portOptions_untagSent {opts : List (PortOption × List Char)} {s s' : PortSettings}
    (done : portOptions opts s = some s') (p : Nat) (port : p < nports) :
    (s'.vlans p).untagSent =
      (choicesFor p s.confPmask opts).foldl settle (s.vlans p).untagSent := by
  induction opts generalizing s with
  | nil =>
    rw [portOptions, Option.some.injEq] at done
    rw [← done]
    rfl
  | cons o opts ih =>
    obtain ⟨opt, optarg⟩ := o
    obtain ⟨between, first, rest⟩ := Option.bind_eq_some_iff.mp done
    rw [ih rest]
    -- the option selects ports, or sets those selected
    by_cases selects : opt = .port
    · subst selects
      simp only [portOption, Option.ite_none_left_eq_some, Option.some.injEq] at first
      rw [← first.2]
      rfl
    · obtain ⟨kept, effect⟩ := portOption_untagSent first selects p port
      have choices : choicesFor p s.confPmask ((opt, optarg) :: opts) =
          if s.confPmask.getLsbD p then portChoice opt optarg :: choicesFor p s.confPmask opts
          else choicesFor p s.confPmask opts := by
        cases opt with
        | port => exact absurd rfl selects
        | _ => rfl
      rw [effect, kept, choices]
      split <;> rfl

/-- Explicit settings override each other and the defaults; of the defaults the first one
stays. -/
theorem foldl_settle (choices : List PortChoice) (sent : Option Int) :
    choices.foldl settle sent =
      (untags choices).getLast?.or (sent.or ((modes choices).head?.map defaultUntag)) := by
  induction choices generalizing sent with
  | nil => simp [untags, modes]
  | cons c rest ih =>
    rw [List.foldl_cons, ih]
    cases c with
    | mode m =>
      have first : modes (.mode m :: rest) = m :: modes rest := rfl
      have same : untags (.mode m :: rest) = untags rest := rfl
      rw [first, same, settle, List.head?_cons, Option.map_some, Option.or_assoc, Option.some_or]
    | untag u =>
      have later : untags (.untag u :: rest) = u :: untags rest := rfl
      rw [later, settle, Option.some_or, List.getLast?_cons]
      cases (untags rest).getLast? <;> rfl
    | other => rfl

/-- The setting sent is the one asked for exactly where the default is the same for the first and
the last mode, or where it is overridden. -/
theorem foldl_settle_iff (choices : List PortChoice) :
    choices.foldl settle none = untagAsked choices ↔ DefaultKept choices := by
  rw [foldl_settle, untagAsked, DefaultKept, Option.none_or]
  by_cases explicit : untags choices = []
  · simp [explicit]
  · have last : (untags choices).getLast? = some ((untags choices).getLast explicit) :=
      List.getLast?_eq_some_getLast explicit
    simp [last, explicit]

/-- What is sent about the tags is what was asked exactly if the default of the mode is kept. -/
theorem untag_sent_iff (opts : List (PortOption × List Char)) (s : PortSettings)
    (accepted : portOptions opts {} = some s) (p : Nat) (vlan : SPortVlans)
    (sent : (p, vlan) ∈ applySettings s) :
    vlan.untagSent = untagAsked (choicesFor p 0 opts) ↔ DefaultKept (choicesFor p 0 opts) := by
  obtain ⟨ep, member, same⟩ := List.mem_map.mp sent
  obtain ⟨rfl, rfl⟩ := Prod.mk.inj same
  have port : ep < nports := List.mem_range.mp (List.mem_filter.mp member).1
  have fresh : (({} : PortSettings).vlans ep).untagSent = none :=
    show ({} : SPortVlans).untagSent = none by decide
  rw [portOptions_untagSent accepted ep port, fresh]
  exact foldl_settle_iff (choicesFor ep 0 opts)

/-- `--port 2 --pmode 1 --puntag 1` -/
def trunkUntagged : List (PortOption × List Char) :=
  [(.port, ['2']), (.pmode, ['1']), (.puntag, ['1'])]

/-- A trunk mode and an option about the tags behind it: what is asked is sent. -/
theorem untag_sent_trunk :
    ∃ s vlan, portOptions trunkUntagged {} = some s ∧ (1, vlan) ∈ applySettings s ∧
      vlan.untagSent = untagAsked (choicesFor 1 0 trunkUntagged) := by
  have accepted : (portOptions trunkUntagged {}).isSome := by decide
  obtain ⟨s, done⟩ := Option.isSome_iff_exists.mp accepted
  have chosen : (portOptions trunkUntagged {}).map (fun s => s.portmask.getLsbD 1) = some true := by
    decide
  rw [done, Option.map_some, Option.some.injEq] at chosen
  have sent : (1, s.vlans 1) ∈ applySettings s :=
    List.mem_map.mpr ⟨1, List.mem_filter.mpr ⟨by decide, chosen⟩, rfl⟩
  exact ⟨s, s.vlans 1, done, sent,
    (untag_sent_iff trunkUntagged s done 1 (s.vlans 1) sent).mpr (.inl (by decide))⟩

/-- `--port 2 --pmode 0 --pmode 1` -/
def accessThenTrunk : List (PortOption × List Char) :=
  [(.port, ['2']), (.pmode, ['0']), (.pmode, ['1'])]

/-- The port is sent in the mode TRUNK with the default of the mode ACCESS. -/
theorem access_default_stays :
    (portOptions accessThenTrunk {}).map
        (fun s => (applySettings s).map fun e => (e.1, e.2.pmode, e.2.untagSent)) =
      some [(1, 1, some 1)] ∧
    untagAsked (choicesFor 1 0 accessThenTrunk) = some 0 := by
  decide

end WrSwitch.Tools
