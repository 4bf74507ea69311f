import WrSwitch.Tools.ConfigRtud

/-!
# What `wrs_vlans` keeps

Which of the fields that a command line leaves out come from the active entry of the VLAN.
-/
namespace WrSwitch.Tools

open Machine MiniRpc Rtu

/-! ### Settings -/

/-- `prio`, `has_prio` and `prio_override`, which one option gives. -/
structure VlanPrio where
  prio : Int
  hasPrio : Int
  prioOverride : Int
deriving DecidableEq, Repr

/-- The fields of a request, and of an entry of the table. -/
structure VlanFields where
  fid : Int
  pmask : Int
  drop : Int
  prio : VlanPrio
deriving DecidableEq, Repr

/-- The fields that are given. -/
structure Settings where
  fid : Option Int := none
  pmask : Option Int := none
  drop : Option Int := none
  prio : Option VlanPrio := none
deriving DecidableEq, Repr

/-- Settings of which the first ones count. -/
def Settings.or (later earlier : Settings) : Settings where
  fid := later.fid.or earlier.fid
  pmask := later.pmask.or earlier.pmask
  drop := later.drop.or earlier.drop
  prio := later.prio.or earlier.prio

/-- The fields that are given, and the others as they were. -/
def Settings.over (settings : Settings) (fields : VlanFields) : VlanFields where
  fid := settings.fid.getD fields.fid
  pmask := settings.pmask.getD fields.pmask
  drop := settings.drop.getD fields.drop
  prio := settings.prio.getD fields.prio

@[simp]
theorem or_nothing (settings : Settings) : settings.or {} = settings := by
  simp [Settings.or]

@[simp]
theorem nothing_or (settings : Settings) : Settings.or {} settings = settings := by
  simp [Settings.or]

/-- Settings are joined from the latest to the earliest. -/
theorem or_assoc (later middle earlier : Settings) :
    (later.or middle).or earlier = later.or (middle.or earlier) := by
  simp only [Settings.or, Option.or_assoc]

@[simp]
theorem nothing_over (fields : VlanFields) : Settings.over {} fields = fields := rfl

/-- No field is given in both, unless with one value. -/
structure Agree (settings later : Settings) : Prop where
  fid : ∀ a ∈ settings.fid, ∀ b ∈ later.fid, a = b
  pmask : ∀ a ∈ settings.pmask, ∀ b ∈ later.pmask, a = b
  drop : ∀ a ∈ settings.drop, ∀ b ∈ later.drop, a = b
  prio : ∀ a ∈ settings.prio, ∀ b ∈ later.prio, a = b

private theorem getD_eq_iff {α : Type} (own later : Option α) (kept base : α) :
    own.getD kept = (later.or own).getD base ↔
      (∀ a ∈ own, ∀ b ∈ later, a = b) ∧ own.getD kept = own.getD (later.getD base) := by
  cases own <;> cases later <;> simp

private theorem over_over (later earlier : Settings) (base : VlanFields) :
    later.over (earlier.over base) = (later.or earlier).over base := by
  simp only [Settings.over, Settings.or, Option.getD_or]

/-- Settings that come last have the effect they would have had before the later ones. -/
theorem over_eq_iff (own later : Settings) (kept base : VlanFields) :
    own.over kept = (later.or own).over base ↔
      Agree own later ∧ own.over kept = own.over (later.over base) := by
  simp only [Settings.over, Settings.or, VlanFields.mk.injEq, getD_eq_iff]
  constructor
  · rintro ⟨⟨fid, fid'⟩, ⟨pmask, pmask'⟩, ⟨drop, drop'⟩, prio, prio'⟩
    exact ⟨⟨fid, pmask, drop, prio⟩, fid', pmask', drop', prio'⟩
  · rintro ⟨agree, fid, pmask, drop, prio⟩
    exact ⟨⟨agree.fid, fid⟩, ⟨agree.pmask, pmask⟩, ⟨agree.drop, drop⟩, agree.prio, prio⟩

/-! ### The fields of requests and entries -/

def RtuVlans.fields (cur : RtuVlans) : VlanFields :=
  ⟨cur.fid, cur.pmask, cur.drop, ⟨cur.prio, cur.hasPrio, cur.prioOverride⟩⟩

def entryFields (ent : RtuVlanTableEntry) : VlanFields :=
  ⟨ent.fid.toNat, ent.portMask.toInt, ent.drop.toInt,
    ⟨ent.prio.toNat, ent.hasPrio.toInt, ent.prioOverride.toInt⟩⟩

/-- What `calloc` and the VID make of a new request. -/
def freshFields (vid : Int) : VlanFields := ⟨vid, 0, 0, ⟨0, 0, 0⟩⟩

/-- The active entry of a VLAN, or else the defaults. -/
def currentFields (ent : RtuVlanTableEntry) (vid : Int) : VlanFields :=
  if rtuFindVlan ent (-1) then entryFields ent else freshFields vid

/-- The fields that the flags of a request mark as given. -/
def RtuVlans.settings (cur : RtuVlans) : Settings where
  fid := if cur.flags &&& validFid ≠ 0 then some cur.fid else none
  pmask := if cur.flags &&& validPmask ≠ 0 then some cur.pmask else none
  drop := if cur.flags &&& validDrop ≠ 0 then some cur.drop else none
  prio := if cur.flags &&& validPrio ≠ 0 then some ⟨cur.prio, cur.hasPrio, cur.prioOverride⟩
    else none

/-- The other fields of a request have their defaults until it is passed on. -/
def RtuVlans.Plain (cur : RtuVlans) : Prop :=
  cur.fields = cur.settings.over (freshFields cur.vid)

instance (cur : RtuVlans) : Decidable cur.Plain :=
  inferInstanceAs (Decidable (cur.fields = cur.settings.over (freshFields cur.vid)))

/-- The fields that a call of `set_rtu_vlan` gives. -/
def SetRtuVlan.settings (call : SetRtuVlan) : Settings where
  fid := if call.flags &&& validFid ≠ 0 then some call.fid else none
  pmask := if call.del then some 0
    else if call.flags &&& validPmask ≠ 0 then some call.pmask else none
  drop := if call.del then some 1
    else if call.flags &&& validDrop ≠ 0 then some call.drop else none
  prio := if call.del then some ⟨0, 0, 0⟩
    else if call.flags &&& validPrio ≠ 0 then
      some (if call.prio ≥ 0 then ⟨call.prio, 1, 1⟩ else ⟨call.prio, 0, 0⟩)
    else none

private theorem update_flags (call : SetRtuVlan) (cur : RtuVlans) :
    (call.update cur).flags = cur.flags ||| if call.del then
      call.flags ||| (validPmask ||| validDrop ||| validPrio) else call.flags := by
  simp only [SetRtuVlan.update]
  split_ifs <;> rfl

private theorem or_and_ne_zero (f g v : Word) :
    (f ||| g) &&& v ≠ 0 ↔ f &&& v ≠ 0 ∨ g &&& v ≠ 0 := by
  have zero : (f ||| g) &&& v = 0 ↔ f &&& v = 0 ∧ g &&& v = 0 := by
    rw [BitVec.and_or_distrib_right]
    exact BitVec.or_eq_zero_iff
  rw [ne_eq, zero, not_and_or]

/-- A removal gives every field but the FID. -/
theorem update_flag (call : SetRtuVlan) (cur : RtuVlans) (valid : Word) :
    (call.update cur).flags &&& valid ≠ 0 ↔
      call.del = true ∧ (validPmask ||| validDrop ||| validPrio) &&& valid ≠ 0 ∨
        call.flags &&& valid ≠ 0 ∨ cur.flags &&& valid ≠ 0 := by
  rw [update_flags, or_and_ne_zero]
  split
  next =>
    rw [or_and_ne_zero]
    tauto
  next => tauto

/-- A field that is given, or else as it was marked before. -/
theorem given_field {α : Type} {del own was marked : Prop} [Decidable del] [Decidable own]
    [Decidable was] [Decidable marked] (removed new old : α) (iff : marked ↔ del ∨ own ∨ was) :
    (if marked then some (if del then removed else if own then new else old) else none) =
      (if del then some removed else if own then some new else none).or
        (if was then some old else none) := by
  split_ifs <;> simp_all

/-- What a call gives counts, and else what the request had. -/
theorem update_settings (call : SetRtuVlan) (cur : RtuVlans) :
    (call.update cur).settings = call.settings.or cur.settings := by
  have flag := update_flag call cur
  -- deletion counts as giving the setting, except for the filter
  have removes (valid : Word) (among : (validPmask ||| validDrop ||| validPrio) &&& valid ≠ 0) :
      (call.update cur).flags &&& valid ≠ 0 ↔
        call.del = true ∨ call.flags &&& valid ≠ 0 ∨ cur.flags &&& valid ≠ 0 := by
    rw [flag, and_iff_left among]
  have keeps : (call.update cur).flags &&& validFid ≠ 0 ↔
      False ∨ call.flags &&& validFid ≠ 0 ∨ cur.flags &&& validFid ≠ 0 := by
    have apart : ¬(validPmask ||| validDrop ||| validPrio) &&& validFid ≠ 0 := by decide
    rw [flag, and_iff_right_of_imp fun del => absurd del apart]
    exact or_congr_left (iff_false_intro apart)
  rw [RtuVlans.settings, Settings.or, SetRtuVlan.settings, RtuVlans.settings, Settings.mk.injEq]
  refine ⟨?_, ?_, ?_, ?_⟩
  · rw [update_fid]
    exact given_field 0 call.fid cur.fid keeps
  · rw [update_pmask]
    exact given_field 0 call.pmask cur.pmask (removes validPmask (by decide))
  · rw [update_drop]
    exact given_field 1 call.drop cur.drop (removes validDrop (by decide))
  · have prio := given_field (⟨0, 0, 0⟩ : VlanPrio)
      (if call.prio ≥ 0 then ⟨call.prio, 1, 1⟩ else ⟨call.prio, 0, 0⟩)
      ⟨cur.prio, cur.hasPrio, cur.prioOverride⟩ (removes validPrio (by decide))
    rw [← prio]
    have fields := update_prio call cur
    congr 2
    split_ifs at fields ⊢ <;> simp_all

private theorem update_fields (call : SetRtuVlan) (cur : RtuVlans) :
    (call.update cur).fields = call.settings.over cur.fields := by
  have prio := update_prio call cur
  rw [RtuVlans.fields, Settings.over, SetRtuVlan.settings, VlanFields.mk.injEq]
  refine ⟨?_, ?_, ?_, ?_⟩
  · rw [update_fid]
    split_ifs <;> rfl
  · rw [update_pmask]
    split_ifs <;> rfl
  · rw [update_drop]
    split_ifs <;> rfl
  · split_ifs at prio ⊢ <;> simp_all [RtuVlans.fields]

private theorem update_plain (call : SetRtuVlan) {cur : RtuVlans} (plain : cur.Plain) :
    (call.update cur).Plain := by
  rw [RtuVlans.Plain, update_fields, update_settings, update_vid, plain, over_over]

/-- The request for a VID that was just given. -/
def freshRequest (vid : Int) : RtuVlans := ⟨vid, vid, 0, 0, 0, 0, 0, validVid⟩

private theorem freshRequest_settings (vid : Int) : (freshRequest vid).settings = {} := by
  simp [RtuVlans.settings, freshRequest, validVid, validFid, validPmask, validDrop, validPrio]

private theorem freshRequest_plain (vid : Int) : (freshRequest vid).Plain := by
  rw [RtuVlans.Plain, freshRequest_settings, nothing_over]
  rfl

/-- What `config_rtud` makes of a request. -/
theorem preserve_fields (ent : RtuVlanTableEntry) {cur : RtuVlans} (plain : cur.Plain) :
    (preserve ent cur).fields = cur.settings.over
      (if rtuFindVlan ent (cur.settings.fid.getD (-1)) then entryFields ent
        else freshFields cur.vid) := by
  have fid : cur.settings.fid.getD (-1) = if cur.flags &&& validFid ≠ 0 then cur.fid else -1 := by
    rw [RtuVlans.settings]
    split_ifs <;> rfl
  rw [fid]
  by_cases found : rtuFindVlan ent (if cur.flags &&& validFid ≠ 0 then cur.fid else -1) = true
  · rw [if_pos found, preserve_found found, RtuVlans.settings]
    simp only [RtuVlans.fields, Settings.over, entryFields, VlanFields.mk.injEq, ne_eq, ite_not]
    refine ⟨?_, ?_, ?_, ?_⟩ <;> split_ifs <;> rfl
  · rw [if_neg found, ← plain, preserve, if_neg found]

/-! ### Command lines -/

abbrev OptionArg := RtuOption × List Char

def vidArg (optarg : List Char) : Int := checkRtu optarg rtuVidMin rtuVidMax

/-- What an option gives for the VLAN that was named before it. -/
def optionSettings (opt : RtuOption) (optarg : List Char) : Settings :=
  match opt with
  | .vid => {}
  | .fid => { fid := some (checkRtu optarg rtuFidMin rtuFidMax) }
  | .pmask => { pmask := some (checkRtu optarg rtuPmaskMin rtuPmaskMax) }
  | .drop => { drop := some (checkRtu optarg 0 1) }
  | .prio =>
    let prio := checkRtuPrio optarg
    { prio := some (if prio ≥ 0 then ⟨prio, 1, 1⟩ else ⟨prio, 0, 0⟩) }
  | .del => { pmask := some 0, drop := some 1, prio := some ⟨0, 0, 0⟩ }

/-- What the options before the next VID give; the last value of an option counts. -/
def group : List OptionArg → Settings
  | [] => {}
  | (.vid, _) :: _ => {}
  | (opt, optarg) :: opts => (group opts).or (optionSettings opt optarg)

/-- What all groups of a command line give for one VID, the last value again. -/
def given (vid : Int) : List OptionArg → Settings
  | [] => {}
  | (.vid, optarg) :: opts =>
    (given vid opts).or (if vidArg optarg = vid then group opts else {})
  | _ :: opts => given vid opts

/-- A group of the command line is for this VID. -/
def Named (vid : Int) (opts : List OptionArg) : Prop :=
  ∃ optarg, (RtuOption.vid, optarg) ∈ opts ∧ vidArg optarg = vid

/-- The call of `set_rtu_vlan` that an option makes. -/
def optionCall (opt : RtuOption) (optarg : List Char) : Option SetRtuVlan :=
  match opt with
  | .vid =>
    if vidArg optarg < 0 then none else some ⟨vidArg optarg, -1, -1, 0, -1, false, validVid⟩
  | .fid =>
    let ret := checkRtu optarg rtuFidMin rtuFidMax
    if ret < 0 then none else some ⟨-1, ret, -1, 0, -1, false, validFid⟩
  | .pmask =>
    let ret := checkRtu optarg rtuPmaskMin rtuPmaskMax
    if ret < 0 then none else some ⟨-1, -1, ret, 0, -1, false, validPmask⟩
  | .drop =>
    let ret := checkRtu optarg 0 1
    if ret < 0 then none else some ⟨-1, -1, -1, ret, -1, false, validDrop⟩
  | .prio =>
    let ret := checkRtuPrio optarg
    if ret < rtuPrioDisable then none else some ⟨-1, -1, -1, 0, ret, false, validPrio⟩
  | .del => some ⟨-1, -1, -1, 0, -1, true, 0⟩

private theorem rtuOption_call (opt : RtuOption) (optarg : List Char) (rtuVlans : List RtuVlans) :
    rtuOption opt optarg rtuVlans =
      (optionCall opt optarg).map fun call => setRtuVlan call rtuVlans := by
  cases opt with
  | del => rfl
  | vid | fid | pmask | drop | prio =>
    simp only [optionCall]
    rw [apply_ite (Option.map fun call => setRtuVlan call rtuVlans)]
    rfl

/-- An option other than a VID changes the request at the head of the list. -/
theorem optionCall_settings {opt : RtuOption} {optarg : List Char} {call : SetRtuVlan}
    (other : opt ≠ .vid) (accepted : optionCall opt optarg = some call) :
    call.vid = -1 ∧ call.settings = optionSettings opt optarg := by
  cases opt with
  | vid => exact absurd rfl other
  | del =>
    cases accepted
    exact ⟨rfl, rfl⟩
  | fid | pmask | drop | prio =>
    simp only [optionCall] at accepted
    split_ifs at accepted
    cases accepted
    refine ⟨rfl, ?_⟩
    simp [SetRtuVlan.settings, optionSettings, validFid, validPmask, validDrop, validPrio]

private theorem optionCall_vid {optarg : List Char} {call : SetRtuVlan}
    (accepted : optionCall .vid optarg = some call) (rtuVlans : List RtuVlans) :
    0 ≤ vidArg optarg ∧
      setRtuVlan call rtuVlans = freshRequest (vidArg optarg) :: rtuVlans := by
  simp only [optionCall] at accepted
  split_ifs at accepted with positive
  cases accepted
  rw [not_lt] at positive
  refine ⟨positive, ?_⟩
  simp [setRtuVlan, positive, SetRtuVlan.update, freshRequest, validVid, validFid, validPmask,
    validDrop, validPrio]

private theorem setRtuVlan_append (call : SetRtuVlan) (cur : RtuVlans)
    (others next : List RtuVlans) :
    setRtuVlan call (cur :: others ++ next) = setRtuVlan call (cur :: others) ++ next := by
  simp only [setRtuVlan, List.cons_append]
  split_ifs <;> rfl

private theorem setRtuVlan_cons (call : SetRtuVlan) (cur : RtuVlans) (others : List RtuVlans) :
    ∃ head tail, setRtuVlan call (cur :: others) = head :: tail := by
  simp only [setRtuVlan]
  split_ifs <;> exact ⟨_, _, rfl⟩

/-- Options work on the head of the list only. -/
theorem rtuOptions_append (opts : List OptionArg) (cur : RtuVlans) (others next : List RtuVlans) :
    rtuOptions opts (cur :: others ++ next) =
      (rtuOptions opts (cur :: others)).map (· ++ next) := by
  induction opts generalizing cur others with
  | nil => rfl
  | cons opt opts ih =>
    obtain ⟨opt, optarg⟩ := opt
    rw [rtuOptions, rtuOptions, rtuOption_call, rtuOption_call]
    cases called : optionCall opt optarg with
    | none => rfl
    | some call =>
      obtain ⟨head, tail, shape⟩ := setRtuVlan_cons call cur others
      simp only [Option.map_some, Option.bind_some]
      rw [setRtuVlan_append, shape]
      exact ih head tail

/-- The requests of the groups behind a request, and what the options before them make of it. -/
theorem rtuOptions_head {opts : List OptionArg} {cur : RtuVlans} {requests : List RtuVlans}
    (accepted : rtuOptions opts [cur] = some requests) :
    ∃ later cur', requests = later ++ [cur'] ∧ rtuOptions opts [] = some later ∧
      cur'.vid = cur.vid ∧ cur'.settings = (group opts).or cur.settings ∧
      (cur.Plain → cur'.Plain) := by
  induction opts generalizing cur with
  | nil =>
    cases accepted
    exact ⟨[], cur, rfl, rfl, rfl, (nothing_or _).symm, id⟩
  | cons opt opts ih =>
    obtain ⟨opt, optarg⟩ := opt
    rw [rtuOptions, rtuOption_call] at accepted
    rw [rtuOptions, rtuOption_call]
    cases called : optionCall opt optarg with
    | none =>
      rw [called] at accepted
      cases accepted
    | some call =>
      rw [called, Option.map_some, Option.bind_some] at accepted
      rw [Option.map_some, Option.bind_some]
      by_cases named : opt = .vid
      · -- the group ends here, and a new request comes before this one
        subst named
        rw [(optionCall_vid called _).2] at accepted ⊢
        have apart := rtuOptions_append opts (freshRequest (vidArg optarg)) [] [cur]
        rw [List.cons_append, List.nil_append] at apart
        rw [apart] at accepted
        obtain ⟨later, done, rfl⟩ := Option.map_eq_some_iff.mp accepted
        exact ⟨later, cur, rfl, done, rfl, (nothing_or _).symm, id⟩
      · obtain ⟨negative, gives⟩ := optionCall_settings named called
        have update : setRtuVlan call [cur] = [call.update cur] := by
          rw [setRtuVlan, if_neg (by rw [negative]; decide)]
        have ignored : setRtuVlan call [] = [] := by
          rw [setRtuVlan, if_neg (by rw [negative]; decide)]
        rw [update] at accepted
        rw [ignored]
        obtain ⟨later, cur', shape, done, vid, settings, plain⟩ := ih accepted
        refine ⟨later, cur', shape, done, vid.trans (update_vid _ _), ?_, fun was =>
          plain (update_plain call was)⟩
        -- the settings of the option join those of its group
        have this : group ((opt, optarg) :: opts) =
            (group opts).or (optionSettings opt optarg) := by
          cases opt <;> first | rfl | exact absurd rfl named
        rw [settings, update_settings, gives, this, or_assoc]

/-! ### Requests one after the other -/

private theorem configRtud_append (calls more : List (RtuVlans × RtudEnv)) (s : RtuState) :
    configRtud (calls ++ more) s = configRtud more (configRtud calls s) := by
  induction calls generalizing s with
  | nil => rfl
  | cons call calls ih => exact ih _

private theorem passedOn_append (calls more : List (RtuVlans × RtudEnv)) (s : RtuState) :
    passedOn (calls ++ more) s = passedOn calls s ++ passedOn more (configRtud calls s) := by
  induction calls generalizing s with
  | nil => rfl
  | cons call calls ih => exact congrArg (_ :: ·) (ih _)

private theorem lastRequest_concat (vid : Int) (requests : List RtuVlans) (request : RtuVlans) :
    lastRequest vid (requests ++ [request]) =
      if request.vid = vid then some request else lastRequest vid requests := by
  rw [lastRequest, List.reverse_append, List.reverse_singleton, List.singleton_append,
    List.find?_cons, ← lastRequest]
  split_ifs with same <;> simp [same]

/-- The entry that is made of these fields. -/
def storedEntry (cpu : Int) (fields : VlanFields) (tv : Word × Word) : RtuVlanTableEntry :=
  newVlanEntry cpu (BitVec.ofInt 32 fields.pmask) ((BitVec.ofInt 32 fields.fid).setWidth 8)
    ((BitVec.ofInt 32 fields.prio.prio).setWidth 8) (BitVec.ofInt 32 fields.prio.hasPrio)
    (BitVec.ofInt 32 fields.prio.prioOverride) (BitVec.ofInt 32 fields.drop) tv

private theorem configRtud_stored (calls : List (RtuVlans × RtudEnv)) (s : RtuState)
    (checked : ∀ call ∈ calls, call.1.Checked) (vid : Int) (request : RtuVlans)
    (last : lastRequest vid (passedOn calls s) = some request) :
    PassedOn request ∧
      ∃ tv, (configRtud calls s).vlanTab vid = storedEntry (cpuPort s) request.fields tv := by
  induction calls using List.reverseRecOn with
  | nil => cases last
  | append_singleton calls call ih =>
    have before : ∀ call ∈ calls, call.1.Checked := fun call member =>
      checked call (List.mem_append_left _ member)
    have own : call.1.Checked := checked call (List.mem_append_right _ List.mem_cons_self)
    -- the last request for the VLAN is the one that is stored
    have sent := preserve_passedOn ((configRtud calls s).vlanTab call.1.vid) own
    obtain ⟨tab, _, _⟩ := callVlanEntry_vlan sent call.2 (configRtud calls s)
    have port : cpuPort (configRtud calls s) = cpuPort s := by
      rw [cpuPort, (configRtud_untouched calls s before).2.2.1, cpuPort]
    rw [passedOn_append, passedOn, passedOn, lastRequest_concat] at last
    rw [configRtud_append, configRtud, configRtud, tab, port]
    split at last
    next same =>
      cases last
      subst same
      exact ⟨sent, call.2.tv, Function.update_self _ _ _⟩
    next other =>
      rw [Function.update_of_ne (Ne.symm other)]
      exact ih before last

/-! ### Fields that are left out -/

/-- The fields of a stored request that come back as they were requested. -/
structure Survives (cpu : Int) (settings : Settings) (fields : VlanFields) : Prop where
  fid : settings.fid = none → fields.fid < 256
  pmask : settings.pmask = none → BitVec.ofInt 32 fields.pmask ||| portBit cpu =
    BitVec.ofInt 32 fields.pmask
  prio : settings.prio = none → 0 ≤ fields.prio.prio ∧ fields.prio.prio < 256

/-- The condition on a group, given by its VID and the options from there on. -/
def GroupOk (s : RtuState) (optarg : List Char) (opts : List OptionArg) : Prop :=
  let vid := vidArg optarg
  let ent := s.vlanTab vid
  let own := group opts
  let later := given vid opts
  let fields := later.over (currentFields ent vid)
  (Named vid opts → Agree own later ∧
    if rtuFindVlan (storedEntry (cpuPort s) fields (0, 0)) (own.fid.getD (-1)) then
      Survives (cpuPort s) own fields
    else own.over fields = own.over (freshFields vid)) ∧
  (¬Named vid opts → ∀ fid ∈ own.fid, rtuFindVlan ent (-1) → fid ≠ ent.fid.toNat →
    own.over (entryFields ent) = own.over (freshFields vid))

/-- The last request for every VID that the options name has the fields that they give, the others
as in the active entry; and a VLAN without options keeps its entry and its words. -/
def Keeps (opts : List OptionArg) (s : RtuState) (calls : List (RtuVlans × RtudEnv)) : Prop :=
  ∀ vid, (Named vid opts → ∃ request, lastRequest vid (passedOn calls s) = some request ∧
      request.fields = (given vid opts).over (currentFields (s.vlanTab vid) vid)) ∧
    (¬Named vid opts → lastRequest vid (passedOn calls s) = none ∧
      (0 ≤ vid → vid < numVlans → (configRtud calls s).vlanTab vid = s.vlanTab vid ∧
        (configRtud calls s).fpga.vlan (BitVec.ofInt 32 vid) =
          s.fpga.vlan (BitVec.ofInt 32 vid)))

/-- So it is whenever the calls for these options are made. -/
def Preserved (opts : List OptionArg) (s : RtuState) : Prop :=
  ∀ calls : List (RtuVlans × RtudEnv), rtuOptions opts [] = some (calls.map Prod.fst) →
    Keeps opts s calls

private theorem rtuFindVlan_iff (ent : RtuVlanTableEntry) (fid : Int) :
    rtuFindVlan ent fid = true ↔
      rtuFindVlan ent (-1) = true ∧ (fid = ent.fid.toNat ∨ fid = -1) := by
  simp only [rtuFindVlan]
  split_ifs <;> simp

/-- An active entry that was stored for a request. -/
theorem stored_over_iff {request : RtuVlans} (sent : PassedOn request) (own : Settings) (cpu : Int)
    (tv : Word × Word) (active : rtuFindVlan (storedEntry cpu request.fields tv) (-1) = true) :
    own.over (entryFields (storedEntry cpu request.fields tv)) = own.over request.fields ↔
      Survives cpu own request.fields := by
  -- the entry is not a removed one, so its mask holds the CPU
  have mask : (storedEntry cpu request.fields tv).portMask =
      BitVec.ofInt 32 request.pmask ||| portBit cpu := by
    refine if_neg fun removed => ?_
    have inactive : rtuFindVlan (storedEntry cpu request.fields tv) (-1) = false := by
      refine if_pos ⟨?_, if_pos removed⟩
      change BitVec.ofInt 32 request.fields.drop ≠ 0
      rw [removed.2]
      decide
    rw [inactive] at active
    cases active
  have fid : ((storedEntry cpu request.fields tv).fid.toNat : Int) = request.fid % 256 :=
    ofInt_byte request.fid
  have prio : ((storedEntry cpu request.fields tv).prio.toNat : Int) = request.prio % 256 :=
    ofInt_byte request.prio
  have drop : (storedEntry cpu request.fields tv).drop.toInt = request.drop := ofInt_toInt sent.drop
  have hasPrio : (storedEntry cpu request.fields tv).hasPrio.toInt = request.hasPrio :=
    ofInt_toInt sent.hasPrio
  have override : (storedEntry cpu request.fields tv).prioOverride.toInt = request.prioOverride :=
    ofInt_toInt sent.prioOverride
  -- the mask comes back unless the port of the CPU joined it
  have ports : (BitVec.ofInt 32 request.pmask ||| portBit cpu).toInt = request.pmask ↔
      BitVec.ofInt 32 request.pmask ||| portBit cpu = BitVec.ofInt 32 request.pmask := by
    rw [← BitVec.toInt_inj, ofInt_toInt sent.pmask]
  have narrow : request.fid % 256 = request.fid ↔ request.fid < 256 := by
    have positive := sent.fid
    omega
  have byte : request.prio % 256 = request.prio ↔ 0 ≤ request.prio ∧ request.prio < 256 := by
    omega
  have leaves {α : Type} (given : Option α) (a b : α) :
      given.getD a = given.getD b ↔ (given = none → a = b) := by
    cases given <;> simp
  rw [entryFields, mask, fid, prio, drop, hasPrio, override]
  simp only [Settings.over, RtuVlans.fields, VlanFields.mk.injEq, leaves, VlanPrio.mk.injEq, ports,
    narrow, byte, and_true, true_and]
  exact ⟨fun ⟨fid, pmask, prio⟩ => ⟨fid, pmask, prio⟩, fun ⟨fid, pmask, prio⟩ => ⟨fid, pmask, prio⟩⟩

/-- An entry that was there before. -/
theorem current_over_iff (ent : RtuVlanTableEntry) (vid : Int) (own : Settings)
    (positive : ∀ fid ∈ own.fid, 0 ≤ fid) :
    own.over (if rtuFindVlan ent (own.fid.getD (-1)) then entryFields ent else freshFields vid) =
        own.over (currentFields ent vid) ↔
      ∀ fid ∈ own.fid, rtuFindVlan ent (-1) → fid ≠ ent.fid.toNat →
        own.over (entryFields ent) = own.over (freshFields vid) := by
  rw [currentFields]
  cases asked : own.fid with
  | none => simp
  | some fid =>
    have low := positive fid asked
    have number : fid ≠ -1 := by omega
    simp only [Option.getD_some, rtuFindVlan_iff ent fid, number, or_false, Option.mem_def,
      Option.some.injEq, forall_eq']
    by_cases active : rtuFindVlan ent (-1) = true <;> by_cases same : fid = ent.fid.toNat <;>
      simp [active, same, eq_comm]

/-! ### The groups of a command line -/

private theorem named_cons_vid {vid : Int} {optarg : List Char} {opts : List OptionArg} :
    Named vid ((.vid, optarg) :: opts) ↔ vidArg optarg = vid ∨ Named vid opts := by
  simp only [Named, List.mem_cons, Prod.mk.injEq, true_and]
  constructor
  · rintro ⟨arg, rfl | member, same⟩
    · exact .inl same
    · exact .inr ⟨arg, member, same⟩
  · rintro (same | ⟨arg, member, same⟩)
    · exact ⟨optarg, .inl rfl, same⟩
    · exact ⟨arg, .inr member, same⟩

private theorem named_cons_other {vid : Int} {opt : RtuOption} (other : opt ≠ .vid)
    (optarg : List Char)
    (opts : List OptionArg) : Named vid ((opt, optarg) :: opts) ↔ Named vid opts := by
  simp only [Named, List.mem_cons, Prod.mk.injEq, other.symm, false_and, false_or]

private theorem given_unnamed {vid : Int} {opts : List OptionArg} (unnamed : ¬Named vid opts) :
    given vid opts = {} := by
  induction opts with
  | nil => rfl
  | cons opt opts ih =>
    obtain ⟨opt, optarg⟩ := opt
    by_cases named : opt = .vid
    · subst named
      rw [named_cons_vid, not_or] at unnamed
      rw [given, ih unnamed.2, if_neg unnamed.1, nothing_or]
    · rw [named_cons_other named] at unnamed
      rw [← ih unnamed]
      cases opt <;> first | rfl | exact absurd rfl named

private theorem checked_of_options {opts : List OptionArg} {calls : List (RtuVlans × RtudEnv)}
    (accepted : rtuOptions opts [] = some (calls.map Prod.fst)) :
    ∀ call ∈ calls, call.1.Checked := fun _ member =>
  accepted_checked (rtuOptions_accepted .none accepted) _ (List.mem_map_of_mem member)

/-- What comes of the group that is handled last. -/
theorem group_fields_iff {opts : List OptionArg} {optarg : List Char} {s : RtuState}
    {calls : List (RtuVlans × RtudEnv)} {cur : RtuVlans} (rest : Preserved opts s)
    (later : rtuOptions opts [] = some (calls.map Prod.fst)) (checked : cur.Checked)
    (vid : cur.vid = vidArg optarg) (settings : cur.settings = group opts) (plain : cur.Plain) :
    (preserve ((configRtud calls s).vlanTab cur.vid) cur).fields =
        (given cur.vid ((.vid, optarg) :: opts)).over
          (currentFields (s.vlanTab cur.vid) cur.vid) ↔
      GroupOk s optarg opts := by
  obtain ⟨found, untouched⟩ := rest calls later cur.vid
  rw [preserve_fields _ plain, settings, given, if_pos vid.symm, over_eq_iff, GroupOk, ← vid]
  by_cases named : Named cur.vid opts
  · obtain ⟨request, last, fields⟩ := found named
    obtain ⟨sent, tv, stored⟩ := configRtud_stored calls s (checked_of_options later) _ _ last
    rw [stored, ← fields]
    refine Iff.trans ?_ (and_iff_left fun unnamed => absurd named unnamed).symm
    rw [imp_iff_right named]
    refine and_congr_right fun _ => ?_
    have time : rtuFindVlan (storedEntry (cpuPort s) request.fields (0, 0)) =
        rtuFindVlan (storedEntry (cpuPort s) request.fields tv) := rfl
    rw [time]
    split
    next same =>
      exact stored_over_iff sent _ _ tv ((rtuFindVlan_iff _ _).mp same).1
    next => exact eq_comm
  · rw [(untouched named).2 checked.vid.1 (lt_of_le_of_lt checked.vid.2 (by decide)) |>.1,
      given_unnamed named, nothing_over]
    refine Iff.trans ?_ (and_iff_right fun other => absurd other named).symm
    rw [imp_iff_right named]
    have nothing : Agree (group opts) {} :=
      ⟨fun _ _ _ no => (Option.not_mem_none _ no).elim,
        fun _ _ _ no => (Option.not_mem_none _ no).elim,
        fun _ _ _ no => (Option.not_mem_none _ no).elim,
        fun _ _ _ no => (Option.not_mem_none _ no).elim⟩
    rw [and_iff_right nothing]
    refine current_over_iff _ _ _ fun fid given => ?_
    -- a FID that was given has been checked
    rw [← settings, RtuVlans.settings, Option.mem_def] at given
    split at given
    · cases given
      exact checked.fid.1
    · cases given

private theorem rtuOptions_group {optarg : List Char} {opts : List OptionArg}
    {requests : List RtuVlans} (accepted : rtuOptions ((.vid, optarg) :: opts) [] = some requests) :
    ∃ later cur, requests = later ++ [cur] ∧ rtuOptions opts [] = some later ∧
      cur.vid = vidArg optarg ∧ cur.settings = group opts ∧ cur.Plain := by
  rw [rtuOptions, rtuOption_call] at accepted
  cases called : optionCall .vid optarg with
  | none =>
    rw [called] at accepted
    cases accepted
  | some call =>
    rw [called, Option.map_some, Option.bind_some, (optionCall_vid called []).2] at accepted
    obtain ⟨later, cur, shape, done, vid, settings, plain⟩ := rtuOptions_head accepted
    rw [freshRequest_settings, or_nothing] at settings
    exact ⟨later, cur, shape, done, vid, settings, plain (freshRequest_plain _)⟩

/-- Only the VID of the last request is affected by it. -/
theorem keeps_concat_iff {opts : List OptionArg} {optarg : List Char} {s : RtuState}
    {calls : List (RtuVlans × RtudEnv)} {cur : RtuVlans} {env : RtudEnv}
    (rest : Keeps opts s calls) (checked : ∀ call ∈ calls ++ [(cur, env)], call.1.Checked)
    (vid : cur.vid = vidArg optarg) :
    Keeps ((.vid, optarg) :: opts) s (calls ++ [(cur, env)]) ↔
      (preserve ((configRtud calls s).vlanTab cur.vid) cur).fields =
        (given cur.vid ((.vid, optarg) :: opts)).over
          (currentFields (s.vlanTab cur.vid) cur.vid) := by
  -- only the last request for a number counts
  have last (v : Int) : lastRequest v (passedOn (calls ++ [(cur, env)]) s) =
      if cur.vid = v then some (preserve ((configRtud calls s).vlanTab cur.vid) cur)
      else lastRequest v (passedOn calls s) := by
    rw [passedOn_append, passedOn, passedOn, lastRequest_concat, preserve_vid]
  constructor
  · intro keeps
    obtain ⟨request, found, fields⟩ := (keeps cur.vid).1 (named_cons_vid.mpr (.inl vid.symm))
    rw [last, if_pos rfl] at found
    cases found
    exact fields
  · intro fields v
    rw [named_cons_vid, ← vid, last]
    -- the group speaks of its own number, the others of theirs
    by_cases same : cur.vid = v
    · subst same
      exact ⟨fun _ => ⟨_, if_pos rfl, fields⟩, fun unnamed => absurd (.inl rfl) unnamed⟩
    · rw [or_iff_right same, if_neg same, given, ← vid, if_neg same, or_nothing]
      obtain ⟨found, untouched⟩ := rest v
      refine ⟨found, fun unnamed => ⟨(untouched unnamed).1, fun low high => ?_⟩⟩
      refine (configRtud_untouched _ s checked).2.2.2 v low high ?_
      rw [last, if_neg same]
      exact (untouched unnamed).1

private theorem preserved_vid_iff {opts : List OptionArg} {optarg : List Char} {s : RtuState}
    (accepted : (rtuOptions ((.vid, optarg) :: opts) []).isSome) (rest : Preserved opts s) :
    Preserved ((.vid, optarg) :: opts) s ↔ GroupOk s optarg opts := by
  obtain ⟨requests, done⟩ := Option.isSome_iff_exists.mp accepted
  obtain ⟨later, cur, rfl, others, vid, settings, plain⟩ := rtuOptions_group done
  have own : cur.Checked := accepted_checked (rtuOptions_accepted .none done) cur
    (List.mem_append_right _ List.mem_cons_self)
  have single (calls : List (RtuVlans × RtudEnv)) (env : RtudEnv)
      (these : calls.map Prod.fst = later) :
      Keeps ((.vid, optarg) :: opts) s (calls ++ [(cur, env)]) ↔ GroupOk s optarg opts := by
    subst these
    rw [keeps_concat_iff (rest calls others) (checked_of_options (by rw [done]; simp)) vid]
    exact group_fields_iff rest others own vid settings plain
  constructor
  -- the requests as calls, whatever the daemon answers
  · intro keeps
    have these : (later.map fun request => (request, noEnv)).map Prod.fst = later := by
      rw [List.map_map]
      exact List.map_id later
    refine (single _ noEnv these).mp (keeps _ ?_)
    rw [done, List.map_append, these]
    rfl
  · intro ok calls asked
    rw [done, Option.some.injEq] at asked
    obtain ⟨calls', last, rfl, these, one⟩ := List.map_eq_append_iff.mp asked.symm
    obtain ⟨call, rfl, fst⟩ := List.map_eq_singleton_iff.mp one
    obtain ⟨_, env⟩ := call
    cases fst
    exact (single calls' env these).mpr ok

private theorem rtuOptions_other {opt : RtuOption} (other : opt ≠ .vid) {optarg : List Char}
    {opts : List OptionArg} (accepted : (rtuOptions ((opt, optarg) :: opts) []).isSome) :
    rtuOptions ((opt, optarg) :: opts) [] = rtuOptions opts [] := by
  rw [rtuOptions, rtuOption_call] at accepted ⊢
  cases called : optionCall opt optarg with
  | none =>
    rw [called] at accepted
    cases accepted
  | some call =>
    rw [Option.map_some, Option.bind_some, setRtuVlan, if_neg]
    rw [(optionCall_settings other called).1]
    decide

/-- Options before the first VID have no effect. -/
theorem preserved_other_iff {opt : RtuOption} (other : opt ≠ .vid) {optarg : List Char}
    {opts : List OptionArg} {s : RtuState}
    (accepted : (rtuOptions ((opt, optarg) :: opts) []).isSome) :
    Preserved ((opt, optarg) :: opts) s ↔ Preserved opts s := by
  have same (vid : Int) : given vid ((opt, optarg) :: opts) = given vid opts := by
    cases opt <;> first | rfl | exact absurd rfl other
  simp only [Preserved, Keeps, rtuOptions_other other accepted, same, named_cons_other other]

private theorem rtuOptions_tail {opt : OptionArg} {opts : List OptionArg}
    (accepted : (rtuOptions (opt :: opts) []).isSome) : (rtuOptions opts []).isSome := by
  obtain ⟨opt, optarg⟩ := opt
  by_cases named : opt = .vid
  · subst named
    obtain ⟨requests, done⟩ := Option.isSome_iff_exists.mp accepted
    obtain ⟨later, _, _, others, _⟩ := rtuOptions_group done
    rw [others]
    rfl
  · rw [← rtuOptions_other named accepted]
    exact accepted

private theorem preserved_nil (s : RtuState) : Preserved [] s := by
  intro calls none vid
  rw [rtuOptions, Option.some.injEq, eq_comm, List.map_eq_nil_iff] at none
  subst none
  exact ⟨fun ⟨_, member, _⟩ => absurd member List.not_mem_nil,
    fun _ => ⟨rfl, fun _ _ => ⟨rfl, rfl⟩⟩⟩

/-- Every group of the command line, from the VID on. -/
def Groups (ok : List Char → List OptionArg → Prop) (opts : List OptionArg) : Prop :=
  ∀ optarg tail, (.vid, optarg) :: tail <:+ opts → ok optarg tail

private theorem groups_cons_vid {ok : List Char → List OptionArg → Prop} {optarg : List Char}
    {opts : List OptionArg} :
    Groups ok ((.vid, optarg) :: opts) ↔ ok optarg opts ∧ Groups ok opts := by
  simp only [Groups, List.suffix_cons_iff, List.cons.injEq, Prod.mk.injEq, true_and]
  constructor
  · exact fun all => ⟨all optarg opts (.inl ⟨rfl, rfl⟩),
      fun arg tail inner => all arg tail (.inr inner)⟩
  · rintro ⟨first, others⟩ arg tail (⟨rfl, rfl⟩ | inner)
    · exact first
    · exact others arg tail inner

private theorem groups_cons_other {ok : List Char → List OptionArg → Prop} {opt : RtuOption}
    (other : opt ≠ .vid) {optarg : List Char} {opts : List OptionArg} :
    Groups ok ((opt, optarg) :: opts) ↔ Groups ok opts := by
  simp only [Groups, List.suffix_cons_iff, List.cons.injEq, Prod.mk.injEq, other.symm, false_and,
    false_or]

/-- Only the VIDs that the options name get requests. -/
theorem requests_named {opts : List OptionArg} {requests : List RtuVlans}
    (accepted : rtuOptions opts [] = some requests) : ∀ cur ∈ requests, Named cur.vid opts := by
  induction opts generalizing requests with
  | nil =>
    cases accepted
    exact fun _ member => absurd member List.not_mem_nil
  | cons opt opts ih =>
    obtain ⟨opt, optarg⟩ := opt
    -- a request starts at its VID, the options up to the next one belong to it
    by_cases named : opt = .vid
    · subst named
      obtain ⟨later, cur, rfl, others, vid, _⟩ := rtuOptions_group accepted
      intro request member
      rw [named_cons_vid]
      obtain member | member := List.mem_append.mp member
      · exact .inr (ih others request member)
      · rw [List.mem_singleton.mp member]
        exact .inl vid.symm
    · rw [rtuOptions_other named (by rw [accepted]; rfl)] at accepted
      intro request member
      rw [named_cons_other named]
      exact ih accepted request member

private theorem passedOn_vid (calls : List (RtuVlans × RtudEnv)) (s : RtuState) :
    ∀ request ∈ passedOn calls s, ∃ call ∈ calls, call.1.vid = request.vid := by
  induction calls generalizing s with
  | nil => exact fun _ member => absurd member List.not_mem_nil
  | cons call calls ih =>
    intro request member
    obtain rfl | member := List.mem_cons.mp member
    · exact ⟨call, List.mem_cons_self, (preserve_vid _ _).symm⟩
    · obtain ⟨other, among, vid⟩ := ih _ request member
      exact ⟨other, List.mem_cons_of_mem _ among, vid⟩

/-- A group whose VID is not named again does not touch what the others do. -/
theorem preserved_of_once {opts : List OptionArg} {optarg : List Char} {s : RtuState}
    (accepted : (rtuOptions ((.vid, optarg) :: opts) []).isSome)
    (once : ¬Named (vidArg optarg) opts) (whole : Preserved ((.vid, optarg) :: opts) s) :
    Preserved opts s := by
  obtain ⟨requests, done⟩ := Option.isSome_iff_exists.mp accepted
  obtain ⟨later, cur, rfl, others, vid, _, _⟩ := rtuOptions_group done
  intro calls asked v
  rw [others, Option.some.injEq] at asked
  have checked := checked_of_options (others.trans (congrArg some asked))
  -- a number that no later option names has no request
  have unnamed (v : Int) (no : ¬Named v opts) : lastRequest v (passedOn calls s) = none := by
    refine List.find?_eq_none.mpr fun request member same => no ?_
    obtain ⟨call, among, has⟩ := passedOn_vid calls s request (List.mem_reverse.mp member)
    rw [decide_eq_true_eq] at same
    rw [← same, ← has]
    refine requests_named others call.1 ?_
    rw [asked]
    exact List.mem_map_of_mem among
  refine ⟨fun named => ?_, fun no => ⟨unnamed v no, fun low high =>
    (configRtud_untouched calls s checked).2.2.2 v low high (unnamed v no)⟩⟩
  have other : vidArg optarg ≠ v := fun same => once (same ▸ named)
  obtain ⟨request, last, fields⟩ := (whole (calls ++ [(cur, noEnv)]) (by
    rw [done, asked, List.map_append]
    rfl) v).1 (named_cons_vid.mpr (.inr named))
  rw [passedOn_append, passedOn, passedOn, lastRequest_concat, preserve_vid, vid,
    if_neg other] at last
  rw [given, if_neg other, or_nothing] at fields
  exact ⟨request, last, fields⟩

/-- The requests of a command line and of all its ends keep what they are not told to change exactly
if every group passes; and with no VID named twice, those of the command line by themselves. -/
theorem vlans_preserved_iff (opts : List OptionArg) (s : RtuState)
    (accepted : (rtuOptions opts []).isSome) :
    ((∀ tail, tail <:+ opts → Preserved tail s) ↔ Groups (GroupOk s) opts) ∧
      (Groups (fun optarg tail => ¬Named (vidArg optarg) tail) opts →
        (Preserved opts s ↔ Groups (GroupOk s) opts)) := by
  induction opts with
  | nil =>
    have ends : ∀ tail, tail <:+ [] → Preserved tail s := fun tail empty => by
      rw [List.suffix_nil.mp empty]
      exact preserved_nil s
    have groups : Groups (GroupOk s) [] := fun _ _ inner => by
      cases List.suffix_nil.mp inner
    exact ⟨iff_of_true ends groups, fun _ => iff_of_true (preserved_nil s) groups⟩
  | cons opt opts ih =>
    obtain ⟨opt, optarg⟩ := opt
    obtain ⟨ends, single⟩ := ih (rtuOptions_tail accepted)
    -- a tail of the options is all of them, or a tail of the rest
    have split : (∀ tail, tail <:+ (opt, optarg) :: opts → Preserved tail s) ↔
        Preserved ((opt, optarg) :: opts) s ∧ ∀ tail, tail <:+ opts → Preserved tail s := by
      simp only [List.suffix_cons_iff, or_imp, forall_and, forall_eq]
    rw [split, ends]
    by_cases named : opt = .vid
    · subst named
      rw [groups_cons_vid, groups_cons_vid]
      refine ⟨and_congr_left fun groups => ?_, fun ⟨once, others⟩ => ?_⟩
      · exact preserved_vid_iff accepted (ends.mpr groups opts List.suffix_rfl)
      · constructor
        · intro whole
          have rest := preserved_of_once accepted once whole
          exact ⟨(preserved_vid_iff accepted rest).mp whole, (single others).mp rest⟩
        · rintro ⟨own, groups⟩
          exact (preserved_vid_iff accepted ((single others).mpr groups)).mpr own
    · rw [groups_cons_other named, groups_cons_other named, preserved_other_iff named accepted]
      exact ⟨and_iff_right_of_imp fun groups => ends.mpr groups opts List.suffix_rfl, single⟩

/-- `--rvid 1 --rfid 1 --rvid 2 --rfid 255` -/
theorem vlans_preserved_two :
    ((∀ tail, tail <:+ twoVlans ['0', 'x', 'f', 'f'] → Preserved tail firstStartState) ↔
        Groups (GroupOk firstStartState) (twoVlans ['0', 'x', 'f', 'f'])) ∧
      (Groups (fun optarg tail => ¬Named (vidArg optarg) tail) (twoVlans ['0', 'x', 'f', 'f']) →
        (Preserved (twoVlans ['0', 'x', 'f', 'f']) firstStartState ↔
          Groups (GroupOk firstStartState) (twoVlans ['0', 'x', 'f', 'f']))) :=
  vlans_preserved_iff _ _ (by decide)

/-- VLAN 1 has FID 1 and ports 0 and 1. -/
def vlanOneState : RtuState :=
  { firstStartState with
    vlanTab := Function.update firstStartState.vlanTab 1 ⟨3, 1, 0, 0, 0, 0, (0, 0)⟩ }

/-- `--rvid 1 --rfid 2` takes the ports from the VLAN. -/
theorem ports_not_preserved : ¬Preserved [(.vid, ['1']), (.fid, ['2'])] vlanOneState := by
  intro preserved
  obtain ⟨request, last, fields⟩ := (preserved
    [(⟨1, 2, 0, 0, 0, 0, 0, validVid ||| validFid⟩, noEnv)] (by decide) 1).1
    ⟨['1'], List.mem_cons_self, by decide⟩
  have sent : lastRequest 1 (passedOn [(⟨1, 2, 0, 0, 0, 0, 0, validVid ||| validFid⟩, noEnv)]
    vlanOneState) = some ⟨1, 2, 0, 0, 0, 0, 0, validVid ||| validFid⟩ := by decide
  rw [sent, Option.some.injEq] at last
  rw [← last] at fields
  revert fields
  decide

def maskRequest (pmask : Int) : RtuVlans := ⟨1, 1, pmask, 0, 0, 0, 0, validVid ||| validPmask⟩

def twoMasks : List OptionArg :=
  [(.vid, ['1']), (.pmask, ['1']), (.vid, ['1']), (.pmask, ['3'])]

/-- `--rvid 1 --rmask 1 --rvid 1 --rmask 3` sends the first mask last. -/
theorem first_mask_sent (s : RtuState) : ¬Preserved twoMasks s := by
  intro preserved
  obtain ⟨request, last, fields⟩ := (preserved
    ([(maskRequest 3, noEnv)] ++ [(maskRequest 1, noEnv)]) (by decide) 1).1
    ⟨['1'], List.mem_cons_self, by decide⟩
  rw [passedOn_append, passedOn, passedOn, passedOn, passedOn, lastRequest_concat, preserve_vid,
    if_pos (by decide : (maskRequest 1).vid = 1), Option.some.injEq] at last
  have plain : (maskRequest 1).Plain := by decide
  have own : (maskRequest 1).settings.pmask = some 1 := by decide
  have all : (given 1 twoMasks).pmask = some 3 := by decide
  have mask := congrArg VlanFields.pmask fields
  rw [← last, preserve_fields _ plain, Settings.over, Settings.over, own, all] at mask
  have same : (1 : Int) = 3 := mask
  exact absurd same (by decide)

/-- A new FID takes the ports from its VLAN, and of two masks the first is sent last. -/
theorem vlans_not_preserved :
    ¬Preserved [(.vid, ['1']), (.fid, ['2'])] vlanOneState ∧ ¬Preserved twoMasks vlanOneState :=
  ⟨ports_not_preserved, first_mask_sent vlanOneState⟩

end WrSwitch.Tools
