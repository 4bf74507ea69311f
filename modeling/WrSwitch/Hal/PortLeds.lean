import WrSwitch.Hal.Types
import WrSwitch.Libwr.SfpGpio

/-!
# The LEDs of the ports

`hal_port_leds.c` keeps what the LEDs of each port are to show, and goes to the expanders only
for what has changed since the last update.
-/
namespace WrSwitch.Hal

open Libwr (SfpGpios SfpPins shwSfpSetGeneric sfpLedWrmode1 sfpLedWrmode2 sfpLedSynced sfpTxDisable
  generic_shows init_shows)

/-! ### The functions -/

/-- The values of `led_set_wrmode`. -/
inductive LedWrmode where
  | slave
  | other
  | master
  | off
  | calib
deriving DecidableEq, Repr

def LedWrmode.code : LedWrmode → BitVec 8
  | .slave => 1
  | .other => 2
  | .master => 3
  | .off => 4
  | .calib => 5

structure Leds where
  syncToUpdate : Nat → BitVec 8
  linkToUpdate : Nat → BitVec 8
  syncMap : Nat → BitVec 8
  linkMap : Nat → BitVec 8
  /-- `led_blink_state` -/
  blink : Bool

/-- There are more ports in the table than SFPs. -/
def ledClearAllPorts (leds : Leds) (hw : SfpGpios) : Leds × SfpGpios :=
  (⟨fun _ => 0, fun _ => 0, fun _ => 0, fun _ => 0, leds.blink⟩,
    (List.range halMaxPorts).foldl (fun hw (i : Nat) =>
      shwSfpSetGeneric i false (sfpLedWrmode1 ||| sfpLedWrmode2)
        (shwSfpSetGeneric i false sfpLedSynced hw)) hw)

def ledSetWrmode (portIndex : Nat) (value : BitVec 8) (leds : Leds) : Leds :=
  if portIndex ≥ halMaxPorts then leds
  else { leds with linkToUpdate := Function.update leds.linkToUpdate portIndex value }

def ledSetSynched (portIndex : Nat) (value : BitVec 8) (leds : Leds) : Leds :=
  if portIndex ≥ halMaxPorts then leds
  else { leds with syncToUpdate := Function.update leds.syncToUpdate portIndex value }

/-- The LEDs of the link. A call cannot set one and clear the other. -/
def linkColour (first second : Bool) (i : Nat) (hw : SfpGpios) : SfpGpios :=
  if first = second then shwSfpSetGeneric i first (sfpLedWrmode1 ||| sfpLedWrmode2) hw
  else shwSfpSetGeneric i second sfpLedWrmode2 (shwSfpSetGeneric i first sfpLedWrmode1 hw)

/-- The switch of `led_link_update`. -/
def showLink (value : BitVec 8) (blink : Bool) (i : Nat) (hw : SfpGpios) : SfpGpios :=
  if value = LedWrmode.slave.code then linkColour true false i hw
  else if value = LedWrmode.other.code then linkColour false true i hw
  else if value = LedWrmode.master.code then linkColour true true i hw
  else if value = LedWrmode.calib.code then linkColour false blink i hw
  else if value = LedWrmode.off.code then linkColour false false i hw
  else hw

def linkTurn (r : Leds × SfpGpios) (i : Nat) : Leds × SfpGpios :=
  let (leds, hw) := r
  let value := leds.linkToUpdate i
  -- calibration is always shown anew, to blink
  if value ≠ leds.linkMap i ∨ value = LedWrmode.calib.code then
    ({ leds with linkMap := Function.update leds.linkMap i value }, showLink value leds.blink i hw)
  else r

def ledLinkUpdate (r : Leds × SfpGpios) : Leds × SfpGpios :=
  let r := (List.range halMaxPorts).foldl linkTurn r
  ({ r.1 with blink := !r.1.blink }, r.2)

def synchedTurn (r : Leds × SfpGpios) (i : Nat) : Leds × SfpGpios :=
  let (leds, hw) := r
  let value := leds.syncToUpdate i
  if value ≠ leds.syncMap i then
    ({ leds with syncMap := Function.update leds.syncMap i value },
      shwSfpSetGeneric i (decide (value ≠ 0)) sfpLedSynced hw)
  else r

def ledSynchedUpdate (r : Leds × SfpGpios) : Leds × SfpGpios :=
  (List.range halMaxPorts).foldl synchedTurn r

/-! ### Runs -/

/-- What the HAL does with the LEDs and the transmitters of the SFPs. -/
inductive LedEvent where
  | wrmode (id : Fin 18) (mode : LedWrmode)
  | synched (id : Fin 18) (value : BitVec 8)
  | linkUpdate
  | synchedUpdate
  | txDisable (id : Fin 18) (status : Bool)

def ledStep (r : Leds × SfpGpios) : LedEvent → Leds × SfpGpios
  | .wrmode id mode => (ledSetWrmode id.val mode.code r.1, r.2)
  | .synched id value => (ledSetSynched id.val value r.1, r.2)
  | .linkUpdate => ledLinkUpdate r
  | .synchedUpdate => ledSynchedUpdate r
  | .txDisable id status => (r.1, shwSfpSetGeneric id.val status sfpTxDisable r.2)

/-- Without any copy of what is shown: each update shows everything. -/
structure PlainLeds where
  mode : Fin 18 → Option LedWrmode
  sync : Fin 18 → BitVec 8
  colour : Fin 18 → BitVec 2
  synced : Fin 18 → Bool
  disabled : Fin 18 → Bool
  blink : Bool

def colourOf (blink : Bool) : Option LedWrmode → BitVec 2
  | none => 0
  | some .slave => 1
  | some .other => 2
  | some .master => 3
  | some .off => 0
  | some .calib => if blink then 2 else 0

def PlainLeds.step (s : PlainLeds) : LedEvent → PlainLeds
  | .wrmode id mode => { s with mode := Function.update s.mode id (some mode) }
  | .synched id value => { s with sync := Function.update s.sync id value }
  | .linkUpdate => { s with colour := fun id => colourOf s.blink (s.mode id), blink := !s.blink }
  | .synchedUpdate => { s with synced := fun id => decide (s.sync id ≠ 0) }
  | .txDisable id status => { s with disabled := Function.update s.disabled id status }

def PlainLeds.start (blink : Bool) : PlainLeds where
  mode := fun _ => none
  sync := fun _ => 0
  colour := fun _ => 0
  synced := fun _ => false
  disabled := fun _ => false
  blink := blink

/-- The four pins of a port. -/
def ledPins (colour : BitVec 2) (synced disabled : Bool) : BitVec 8 :=
  colour.setWidth 8 ||| (if synced then sfpLedSynced else 0) |||
    (if disabled then sfpTxDisable else 0)

def PlainLeds.pins (s : PlainLeds) : SfpPins := fun id =>
  ledPins (s.colour id) (s.synced id) (s.disabled id)

/-! ### Pins -/

private theorem ledPins_both (c : BitVec 2) (y d f : Bool) :
    (if f then ledPins c y d ||| (sfpLedWrmode1 ||| sfpLedWrmode2)
      else ledPins c y d &&& ~~~(sfpLedWrmode1 ||| sfpLedWrmode2)) &&& 0xf =
        ledPins (if f then 3 else 0) y d := by
  revert c y d f
  decide

private theorem ledPins_first (c : BitVec 2) (y d f : Bool) :
    (if f then ledPins c y d ||| sfpLedWrmode1 else ledPins c y d &&& ~~~sfpLedWrmode1) &&& 0xf =
      ledPins (c &&& 2 ||| if f then 1 else 0) y d := by
  revert c y d f
  decide

private theorem ledPins_second (c : BitVec 2) (y d f : Bool) :
    (if f then ledPins c y d ||| sfpLedWrmode2 else ledPins c y d &&& ~~~sfpLedWrmode2) &&& 0xf =
      ledPins (c &&& 1 ||| if f then 2 else 0) y d := by
  revert c y d f
  decide

private theorem ledPins_synced (c : BitVec 2) (y d f : Bool) :
    (if f then ledPins c y d ||| sfpLedSynced else ledPins c y d &&& ~~~sfpLedSynced) &&& 0xf =
      ledPins c f d := by
  revert c y d f
  decide

private theorem ledPins_disabled (c : BitVec 2) (y d f : Bool) :
    (if f then ledPins c y d ||| sfpTxDisable else ledPins c y d &&& ~~~sfpTxDisable) &&& 0xf =
      ledPins c y f := by
  revert c y d f
  decide

/-- A call for one SFP changes its pins only. -/
theorem generic_pins (s : PlainLeds) (id : Fin 18) (status : Bool) (type : BitVec 8)
    {c : BitVec 2} {y d : Bool}
    (own : (if status then s.pins id ||| type else s.pins id &&& ~~~type) &&& 0xf = ledPins c y d) :
    SfpPins.generic s.pins id status type = PlainLeds.pins { s with
      colour := Function.update s.colour id c
      synced := Function.update s.synced id y
      disabled := Function.update s.disabled id d } := by
  funext id'
  unfold SfpPins.generic
  rw [own]
  by_cases same : id' = id
  · subst same
    simp only [PlainLeds.pins, Function.update_self]
  · simp only [PlainLeds.pins, Function.update_of_ne same]

/-- The two LEDs of a link. -/
def colourBits (first second : Bool) : BitVec 2 :=
  (if first then 1 else 0) ||| (if second then 2 else 0)

private theorem colourBits_calls (c : BitVec 2) (first second : Bool) :
    (c &&& 2 ||| if first then 1 else 0) &&& 1 ||| (if second then 2 else 0) =
      colourBits first second := by
  revert c first second
  decide

private theorem linkColour_shows {hw : SfpGpios} {s : PlainLeds} (shows : hw.Shows s.pins)
    (id : Fin 18) (first second : Bool) : (linkColour first second id.val hw).Shows
      (PlainLeds.pins { s with colour := Function.update s.colour id (colourBits first second) }) := by
  unfold linkColour
  by_cases same : first = second
  · subst same
    have both := generic_shows shows id first (sfpLedWrmode1 ||| sfpLedWrmode2)
    rw [generic_pins s id first _ (ledPins_both (s.colour id) (s.synced id) (s.disabled id) first),
      Function.update_eq_self, Function.update_eq_self] at both
    have colour : colourBits first first = if first then 3 else 0 := by
      cases first <;> rfl
    rw [if_pos rfl, colour]
    exact both
  · -- the second call finds what the first one left of the other LED
    have one := generic_shows shows id first sfpLedWrmode1
    rw [generic_pins s id first _ (ledPins_first (s.colour id) (s.synced id) (s.disabled id) first),
      Function.update_eq_self, Function.update_eq_self] at one
    have two := generic_shows one id second sfpLedWrmode2
    generalize mid : (s.colour id &&& 2 ||| if first then 1 else 0) = c at two
    have own : PlainLeds.pins { s with colour := Function.update s.colour id c } id =
        ledPins c (s.synced id) (s.disabled id) := by
      unfold PlainLeds.pins
      dsimp only
      rw [Function.update_self]
    rw [generic_pins _ id second _ ((congrArg (fun p : BitVec 8 =>
        (if second then p ||| sfpLedWrmode2 else p &&& ~~~sfpLedWrmode2) &&& 0xf) own).trans
          (ledPins_second c (s.synced id) (s.disabled id) second))] at two
    dsimp only at two
    rw [Function.update_idem, Function.update_eq_self, Function.update_eq_self, ← mid] at two
    rw [if_neg same, ← colourBits_calls (s.colour id)]
    exact two

private theorem showLink_shows {hw : SfpGpios} {s : PlainLeds} (shows : hw.Shows s.pins)
    (id : Fin 18) (mode : LedWrmode) (blink : Bool) : (showLink mode.code blink id.val hw).Shows
      (PlainLeds.pins { s with
        colour := Function.update s.colour id (colourOf blink (some mode)) }) := by
  -- the tests are made in the order of the code, each mode passes those before it
  cases mode with
  | slave =>
    have shown : showLink LedWrmode.slave.code blink id.val hw = linkColour true false id.val hw :=
      if_pos rfl
    rw [shown]
    exact linkColour_shows shows id true false
  | other =>
    have shown : showLink LedWrmode.other.code blink id.val hw = linkColour false true id.val hw := by
      unfold showLink
      rw [if_neg (by decide), if_pos rfl]
    rw [shown]
    exact linkColour_shows shows id false true
  | master =>
    have shown : showLink LedWrmode.master.code blink id.val hw = linkColour true true id.val hw := by
      unfold showLink
      rw [if_neg (by decide), if_neg (by decide), if_pos rfl]
    rw [shown]
    exact linkColour_shows shows id true true
  | off =>
    have shown : showLink LedWrmode.off.code blink id.val hw = linkColour false false id.val hw := by
      unfold showLink
      rw [if_neg (by decide), if_neg (by decide), if_neg (by decide), if_neg (by decide), if_pos rfl]
    rw [shown]
    exact linkColour_shows shows id false false
  | calib =>
    have shown : showLink LedWrmode.calib.code blink id.val hw = linkColour false blink id.val hw := by
      unfold showLink
      rw [if_neg (by decide), if_neg (by decide), if_neg (by decide), if_pos rfl]
    have colour : colourBits false blink = colourOf blink (some .calib) := by
      cases blink <;> rfl
    rw [shown, ← colour]
    exact linkColour_shows shows id false blink

/-! ### What the copies say -/

def codeOf : Option LedWrmode → BitVec 8
  | none => 0
  | some mode => mode.code

private theorem codeOf_inj {a b : Option LedWrmode} (same : codeOf a = codeOf b) : a = b := by
  rcases a with _ | a <;> rcases b with _ | b
  · rfl
  · cases b <;> cases same
  · cases a <;> cases same
  · cases a <;> cases b <;> first | rfl | cases same

/-- Only one of the colours depends on the blinking. -/
theorem colourOf_steady {mode : Option LedWrmode} (steady : mode ≠ some .calib) (a b : Bool) :
    colourOf a mode = colourOf b mode := by
  rcases mode with _ | mode
  · rfl
  · cases mode with
    | calib => exact absurd rfl steady
    | _ => rfl

/-- `last` is what the link LEDs were last set to. -/
structure LedsTrack (leds : Leds) (hw : SfpGpios) (s : PlainLeds)
    (last : Fin 18 → Option LedWrmode) : Prop where
  shows : hw.Shows s.pins
  blink : leds.blink = s.blink
  asked : ∀ id : Fin 18, leds.linkToUpdate id.val = codeOf (s.mode id)
  shown : ∀ id : Fin 18, leds.linkMap id.val = codeOf (last id)
  unset : ∀ id, s.mode id = none → last id = none
  askedSync : ∀ id : Fin 18, leds.syncToUpdate id.val = s.sync id
  shownSync : ∀ id : Fin 18, s.synced id = decide (leds.syncMap id.val ≠ 0)
  beyond : ∀ i, 18 ≤ i → leds.linkToUpdate i = 0 ∧ leds.linkMap i = 0 ∧
    leds.syncToUpdate i = 0 ∧ leds.syncMap i = 0

/-- A link LED whose mode has not changed is right, unless it blinks. -/
def Coloured (s : PlainLeds) (last : Fin 18 → Option LedWrmode) : Prop :=
  ∀ id, last id = s.mode id → s.mode id ≠ some .calib → s.colour id = colourOf s.blink (s.mode id)

/-- One more of the first ports. -/
theorem update_below {α : Type} (f g : Fin 18 → α) {n : Nat} (sfp : n < 18) :
    Function.update (fun id : Fin 18 => if id.val < n then f id else g id) ⟨n, sfp⟩ (f ⟨n, sfp⟩) =
      fun id => if id.val < n + 1 then f id else g id := by
  funext id
  by_cases here : id = ⟨n, sfp⟩
  · subst here
    rw [Function.update_self, if_pos (Nat.lt_succ_self n)]
  · have apart : id.val ≠ n := fun eq => here (Fin.ext eq)
    rw [Function.update_of_ne here]
    by_cases below : id.val < n
    · rw [if_pos below, if_pos (by omega)]
    · rw [if_neg below, if_neg (by omega)]

private theorem all_below {α : Type} (f g : Fin 18 → α) {n : Nat} (all : 18 ≤ n) :
    (fun id : Fin 18 => if id.val < n then f id else g id) =
      fun id => if id.val < n + 1 then f id else g id := by
  funext id
  have below := id.isLt
  rw [if_pos (by omega), if_pos (by omega)]

/-- An entry of the array is that of an SFP. -/
theorem update_port {α : Type} {map : Nat → α} {f : Fin 18 → α}
    (same : ∀ j : Fin 18, map j.val = f j) (id : Fin 18) (v : α) (j : Fin 18) :
    Function.update map id.val v j.val = Function.update f id v j := by
  by_cases here : j = id
  · subst here
    rw [Function.update_self, Function.update_self]
  · have apart : j.val ≠ id.val := fun eq => here (Fin.ext eq)
    rw [Function.update_of_ne here, Function.update_of_ne apart]
    exact same j

private theorem update_beyond {α : Type} (map : Nat → α) (id : Fin 18) (v : α) {i : Nat}
    (above : 18 ≤ i) :
    Function.update map id.val v i = map i :=
  Function.update_of_ne (by omega) ..

private theorem update_code {map : Nat → BitVec 8} {f : Fin 18 → Option LedWrmode}
    (same : ∀ j : Fin 18, map j.val = codeOf (f j)) (id : Fin 18) (v : Option LedWrmode) (j : Fin 18) :
    Function.update map id.val (codeOf v) j.val = codeOf (Function.update f id v j) :=
  (update_port same id (codeOf v) j).trans (Function.apply_update (fun _ => codeOf) f id v j).symm

section Turns

variable {leds : Leds} {hw : SfpGpios} {s : PlainLeds} {last : Fin 18 → Option LedWrmode}

/-- The colours stay right when one port's light is set. -/
theorem Coloured.turn (coloured : Coloured s last) (id : Fin 18) :
    Coloured { s with colour := Function.update s.colour id (colourOf s.blink (s.mode id)) }
      (Function.update last id (s.mode id)) := by
  intro j same steady
  by_cases here : j = id
  · subst here
    exact Function.update_self ..
  · have before : last j = s.mode j := by
      rw [← same]
      exact (Function.update_of_ne here ..).symm
    exact (Function.update_of_ne here ..).trans (coloured j before steady)

private theorem showLink_track (track : LedsTrack leds hw s last) {id : Fin 18} {mode : LedWrmode}
    (asked : s.mode id = some mode) :
    LedsTrack { leds with linkMap := Function.update leds.linkMap id.val mode.code }
      (showLink mode.code leds.blink id.val hw)
      { s with colour := Function.update s.colour id (colourOf s.blink (some mode)) }
      (Function.update last id (some mode)) := by
  have pins := showLink_shows track.shows id mode leds.blink
  rw [track.blink] at pins
  refine ⟨?_, track.blink, track.asked, update_code track.shown id (some mode), ?_,
    track.askedSync, track.shownSync, ?_⟩
  · rw [track.blink]
    exact pins
  · intro j none
    -- the port was asked for a mode, so it is not one of the unset
    by_cases here : j = id
    · subst here
      rw [asked] at none
      cases none
    · exact (Function.update_of_ne here ..).trans (track.unset j none)
  · intro i above
    obtain ⟨a, b, c, d⟩ := track.beyond i above
    exact ⟨a, (update_beyond leds.linkMap id _ above).trans b, c, d⟩

private theorem linkTurn_track (track : LedsTrack leds hw s last) (coloured : Coloured s last)
    (id : Fin 18) :
    let s' := { s with colour := Function.update s.colour id (colourOf s.blink (s.mode id)) }
    let last' := Function.update last id (s.mode id)
    LedsTrack (linkTurn (leds, hw) id.val).1 (linkTurn (leds, hw) id.val).2 s' last' ∧
      Coloured s' last' := by
  intro s' last'
  refine ⟨?_, coloured.turn id⟩
  unfold linkTurn
  dsimp only
  rw [track.asked id, track.shown id]
  by_cases changed : codeOf (s.mode id) ≠ codeOf (last id) ∨
      codeOf (s.mode id) = LedWrmode.calib.code
  · -- nothing is shown before a first mode was asked for
    rw [if_pos changed]
    obtain ⟨mode, asked⟩ : ∃ mode, s.mode id = some mode := by
      cases asked : s.mode id with
      | some mode => exact ⟨mode, rfl⟩
      | none =>
        rw [track.unset id asked, asked] at changed
        rcases changed with other | calib
        · exact absurd rfl other
        · cases calib
    dsimp only [s', last']
    rw [asked]
    exact showLink_track track asked
  · -- the LEDs have this mode already, and do not blink
    rw [if_neg changed]
    rw [not_or, not_not] at changed
    have same : s.mode id = last id := codeOf_inj changed.1
    have steady : s.mode id ≠ some .calib := by
      intro calib
      rw [calib] at changed
      exact changed.2 rfl
    have kept : s' = s := by
      dsimp only [s']
      rw [← coloured id same.symm steady, Function.update_eq_self]
    have kept' : last' = last := by
      dsimp only [last']
      rw [same, Function.update_eq_self]
    rw [kept, kept']
    exact track

private theorem linkTurns_track (track : LedsTrack leds hw s last) (coloured : Coloured s last)
    (n : Nat) :
    let s' := { s with
      colour := fun id => if id.val < n then colourOf s.blink (s.mode id) else s.colour id }
    let last' := fun id : Fin 18 => if id.val < n then s.mode id else last id
    LedsTrack ((List.range n).foldl linkTurn (leds, hw)).1
      ((List.range n).foldl linkTurn (leds, hw)).2 s' last' ∧ Coloured s' last' := by
  induction n with
  | zero => exact ⟨track, coloured⟩
  | succ n ih =>
    obtain ⟨before, fresh⟩ := ih
    rw [List.range_succ, List.foldl_append, List.foldl_cons, List.foldl_nil]
    generalize (List.range n).foldl linkTurn (leds, hw) = r at before
    by_cases sfp : n < 18
    · have turn := linkTurn_track before fresh ⟨n, sfp⟩
      dsimp only at turn ⊢
      rw [update_below, update_below] at turn
      exact turn
    · -- the ports from 18 on have no LEDs
      obtain ⟨asked, shown, _, _⟩ := before.beyond n (by omega)
      have skipped : linkTurn r n = r := by
        unfold linkTurn
        dsimp only
        rw [asked, shown, if_neg (by decide)]
      dsimp only at before fresh ⊢
      have all : 18 ≤ n := not_lt.mp sfp
      rw [all_below (fun id => colourOf s.blink (s.mode id)) s.colour all, all_below s.mode last all]
        at before fresh
      rw [skipped]
      exact ⟨before, fresh⟩

private theorem synchedTurn_track (track : LedsTrack leds hw s last) (id : Fin 18) :
    LedsTrack (synchedTurn (leds, hw) id.val).1 (synchedTurn (leds, hw) id.val).2
      { s with synced := Function.update s.synced id (decide (s.sync id ≠ 0)) } last := by
  unfold synchedTurn
  dsimp only
  rw [track.askedSync id]
  by_cases changed : s.sync id ≠ leds.syncMap id.val
  · rw [if_pos changed]
    have pins := generic_shows track.shows id (decide (s.sync id ≠ 0)) sfpLedSynced
    rw [generic_pins s id _ _ (ledPins_synced (s.colour id) (s.synced id) (s.disabled id) _),
      Function.update_eq_self, Function.update_eq_self] at pins
    refine ⟨pins, track.blink, track.asked, track.shown, track.unset, track.askedSync, ?_, ?_⟩
    · intro j
      by_cases here : j = id
      · subst here
        have map : Function.update leds.syncMap j.val (s.sync j) j.val = s.sync j :=
          Function.update_self ..
        exact (Function.update_self ..).trans
          (congrArg (fun v : BitVec 8 => decide (v ≠ 0)) map.symm)
      · -- the other ports keep both their LED and what was shown
        have apart : j.val ≠ id.val := fun eq => here (Fin.ext eq)
        have map : Function.update leds.syncMap id.val (s.sync id) j.val = leds.syncMap j.val :=
          Function.update_of_ne apart ..
        exact (Function.update_of_ne here ..).trans ((track.shownSync j).trans
          (congrArg (fun v : BitVec 8 => decide (v ≠ 0)) map.symm))
    · intro i above
      obtain ⟨a, b, c, d⟩ := track.beyond i above
      exact ⟨a, b, c, (update_beyond leds.syncMap id _ above).trans d⟩
  · -- the value is the one that was shown last
    rw [if_neg changed]
    rw [not_not] at changed
    have kept : decide (s.sync id ≠ 0) = s.synced id := by
      rw [track.shownSync id, changed]
    rw [kept, Function.update_eq_self]
    exact track

private theorem synchedTurns_track (track : LedsTrack leds hw s last) (n : Nat) :
    LedsTrack ((List.range n).foldl synchedTurn (leds, hw)).1
      ((List.range n).foldl synchedTurn (leds, hw)).2
      { s with synced := fun id => if id.val < n then decide (s.sync id ≠ 0) else s.synced id }
      last := by
  induction n with
  | zero => exact track
  | succ n ih =>
    rw [List.range_succ, List.foldl_append, List.foldl_cons, List.foldl_nil]
    generalize (List.range n).foldl synchedTurn (leds, hw) = r at ih
    by_cases sfp : n < 18
    · have turn := synchedTurn_track ih ⟨n, sfp⟩
      dsimp only at turn
      rw [update_below] at turn
      exact turn
    · -- the ports from 18 on have no LEDs
      obtain ⟨_, _, asked, shown⟩ := ih.beyond n (by omega)
      have skipped : synchedTurn r n = r := by
        unfold synchedTurn
        dsimp only
        rw [asked, shown, if_neg (by decide)]
      rw [all_below _ _ (by omega)] at ih
      rw [skipped]
      exact ih

private theorem not_beyond (id : Fin 18) : ¬id.val ≥ halMaxPorts :=
  not_le.mpr (id.isLt.trans (by decide))

private theorem ledSetWrmode_track (track : LedsTrack leds hw s last) (id : Fin 18)
    (mode : LedWrmode) :
    LedsTrack (ledSetWrmode id.val mode.code leds) hw
      { s with mode := Function.update s.mode id (some mode) } last := by
  unfold ledSetWrmode
  rw [if_neg (not_beyond id)]
  refine ⟨track.shows, track.blink, update_code track.asked id (some mode), track.shown, ?_,
    track.askedSync, track.shownSync, ?_⟩
  · intro j none
    by_cases here : j = id
    · subst here
      dsimp only at none
      rw [Function.update_self] at none
      cases none
    · exact track.unset j ((Function.update_of_ne here ..).symm.trans none)
  · intro i above
    obtain ⟨a, b, c, d⟩ := track.beyond i above
    exact ⟨(update_beyond leds.linkToUpdate id _ above).trans a, b, c, d⟩

private theorem ledSetSynched_track (track : LedsTrack leds hw s last) (id : Fin 18)
    (value : BitVec 8) :
    LedsTrack (ledSetSynched id.val value leds) hw
      { s with sync := Function.update s.sync id value } last := by
  unfold ledSetSynched
  rw [if_neg (not_beyond id)]
  refine ⟨track.shows, track.blink, track.asked, track.shown, track.unset,
    update_port track.askedSync id value, track.shownSync, ?_⟩
  intro i above
  obtain ⟨a, b, c, d⟩ := track.beyond i above
  exact ⟨a, b, (update_beyond leds.syncToUpdate id _ above).trans c, d⟩

/-- An update takes all SFPs in. -/
theorem all_updated {α : Type} (f g : Fin 18 → α) :
    (fun id : Fin 18 => if id.val < halMaxPorts then f id else g id) = f := by
  funext id
  exact if_pos (not_le.mp (not_beyond id))

private theorem ledLinkUpdate_track (track : LedsTrack leds hw s last)
    (coloured : Coloured s last) :
    LedsTrack (ledLinkUpdate (leds, hw)).1 (ledLinkUpdate (leds, hw)).2
      { s with colour := fun id => colourOf s.blink (s.mode id), blink := !s.blink } s.mode := by
  obtain ⟨done, _⟩ := linkTurns_track track coloured halMaxPorts
  rw [all_updated (fun id => colourOf s.blink (s.mode id)) s.colour, all_updated s.mode last] at done
  unfold ledLinkUpdate
  generalize (List.range halMaxPorts).foldl linkTurn (leds, hw) = r at done
  exact ⟨done.shows, congrArg (!·) done.blink, done.asked, done.shown, done.unset, done.askedSync,
    done.shownSync, done.beyond⟩

private theorem ledSynchedUpdate_track (track : LedsTrack leds hw s last) :
    LedsTrack (ledSynchedUpdate (leds, hw)).1 (ledSynchedUpdate (leds, hw)).2
      { s with synced := fun id => decide (s.sync id ≠ 0) } last := by
  have done := synchedTurns_track track halMaxPorts
  rw [all_updated (fun id => decide (s.sync id ≠ 0)) s.synced] at done
  exact done

end Turns

/-! ### The start -/

/-- A number that is no SFP has the pins of SFP 1. -/
theorem generic_beyond {i : Nat} (above : 18 ≤ i) (status : Bool) (type : BitVec 8)
    (hw : SfpGpios) :
    shwSfpSetGeneric i status type hw = shwSfpSetGeneric (1 : Fin 18).val status type hw := by
  have refused : Libwr.shwSfpId i = -1 := if_pos (.inl (by omega))
  have first : Libwr.shwSfpId (1 : Fin 18).val = 1 := rfl
  have curr : Libwr.gpioCurr (-1) = Libwr.gpioCurr 1 := rfl
  have top : Libwr.gpioTop (-1) = Libwr.gpioTop 1 := by decide
  have high : Libwr.gpioHigh (-1) = Libwr.gpioHigh 1 := by decide
  have addr : Libwr.gpioAddr (-1) = Libwr.gpioAddr 1 := by decide
  unfold shwSfpSetGeneric Libwr.shwSfpGpioGet Libwr.shwSfpGpioSet
  dsimp only
  rw [refused, first, curr, top, high, addr]

/-- Nothing is on, and nothing goes on. -/
theorem dark_generic (id : Fin 18) (type : BitVec 8) :
    SfpPins.generic (fun _ => 0) id false type = fun _ => 0 := by
  funext id'
  unfold SfpPins.generic
  by_cases same : id' = id
  · subst same
    rw [Function.update_self, if_neg Bool.false_ne_true]
    simp
  · rw [Function.update_of_ne same]

private theorem dark_shows {hw : SfpGpios} (dark : hw.Shows fun _ => 0) (i : Nat)
    (type : BitVec 8) :
    (shwSfpSetGeneric i false type hw).Shows fun _ => 0 := by
  by_cases sfp : i < 18
  · have kept := generic_shows dark ⟨i, sfp⟩ false type
    rw [dark_generic] at kept
    exact kept
  · rw [generic_beyond (by omega)]
    have kept := generic_shows dark 1 false type
    rw [dark_generic] at kept
    exact kept

private theorem clear_shows {hw : SfpGpios} (dark : hw.Shows fun _ => 0) (n : Nat) :
    ((List.range n).foldl (fun hw (i : Nat) =>
      shwSfpSetGeneric i false (sfpLedWrmode1 ||| sfpLedWrmode2)
        (shwSfpSetGeneric i false sfpLedSynced hw)) hw).Shows fun _ => 0 := by
  induction n with
  | zero => exact dark
  | succ n ih =>
    rw [List.range_succ, List.foldl_append]
    exact dark_shows (dark_shows ih n _) n _

private theorem start_track {hw : SfpGpios} (idle : hw.Idle) (leds : Leds) :
    let r := ledClearAllPorts leds (Libwr.shwSfpGpioInit hw)
    LedsTrack r.1 r.2 (.start leds.blink) fun _ => none := by
  intro r
  have none : ledPins 0 false false = 0 := by decide
  have dark : (PlainLeds.start leds.blink).pins = fun _ => 0 := funext fun _ => none
  have cleared := clear_shows (init_shows idle) halMaxPorts
  rw [← dark] at cleared
  exact ⟨cleared, rfl, fun _ => rfl, fun _ => rfl, fun _ _ => rfl, fun _ => rfl, fun _ => rfl,
    fun _ _ => ⟨rfl, rfl, rfl, rfl⟩⟩

/-! ### Any run -/

/-- Between two events: what blinks was set before the blinking went on. -/
def LedsInv (r : Leds × SfpGpios) (s : PlainLeds) : Prop :=
  ∃ last, LedsTrack r.1 r.2 s last ∧ ∀ id, s.colour id = colourOf (!s.blink) (last id)

private theorem ledStep_inv {r : Leds × SfpGpios} {s : PlainLeds} (inv : LedsInv r s)
    (e : LedEvent) :
    LedsInv (ledStep r e) (s.step e) := by
  obtain ⟨leds, hw⟩ := r
  obtain ⟨last, track, rest⟩ := inv
  cases e with
  | wrmode id mode => exact ⟨last, ledSetWrmode_track track id mode, rest⟩
  | synched id value => exact ⟨last, ledSetSynched_track track id value, rest⟩
  | linkUpdate =>
    -- the blinking has gone on since the last update, which only calibration notices
    have coloured : Coloured s last := by
      intro id same steady
      rw [rest id, same, colourOf_steady steady (!s.blink) s.blink]
    refine ⟨s.mode, ledLinkUpdate_track track coloured, ?_⟩
    intro id
    change colourOf s.blink (s.mode id) = colourOf (!!s.blink) (s.mode id)
    rw [Bool.not_not]
  | synchedUpdate => exact ⟨last, ledSynchedUpdate_track track, rest⟩
  | txDisable id status =>
    have pins := generic_shows track.shows id status sfpTxDisable
    rw [generic_pins s id _ _ (ledPins_disabled (s.colour id) (s.synced id) (s.disabled id) _),
      Function.update_eq_self, Function.update_eq_self] at pins
    exact ⟨last, ⟨pins, track.blink, track.asked, track.shown, track.unset, track.askedSync,
      track.shownSync, track.beyond⟩, rest⟩

private theorem ledSteps_inv (events : List LedEvent) {r : Leds × SfpGpios} {s : PlainLeds}
    (inv : LedsInv r s) : LedsInv (events.foldl ledStep r) (events.foldl PlainLeds.step s) := by
  induction events generalizing r s with
  | nil => exact inv
  | cons e events ih => exact ih (ledStep_inv inv e)

/-- The copies never make a difference: after any run the pins are those of LEDs where each
update shows everything anew. -/
theorem leds_as_plain {hw : SfpGpios} (idle : hw.Idle) (leds : Leds) (events : List LedEvent) :
    (events.foldl ledStep (ledClearAllPorts leds (Libwr.shwSfpGpioInit hw))).2.pins =
      (events.foldl PlainLeds.step (.start leds.blink)).pins := by
  have start : LedsInv (ledClearAllPorts leds (Libwr.shwSfpGpioInit hw)) (.start leds.blink) :=
    ⟨fun _ => none, start_track idle leds, fun _ => rfl⟩
  obtain ⟨_, track, _⟩ := ledSteps_inv events start
  exact track.shows.pins

/-- Port 3 is calibrated and blinks from the second update on. Its transmitter is disabled then. -/
theorem leds_as_plain_power_on :
    let hw : SfpGpios := ⟨⟨0, 0, false⟩, ⟨fun _ => .idle, fun _ => ⟨0xff, 0, 0xff, 0, 0, true⟩⟩,
      ⟨fun _ => .idle, fun _ => ⟨0xff, 0, 0xff, 0, 0, true⟩⟩⟩
    let leds : Leds := ⟨fun _ => 0, fun _ => 0, fun _ => 0, fun _ => 0, false⟩
    let events : List LedEvent := [.wrmode 3 .calib, .linkUpdate, .synched 2 1, .wrmode 2 .slave,
      .linkUpdate, .synchedUpdate, .txDisable 3 true]
    let pins := (events.foldl ledStep (ledClearAllPorts leds (Libwr.shwSfpGpioInit hw))).2.pins
    hw.Idle ∧ pins 2 = 5 ∧ pins 3 = 10 ∧ pins 17 = 0 := by
  intro hw leds events pins
  have idle : hw.Idle := ⟨fun _ => rfl, fun _ => rfl⟩
  have plain : pins = _ := leds_as_plain idle leds events
  refine ⟨idle, ?_⟩
  rw [plain]
  decide

end WrSwitch.Hal
