import WrSwitch.Libwr.I2cFpga

/-!
# The LEDs and the transmitters of the SFPs

Each SFP has four pins of a PCA9554 expander: two for the colours of its link LED, one for its
synced LED and one that disables its transmitter. Two SFPs share an expander, one in each half of
its pins. The expanders are behind the I2C master of the FPGA.
-/
namespace WrSwitch.Libwr

open Machine.TwoWire

/-! ### Boards -/

def lowAddress (_ : Unit) : BitVec 7 := 0x20

def highAddress (i : Fin 8) : BitVec 7 := 0x20 + BitVec.ofNat 7 i.val

def expanders {ι : Type} (address : ι → BitVec 7) : Wiring fun _ : ι => Pca9554 where
  device := fun i => pca9554 (address i)
  joined := fun _ _ => true
  steady := fun _ _ _ => rfl

/-- The master and the two interfaces with expanders. -/
structure SfpGpios where
  master : FpgaI2c
  bus0 : Link fun _ : Unit => Pca9554
  bus1 : Link fun _ : Fin 8 => Pca9554

/-- `i2c_transfer` on `WR_FPGA_BUS0` or, for `high`, on `WR_FPGA_BUS1`. -/
def fpgaTransfer (high : Bool) (address : BitVec 32) (toWrite toRead : Nat) (data : Nat → Byte)
    (hw : SfpGpios) : (Nat → Byte) × SfpGpios :=
  if high then
    let r := i2cFpgaRegTransfer (expanders highAddress) address toWrite toRead data hw.master hw.bus1
    (r.2.1, { hw with master := r.2.2.1, bus1 := r.2.2.2 })
  else
    let r := i2cFpgaRegTransfer (expanders lowAddress) address toWrite toRead data hw.master hw.bus0
    (r.2.1, { hw with master := r.2.2.1, bus0 := r.2.2.2 })

/-! ### `shw_sfp_gpio_set` and `shw_sfp_gpio_get` -/

def pca9554Masks (id : Nat) : Nat :=
  [0, 0, 14, 15, 12, 13, 10, 11, 8, 9, 6, 7, 4, 5, 2, 3, 0, 1].getD id 0

def sfpLedWrmode1 : Byte := 1 <<< 0
def sfpLedWrmode2 : Byte := 1 <<< 1
def sfpLedSynced : Byte := 1 <<< 2
def sfpTxDisable : Byte := 1 <<< 3

def sfpLedSyncedMask (top : Bool) : Byte := if top then 1 <<< 6 else 1 <<< 0
def sfpLedLinkMask (top : Bool) : Byte := if top then 1 <<< 4 else 1 <<< 1
def sfpLedWrmodeMask (top : Bool) : Byte := if top then 1 <<< 5 else 1 <<< 3
def sfpTxDisableMask (top : Bool) : Byte := if top then 1 <<< 7 else 1 <<< 2

/-- The bus, the address and the half of the expander of an SFP. There is no check of the id. -/
def gpioHigh (id : Int) : Bool := !decide (id < 2)

def gpioAddr (id : Int) : BitVec 32 :=
  if id > 1 then 0x20 + BitVec.ofNat 32 (pca9554Masks id.toNat / 2) else 0x20

def gpioTop (id : Int) : Bool :=
  if id > 1 then decide (pca9554Masks id.toNat % 2 ≠ 0) else decide (id.tmod 2 ≠ 0)

/-- The pins that go with a state, beside the other half of `curr`. -/
def gpioPins (top : Bool) (curr state : Byte) : Byte :=
  let curr := if top then curr &&& 0xf else curr &&& 0xf0
  let curr := if state &&& sfpLedWrmode1 ≠ 0 then curr ||| sfpLedLinkMask top else curr
  let curr := if state &&& sfpLedWrmode2 ≠ 0 then curr ||| sfpLedWrmodeMask top else curr
  let curr := if state &&& sfpLedSynced ≠ 0 then curr ||| sfpLedSyncedMask top else curr
  if state &&& sfpTxDisable ≠ 0 then curr ||| sfpTxDisableMask top else curr

def gpioState (top : Bool) (curr : Byte) : Byte :=
  let out := 0
  let out := if curr &&& sfpLedLinkMask top ≠ 0 then out ||| sfpLedWrmode1 else out
  let out := if curr &&& sfpLedWrmodeMask top ≠ 0 then out ||| sfpLedWrmode2 else out
  let out := if curr &&& sfpLedSyncedMask top ≠ 0 then out ||| sfpLedSynced else out
  if curr &&& sfpTxDisableMask top ≠ 0 then out ||| sfpTxDisable else out

/-- Reads the output register of the expander of an SFP. -/
def gpioCurr (id : Int) (hw : SfpGpios) : Byte × SfpGpios :=
  let hw := (fpgaTransfer (gpioHigh id) (gpioAddr id) 1 0 (fun _ => 0x1) hw).2
  let r := fpgaTransfer (gpioHigh id) (gpioAddr id) 0 1 (fun _ => 0) hw
  (r.1 0, r.2)

def shwSfpGpioSet (num : Int) (state : Byte) (hw : SfpGpios) : SfpGpios :=
  let id := shwSfpId num
  let (curr, hw) := gpioCurr id hw
  let send (i : Nat) : Byte := if i = 0 then 0x1 else gpioPins (gpioTop id) curr state
  (fpgaTransfer (gpioHigh id) (gpioAddr id) 2 0 send hw).2

def shwSfpGpioGet (num : Int) (hw : SfpGpios) : Byte × SfpGpios :=
  let id := shwSfpId num
  let (curr, hw) := gpioCurr id hw
  (gpioState (gpioTop id) curr, hw)

def shwSfpSetGeneric (num : Int) (status : Bool) (type : Byte) (hw : SfpGpios) : SfpGpios :=
  let (state, hw) := shwSfpGpioGet num hw
  shwSfpGpioSet num (if status then state ||| type else state &&& ~~~type) hw

/-- Makes all pins of an expander outputs that are low. -/
def gpioClear (high : Bool) (address : BitVec 32) (hw : SfpGpios) : SfpGpios :=
  let hw := (fpgaTransfer high address 2 0 (fun i => if i = 0 then 0x3 else 0x0) hw).2
  (fpgaTransfer high address 2 0 (fun i => if i = 0 then 0x1 else 0x0) hw).2

def shwSfpGpioInit (hw : SfpGpios) : SfpGpios :=
  let hw := gpioClear false 0x20 hw
  let hw := (List.range 8).foldl (fun hw i => gpioClear true (0x20 + BitVec.ofNat 32 i) hw) hw
  let all (status : Bool) (hw : SfpGpios) := (List.range 18).foldl (fun hw (i : Nat) =>
    shwSfpSetGeneric i status (sfpLedWrmode1 ||| sfpLedWrmode2)
      (shwSfpSetGeneric i status sfpLedSynced hw)) hw
  all false (all true hw)

/-! ### One expander at a time -/

section Board

variable {ι : Type} [Fintype ι] [DecidableEq ι] {address : ι → BitVec 7}
  {l : Link fun _ : ι => Pca9554}

private theorem pca9554_takes (a : BitVec 7) (bytes : List Byte) (s : Pca9554) :
    (pca9554 a).takes bytes s = (bytes.length, bytes.foldl Pca9554.put s) := by
  induction bytes generalizing s with
  | nil => rfl
  | cons byte bytes ih =>
    have acked : (pca9554 a).write s byte = (true, s.put byte) := rfl
    rw [Device.takes, acked]
    simp only [if_true]
    rw [ih, List.length_cons, List.foldl_cons]

/-- An expander that was addressed. -/
def Pca9554.ready (s : Pca9554) : Pca9554 := { s with fresh := true }

omit [Fintype ι] in
private theorem pca9554_select {byte : Byte} {i : ι} (distinct : Function.Injective address)
    (chip : chipAddress byte = address i) (j : ι) (s : Pca9554) :
    (pca9554 (address j)).select s byte = if j = i then (true, s.ready) else (false, s) := by
  have addressed : chipAddress byte = address j ↔ j = i := by
    rw [chip, distinct.eq_iff, eq_comm]
  simp only [pca9554, addressed]
  rfl

omit [Fintype ι] in
private theorem expanders_answers {byte : Byte} {i : ι} (distinct : Function.Injective address)
    (chip : chipAddress byte = address i) : l.Answers (expanders address) byte i where
  joined := rfl
  own := by
    change ((pca9554 (address i)).select (l.state i) byte).1 = true
    rw [pca9554_select distinct chip, if_pos rfl]
  others := by
    intro j other _
    change ((pca9554 (address j)).select (l.state j) byte).1 = false
    rw [pca9554_select distinct chip, if_neg other]

omit [Fintype ι] in
private theorem expanders_selected {byte : Byte} {i : ι} (distinct : Function.Injective address)
    (chip : chipAddress byte = address i) : l.selected (expanders address) byte =
      Function.update l.state i (l.state i).ready := by
  funext j
  change ((pca9554 (address j)).select (l.state j) byte).2 = _
  rw [pca9554_select distinct chip]
  by_cases same : j = i
  · subst same
    rw [if_pos rfl, Function.update_self]
  · rw [if_neg same, Function.update_of_ne same]

omit [Fintype ι] [DecidableEq ι] in
private theorem expanders_stopped (state : ι → Pca9554) :
    stopped (expanders address) state = state := by
  funext i
  exact if_pos rfl

private theorem chipAddress_even (a : BitVec 7) :
    chipAddress ((a.setWidth 32 <<< 1).setWidth 8) = a := by
  revert a
  decide +kernel

private theorem chipAddress_odd (a : BitVec 7) :
    chipAddress ((a.setWidth 32 <<< 1 ||| 1).setWidth 8) = a := by
  revert a
  decide +kernel

private theorem expander_write (idle : l.Idle) (distinct : Function.Injective address) (i : ι)
    (n : Nat) (data : Nat → Byte) (m : FpgaI2c) :
    ∃ m', i2cFpgaRegTransfer (expanders address) ((address i).setWidth 32) (n + 1) 0 data m l =
      (((n + 1 : Nat) : Int), data, m', ⟨fun _ => .idle, Function.update l.state i
        (((List.range (n + 1)).map data).foldl Pca9554.put (l.state i).ready)⟩) := by
  have chip := chipAddress_even (address i)
  have selected := expanders_selected (l := l) distinct chip
  have takes : ((expanders address).device i).takes ((List.range (n + 1)).map data)
      (l.selected (expanders address) (((address i).setWidth 32 <<< 1).setWidth 8) i) =
        (n + 1, ((List.range (n + 1)).map data).foldl Pca9554.put (l.state i).ready) := by
    rw [selected, Function.update_self]
    refine (pca9554_takes (address i) _ _).trans ?_
    rw [List.length_map, List.length_range]
  obtain ⟨m', sent⟩ := fpgaTransfer_write idle ((address i).setWidth 32)
    (expanders_answers distinct chip) n data m (by rw [takes])
  refine ⟨m', ?_⟩
  rw [sent, takes, selected, Function.update_idem, expanders_stopped]

private theorem expander_read (idle : l.Idle) (distinct : Function.Injective address) (i : ι)
    (data : Nat → Byte) (m : FpgaI2c) :
    ∃ m', i2cFpgaRegTransfer (expanders address) ((address i).setWidth 32) 0 1 data m l =
      (((0 + 1 : Nat) : Int), Function.update data 0 (l.state i).ready.get, m',
        ⟨fun _ => .idle, Function.update l.state i (l.state i).ready⟩) := by
  have chip := chipAddress_odd (address i)
  have selected := expanders_selected (l := l) distinct chip
  have gives : ((expanders address).device i).gives 1
      (l.selected (expanders address) (((address i).setWidth 32 <<< 1 ||| 1).setWidth 8) i) =
        ([(l.state i).ready.get], (l.state i).ready) := by
    rw [selected, Function.update_self]
    rfl
  obtain ⟨m', got⟩ := fpgaTransfer_read idle ((address i).setWidth 32)
    (expanders_answers distinct chip) 0 data m
  refine ⟨m', ?_⟩
  rw [got, gives, selected, Function.update_idem, expanders_stopped]
  rfl

end Board

/-! ### Both interfaces -/

/-- The expander of `WR_FPGA_BUS0`, or one of those of `WR_FPGA_BUS1`. -/
abbrev ExpanderPlace := Option (Fin 8)

def placeAddress : ExpanderPlace → BitVec 32
  | none => (lowAddress ()).setWidth 32
  | some i => (highAddress i).setWidth 32

structure SfpGpios.Idle (hw : SfpGpios) : Prop where
  bus0 : hw.bus0.Idle
  bus1 : hw.bus1.Idle

def SfpGpios.chip (hw : SfpGpios) : ExpanderPlace → Pca9554
  | none => hw.bus0.state ()
  | some i => hw.bus1.state i

private theorem lowAddress_injective : Function.Injective lowAddress := fun _ _ _ => rfl

private theorem highAddress_injective : Function.Injective highAddress := by
  decide

/-- After a message that leaves the expander in a place like this. -/
def SfpGpios.after (hw : SfpGpios) (m : FpgaI2c) (p : ExpanderPlace) (s : Pca9554) : SfpGpios :=
  match p with
  | none => ⟨m, ⟨fun _ => .idle, Function.update hw.bus0.state () s⟩, hw.bus1⟩
  | some i => ⟨m, hw.bus0, ⟨fun _ => .idle, Function.update hw.bus1.state i s⟩⟩

/-- The bus of the expanders is idle again after a transfer. -/
theorem SfpGpios.Idle.after {hw : SfpGpios} (idle : hw.Idle) (m : FpgaI2c) (p : ExpanderPlace)
    (s : Pca9554) : (hw.after m p s).Idle := by
  cases p with
  | none => exact ⟨fun _ => rfl, idle.bus1⟩
  | some i => exact ⟨idle.bus0, fun _ => rfl⟩

private theorem after_chip (hw : SfpGpios) (m : FpgaI2c) (p : ExpanderPlace) (s : Pca9554) :
    (hw.after m p s).chip = Function.update hw.chip p s := by
  funext q
  by_cases same : q = p
  · subst same
    rw [Function.update_self]
    cases q with
    | none => rfl
    | some i => exact Function.update_self ..
  · rw [Function.update_of_ne same]
    cases p with
    | none =>
      cases q with
      | none => exact absurd rfl same
      | some j => rfl
    | some i =>
      cases q with
      | none => rfl
      | some j => exact Function.update_of_ne (fun eq => same (congrArg some eq)) ..

private theorem fpgaTransfer_writes {hw : SfpGpios} (idle : hw.Idle) (p : ExpanderPlace) (n : Nat)
    (data : Nat → Byte) :
    ∃ hw', fpgaTransfer p.isSome (placeAddress p) (n + 1) 0 data hw = (data, hw') ∧ hw'.Idle ∧
      hw'.chip = Function.update hw.chip p
        (((List.range (n + 1)).map data).foldl Pca9554.put (hw.chip p).ready) := by
  have sent : ∃ m', fpgaTransfer p.isSome (placeAddress p) (n + 1) 0 data hw = (data, hw.after m' p
      (((List.range (n + 1)).map data).foldl Pca9554.put (hw.chip p).ready)) := by
    cases p with
    | none =>
      obtain ⟨m', sent⟩ := expander_write idle.bus0 lowAddress_injective () n data hw.master
      refine ⟨m', ?_⟩
      simp only [fpgaTransfer, placeAddress, sent]
      rfl
    | some i =>
      obtain ⟨m', sent⟩ := expander_write idle.bus1 highAddress_injective i n data hw.master
      refine ⟨m', ?_⟩
      simp only [fpgaTransfer, placeAddress, sent]
      rfl
  obtain ⟨m', sent⟩ := sent
  exact ⟨_, sent, idle.after .., after_chip ..⟩

private theorem fpgaTransfer_reads {hw : SfpGpios} (idle : hw.Idle) (p : ExpanderPlace)
    (data : Nat → Byte) :
    ∃ hw', fpgaTransfer p.isSome (placeAddress p) 0 1 data hw =
        (Function.update data 0 (hw.chip p).ready.get, hw') ∧ hw'.Idle ∧
      hw'.chip = Function.update hw.chip p (hw.chip p).ready := by
  have got : ∃ m', fpgaTransfer p.isSome (placeAddress p) 0 1 data hw =
      (Function.update data 0 (hw.chip p).ready.get, hw.after m' p (hw.chip p).ready) := by
    cases p with
    | none =>
      obtain ⟨m', got⟩ := expander_read idle.bus0 lowAddress_injective () data hw.master
      refine ⟨m', ?_⟩
      simp only [fpgaTransfer, placeAddress, got]
      rfl
    | some i =>
      obtain ⟨m', got⟩ := expander_read idle.bus1 highAddress_injective i data hw.master
      refine ⟨m', ?_⟩
      simp only [fpgaTransfer, placeAddress, got]
      rfl
  obtain ⟨m', got⟩ := got
  exact ⟨_, got, idle.after .., after_chip ..⟩

/-! ### The pins of an SFP -/

/-- The expander of an SFP. -/
def gpioPlace (id : Fin 18) : ExpanderPlace :=
  if id.val < 2 then none else some ⟨pca9554Masks id.val / 2 % 8, Nat.mod_lt _ (by decide)⟩

private theorem gpio_address (id : Fin 18) : gpioHigh id.val = (gpioPlace id).isSome ∧
    gpioAddr id.val = placeAddress (gpioPlace id) := by
  revert id
  decide +kernel

/-- Two SFPs with one expander have different halves of it. -/
theorem gpio_halves (id id' : Fin 18) (other : id' ≠ id) (same : gpioPlace id' = gpioPlace id) :
    gpioTop id'.val = !gpioTop id.val := by
  revert id id'
  decide +kernel

private theorem sfpId_valid (id : Fin 18) : shwSfpId id.val = id.val := by
  have bound := id.isLt
  exact if_neg (by omega)

/-- All pins are outputs, with these values. -/
structure SfpGpios.Outputs (hw : SfpGpios) (v : ExpanderPlace → Byte) : Prop where
  idle : hw.Idle
  config : ∀ p, (hw.chip p).config = 0
  output : ∀ p, (hw.chip p).output = v p

/-- What one expander puts out changes with that expander only. -/
theorem SfpGpios.Outputs.chip {hw hw' : SfpGpios} {v : ExpanderPlace → Byte} (shows : hw.Outputs v)
    (idle : hw'.Idle) {p : ExpanderPlace} {s : Pca9554}
    (chips : hw'.chip = Function.update hw.chip p s) (config : s.config = 0) :
    hw'.Outputs (Function.update v p s.output) := by
  refine ⟨idle, ?_, ?_⟩
  · intro q
    rw [chips]
    by_cases same : q = p
    · rw [same, Function.update_self, config]
    · rw [Function.update_of_ne same, shows.config]
  · intro q
    rw [chips]
    by_cases same : q = p
    · rw [same, Function.update_self, Function.update_self]
    · rw [Function.update_of_ne same, Function.update_of_ne same, shows.output]

/-- A register and its new contents. -/
theorem put_register (s : Pca9554) (send : Nat → Byte) :
    ((List.range 2).map send).foldl Pca9554.put s.ready =
      { s with command := send 0, fresh := false }.put (send 1) := rfl

private theorem gpioCurr_outputs {hw : SfpGpios} {v : ExpanderPlace → Byte} (shows : hw.Outputs v)
    (id : Fin 18) :
    ∃ hw', gpioCurr id.val hw = (v (gpioPlace id), hw') ∧ hw'.Outputs v := by
  obtain ⟨high, addr⟩ := gpio_address id
  -- the command byte selects the output register, the second transfer reads it
  obtain ⟨hw1, sent, idle1, chips1⟩ := fpgaTransfer_writes shows.idle (gpioPlace id) 0 fun _ => 0x1
  obtain ⟨hw2, got, idle2, chips2⟩ := fpgaTransfer_reads idle1 (gpioPlace id) fun _ => 0
  have chosen : hw1.chip (gpioPlace id) =
      { hw.chip (gpioPlace id) with command := 0x1, fresh := false } := by
    rw [chips1, Function.update_self]
    rfl
  rw [chosen] at got chips2
  rw [chips1, Function.update_idem] at chips2
  refine ⟨hw2, ?_, ?_⟩
  · unfold gpioCurr
    dsimp only
    rw [high, addr, sent]
    dsimp only
    rw [got]
    refine congrArg (·, hw2) ?_
    dsimp only
    rw [Function.update_self, ← shows.output]
    rfl
  · have kept := shows.chip idle2 chips2 (shows.config (gpioPlace id))
    have same : Function.update v (gpioPlace id) (hw.chip (gpioPlace id)).output = v := by
      rw [shows.output, Function.update_eq_self]
    rw [← same]
    exact kept

private theorem gpioSet_outputs {hw : SfpGpios} {v : ExpanderPlace → Byte} (shows : hw.Outputs v)
    (id : Fin 18) (state : Byte) :
    (shwSfpGpioSet id.val state hw).Outputs (Function.update v (gpioPlace id)
      (gpioPins (gpioTop id.val) (v (gpioPlace id)) state)) := by
  obtain ⟨high, addr⟩ := gpio_address id
  obtain ⟨hw1, read, shows1⟩ := gpioCurr_outputs shows id
  obtain ⟨hw2, sent, idle2, chips2⟩ := fpgaTransfer_writes shows1.idle (gpioPlace id) 1 fun i =>
    if i = 0 then 0x1 else gpioPins (gpioTop id.val) (v (gpioPlace id)) state
  have whole : shwSfpGpioSet id.val state hw = hw2 := by
    unfold shwSfpGpioSet
    dsimp only
    rw [sfpId_valid, read]
    dsimp only
    rw [high, addr, sent]
  rw [put_register] at chips2
  rw [whole]
  exact shows1.chip idle2 chips2 (shows1.config (gpioPlace id))

/-- The pins of each SFP. -/
def pinsOf (v : ExpanderPlace → Byte) (id : Fin 18) : Byte :=
  gpioState (gpioTop id.val) (v (gpioPlace id))

/-- The half of an expander that an SFP has. -/
def gpioHalf (top : Bool) : Byte := if top then 0xf0 else 0xf

private theorem gpioState_half {top : Bool} {x y : Byte}
    (same : x &&& gpioHalf top = y &&& gpioHalf top) : gpioState top x = gpioState top y := by
  have bit (mask : Byte) (inside : gpioHalf top &&& mask = mask) : x &&& mask = y &&& mask := by
    rw [← inside, ← BitVec.and_assoc, same, BitVec.and_assoc]
  have link : gpioHalf top &&& sfpLedLinkMask top = sfpLedLinkMask top := by
    cases top <;> decide
  have wrmode : gpioHalf top &&& sfpLedWrmodeMask top = sfpLedWrmodeMask top := by
    cases top <;> decide
  have synced : gpioHalf top &&& sfpLedSyncedMask top = sfpLedSyncedMask top := by
    cases top <;> decide
  have disable : gpioHalf top &&& sfpTxDisableMask top = sfpTxDisableMask top := by
    cases top <;> decide
  unfold gpioState
  rw [bit _ link, bit _ wrmode, bit _ synced, bit _ disable]

private theorem gpioPins_low (top : Bool) (curr state : Byte) :
    gpioPins top curr state = gpioPins top curr ((state.setWidth 4).setWidth 8) := by
  have low (mask : Byte) (inside : (0xf : Byte) &&& mask = mask) :
      (state.setWidth 4).setWidth 8 &&& mask = state &&& mask := by
    have cut : ((state.setWidth 4).setWidth 8 : Byte) = state &&& 0xf := by
      revert state
      decide +kernel
    rw [cut, BitVec.and_assoc, inside]
  unfold gpioPins
  rw [low sfpLedWrmode1 (by decide), low sfpLedWrmode2 (by decide), low sfpLedSynced (by decide),
    low sfpTxDisable (by decide)]

/-- The other half comes from `curr`, the own half from the state. -/
theorem gpioPins_split (top : Bool) (curr state : Byte) :
    gpioPins top curr state = curr &&& gpioHalf (!top) ||| gpioPins top 0 state := by
  have kept : (if top then curr &&& 0xf else curr &&& 0xf0) = curr &&& gpioHalf (!top) := by
    cases top <;> rfl
  have none : (if top then (0 : Byte) &&& 0xf else 0 &&& 0xf0) = 0 := by
    cases top <;> rfl
  unfold gpioPins
  rw [kept, none]
  dsimp only
  split <;> split <;> split <;> split <;> simp [BitVec.or_assoc]

private theorem gpioPins_own (top : Bool) (curr state : Byte) :
    gpioPins top curr state &&& gpioHalf top = gpioPins top 0 state &&& gpioHalf top := by
  have apart : gpioHalf (!top) &&& gpioHalf top = 0 := by
    cases top <;> decide
  have none : curr &&& gpioHalf (!top) &&& gpioHalf top = 0 := by
    rw [BitVec.and_assoc, apart]
    exact BitVec.and_zero
  rw [gpioPins_split, BitVec.and_or_distrib_right, none]
  exact BitVec.zero_or

private theorem gpioPins_other (top : Bool) (curr state : Byte) :
    gpioPins top curr state &&& gpioHalf (!top) = curr &&& gpioHalf (!top) := by
  have own : gpioPins top 0 state &&& gpioHalf (!top) = 0 := by
    rw [gpioPins_low]
    generalize state.setWidth 4 = low
    revert top low
    decide +kernel
  rw [gpioPins_split, BitVec.and_or_distrib_right, own, BitVec.and_assoc, BitVec.and_self]
  exact BitVec.or_zero

private theorem gpioState_own (top : Bool) (curr state : Byte) :
    gpioState top (gpioPins top curr state) = state &&& 0xf := by
  have cut : state &&& 0xf = (state.setWidth 4).setWidth 8 := by
    revert state
    decide +kernel
  rw [gpioState_half (gpioPins_own top curr state), gpioPins_low, cut]
  generalize state.setWidth 4 = low
  revert top low
  decide +kernel

/-- The other half of an expander stays as it is. -/
theorem gpioState_other (top : Bool) (curr state : Byte) :
    gpioState (!top) (gpioPins top curr state) = gpioState (!top) curr :=
  gpioState_half (gpioPins_other top curr state)

private theorem pinsOf_set (v : ExpanderPlace → Byte) (id : Fin 18) (state : Byte) :
    pinsOf (Function.update v (gpioPlace id)
      (gpioPins (gpioTop id.val) (v (gpioPlace id)) state)) =
      Function.update (pinsOf v) id (state &&& 0xf) := by
  funext id'
  unfold pinsOf
  by_cases same : id' = id
  · rw [same, Function.update_self, Function.update_self, gpioState_own]
  · rw [Function.update_of_ne same]
    by_cases shared : gpioPlace id' = gpioPlace id
    · rw [shared, Function.update_self, gpio_halves id id' same shared, gpioState_other]
    · rw [Function.update_of_ne shared]

/-! ### Calls -/

inductive GpioCall where
  | set (id : Fin 18) (state : Byte)
  | get (id : Fin 18)
  | generic (id : Fin 18) (status : Bool) (type : Byte)

/-- What is returned, if anything. -/
def gpioCall (hw : SfpGpios) : GpioCall → Option Byte × SfpGpios
  | .set id state => (none, shwSfpGpioSet id.val state hw)
  | .get id =>
    let r := shwSfpGpioGet id.val hw
    (some r.1, r.2)
  | .generic id status type => (none, shwSfpSetGeneric id.val status type hw)

def gpioCalls : SfpGpios → List GpioCall → List (Option Byte) × SfpGpios
  | hw, [] => ([], hw)
  | hw, c :: cs =>
    let r := gpioCall hw c
    let q := gpioCalls r.2 cs
    (r.1 :: q.1, q.2)

/-- The pins of the SFPs, each with four of its own. -/
abbrev SfpPins := Fin 18 → Byte

def SfpPins.generic (s : SfpPins) (id : Fin 18) (status : Bool) (type : Byte) : SfpPins :=
  Function.update s id ((if status then s id ||| type else s id &&& ~~~type) &&& 0xf)

def SfpPins.call (s : SfpPins) : GpioCall → Option Byte × SfpPins
  | .set id state => (none, Function.update s id (state &&& 0xf))
  | .get id => (some (s id), s)
  | .generic id status type => (none, s.generic id status type)

def SfpPins.calls : SfpPins → List GpioCall → List (Option Byte) × SfpPins
  | s, [] => ([], s)
  | s, c :: cs =>
    let r := s.call c
    let q := SfpPins.calls r.2 cs
    (r.1 :: q.1, q.2)

/-- All pins are outputs, and those of each SFP are these. -/
def SfpGpios.Shows (hw : SfpGpios) (s : SfpPins) : Prop := ∃ v, hw.Outputs v ∧ pinsOf v = s

/-- The levels at the pins of an SFP. -/
def SfpGpios.pins (hw : SfpGpios) (id : Fin 18) : Byte :=
  gpioState (gpioTop id.val) (hw.chip (gpioPlace id)).level

private theorem all_outputs (output pins : Byte) : output &&& ~~~0 ||| pins &&& 0 = output := by
  have all : output &&& ~~~0 = output := by
    revert output
    decide +kernel
  have none : pins &&& (0 : Byte) = 0 := BitVec.and_zero
  rw [all, none]
  exact BitVec.or_zero

/-- The pins are what is shown. -/
theorem SfpGpios.Shows.pins {hw : SfpGpios} {s : SfpPins} (shows : hw.Shows s) : hw.pins = s := by
  obtain ⟨v, outputs, rfl⟩ := shows
  funext id
  have driven : (hw.chip (gpioPlace id)).level = v (gpioPlace id) := by
    rw [Pca9554.level, outputs.config, outputs.output]
    exact all_outputs ..
  rw [SfpGpios.pins, driven]
  rfl

private theorem set_shows {hw : SfpGpios} {s : SfpPins} (shows : hw.Shows s) (id : Fin 18)
    (state : Byte) : (shwSfpGpioSet id.val state hw).Shows (Function.update s id (state &&& 0xf)) := by
  obtain ⟨v, outputs, rfl⟩ := shows
  exact ⟨_, gpioSet_outputs outputs id state, pinsOf_set v id state⟩

private theorem get_shows {hw : SfpGpios} {s : SfpPins} (shows : hw.Shows s) (id : Fin 18) :
    ∃ hw', shwSfpGpioGet id.val hw = (s id, hw') ∧ hw'.Shows s := by
  obtain ⟨v, outputs, rfl⟩ := shows
  obtain ⟨hw', read, kept⟩ := gpioCurr_outputs outputs id
  refine ⟨hw', ?_, v, kept, rfl⟩
  unfold shwSfpGpioGet
  dsimp only
  rw [sfpId_valid, read]
  rfl

/-- Switching one pin of one SFP shows in that pin alone. -/
theorem generic_shows {hw : SfpGpios} {s : SfpPins} (shows : hw.Shows s) (id : Fin 18)
    (status : Bool) (type : Byte) :
    (shwSfpSetGeneric id.val status type hw).Shows (s.generic id status type) := by
  obtain ⟨hw', read, kept⟩ := get_shows shows id
  unfold shwSfpSetGeneric
  rw [read]
  exact set_shows kept id _

private theorem gpioCall_shows {hw : SfpGpios} {s : SfpPins} (shows : hw.Shows s) (c : GpioCall) :
    ∃ hw', gpioCall hw c = ((s.call c).1, hw') ∧ hw'.Shows (s.call c).2 := by
  cases c with
  | set id state => exact ⟨_, rfl, set_shows shows id state⟩
  | get id =>
    obtain ⟨hw', read, kept⟩ := get_shows shows id
    refine ⟨hw', ?_, kept⟩
    unfold gpioCall
    dsimp only
    rw [read]
    rfl
  | generic id status type => exact ⟨_, rfl, generic_shows shows id status type⟩

private theorem gpioCalls_shows (cs : List GpioCall) {hw : SfpGpios} {s : SfpPins}
    (shows : hw.Shows s) :
    ∃ hw', gpioCalls hw cs = ((s.calls cs).1, hw') ∧ hw'.Shows (s.calls cs).2 := by
  induction cs generalizing hw s with
  | nil => exact ⟨hw, rfl, shows⟩
  | cons c cs ih =>
    obtain ⟨hw1, first, shows1⟩ := gpioCall_shows shows c
    obtain ⟨hw2, rest, shows2⟩ := ih shows1
    refine ⟨hw2, ?_, shows2⟩
    rw [gpioCalls, first]
    dsimp only
    rw [rest]
    rfl

/-! ### `shw_sfp_gpio_init` -/

private theorem gpioClear_chip {hw : SfpGpios} (idle : hw.Idle) (p : ExpanderPlace) :
    (gpioClear p.isSome (placeAddress p) hw).Idle ∧
      ∃ s, (gpioClear p.isSome (placeAddress p) hw).chip = Function.update hw.chip p s ∧
        s.config = 0 ∧ s.output = 0 := by
  obtain ⟨hw1, sent1, idle1, chips1⟩ := fpgaTransfer_writes idle p 1 fun i =>
    if i = 0 then 0x3 else 0x0
  obtain ⟨hw2, sent2, idle2, chips2⟩ := fpgaTransfer_writes idle1 p 1 fun i =>
    if i = 0 then 0x1 else 0x0
  have whole : gpioClear p.isSome (placeAddress p) hw = hw2 := by
    unfold gpioClear
    dsimp only
    rw [sent1, sent2]
  rw [whole]
  refine ⟨idle2, { hw.chip p with output := 0, config := 0, command := 0x1, fresh := false }, ?_,
    rfl, rfl⟩
  rw [chips2, chips1, Function.update_idem, Function.update_self]
  rfl

/-- The pins of the expanders that are cleared so far are outputs and low. -/
def ClearedUpTo (hw : SfpGpios) (n : Nat) : Prop :=
  hw.Idle ∧ ∀ p : ExpanderPlace, (∀ i ∈ p, i.val < n) →
    (hw.chip p).config = 0 ∧ (hw.chip p).output = 0

private theorem clear_expanders {hw : SfpGpios} (cleared : ClearedUpTo hw 0) (n : Nat)
    (all : n ≤ 8) :
    ClearedUpTo ((List.range n).foldl
      (fun hw i => gpioClear true (0x20 + BitVec.ofNat 32 i) hw) hw) n := by
  induction n with
  | zero => exact cleared
  | succ n ih =>
    obtain ⟨idle, before⟩ := ih (by omega)
    -- the code counts through the addresses, the places are named
    have address : ∀ i : Fin 8, (0x20 + BitVec.ofNat 32 i.val : BitVec 32) = placeAddress (some i) := by
      decide
    rw [List.range_succ, List.foldl_append]
    generalize (List.range n).foldl (fun hw i => gpioClear true (0x20 + BitVec.ofNat 32 i) hw) hw =
      hw1 at idle before
    obtain ⟨idle', s, chips, config, output⟩ := gpioClear_chip idle (some ⟨n, all⟩)
    rw [← address ⟨n, all⟩] at idle' chips
    refine ⟨idle', ?_⟩
    intro p inside
    change ((gpioClear true (0x20 + BitVec.ofNat 32 n) hw1).chip p).config = 0 ∧
      ((gpioClear true (0x20 + BitVec.ofNat 32 n) hw1).chip p).output = 0
    have chips : (gpioClear true (0x20 + BitVec.ofNat 32 n) hw1).chip = _ := chips
    rw [chips]
    by_cases here : p = some ⟨n, all⟩
    · rw [here, Function.update_self]
      exact ⟨config, output⟩
    · rw [Function.update_of_ne here]
      -- the expanders cleared before are not written again
      apply before
      intro i member
      have below := inside i member
      rcases Nat.lt_succ_iff_lt_or_eq.mp below with less | last
      · exact less
      · exfalso
        apply here
        rw [Option.mem_def.mp member]
        exact congrArg some (Fin.ext last)

/-- The LEDs of all SFPs on or off. -/
theorem all_shows {hw : SfpGpios} {s : SfpPins} (shows : hw.Shows s) (status : Bool) :
    ((List.range 18).foldl (fun hw (i : Nat) =>
      shwSfpSetGeneric i status (sfpLedWrmode1 ||| sfpLedWrmode2)
        (shwSfpSetGeneric i status sfpLedSynced hw)) hw).Shows
      ((List.finRange 18).foldl (fun s i =>
        (s.generic i status sfpLedSynced).generic i status (sfpLedWrmode1 ||| sfpLedWrmode2)) s) := by
  rw [← List.map_coe_finRange_eq_range, List.foldl_map]
  generalize List.finRange 18 = ids
  induction ids generalizing hw s with
  | nil => exact shows
  | cons id ids ih => exact ih (generic_shows (generic_shows shows id status _) id status _)

/-- After the start all pins are low. -/
theorem init_shows {hw : SfpGpios} (idle : hw.Idle) : (shwSfpGpioInit hw).Shows fun _ => 0 := by
  -- the expander of the first link is cleared before the loop
  have first : ClearedUpTo (gpioClear false 0x20 hw) 0 := by
    obtain ⟨idle', s, chips, config, output⟩ := gpioClear_chip idle none
    refine ⟨idle', ?_⟩
    intro p inside
    have low : p = none := by
      cases p with
      | none => rfl
      | some i => exact absurd (inside i rfl) (Nat.not_lt_zero _)
    have chips : (gpioClear false 0x20 hw).chip = _ := chips
    rw [chips, low, Function.update_self]
    exact ⟨config, output⟩
  obtain ⟨idle', cleared⟩ := clear_expanders first 8 (Nat.le_refl 8)
  unfold shwSfpGpioInit
  dsimp only
  generalize (List.range 8).foldl (fun hw i => gpioClear true (0x20 + BitVec.ofNat 32 i) hw)
    (gpioClear false 0x20 hw) = hw' at idle' cleared
  have dark : hw'.Shows fun _ => 0 := by
    refine ⟨fun _ => 0, ⟨idle', fun p => (cleared p fun i _ => i.isLt).1,
      fun p => (cleared p fun i _ => i.isLt).2⟩, ?_⟩
    funext id
    unfold pinsOf
    dsimp only
    generalize gpioTop id.val = top
    revert top
    decide
  have done := all_shows (all_shows dark true) false
  -- turning all on and all off again leaves every pin low
  have off : (List.finRange 18).foldl (fun s i =>
      (SfpPins.generic s i false sfpLedSynced).generic i false (sfpLedWrmode1 ||| sfpLedWrmode2))
      ((List.finRange 18).foldl (fun s i =>
        (SfpPins.generic s i true sfpLedSynced).generic i true (sfpLedWrmode1 ||| sfpLedWrmode2))
        fun _ => 0) = fun _ => 0 := by
    decide +kernel
  rw [off] at done
  exact done

/-- After `shw_sfp_gpio_init` the four pins of each SFP are its own, whatever is called: what is
read is what was set last, and a call for one SFP changes no pin of another. -/
theorem gpios_are_pins {hw : SfpGpios} (idle : hw.Idle) (cs : List GpioCall) :
    ∃ hw', gpioCalls (shwSfpGpioInit hw) cs = ((SfpPins.calls (fun _ => 0) cs).1, hw') ∧
      hw'.pins = (SfpPins.calls (fun _ => 0) cs).2 ∧ hw'.Idle := by
  obtain ⟨hw', answers, shows⟩ := gpioCalls_shows cs (init_shows idle)
  refine ⟨hw', answers, shows.pins, ?_⟩
  obtain ⟨_, outputs, _⟩ := shows
  exact outputs.idle

/-- Expanders after power on. SFPs 2 and 3 have one expander between them. -/
theorem gpios_are_pins_power_on :
    let hw : SfpGpios := ⟨⟨0, 0, false⟩, ⟨fun _ => .idle, fun _ => ⟨0xff, 0, 0xff, 0, 0, true⟩⟩,
      ⟨fun _ => .idle, fun _ => ⟨0xff, 0, 0xff, 0, 0, true⟩⟩⟩
    hw.Idle ∧ (gpioCalls (shwSfpGpioInit hw) [.set 2 0xf, .generic 3 true sfpLedSynced,
      .generic 2 false sfpTxDisable, .get 2, .get 3, .get 17]).1 =
        [none, none, none, some 7, some 4, some 0] := by
  intro hw
  have idle : hw.Idle := ⟨fun _ => rfl, fun _ => rfl⟩
  obtain ⟨_, answers, _⟩ := gpios_are_pins idle [.set 2 0xf, .generic 3 true sfpLedSynced,
    .generic 2 false sfpTxDisable, .get 2, .get 3, .get 17]
  refine ⟨idle, ?_⟩
  rw [answers]
  dsimp only
  decide +kernel

end WrSwitch.Libwr
