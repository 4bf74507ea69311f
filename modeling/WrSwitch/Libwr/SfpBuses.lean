import Mathlib.Data.Fintype.Sigma
import Mathlib.Data.Fintype.Sum
import Mathlib.Tactic.DeriveFintype
import WrSwitch.Libwr.I2cBitbang
import WrSwitch.Libwr.I2cChips

/-!
# Reading the EEPROMs of the SFPs

Sixteen SFPs share a bus behind two multiplexers, the other two have a bus each. Each SFP has
one EEPROM at address 0x50 and may have another one, for its diagnostics, at 0x51.
-/
namespace WrSwitch.Libwr

open Machine.TwoWire

/-! ### Boards -/

/-- The address of an EEPROM. -/
def eepromAddress (dom : Bool) : BitVec 7 := if dom then 0x51 else 0x50

def muxAddress (high : Bool) : BitVec 7 := if high then 0x71 else 0x70

/-- The chips of the bus with the multiplexers. -/
inductive MuxChip where
  | mux (high : Bool)
  | eeprom (channel : Fin 16) (dom : Bool)
deriving DecidableEq, Fintype

@[reducible] def MuxState : MuxChip → Type
  | .mux _ => Pca9548
  | .eeprom .. => Eeprom

/-- A channel is on. -/
def channelOn (state : ∀ i, MuxState i) (channel : Fin 16) : Bool :=
  let control (high : Bool) : Byte := (state (.mux high)).control
  if channel.val < 8 then (control false).getLsbD channel.val
  else (control true).getLsbD (channel.val - 8)

def muxJoined (state : ∀ i, MuxState i) : MuxChip → Bool
  | .mux _ => true
  | .eeprom channel _ => channelOn state channel

def muxDevice : ∀ i, Device (MuxState i)
  | .mux high => pca9548 (muxAddress high)
  | .eeprom _ dom => eeprom (eepromAddress dom)

private theorem pca9548_control {address : BitVec 7} {s t : Pca9548}
    (moves : (pca9548 address).Moves s t) :
    t.control = s.control := by
  cases moves <;> rfl

def muxWiring : Wiring MuxState where
  device := muxDevice
  joined := muxJoined
  steady := by
    intro s t moves
    have control (high : Bool) : (t (.mux high)).control = (s (.mux high)).control :=
      pca9548_control (moves (.mux high))
    funext i
    cases i with
    | mux => rfl
    | eeprom channel => simp only [muxJoined, channelOn, control]

/-- The two EEPROMs of an SFP that has a bus of its own. -/
def linkWiring : Wiring fun _ : Bool => Eeprom where
  device := fun dom => eeprom (eepromAddress dom)
  joined := fun _ _ => true
  steady := fun _ _ _ => rfl

/-! ### Transfers -/

structure SfpBuses where
  mux : Bus MuxState
  link0 : Bus fun _ : Bool => Eeprom
  link1 : Bus fun _ : Bool => Eeprom

def i2cTransfer (bus : SfpBus) (address : BitVec 32) (toWrite toRead : Nat) (data : Nat → Byte)
    (hw : SfpBuses) : Int × (Nat → Byte) × SfpBuses :=
  match bus with
  | .mux =>
    let (ret, data, mux) := i2cBitbangTransfer muxWiring address toWrite toRead data hw.mux
    (ret, data, { hw with mux := mux })
  | .link0 =>
    let (ret, data, link0) := i2cBitbangTransfer linkWiring address toWrite toRead data hw.link0
    (ret, data, { hw with link0 := link0 })
  | .link1 =>
    let (ret, data, link1) := i2cBitbangTransfer linkWiring address toWrite toRead data hw.link1
    (ret, data, { hw with link1 := link1 })

/-- `shw_sfp_read`. The first byte of `off` is its lowest one. -/
def shwSfpRead (num : Int) (addr : BitVec 32) (off : Int) (len : Nat) (buf : Nat → Byte)
    (hw : SfpBuses) : Int × (Nat → Byte) × SfpBuses :=
  if shwSfpId num < 0 then (-1, buf, hw)
  else
    let id := (shwSfpId num).toNat
    let bus := sfpBus id
    let hw := if id > 1 then
        let byte1 := BitVec.ofNat 8 (1 <<< busMasks id)
        let byte2 := BitVec.ofNat 8 (1 <<< busMasks id >>> 8)
        let hw := (i2cTransfer .mux 0x70 1 0 (fun _ => byte1) hw).2.2
        (i2cTransfer .mux 0x71 1 0 (fun _ => byte2) hw).2.2
      else hw
    let hw := if off ≥ 0 then
        (i2cTransfer bus addr 1 0 (fun _ => BitVec.ofInt 8 off) hw).2.2
      else hw
    i2cTransfer bus addr 0 len buf hw

/-- One turn of the loop of `shw_sfp_module_scan`. -/
def scanModule (r : BitVec 32 × SfpBuses) (i : Nat) : BitVec 32 × SfpBuses :=
  let (mask, hw) := r
  let (ret, _, hw) := shwSfpRead i 0x50 0x0 1 (fun _ => 0) hw
  if ret = i2cDevNotFound then (mask, hw) else (mask ||| 1 <<< i, hw)

/-- The SFPs that are plugged in. -/
def shwSfpModuleScan (hw : SfpBuses) : BitVec 32 × SfpBuses :=
  (List.range 18).foldl scanModule (0, hw)

/-! ### Between two transfers -/

structure SfpLinks where
  mux : Link MuxState
  link0 : Link fun _ : Bool => Eeprom
  link1 : Link fun _ : Bool => Eeprom

/-- The lines are free and every chip waits for a start. -/
structure SfpLinks.Idle (hw : SfpLinks) : Prop where
  mux : hw.mux.Idle
  link0 : hw.link0.Idle
  link1 : hw.link1.Idle

def SfpLinks.buses (hw : SfpLinks) : SfpBuses where
  mux := hw.mux.bus muxWiring true true
  link0 := hw.link0.bus linkWiring true true
  link1 := hw.link1.bus linkWiring true true

/-- The channel of an SFP behind the multiplexers. -/
def sfpChannel (id : Nat) : Fin 16 := ⟨busMasks id % 16, Nat.mod_lt _ (by decide)⟩

/-- An EEPROM of the SFP in a place. -/
def SfpLinks.chip (hw : SfpLinks) (id : Nat) (dom : Bool) : Eeprom :=
  match sfpBus id with
  | .link0 => hw.link0.state dom
  | .link1 => hw.link1.state dom
  | .mux => hw.mux.state (.eeprom (sfpChannel id) dom)

/-! ### One EEPROM at a time -/

/-- An EEPROM that was addressed. -/
def Eeprom.ready (s : Eeprom) : Eeprom := { s with fresh := true }

/-- The two EEPROMs of a module have different addresses. -/
theorem eepromAddress_inj (dom dom' : Bool) :
    eepromAddress dom = eepromAddress dom' ↔ dom = dom' := by
  revert dom dom'
  decide

private theorem muxAddress_ne (high dom : Bool) : muxAddress high ≠ eepromAddress dom := by
  revert high dom
  decide

private theorem eeprom_select {dom : Bool} {byte : Byte}
    (chip : chipAddress byte = eepromAddress dom)
    (s : Eeprom) (dom' : Bool) : (eeprom (eepromAddress dom')).select s byte =
      if s.present = true ∧ dom' = dom then (true, s.ready) else (false, s) := by
  have addressed : (s.present && chipAddress byte == eepromAddress dom') = true ↔
      s.present = true ∧ dom' = dom := by
    rw [Bool.and_eq_true, beq_iff_eq, chip, eepromAddress_inj, eq_comm (a := dom)]
  simp only [eeprom, addressed]
  rfl

private theorem eeprom_refuses {byte : Byte} (chip : ∀ dom, chipAddress byte ≠ eepromAddress dom)
    (s : Eeprom) (dom : Bool) : (eeprom (eepromAddress dom)).select s byte = (false, s) := by
  simp [eeprom, chip dom]

/-- Exactly one channel is on, now and after the next stop. -/
structure OneChannel (state : ∀ i, MuxState i) (channel : Fin 16) : Prop where
  on : ∀ c, channelOn state c = decide (c = channel)
  settled : ∀ high, (state (.mux high)).pending = (state (.mux high)).control

/-- Writing to an EEPROM leaves the multiplexer alone. -/
theorem OneChannel.update {state : ∀ i, MuxState i} {channel : Fin 16}
    (one : OneChannel state channel) (c : Fin 16) (dom : Bool) (e : Eeprom) :
    OneChannel (Function.update state (.eeprom c dom) e) channel where
  on := one.on
  settled := one.settled

theorem OneChannel.stopped {state : ∀ i, MuxState i} {channel : Fin 16}
    (one : OneChannel state channel) : stopped muxWiring state = state := by
  funext i
  unfold Machine.TwoWire.stopped
  split
  · cases i with
    | mux high =>
      change ({ state (.mux high) with control := (state (.mux high)).pending } : Pca9548) = _
      rw [one.settled high]
    | eeprom => rfl
  · rfl

section MuxBoard

variable {l : Link MuxState} {channel : Fin 16} {byte : Byte} {dom : Bool}

private theorem mux_refuses (chip : chipAddress byte = eepromAddress dom) (high : Bool)
    (s : Pca9548) :
    (pca9548 (muxAddress high)).select s byte = (false, s) := by
  have other : (chipAddress byte == muxAddress high) = false := by
    rw [chip]
    exact beq_false_of_ne (muxAddress_ne high dom).symm
  simp [pca9548, other]

private theorem OneChannel.of_on {state : ∀ i, MuxState i} (one : OneChannel state channel)
    {c : Fin 16} (on : channelOn state c = true) : c = channel := by
  rw [one.on c] at on
  exact of_decide_eq_true on

/-- Only the EEPROM on the channel takes note of its address, and only if it is there. -/
theorem mux_selected (one : OneChannel l.state channel)
    (chip : chipAddress byte = eepromAddress dom) : l.selected muxWiring byte =
      if (l.state (.eeprom channel dom)).present then
        Function.update l.state (.eeprom channel dom) (l.state (.eeprom channel dom)).ready
      else l.state := by
  funext i
  unfold Link.selected
  cases i with
  | mux high =>
    -- a multiplexer has another address
    have still : ((pca9548 (muxAddress high)).select (l.state (.mux high)) byte).2 =
        l.state (.mux high) := by rw [mux_refuses chip]
    have kept : (if (l.state (.eeprom channel dom)).present = true then
        Function.update l.state (.eeprom channel dom) (l.state (.eeprom channel dom)).ready
        else l.state) (.mux high) = l.state (.mux high) := by
      split <;> rfl
    rw [kept]
    exact (if_pos rfl).trans still
  | eeprom c dom' =>
    by_cases here : c = channel ∧ dom' = dom
    · obtain ⟨rfl, rfl⟩ := here
      have on : muxWiring.joined l.state (.eeprom c dom') = true := by
        change channelOn l.state c = true
        simp [one.on]
      rw [if_pos on]
      change ((eeprom (eepromAddress dom')).select _ byte).2 = _
      rw [eeprom_select chip]
      cases present : (l.state (.eeprom c dom')).present with
      | false => simp
      | true => simp
    · have kept : (if (l.state (.eeprom channel dom)).present = true then
          Function.update l.state (.eeprom channel dom) (l.state (.eeprom channel dom)).ready
          else l.state) (.eeprom c dom') = l.state (.eeprom c dom') := by
        split
        · apply Function.update_of_ne
          rintro ⟨⟩
          exact here ⟨rfl, rfl⟩
        · rfl
      rw [kept]
      split
      next on =>
        -- another chip on the bus hangs on the same channel, so it has the other address
        have channel_eq := one.of_on on
        have other : ¬((l.state (.eeprom c dom')).present = true ∧ dom' = dom) :=
          fun both => here ⟨channel_eq, both.2⟩
        change ((eeprom (eepromAddress dom')).select _ byte).2 = _
        rw [eeprom_select chip, if_neg other]
      next => rfl

private theorem mux_answers (one : OneChannel l.state channel)
    (chip : chipAddress byte = eepromAddress dom)
    (present : (l.state (.eeprom channel dom)).present = true) :
    l.Answers muxWiring byte (.eeprom channel dom) where
  joined := by
    change channelOn l.state channel = true
    simp [one.on]
  own := by
    change ((eeprom (eepromAddress dom)).select _ byte).1 = true
    rw [eeprom_select chip, if_pos ⟨present, rfl⟩]
  others := by
    intro i other joined
    cases i with
    | mux high =>
      change ((pca9548 (muxAddress high)).select _ byte).1 = false
      rw [mux_refuses chip]
    | eeprom c dom' =>
      obtain rfl := one.of_on joined
      change ((eeprom (eepromAddress dom')).select _ byte).1 = false
      rw [eeprom_select chip, if_neg]
      rintro ⟨_, rfl⟩
      exact other rfl

private theorem mux_silent (one : OneChannel l.state channel)
    (chip : chipAddress byte = eepromAddress dom)
    (absent : (l.state (.eeprom channel dom)).present = false) (i : MuxChip)
    (joined : muxWiring.joined l.state i = true) :
    ((muxWiring.device i).select (l.state i) byte).1 = false := by
  cases i with
  | mux high =>
    change ((pca9548 (muxAddress high)).select _ byte).1 = false
    rw [mux_refuses chip]
  | eeprom c dom' =>
    obtain rfl := one.of_on joined
    change ((eeprom (eepromAddress dom')).select _ byte).1 = false
    rw [eeprom_select chip, if_neg]
    rintro ⟨present, rfl⟩
    rw [absent] at present
    cases present

end MuxBoard

section LinkBoard

variable {l : Link fun _ : Bool => Eeprom} {byte : Byte} {dom : Bool}

private theorem link_stopped (state : Bool → Eeprom) : stopped linkWiring state = state := by
  funext dom
  exact if_pos rfl

private theorem link_selected (chip : chipAddress byte = eepromAddress dom) :
    l.selected linkWiring byte =
      if (l.state dom).present then Function.update l.state dom (l.state dom).ready
      else l.state := by
  funext dom'
  change ((eeprom (eepromAddress dom')).select (l.state dom') byte).2 = _
  rw [eeprom_select chip]
  by_cases here : dom' = dom
  · subst here
    cases present : (l.state dom').present with
    | false => simp
    | true => simp
  · rw [if_neg fun both => here both.2]
    split
    · exact (Function.update_of_ne here ..).symm
    · rfl

private theorem link_answers (chip : chipAddress byte = eepromAddress dom)
    (present : (l.state dom).present = true) : l.Answers linkWiring byte dom where
  joined := rfl
  own := by
    change ((eeprom (eepromAddress dom)).select _ byte).1 = true
    rw [eeprom_select chip, if_pos ⟨present, rfl⟩]
  others := by
    intro dom' other _
    change ((eeprom (eepromAddress dom')).select _ byte).1 = false
    rw [eeprom_select chip, if_neg fun both => other both.2]

private theorem link_silent (chip : chipAddress byte = eepromAddress dom)
    (absent : (l.state dom).present = false) (dom' : Bool)
    (_ : linkWiring.joined l.state dom' = true) :
    ((linkWiring.device dom').select (l.state dom') byte).1 = false := by
  change ((eeprom (eepromAddress dom')).select _ byte).1 = false
  rw [eeprom_select chip, if_neg]
  rintro ⟨present, rfl⟩
  rw [absent] at present
  cases present

end LinkBoard

/-- The address of an EEPROM as the functions of the library take it. -/
def chipAddr (dom : Bool) : BitVec 32 := (eepromAddress dom).setWidth 32

private theorem chipAddress_write (dom : Bool) :
    chipAddress ((chipAddr dom <<< 1).setWidth 8) = eepromAddress dom := by
  revert dom
  decide

private theorem chipAddress_read (dom : Bool) :
    chipAddress ((chipAddr dom <<< 1 ||| 1).setWidth 8) = eepromAddress dom := by
  revert dom
  decide

private theorem chipAddress_first (dom : Bool) (bytes : List Byte) :
    chipAddress (if bytes = [] then (chipAddr dom <<< 1 ||| 1).setWidth 8
      else (chipAddr dom <<< 1).setWidth 8) = eepromAddress dom := by
  split
  · exact chipAddress_read dom
  · exact chipAddress_write dom

/-- The EEPROM after a message with these bytes, and after one that read `n`. -/
def Eeprom.written (s : Eeprom) (bytes : List Byte) : Eeprom := bytes.foldl Eeprom.put s.ready

def Eeprom.readOut (s : Eeprom) (n : Nat) : Eeprom :=
  { s.ready with pointer := s.pointer + BitVec.ofNat 8 n }

def Eeprom.cellsAt (s : Eeprom) (n : Nat) : List Byte :=
  (List.range n).map fun i => s.cells (s.pointer + BitVec.ofNat 8 i)

/-- What a transfer of either kind does to a single EEPROM. -/
structure ChipTransfer {ι : Type} [Fintype ι] [DecidableEq ι] {σ : ι → Type} (w : Wiring σ)
    (l : Link σ) (i : ι) (e : Eeprom) (place : Eeprom → σ i) (dom : Bool) : Prop where
  write : e.present = true → ∀ bytes, bytes ≠ [] → linkTransfer w (chipAddr dom) bytes 0 l =
    ((bytes.length : Int), ([] : List Byte),
      (⟨fun _ => .idle, Function.update l.state i (place (e.written bytes))⟩ : Link σ))
  read : e.present = true → ∀ n, n ≠ 0 → linkTransfer w (chipAddr dom) [] n l =
    ((n : Int), e.cellsAt n,
      (⟨fun _ => .idle, Function.update l.state i (place (e.readOut n))⟩ : Link σ))
  absent : e.present = false → ∀ bytes n, bytes ≠ [] ∨ n ≠ 0 →
    linkTransfer w (chipAddr dom) bytes n l = (i2cDevNotFound, [], l)

/-- One EEPROM of a link answers to its address, and no other chip that is joined does. -/
structure ChipOn {ι : Type} {σ : ι → Type} (w : Wiring σ) (l : Link σ) (i : ι) [DecidableEq ι]
    (e : Eeprom) (place : Eeprom → σ i) (dom : Bool) : Prop where
  selected : ∀ {byte : Byte}, chipAddress byte = eepromAddress dom → l.selected w byte =
    if e.present then Function.update l.state i (place e.ready) else l.state
  answers : ∀ {byte : Byte}, chipAddress byte = eepromAddress dom → e.present = true →
    l.Answers w byte i
  silent : ∀ {byte : Byte}, chipAddress byte = eepromAddress dom → e.present = false →
    ∀ j, w.joined l.state j = true → ((w.device j).select (l.state j) byte).1 = false
  takes : ∀ bytes s, (w.device i).takes bytes (place s) =
    (bytes.length, place (bytes.foldl Eeprom.put s))
  gives : ∀ n s, (w.device i).gives n (place s) =
    ((List.range n).map fun k => s.cells (s.pointer + BitVec.ofNat 8 k),
      place { s with pointer := s.pointer + BitVec.ofNat 8 n })
  rest : stopped w l.state = l.state
  stopped_place : ∀ s, stopped w (Function.update l.state i (place s)) =
    Function.update l.state i (place s)

/-- A transfer to the chip that is switched on. -/
theorem ChipOn.transfer {ι : Type} [Fintype ι] [DecidableEq ι] {σ : ι → Type} {w : Wiring σ}
    {l : Link σ} {i : ι} {e : Eeprom} {place : Eeprom → σ i} {dom : Bool}
    (on : ChipOn w l i e place dom) (idle : l.Idle) : ChipTransfer w l i e place dom where
  write := by
    intro present bytes some
    have chip := chipAddress_write dom
    generalize first : (chipAddr dom <<< 1).setWidth 8 = byte at chip
    have selected := on.selected chip
    rw [if_pos present] at selected
    have takes : (w.device i).takes bytes (l.selected w byte i) =
        (bytes.length, place (e.written bytes)) := by
      rw [selected, Function.update_self]
      exact on.takes _ _
    rw [linkTransfer_write idle _ first.symm (on.answers chip present) some (by rw [takes]),
      takes, selected, Function.update_idem, on.stopped_place]
  read := by
    intro present n some
    have chip := chipAddress_read dom
    generalize first : (chipAddr dom <<< 1 ||| 1).setWidth 8 = byte at chip
    have selected := on.selected chip
    rw [if_pos present] at selected
    have gives : (w.device i).gives n (l.selected w byte i) =
        (e.cellsAt n, place (e.readOut n)) := by
      rw [selected, Function.update_self]
      exact on.gives _ _
    rw [linkTransfer_read idle _ first.symm (on.answers chip present) some, gives, selected,
      Function.update_idem, on.stopped_place]
  absent := by
    intro absent bytes n some
    have chip := chipAddress_first dom bytes
    generalize first : (if bytes = [] then (chipAddr dom <<< 1 ||| 1).setWidth 8
      else (chipAddr dom <<< 1).setWidth 8) = byte at chip
    have selected := on.selected chip
    rw [absent, if_neg Bool.false_ne_true] at selected
    rw [linkTransfer_none idle _ some first.symm (on.silent chip absent), selected, stop_all,
      on.rest, idle.eq]

private theorem mux_transfer {l : Link MuxState} (idle : l.Idle) {channel : Fin 16}
    (one : OneChannel l.state channel) (dom : Bool) :
    ChipTransfer muxWiring l (.eeprom channel dom) (l.state (.eeprom channel dom)) id dom :=
  ChipOn.transfer ⟨mux_selected one, mux_answers one, mux_silent one,
    eeprom_takes (eepromAddress dom), eeprom_gives (eepromAddress dom), one.stopped,
    fun s => (one.update channel dom s).stopped⟩ idle

private theorem link_transfer {l : Link fun _ : Bool => Eeprom} (idle : l.Idle) (dom : Bool) :
    ChipTransfer linkWiring l dom (l.state dom) id dom :=
  ChipOn.transfer ⟨link_selected, link_answers, link_silent, eeprom_takes (eepromAddress dom),
    eeprom_gives (eepromAddress dom), link_stopped _, fun _ => link_stopped _⟩ idle

/-! ### Switching the multiplexers -/

/-- The chips after a byte for one of the multiplexers. -/
def switched (state : ∀ i, MuxState i) (high : Bool) (byte : Byte) : ∀ i, MuxState i
  | .mux h =>
    if h = high then ⟨byte, byte⟩ else ⟨(state (.mux h)).pending, (state (.mux h)).pending⟩
  | .eeprom c dom => state (.eeprom c dom)

private theorem chipAddress_mux (high : Bool) :
    chipAddress (((muxAddress high).setWidth 32 <<< 1).setWidth 8) = muxAddress high := by
  revert high
  decide

private theorem muxAddress_inj (high high' : Bool) :
    muxAddress high = muxAddress high' ↔ high = high' := by
  revert high high'
  decide

private theorem switch_transfer {l : Link MuxState} (idle : l.Idle) (high : Bool) (byte : Byte) :
    linkTransfer muxWiring ((muxAddress high).setWidth 32) [byte] 0 l =
      (1, [], ⟨fun _ => .idle, switched l.state high byte⟩) := by
  have chip := chipAddress_mux high
  generalize first : ((muxAddress high).setWidth 32 <<< 1).setWidth 8 = address at chip
  -- no EEPROM has the address of a multiplexer, so the chips behind the channels stay out of it
  have refuses (s : Eeprom) (dom : Bool) :
      (eeprom (eepromAddress dom)).select s address = (false, s) := by
    apply eeprom_refuses
    intro dom'
    rw [chip]
    exact muxAddress_ne high dom'
  have answers : l.Answers muxWiring address (.mux high) := by
    refine ⟨rfl, ?_, ?_⟩
    · change (chipAddress address == muxAddress high) = true
      rw [chip, beq_self_eq_true]
    · intro i other _
      cases i with
      | mux h =>
        change (chipAddress address == muxAddress h) = false
        rw [chip, beq_eq_false_iff_ne]
        intro same
        rw [muxAddress_inj] at same
        exact other (congrArg MuxChip.mux same.symm)
      | eeprom c dom => exact congrArg Prod.fst (refuses (l.state (.eeprom c dom)) dom)
  have selected : l.selected muxWiring address = l.state := by
    funext i
    unfold Link.selected
    split
    · cases i with
      | mux => rfl
      | eeprom c dom => exact congrArg Prod.snd (refuses (l.state (.eeprom c dom)) dom)
    · rfl
  rw [linkTransfer_write idle _ first.symm answers (List.cons_ne_nil _ _) rfl, selected]
  refine congrArg (Prod.mk (1 : Int)) (congrArg (Prod.mk ([] : List Byte)) ?_)
  congr 1
  funext i
  unfold stopped
  cases i with
  | mux h =>
    refine (if_pos rfl).trans ?_
    -- the control byte goes into the one multiplexer, the other is not written
    by_cases same : h = high
    · subst same
      rw [Function.update_self]
      simp [switched, muxWiring, muxDevice, pca9548, Device.takes]
    · have other : MuxChip.mux h ≠ MuxChip.mux high := fun eq => same (MuxChip.mux.inj eq)
      rw [Function.update_of_ne other]
      simp [switched, same, muxWiring, muxDevice, pca9548]
  | eeprom c dom =>
    split <;> rfl

/-- The two bytes switch on the channel of an SFP. -/
theorem masks_channel (id : Nat) (behind : 2 ≤ id) (last : id < 18) (c : Fin 16) :
    (if c.val < 8 then (BitVec.ofNat 8 (1 <<< busMasks id)).getLsbD c.val
      else (BitVec.ofNat 8 (1 <<< busMasks id >>> 8)).getLsbD (c.val - 8)) =
      decide (c = sfpChannel id) := by
  have all : ∀ id < 18, 2 ≤ id → ∀ c : Fin 16,
      (if c.val < 8 then (BitVec.ofNat 8 (1 <<< busMasks id)).getLsbD c.val
        else (BitVec.ofNat 8 (1 <<< busMasks id >>> 8)).getLsbD (c.val - 8)) =
        decide (c = sfpChannel id) := by
    decide +kernel
  exact all id last behind c

private theorem switched_channel (state : ∀ i, MuxState i) (id : Nat) (behind : 2 ≤ id)
    (last : id < 18) :
    OneChannel (switched (switched state false (BitVec.ofNat 8 (1 <<< busMasks id))) true
      (BitVec.ofNat 8 (1 <<< busMasks id >>> 8))) (sfpChannel id) where
  on := fun c => masks_channel id behind last c
  settled := by
    intro high
    cases high <;> rfl

/-! ### Reading -/

/-- The buses with another EEPROM in a place. -/
def SfpLinks.setChip (hw : SfpLinks) (id : Nat) (dom : Bool) (e : Eeprom) : SfpLinks :=
  match sfpBus id with
  | .link0 => { hw with link0 := ⟨hw.link0.mode, Function.update hw.link0.state dom e⟩ }
  | .link1 => { hw with link1 := ⟨hw.link1.mode, Function.update hw.link1.state dom e⟩ }
  | .mux => { hw with
      mux := ⟨hw.mux.mode, Function.update hw.mux.state (.eeprom (sfpChannel id) dom) e⟩ }

theorem SfpLinks.Idle.setChip {hw : SfpLinks} (idle : hw.Idle) (id : Nat) (dom : Bool)
    (e : Eeprom) : (hw.setChip id dom e).Idle := by
  unfold SfpLinks.setChip
  split
  · exact ⟨idle.mux, idle.link0, idle.link1⟩
  · exact ⟨idle.mux, idle.link0, idle.link1⟩
  · exact ⟨idle.mux, idle.link0, idle.link1⟩

/-- The way to the SFP in a place is open. -/
def SfpLinks.Open (hw : SfpLinks) (id : Nat) : Prop :=
  sfpBus id = .mux → OneChannel hw.mux.state (sfpChannel id)

theorem SfpLinks.Open.setChip {hw : SfpLinks} {id : Nat} (way : hw.Open id) (id' : Nat)
    (dom : Bool) (e : Eeprom) : (hw.setChip id' dom e).Open id := by
  intro behind
  unfold SfpLinks.setChip
  split
  · exact way behind
  · exact way behind
  · exact (way behind).update ..

private theorem ChipTransfer.wires {ι : Type} [Fintype ι] [DecidableEq ι] {σ : ι → Type}
    {w : Wiring σ} {l : Link σ} {i : ι} {e : Eeprom} {place : Eeprom → σ i} {dom : Bool}
    (chip : ChipTransfer w l i e place dom) (idle : l.Idle) {toWrite toRead : Nat}
    (one : toWrite = 0 ∧ toRead ≠ 0 ∨ toWrite ≠ 0 ∧ toRead = 0) (data : Nat → Byte) :
    i2cBitbangTransfer w (chipAddr dom) toWrite toRead data (l.bus w true true) =
      if e.present then
        if toRead = 0 then ((toWrite : Int), data, (⟨l.mode, Function.update l.state i
          (place (e.written ((List.range toWrite).map data)))⟩ : Link σ).bus w true true)
        else ((toRead : Int), store data 0 (e.cellsAt toRead),
          (⟨l.mode, Function.update l.state i (place (e.readOut toRead))⟩ : Link σ).bus w true true)
      else (i2cDevNotFound, data, l.bus w true true) := by
  have modes : l.mode = fun _ => .idle := funext idle
  obtain ⟨carried, _⟩ := transfer_bus (w := w) idle (chipAddr dom) toWrite toRead data
  rw [carried, modes]
  cases present : e.present with
  | false =>
    have some : (List.range toWrite).map data ≠ [] ∨ toRead ≠ 0 := by
      -- a transfer is a write or a read, never both
      rcases one with ⟨_, reads⟩ | ⟨writes, _⟩
      · exact .inr reads
      · exact .inl (by simpa using writes)
    rw [chip.absent present _ _ some]
    rfl
  | true =>
    rcases one with ⟨rfl, reads⟩ | ⟨writes, rfl⟩
    · rw [if_pos rfl, if_neg reads, List.range_zero, List.map_nil, chip.read present _ reads]
    · rw [if_pos rfl, if_pos rfl, chip.write present _ (by simpa using writes), List.length_map,
        List.length_range]
      rfl

/-- What the transfers to one EEPROM do to the buses. -/
theorem transfer_chip {hw : SfpLinks} (idle : hw.Idle) {id : Nat} (way : hw.Open id)
    (dom : Bool) {toWrite toRead : Nat} (one : toWrite = 0 ∧ toRead ≠ 0 ∨ toWrite ≠ 0 ∧ toRead = 0)
    (data : Nat → Byte) :
    i2cTransfer (sfpBus id) (chipAddr dom) toWrite toRead data hw.buses =
      if (hw.chip id dom).present then
        if toRead = 0 then
          ((toWrite : Int), data, (hw.setChip id dom
            ((hw.chip id dom).written ((List.range toWrite).map data))).buses)
        else ((toRead : Int), store data 0 ((hw.chip id dom).cellsAt toRead),
          (hw.setChip id dom ((hw.chip id dom).readOut toRead)).buses)
      else (i2cDevNotFound, data, hw.buses) := by
  unfold i2cTransfer SfpLinks.buses SfpLinks.chip SfpLinks.setChip
  cases bus : sfpBus id with
  | link0 =>
    have carried := (link_transfer idle.link0 dom).wires idle.link0 one data
    simp only [carried]
    split
    · split <;> rfl
    · rfl
  | link1 =>
    have carried := (link_transfer idle.link1 dom).wires idle.link1 one data
    simp only [carried]
    split
    · split <;> rfl
    · rfl
  | mux =>
    have carried := (mux_transfer idle.mux (way bus) dom).wires idle.mux one data
    simp only [carried]
    split
    · split <;> rfl
    · rfl

/-- The buses after a byte for one of the multiplexers. -/
def SfpLinks.switch (hw : SfpLinks) (high : Bool) (byte : Byte) : SfpLinks :=
  { hw with mux := ⟨hw.mux.mode, switched hw.mux.state high byte⟩ }

theorem SfpLinks.Idle.switch {hw : SfpLinks} (idle : hw.Idle) (high : Bool) (byte : Byte) :
    (hw.switch high byte).Idle :=
  ⟨idle.mux, idle.link0, idle.link1⟩

/-- The way to an SFP is open once the multiplexers are set. -/
def SfpLinks.opened (hw : SfpLinks) (id : Nat) : SfpLinks :=
  if id > 1 then
    (hw.switch false (BitVec.ofNat 8 (1 <<< busMasks id))).switch true
      (BitVec.ofNat 8 (1 <<< busMasks id >>> 8))
  else hw

/-- Opening the way to a module changes no memory. -/
theorem opened_chip (hw : SfpLinks) (id id' : Nat) (dom : Bool) :
    (hw.opened id).chip id' dom = hw.chip id' dom := by
  unfold SfpLinks.opened
  by_cases above : id > 1
  · rw [if_pos above]
    rfl
  · rw [if_neg above]

/-- After opening, the bus is idle. -/
theorem opened_idle {hw : SfpLinks} (idle : hw.Idle) (id : Nat) : (hw.opened id).Idle := by
  unfold SfpLinks.opened
  split
  · exact ⟨idle.mux, idle.link0, idle.link1⟩
  · exact idle

/-- After opening, the way leads to that module. -/
theorem opened_open (hw : SfpLinks) {id : Nat} (last : id < 18) : (hw.opened id).Open id := by
  intro behind
  unfold SfpLinks.opened
  split
  next above => exact switched_channel hw.mux.state id above last
  next below =>
    unfold sfpBus at behind
    split at behind
    · cases behind
    · split at behind
      · cases behind
      · omega

theorem muxAddr_low : (muxAddress false).setWidth 32 = (0x70 : BitVec 32) := by
  decide

theorem muxAddr_high : (muxAddress true).setWidth 32 = (0x71 : BitVec 32) := by
  decide

/-- The byte that switches a multiplexer is acknowledged. -/
theorem switch_buses {hw : SfpLinks} (idle : hw.Idle) (high : Bool) (data : Nat → Byte) :
    i2cTransfer .mux ((muxAddress high).setWidth 32) 1 0 data hw.buses =
      (1, data, (hw.switch high (data 0)).buses) := by
  have modes : hw.mux.mode = fun _ => .idle := funext idle.mux
  obtain ⟨carried, _⟩ := transfer_bus (w := muxWiring) idle.mux ((muxAddress high).setWidth 32)
    1 0 data
  have switch := switch_transfer idle.mux high (data 0)
  unfold i2cTransfer SfpLinks.buses SfpLinks.switch
  dsimp only
  rw [carried, List.range_one, List.map_singleton, switch, modes]
  rfl

/-- The first two transfers to an SFP. -/
theorem open_buses {hw : SfpLinks} (idle : hw.Idle) (id : Nat) :
    (if id > 1 then
      (i2cTransfer .mux 0x71 1 0 (fun _ => BitVec.ofNat 8 (1 <<< busMasks id >>> 8))
        (i2cTransfer .mux 0x70 1 0 (fun _ => BitVec.ofNat 8 (1 <<< busMasks id)) hw.buses).2.2).2.2
      else hw.buses) = (hw.opened id).buses := by
  unfold SfpLinks.opened
  split
  · have low := switch_buses idle false fun _ => BitVec.ofNat 8 (1 <<< busMasks id)
    have high := switch_buses (idle.switch false (BitVec.ofNat 8 (1 <<< busMasks id))) true
      fun _ => BitVec.ofNat 8 (1 <<< busMasks id >>> 8)
    rw [muxAddr_low] at low
    rw [muxAddr_high] at high
    rw [low, high]
  · rfl

/-- A memory that is set is read back. -/
theorem chip_setChip (hw : SfpLinks) (id : Nat) (dom : Bool) (e : Eeprom) :
    (hw.setChip id dom e).chip id dom = e := by
  unfold SfpLinks.chip SfpLinks.setChip
  cases sfpBus id <;> exact Function.update_self ..

/-- An EEPROM in another place stays as it is. Places from 18 on are not used. -/
theorem chip_setChip_ne (hw : SfpLinks) {id id' : Nat} {dom dom' : Bool} (last : id < 18)
    (last' : id' < 18) (other : ¬(id' = id ∧ dom' = dom)) (e : Eeprom) :
    (hw.setChip id dom e).chip id' dom' = hw.chip id' dom' := by
  -- two SFPs on one bus are on different channels of it
  have places : ∀ id < 18, ∀ id' < 18, sfpBus id = sfpBus id' →
      (sfpBus id = .mux → sfpChannel id = sfpChannel id') → id = id' := by
    decide +kernel
  unfold SfpLinks.chip SfpLinks.setChip
  cases bus : sfpBus id with
  | link0 =>
    cases bus' : sfpBus id' with
    | link0 =>
      have same := places id last id' last' (bus.trans bus'.symm) (by simp [bus])
      exact Function.update_of_ne (fun eq => other ⟨same.symm, eq⟩) ..
    | link1 => rfl
    | mux => rfl
  | link1 =>
    cases bus' : sfpBus id' with
    | link0 => rfl
    | link1 =>
      have same := places id last id' last' (bus.trans bus'.symm) (by simp [bus])
      exact Function.update_of_ne (fun eq => other ⟨same.symm, eq⟩) ..
    | mux => rfl
  | mux =>
    cases bus' : sfpBus id' with
    | link0 => rfl
    | link1 => rfl
    | mux =>
      apply Function.update_of_ne
      intro eq
      obtain ⟨channel, eq⟩ := MuxChip.eeprom.inj eq
      have same := places id last id' last' (bus.trans bus'.symm) fun _ => channel.symm
      exact other ⟨same.symm, eq⟩

end WrSwitch.Libwr
