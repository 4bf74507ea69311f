import Mathlib.Data.BitVec
import Mathlib.Data.Fintype.Basic

/-!
# Devices on a two-wire bus

A clock and a data line, each high unless someone pulls it low. Only the master pulls the clock.
A device follows the edges of both lines; the data line falling or rising while the clock is high
starts or ends a message. Seen from above, a device takes and gives whole bytes.
-/
namespace WrSwitch.Machine.TwoWire

abbrev Octet := BitVec 8

/-! ### Bytes as bits -/

/-- The bits of a byte in the order of transmission. -/
def bits (byte : Octet) : List Bool := (List.range 8).map fun i => byte.getMsbD i

/-- A bit enters a shift register. -/
def shiftIn (byte : Octet) (bit : Bool) : Octet := byte <<< 1 ||| if bit then 1 else 0

def ofBits (bits : List Bool) : Octet := bits.foldl shiftIn 0

theorem length_bits (byte : Octet) : (bits byte).length = 8 := by
  simp [bits]

/-- The bits of a byte make the byte. -/
theorem ofBits_bits (byte : Octet) : ofBits (bits byte) = byte := by
  revert byte
  decide +kernel

/-! ### Devices -/

/-- A device that takes and gives bytes. -/
structure Device (σ : Type) where
  /-- the byte that follows a start, and whether the device acknowledges it -/
  select : σ → Octet → Bool × σ
  write : σ → Octet → Bool × σ
  /-- the byte that it sends when it is read -/
  offer : σ → Octet
  sent : σ → σ
  stop : σ → σ

/-- What a byte can do to the state of a device. -/
inductive Device.Moves {σ : Type} (d : Device σ) (s : σ) : σ → Prop
  | stay : d.Moves s s
  | select (byte : Octet) : d.Moves s (d.select s byte).2
  | write (byte : Octet) : d.Moves s (d.write s byte).2
  | sent : d.Moves s (d.sent s)

/-- The devices at the wires. Some of them may be cut off by others, which they notice only
between two messages. -/
structure Wiring {ι : Type} (σ : ι → Type) where
  device : ∀ i, Device (σ i)
  joined : (∀ i, σ i) → ι → Bool
  steady : ∀ s t, (∀ i, (device i).Moves (s i) (t i)) → joined t = joined s

/-- Where a device stands between two edges. -/
inductive Phase
  | idle
  /-- takes in an address or a data byte -/
  | shift (address : Bool) (bits : List Bool)
  /-- pulls the data line to acknowledge, before it sends or takes the next byte -/
  | ack (sends : Bool)
  /-- the bits of its byte that are left to send -/
  | send (bits : List Bool)
  /-- waits for the acknowledgement of its byte -/
  | listen (acked : Bool)
deriving DecidableEq

def Phase.pulls : Phase → Bool
  | .ack _ => true
  | .send (bit :: _) => !bit
  | .idle | .shift .. | .send [] | .listen _ => false

section Device

variable {σ : Type} (d : Device σ)

/-- The clock rises. -/
def Phase.rise (level : Bool) : Phase → Phase
  | .shift address bits => .shift address (bits ++ [level])
  | .listen _ => .listen !level
  | p => p

/-- The clock falls. -/
def Device.fall (p : Phase) (s : σ) : Phase × σ :=
  match p with
  | .shift address bits =>
    if bits.length = 8 then
      let byte := ofBits bits
      if address then
        let r := d.select s byte
        (if r.1 then .ack (byte.getLsbD 0) else .idle, r.2)
      else
        let r := d.write s byte
        (if r.1 then .ack false else .idle, r.2)
    else (p, s)
  | .ack sends => (if sends then .send (bits (d.offer s)) else .shift false [], s)
  | .send [] => (p, s)
  | .send [_] => (.listen false, d.sent s)
  | .send (_ :: rest) => (.send rest, s)
  | .listen acked => (if acked then .send (bits (d.offer s)) else .idle, s)
  | .idle => (.idle, s)

end Device

/-! ### The wires -/

/-- The lines as the master drives them, true where it lets go, and the devices. -/
structure Bus {ι : Type} (σ : ι → Type) where
  scl : Bool
  sda : Bool
  phase : ι → Phase
  state : ∀ i, σ i

section Bus

variable {ι : Type} [Fintype ι] {σ : ι → Type} (w : Wiring σ)

/-- The level of the data line. -/
def Bus.data (b : Bus σ) : Bool :=
  b.sda && !decide (∃ i, w.joined b.state i = true ∧ (b.phase i).pulls = true)

/-- The devices that are not cut off react to an edge. -/
def Bus.react (b : Bus σ) (f : ∀ i, Phase → σ i → Phase × σ i) : Bus σ :=
  { b with
    phase := fun i => if w.joined b.state i then (f i (b.phase i) (b.state i)).1 else b.phase i
    state := fun i => if w.joined b.state i then (f i (b.phase i) (b.state i)).2 else b.state i }

/-- The master drives the clock. -/
def Bus.setScl (level : Bool) (b : Bus σ) : Bus σ :=
  match b.scl, level with
  | false, true => { b.react w fun _ p s => (p.rise (b.data w), s) with scl := true }
  | true, false => { b.react w fun i p s => (w.device i).fall p s with scl := false }
  | _, _ => b

/-- The master drives the data line. With the clock high, an edge is a start or a stop. -/
def Bus.setSda (level : Bool) (b : Bus σ) : Bus σ :=
  let after := { b with sda := level }
  if b.scl then
    match b.data w, after.data w with
    | true, false => after.react w fun _ _ s => (.shift true [], s)
    | false, true => after.react w fun i _ s => (.idle, (w.device i).stop s)
    | _, _ => after
  else after

/-! ### What a master does -/

def Bus.start (b : Bus σ) : Bus σ := (b.setSda w false).setScl w false

def Bus.stop (b : Bus σ) : Bus σ := ((b.setSda w false).setScl w true).setSda w true

def Bus.sendBit (b : Bus σ) (bit : Bool) : Bus σ :=
  ((b.setSda w bit).setScl w true).setScl w false

/-- Send a byte; whether it was acknowledged. -/
def Bus.sendByte (byte : Octet) (b : Bus σ) : Bool × Bus σ :=
  let b := (((bits byte).foldl (Bus.sendBit w) b).setSda w true).setScl w true
  (!b.data w, b.setScl w false)

def Bus.receiveBit (b : Bus σ) : Bool × Bus σ :=
  let b := b.setScl w true
  (b.data w, b.setScl w false)

/-- Take `n` bits, behind those in the shift register. -/
def Bus.receiveBits : Nat → Octet → Bus σ → Octet × Bus σ
  | 0, byte, b => (byte, b)
  | n + 1, byte, b =>
    let r := b.receiveBit w
    Bus.receiveBits n (shiftIn byte r.1) r.2

/-- Take a byte and acknowledge it or not. -/
def Bus.receiveByte (acked : Bool) (b : Bus σ) : Octet × Bus σ :=
  let r := (b.setSda w true).receiveBits w 8 0
  (r.1, r.2.sendBit w !acked)

end Bus

/-! ### Whole bytes -/

/-- What a device does with the next byte. -/
inductive Mode
  | idle
  | taking
  | giving
deriving DecidableEq

/-- The devices between two bytes. -/
structure Link {ι : Type} (σ : ι → Type) where
  mode : ι → Mode
  state : ∀ i, σ i

section Link

variable {ι : Type} [Fintype ι] {σ : ι → Type} (w : Wiring σ)

/-- A device takes part in what comes next. -/
def Link.In (l : Link σ) (mode : Mode) (i : ι) : Prop :=
  w.joined l.state i = true ∧ l.mode i = mode

instance (l : Link σ) (mode : Mode) : DecidablePred (l.In w mode) :=
  fun _ => inferInstanceAs (Decidable (_ ∧ _))

/-- The byte that follows a start. The lowest bit says who sends the next one. -/
def Link.select (byte : Octet) (l : Link σ) : Bool × Link σ :=
  let acked := fun i => ((w.device i).select (l.state i) byte).1
  (decide (∃ i, w.joined l.state i = true ∧ acked i = true),
    { mode := fun i =>
        if w.joined l.state i then
          if acked i then if byte.getLsbD 0 then .giving else .taking else .idle
        else l.mode i
      state := fun i =>
        if w.joined l.state i then ((w.device i).select (l.state i) byte).2 else l.state i })

def Link.write (byte : Octet) (l : Link σ) : Bool × Link σ :=
  let acked := fun i => ((w.device i).write (l.state i) byte).1
  (decide (∃ i, l.In w .taking i ∧ acked i = true),
    { mode := fun i => if l.In w .taking i then if acked i then .taking else .idle else l.mode i
      state := fun i =>
        if l.In w .taking i then ((w.device i).write (l.state i) byte).2 else l.state i })

/-- What is read is high where no device pulls. -/
def Link.offered (l : Link σ) (k : Nat) : Bool :=
  decide (∀ i, l.In w .giving i → ((w.device i).offer (l.state i)).getMsbD k = true)

def Link.read (acked : Bool) (l : Link σ) : Octet × Link σ :=
  (ofBits ((List.range 8).map (l.offered w)),
    { mode := fun i => if l.In w .giving i then if acked then .giving else .idle else l.mode i
      state := fun i => if l.In w .giving i then (w.device i).sent (l.state i) else l.state i })

def Link.stop (l : Link σ) : Link σ where
  mode := fun i => if w.joined l.state i then .idle else l.mode i
  state := fun i => if w.joined l.state i then (w.device i).stop (l.state i) else l.state i

/-- What is behind a closed gate is idle. -/
def Link.Clear (l : Link σ) : Prop := ∀ i, w.joined l.state i = false → l.mode i = .idle

/-- The phase of a device between two bytes. -/
def Device.phase {σ : Type} (d : Device σ) (s : σ) : Mode → Phase
  | .idle => .idle
  | .taking => .shift false []
  | .giving => .send (bits (d.offer s))

/-- The wires between two bytes. -/
def Link.bus (scl sda : Bool) (l : Link σ) : Bus σ where
  scl := scl
  sda := sda
  phase := fun i => (w.device i).phase (l.state i) (l.mode i)
  state := l.state

end Link

/-! ### Edges -/

section Edges

variable {ι : Type} [Fintype ι] {σ : ι → Type} {w : Wiring σ} {sda : Bool} {phase : ι → Phase}
  {state : ∀ i, σ i}

/-- No device pulls the data line. -/
def Quiet (w : Wiring σ) (phase : ι → Phase) (state : ∀ i, σ i) : Prop :=
  ∀ i, w.joined state i = true → (phase i).pulls = false

/-- Where no device pulls, the line has the level of the master. -/
theorem Quiet.data (quiet : Quiet w phase state) (scl : Bool) :
    (⟨scl, sda, phase, state⟩ : Bus σ).data w = sda := by
  have none_pulls : ¬∃ i, w.joined state i = true ∧ (phase i).pulls = true := by
    rintro ⟨i, joined, pulls⟩
    rw [quiet i joined] at pulls
    cases pulls
  simp [Bus.data, none_pulls]

/-- At a rising clock every device sees the level of the line. -/
theorem setScl_rise : (⟨false, sda, phase, state⟩ : Bus σ).setScl w true =
    ⟨true, sda, fun i => if w.joined state i then
      (phase i).rise ((⟨false, sda, phase, state⟩ : Bus σ).data w) else phase i, state⟩ := by
  simp [Bus.setScl, Bus.react]

/-- At a falling clock every device may change what it puts on the line. -/
theorem setScl_fall : (⟨true, sda, phase, state⟩ : Bus σ).setScl w false =
    ⟨false, sda,
      fun i => if w.joined state i then ((w.device i).fall (phase i) (state i)).1 else phase i,
      fun i => if w.joined state i then ((w.device i).fall (phase i) (state i)).2 else state i⟩ :=
  rfl

private theorem setSda_low (level : Bool) :
    (⟨false, sda, phase, state⟩ : Bus σ).setSda w level = ⟨false, level, phase, state⟩ :=
  rfl

theorem setSda_sda (b : Bus σ) (level : Bool) : (b.setSda w level).sda = level := by
  unfold Bus.setSda
  dsimp only
  split
  · split <;> rfl
  · rfl

theorem setScl_sda (b : Bus σ) (level : Bool) : (b.setScl w level).sda = b.sda := by
  unfold Bus.setScl
  split <;> rfl

/-- A line that is driven as it is shows no edge. -/
theorem setSda_same {b : Bus σ} {level : Bool} (driven : b.sda = level) :
    b.setSda w level = b := by
  subst driven
  unfold Bus.setSda
  dsimp only
  cases b.data w <;> simp

/-- The devices see a start. -/
theorem setSda_start (quiet : Quiet w phase state) :
    (⟨true, true, phase, state⟩ : Bus σ).setSda w false =
      ⟨true, false, fun i => if w.joined state i then .shift true [] else phase i, state⟩ := by
  simp [Bus.setSda, quiet.data, Bus.react]

/-- The devices see a stop. -/
theorem setSda_stop (quiet : Quiet w phase state) :
    (⟨true, false, phase, state⟩ : Bus σ).setSda w true =
      ⟨true, true, fun i => if w.joined state i then .idle else phase i,
        fun i => if w.joined state i then (w.device i).stop (state i) else state i⟩ := by
  simp [Bus.setSda, quiet.data, Bus.react]

/-- The clock rises and falls. -/
theorem pulse_eq (quiet : Quiet w phase state) :
    ((⟨false, sda, phase, state⟩ : Bus σ).setScl w true).setScl w false = ⟨false, sda,
      fun i => if w.joined state i then ((w.device i).fall ((phase i).rise sda) (state i)).1
        else phase i,
      fun i => if w.joined state i then ((w.device i).fall ((phase i).rise sda) (state i)).2
        else state i⟩ := by
  rw [setScl_rise, quiet.data, setScl_fall]
  congr 1
  · funext i
    split <;> rfl
  · funext i
    split <;> rfl

private theorem sendBit_eq (quiet : Quiet w phase state) (bit : Bool) :
    (⟨false, sda, phase, state⟩ : Bus σ).sendBit w bit = ⟨false, bit,
      fun i => if w.joined state i then ((w.device i).fall ((phase i).rise bit) (state i)).1
        else phase i,
      fun i => if w.joined state i then ((w.device i).fall ((phase i).rise bit) (state i)).2
        else state i⟩ := by
  rw [Bus.sendBit, setSda_low, pulse_eq quiet]

/-- After a start condition every device that is joined takes an address. -/
theorem start_eq (quiet : Quiet w phase state) :
    (⟨true, true, phase, state⟩ : Bus σ).start w =
      ⟨false, false, fun i => if w.joined state i then .shift true [] else phase i, state⟩ := by
  rw [Bus.start, setSda_start quiet, setScl_fall]
  congr 1
  · funext i
    split <;> rfl
  · funext i
    split <;> rfl

private theorem pulls_rise (p : Phase) (level : Bool) : (p.rise level).pulls = p.pulls := by
  cases p <;> rfl

/-- A stop ends the message of every device that is not cut off. -/
theorem stop_eq (quiet : Quiet w phase state) :
    (⟨false, sda, phase, state⟩ : Bus σ).stop w =
      ⟨true, true, fun i => if w.joined state i then .idle else phase i,
        fun i => if w.joined state i then (w.device i).stop (state i) else state i⟩ := by
  rw [Bus.stop, setSda_low, setScl_rise, setSda_stop]
  · congr 1
    funext i
    split <;> rfl
  · intro i joined
    dsimp only
    rw [if_pos joined, pulls_rise]
    exact quiet i joined

end Edges

/-! ### Sending -/

section Sending

variable {ι : Type} [Fintype ι] {σ : ι → Type} {w : Wiring σ} {state : ∀ i, σ i} {L : ι → Prop}
  [DecidablePred L]

/-- Some devices have taken in the first bits of a byte, the others are idle. -/
def hearing (L : ι → Prop) [DecidablePred L] (address : Bool) (taken : List Bool) : ι → Phase :=
  fun i => if L i then .shift address taken else .idle

omit [Fintype ι] in
private theorem hearing_quiet (address : Bool) (taken : List Bool) :
    Quiet w (hearing L address taken) state := by
  intro i _
  unfold hearing
  split <;> rfl

/-- Bits that do not complete the byte. -/
theorem sendBits_hearing (inside : ∀ i, L i → w.joined state i = true) (address : Bool)
    (more taken : List Bool) (short : taken.length + more.length < 8) (sda : Bool) :
    ∃ sda', more.foldl (Bus.sendBit w) ⟨false, sda, hearing L address taken, state⟩ =
      ⟨false, sda', hearing L address (taken ++ more), state⟩ := by
  induction more generalizing taken sda with
  | nil => exact ⟨sda, by rw [List.append_nil]; rfl⟩
  | cons bit more ih =>
    rw [List.length_cons] at short
    have open_ : (taken ++ [bit]).length ≠ 8 := by
      rw [List.length_append, List.length_singleton]
      omega
    -- fewer than eight bits are in, so the falling clock leaves every device listening
    have next : (⟨false, sda, hearing L address taken, state⟩ : Bus σ).sendBit w bit =
        ⟨false, bit, hearing L address (taken ++ [bit]), state⟩ := by
      rw [sendBit_eq (hearing_quiet address taken)]
      congr 1
      · funext i
        unfold hearing
        by_cases listens : L i
        · simp only [if_pos listens, if_pos (inside i listens), Phase.rise, Device.fall,
            if_neg open_]
        · simp only [if_neg listens, Phase.rise, Device.fall, ite_self]
      · funext i
        unfold hearing
        by_cases listens : L i
        · simp only [if_pos listens, Phase.rise, Device.fall, if_neg open_, ite_self]
        · simp only [if_neg listens, Phase.rise, Device.fall, ite_self]
    rw [List.foldl_cons, next]
    have fits : (taken ++ [bit]).length + more.length < 8 := by
      rw [List.length_append, List.length_singleton]
      omega
    obtain ⟨sda', rest⟩ := ih (taken ++ [bit]) fits bit
    refine ⟨sda', ?_⟩
    rw [rest, List.append_assoc, List.singleton_append]

/-- What a device answers to a complete byte. -/
def Device.answer {σ : Type} (d : Device σ) (address : Bool) (s : σ) (byte : Octet) : Bool × σ :=
  if address then d.select s byte else d.write s byte

private theorem bits_split (byte : Octet) : bits byte = (bits byte).take 7 ++ [byte.getLsbD 0] := by
  revert byte
  decide +kernel

omit [Fintype ι] in
private theorem joined_answer (address : Bool) (byte : Octet) :
    w.joined (fun i => if L i then ((w.device i).answer address (state i) byte).2 else state i) =
      w.joined state := by
  apply w.steady
  intro i
  split
  · unfold Device.answer
    split
    · exact .select byte
    · exact .write byte
  · exact .stay

/-- With the last bit each of them has the byte, and pulls the line or not. -/
theorem byte_hearing (inside : ∀ i, L i → w.joined state i = true) (address sda : Bool)
    (byte : Octet) :
    (bits byte).foldl (Bus.sendBit w) ⟨false, sda, hearing L address [], state⟩ =
      ⟨false, byte.getLsbD 0,
        fun i => if L i ∧ ((w.device i).answer address (state i) byte).1 = true then
          .ack (address && byte.getLsbD 0) else .idle,
        fun i => if L i then ((w.device i).answer address (state i) byte).2 else state i⟩ := by
  have seven : ((bits byte).take 7).length = 7 := by rw [List.length_take, length_bits]; rfl
  -- only the eighth bit makes the devices answer
  obtain ⟨sda', taken⟩ := sendBits_hearing inside address ((bits byte).take 7) []
    (by rw [seven]; decide) sda
  have all : (bits byte).take 7 ++ [byte.getLsbD 0] = bits byte := (bits_split byte).symm
  have full : (bits byte).length = 8 := length_bits byte
  rw [bits_split byte, List.foldl_append, taken, List.foldl_cons, List.foldl_nil,
    sendBit_eq (hearing_quiet address _), List.nil_append]
  congr 1
  · funext i
    unfold hearing
    by_cases listens : L i
    · simp only [if_pos (inside i listens), Phase.rise, all, Device.fall, full, if_true,
        ofBits_bits, listens, true_and]
      cases address <;> rfl
    · simp only [Phase.rise, Device.fall, ite_self, listens, false_and, if_false]
  · funext i
    unfold hearing
    by_cases listens : L i
    · simp only [if_pos listens, if_pos (inside i listens), Phase.rise, all, Device.fall, full,
        if_true, ofBits_bits]
      cases address <;> rfl
    · simp only [if_neg listens, Phase.rise, Device.fall, ite_self]

/-- A whole byte. Those that acknowledge it go on, the others are out. -/
theorem sendByte_hearing (inside : ∀ i, L i → w.joined state i = true) (address sda : Bool)
    (byte : Octet) :
    (⟨false, sda, hearing L address [], state⟩ : Bus σ).sendByte w byte =
      (decide (∃ i, L i ∧ ((w.device i).answer address (state i) byte).1 = true), ⟨false, true,
        fun i => if L i ∧ ((w.device i).answer address (state i) byte).1 = true then
          if address && byte.getLsbD 0 then
            .send (bits ((w.device i).offer ((w.device i).answer address (state i) byte).2))
          else .shift false []
        else .idle,
        fun i => if L i then ((w.device i).answer address (state i) byte).2 else state i⟩) := by
  have joined : w.joined (fun i =>
      if L i then ((w.device i).answer address (state i) byte).2 else state i) = w.joined state :=
    joined_answer address byte
  -- the acknowledge bit is on the line: the rising clock changes no device
  have held (level : Bool) (i : ι) : (if w.joined state i = true then
      (if L i ∧ ((w.device i).answer address (state i) byte).1 = true then
        Phase.ack (address && byte.getLsbD 0) else .idle).rise level
      else if L i ∧ ((w.device i).answer address (state i) byte).1 = true then
        .ack (address && byte.getLsbD 0) else .idle) =
      if L i ∧ ((w.device i).answer address (state i) byte).1 = true then
        .ack (address && byte.getLsbD 0) else .idle := by
    split
    · split <;> rfl
    · rfl
  rw [Bus.sendByte, byte_hearing inside, setSda_low, setScl_rise]
  simp only [joined, held, setScl_fall]
  refine congrArg₂ Prod.mk ?_ ?_
  · -- the master sees a low line exactly if one of the devices pulls
    have pulling : (∃ i, w.joined state i = true ∧
        (if L i ∧ ((w.device i).answer address (state i) byte).1 = true then
          Phase.ack (address && byte.getLsbD 0) else .idle).pulls = true) ↔
        ∃ i, L i ∧ ((w.device i).answer address (state i) byte).1 = true := by
      apply exists_congr
      intro i
      -- a device that acknowledged goes on with the transfer, the others are out of it
      by_cases acked : L i ∧ ((w.device i).answer address (state i) byte).1 = true
      · simp [acked, inside i acked.1, Phase.pulls]
      · simp [acked, Phase.pulls]
    simp only [Bus.data, joined, pulling, Bool.true_and, Bool.not_not]
  · congr 1
    · funext i
      by_cases acked : L i ∧ ((w.device i).answer address (state i) byte).1 = true
      · simp only [if_pos acked, inside i acked.1, if_true, Device.fall, if_pos acked.1]
      · simp only [if_neg acked, Device.fall, ite_self]
    · funext i
      by_cases acked : L i ∧ ((w.device i).answer address (state i) byte).1 = true
      · simp only [if_pos acked, Device.fall, ite_self]
      · simp only [if_neg acked, Device.fall, ite_self]

end Sending

/-! ### Receiving -/

section Receiving

variable {ι : Type} [Fintype ι] {σ : ι → Type} {w : Wiring σ} {l : Link σ}

/-- The devices have sent `k` bits of a byte. -/
def Link.givingPhase (w : Wiring σ) (l : Link σ) (k : Nat) (i : ι) : Phase :=
  if l.In w .giving i then
    if k < 8 then .send ((bits ((w.device i).offer (l.state i))).drop k) else .listen false
  else .idle

def Link.givingState (w : Wiring σ) (l : Link σ) (k : Nat) (i : ι) : σ i :=
  if l.In w .giving i ∧ 8 ≤ k then (w.device i).sent (l.state i) else l.state i

omit [Fintype ι] in
private theorem joined_giving (k : Nat) : w.joined (l.givingState w k) = w.joined l.state := by
  apply w.steady
  intro i
  unfold Link.givingState
  split
  · exact .sent
  · exact .stay

private theorem bits_drop (byte : Octet) {k : Nat} (before : k < 8) :
    (bits byte).drop k = byte.getMsbD k :: (bits byte).drop (k + 1) := by
  have inside : k < (bits byte).length := by rw [length_bits]; exact before
  rw [List.drop_eq_getElem_cons inside]
  simp [bits]

omit [Fintype ι] in
private theorem pulls_giving {k : Nat} (before : k < 8) (i : ι) :
    (l.givingPhase w k i).pulls = true ↔
    l.In w .giving i ∧ ((w.device i).offer (l.state i)).getMsbD k = false := by
  unfold Link.givingPhase
  rw [if_pos before, bits_drop _ before]
  split
  next gives => simp [Phase.pulls, gives]
  next other => simp [Phase.pulls, other]

/-- The data line has the bit that all who give leave high. -/
theorem data_giving {k : Nat} (before : k < 8) (scl : Bool) :
    (⟨scl, true, l.givingPhase w k, l.givingState w k⟩ : Bus σ).data w = l.offered w k := by
  unfold Bus.data Link.offered
  rw [Bool.true_and, Bool.eq_iff_iff, Bool.not_eq_true', decide_eq_false_iff_not,
    decide_eq_true_eq, not_exists]
  dsimp only
  apply forall_congr'
  intro i
  rw [joined_giving, pulls_giving before, not_and, not_and, Bool.not_eq_false]
  constructor
  · intro all gives
    exact all gives.1 gives
  · intro all _ gives
    exact all gives

/-- One bit of every device that sends, high where none pulls. -/
theorem receiveBit_giving {k : Nat} (before : k < 8) :
    (⟨false, true, l.givingPhase w k, l.givingState w k⟩ : Bus σ).receiveBit w =
      (l.offered w k, ⟨false, true, l.givingPhase w (k + 1), l.givingState w (k + 1)⟩) := by
  have joined := joined_giving (w := w) (l := l) k
  -- a device that sends does not look at the line
  have rises (level : Bool) (i : ι) : (l.givingPhase w k i).rise level = l.givingPhase w k i := by
    unfold Link.givingPhase
    rw [if_pos before]
    split <;> rfl
  have same : (fun i => if w.joined (l.givingState w k) i = true then
      (l.givingPhase w k i).rise ((⟨false, true, l.givingPhase w k, l.givingState w k⟩ :
        Bus σ).data w) else l.givingPhase w k i) = l.givingPhase w k := by
    funext i
    rw [rises, ite_self]
  rw [Bus.receiveBit, setScl_rise, same]
  refine congrArg₂ Prod.mk (data_giving before true) ?_
  rw [setScl_fall, joined]
  congr 1
  · funext i
    by_cases gives : l.In w .giving i
    · simp only [Link.givingPhase, gives, if_true, before, gives.1, bits_drop _ before]
      -- after the eighth bit it waits for the acknowledge
      by_cases last : k + 1 < 8
      · rw [if_pos last, bits_drop _ last]
        rfl
      · have eight : k + 1 = 8 := by omega
        rw [if_neg last, eight, List.drop_eq_nil_of_le (by rw [length_bits])]
        rfl
    · simp only [Link.givingPhase, gives, if_false, Device.fall, ite_self]
  · funext i
    by_cases gives : l.In w .giving i
    · simp only [Link.givingPhase, Link.givingState, gives, if_true, before, gives.1,
        bits_drop _ before, true_and]
      by_cases last : k + 1 < 8
      · rw [if_neg (by omega), if_neg (by omega), bits_drop _ last]
        rfl
      · have eight : k + 1 = 8 := by omega
        rw [if_neg (by omega), if_pos (by omega), eight,
          List.drop_eq_nil_of_le (by rw [length_bits])]
        rfl
    · simp only [Link.givingPhase, Link.givingState, gives, if_false, Device.fall, ite_self,
        false_and]

/-- The bits that are left of a byte. -/
theorem receiveBits_giving (n : Nat) {k : Nat} (rest : k + n = 8) (byte : Octet) :
    (⟨false, true, l.givingPhase w k, l.givingState w k⟩ : Bus σ).receiveBits w n byte =
      (((List.range' k n).map (l.offered w)).foldl shiftIn byte,
        ⟨false, true, l.givingPhase w 8, l.givingState w 8⟩) := by
  induction n generalizing k byte with
  | zero =>
    rw [Nat.add_zero] at rest
    rw [rest]
    rfl
  | succ n ih =>
    rw [Bus.receiveBits, receiveBit_giving (by omega)]
    dsimp only
    rw [ih (by omega), List.range'_succ, List.map_cons, List.foldl_cons]

end Receiving

/-! ### The wires carry bytes -/

section Carried

variable {ι : Type} [Fintype ι] {σ : ι → Type} {w : Wiring σ} {l : Link σ}

/-- Every device waits for a start. -/
def Link.Idle (l : Link σ) : Prop := ∀ i, l.mode i = .idle

/-- No device is about to send, or to take, a byte. -/
def Link.No (mode : Mode) (l : Link σ) : Prop := ∀ i, l.mode i ≠ mode

omit [Fintype ι] in
theorem Link.Idle.clear (idle : l.Idle) : l.Clear w := fun i _ => idle i

omit [Fintype ι] in
theorem Link.Clear.inside (clear : l.Clear w) {i : ι} (busy : l.mode i ≠ .idle) :
    w.joined l.state i = true := by
  cases joined : w.joined l.state i with
  | true => rfl
  | false => exact absurd (clear i joined) busy

omit [Fintype ι] in
theorem Link.Clear.in_iff (clear : l.Clear w) {mode : Mode} (busy : mode ≠ .idle) (i : ι) :
    l.In w mode i ↔ l.mode i = mode := by
  refine ⟨And.right, ?_⟩
  intro here
  exact ⟨clear.inside (by rw [here]; exact busy), here⟩

omit [Fintype ι] in
theorem Link.quiet (taking : l.No .giving) :
    Quiet w (l.bus w true true).phase l.state := by
  intro i _
  change ((w.device i).phase (l.state i) (l.mode i)).pulls = false
  cases mode : l.mode i with
  | idle | taking => rfl
  | giving => exact absurd mode (taking i)

/-- A start and the byte that follows it. -/
theorem start_bus (idle : l.Idle) (byte : Octet) :
    ((l.bus w true true).start w).sendByte w byte =
      ((l.select w byte).1, (l.select w byte).2.bus w false true) := by
  have phases : (fun i => (w.device i).phase (l.state i) (l.mode i)) = fun _ => Phase.idle := by
    funext i
    rw [idle i]
    rfl
  -- a start makes every device listen, whatever it did
  have started : (l.bus w true true).start w =
      ⟨false, false, hearing (fun i => w.joined l.state i = true) true [], l.state⟩ := by
    unfold Link.bus
    rw [phases, start_eq (by intro i _; rfl)]
    rfl
  rw [started, sendByte_hearing (fun _ joined => joined)]
  refine congrArg₂ Prod.mk rfl ?_
  unfold Link.bus Link.select
  congr 1
  funext i
  by_cases joined : w.joined l.state i = true
  · simp only [joined, true_and, if_true, Device.answer, Bool.true_and]
    split
    · split <;> rfl
    · rfl
  · simp only [joined, false_and, if_false, idle i, Bool.false_eq_true]
    rfl

/-- A byte for the devices that take bytes. -/
theorem write_bus (clear : l.Clear w) (taking : l.No .giving) (sda : Bool) (byte : Octet) :
    (l.bus w false sda).sendByte w byte =
      ((l.write w byte).1, (l.write w byte).2.bus w false true) := by
  -- those that take are exactly those that hear the byte
  have phases : (fun i => (w.device i).phase (l.state i) (l.mode i)) =
      hearing (l.In w .taking) false [] := by
    funext i
    unfold hearing
    simp only [clear.in_iff (show Mode.taking ≠ .idle by decide)]
    cases mode : l.mode i with
    | idle => simp [Device.phase]
    | taking => simp [Device.phase]
    | giving => exact absurd mode (taking i)
  unfold Link.bus
  rw [phases, sendByte_hearing (fun _ takes => takes.1)]
  refine congrArg₂ Prod.mk rfl ?_
  unfold Link.write
  congr 1
  funext i
  by_cases takes : l.In w .taking i
  · simp only [takes, true_and, if_true, Device.answer, Bool.false_and, Bool.false_eq_true,
      if_false]
    split <;> rfl
  · have idle : l.mode i = .idle := by
      rw [clear.in_iff (by decide)] at takes
      cases mode : l.mode i with
      | idle => rfl
      | taking => exact absurd mode takes
      | giving => exact absurd mode (taking i)
    simp only [takes, false_and, if_false, idle]
    rfl

/-- A byte from the devices that send. -/
theorem read_bus (clear : l.Clear w) (giving : l.No .taking) (sda acked : Bool) :
    (l.bus w false sda).receiveByte w acked =
      ((l.read w acked).1, (l.read w acked).2.bus w false (!acked)) := by
  -- the master lets go of the line before the first bit
  have first : (l.bus w false sda).setSda w true =
      ⟨false, true, l.givingPhase w 0, l.givingState w 0⟩ := by
    unfold Link.bus
    rw [setSda_low]
    congr 1
    · funext i
      unfold Link.givingPhase
      simp only [clear.in_iff (show Mode.giving ≠ .idle by decide)]
      cases mode : l.mode i with
      | idle => simp [Device.phase]
      | taking => exact absurd mode (giving i)
      | giving => simp [Device.phase]
    · funext i
      simp [Link.givingState]
  have joined := joined_giving (w := w) (l := l) 8
  -- the devices let go of the line for the acknowledge of the master
  have silent : Quiet w (l.givingPhase w 8) (l.givingState w 8) := by
    intro i _
    unfold Link.givingPhase
    split <;> rfl
  rw [Bus.receiveByte, first, receiveBits_giving 8 rfl]
  refine congrArg₂ Prod.mk ?_ ?_
  · rw [Link.read, List.range_eq_range']
    rfl
  · dsimp only
    rw [sendBit_eq silent, joined]
    unfold Link.bus Link.read
    congr 1
    · funext i
      by_cases gives : l.In w .giving i
      · simp only [Link.givingPhase, Link.givingState, gives, if_true, gives.1, Phase.rise,
          Device.fall, Nat.lt_irrefl, if_false, Nat.le_refl, and_self, Bool.not_not]
        cases acked <;> rfl
      · have idle : l.mode i = .idle := by
          rw [clear.in_iff (by decide)] at gives
          cases mode : l.mode i with
          | idle => rfl
          | taking => exact absurd mode (giving i)
          | giving => exact absurd mode gives
        simp only [Link.givingPhase, gives, if_false, idle, Phase.rise, Device.fall, ite_self]
        rfl
    · funext i
      by_cases gives : l.In w .giving i
      · simp only [Link.givingPhase, Link.givingState, gives, if_true, gives.1, Phase.rise,
          Device.fall, Nat.lt_irrefl, if_false, Nat.le_refl, and_self]
      · simp only [Link.givingPhase, Link.givingState, gives, if_false, Phase.rise, Device.fall,
          ite_self, false_and]

/-- A stop condition, and what it leaves of the link. -/
theorem stop_bus (clear : l.Clear w) (taking : l.No .giving) (sda : Bool) :
    (l.bus w false sda).stop w = (l.stop w).bus w true true := by
  have quiet : Quiet w (fun i => (w.device i).phase (l.state i) (l.mode i)) l.state :=
    Link.quiet taking
  unfold Link.bus
  rw [stop_eq quiet]
  unfold Link.stop
  congr 1
  funext i
  cases joined : w.joined l.state i with
  | true => simp [joined, Device.phase]
  | false => simp [joined, clear i joined, Device.phase]

end Carried

end WrSwitch.Machine.TwoWire
