import WrSwitch.Libwr.I2cChips

/-!
# The I2C busses at two pins

`libwr/i2c_bitbang.c` moves whole messages by setting the direction of two pins. The output
register of both pins is 0, so that a pin pulls its line when it is an output.
-/
namespace WrSwitch.Libwr

open Machine.TwoWire

def i2cDevNotFound : Int := -1
def i2cNoAckRcvd : Int := -2

inductive Pin where
  | scl
  | sda
deriving DecidableEq, Repr

section Bitbang

variable {ι : Type} [Fintype ι] {σ : ι → Type} (w : Wiring σ)

/-- `PIO_IN` lets the line go, `PIO_OUT` pulls it. -/
def shwPioSetdir (pin : Pin) (input : Bool) (bus : Bus σ) : Bus σ :=
  match pin with
  | .scl => bus.setScl w input
  | .sda => bus.setSda w input

def shwPioGetSda (bus : Bus σ) : Bool := bus.data w

def mi2cPinOut (pin : Pin) (state : Bool) (bus : Bus σ) : Bus σ := shwPioSetdir w pin state bus

def mi2cStart (bus : Bus σ) : Bus σ :=
  let bus := mi2cPinOut w .sda false bus
  mi2cPinOut w .scl false bus

def mi2cStop (bus : Bus σ) : Bus σ :=
  let bus := mi2cPinOut w .sda false bus
  let bus := mi2cPinOut w .scl true bus
  mi2cPinOut w .sda true bus

/-- The loop of `mi2c_write_byte`, with the number of turns that are left. -/
def mi2cWriteBits : Nat → Byte → Bus σ → Bus σ
  | 0, _, bus => bus
  | left + 1, data, bus =>
    let bus := mi2cPinOut w .sda (decide (data &&& 0x80 ≠ 0)) bus
    let bus := mi2cPinOut w .scl true bus
    let bus := mi2cPinOut w .scl false bus
    mi2cWriteBits left (data <<< 1) bus

def mi2cWriteByte (data : Byte) (bus : Bus σ) : Bool × Bus σ :=
  let bus := mi2cWriteBits w 8 data bus
  let bus := mi2cPinOut w .sda true bus
  let bus := mi2cPinOut w .scl true bus
  let bus := shwPioSetdir w .sda true bus
  let ack := shwPioGetSda w bus
  let bus := mi2cPinOut w .scl false bus
  (!ack, bus)

/-- The loop of `mi2c_get_byte`. -/
def mi2cGetBits : Nat → Byte → Bus σ → Byte × Bus σ
  | 0, result, bus => (result, bus)
  | left + 1, result, bus =>
    let bus := mi2cPinOut w .scl true bus
    let result := result <<< 1
    let result := if shwPioGetSda w bus then result ||| 0x01 else result
    let bus := mi2cPinOut w .scl false bus
    mi2cGetBits left result bus

def mi2cGetByte (ack : Bool) (bus : Bus σ) : Byte × Bus σ :=
  let bus := mi2cPinOut w .scl false bus
  let bus := shwPioSetdir w .sda true bus
  let (result, bus) := mi2cGetBits w 8 0 bus
  let bus := mi2cPinOut w .sda (!ack) bus
  let bus := mi2cPinOut w .scl true bus
  let bus := mi2cPinOut w .scl false bus
  (result, bus)

/-- The loop over the bytes to write. A byte that is not acknowledged stops the message. -/
def sendBytes (data : Nat → Byte) : Nat → Nat → Bus σ → Except Int Nat × Bus σ
  | 0, sent, bus => (.ok sent, mi2cStop w bus)
  | left + 1, sent, bus =>
    let (ack, bus) := mi2cWriteByte w (data sent) bus
    if !ack then (.error i2cNoAckRcvd, mi2cStop w bus)
    else sendBytes data left (sent + 1) bus

def bitbangWrite (address : BitVec 32) (toWrite : Nat) (data : Nat → Byte) (bus : Bus σ) :
    Except Int Nat × Bus σ :=
  if 0 < toWrite then
    let bus := mi2cStart w bus
    let (ack, bus) := mi2cWriteByte w ((address <<< 1).setWidth 8) bus
    if !ack then (.error i2cDevNotFound, mi2cStop w bus)
    else sendBytes w data toWrite 0 bus
  else (.ok 0, bus)

/-- The loop over the bytes to read, with the index of the last one. -/
def getBytes (lastByte : Nat) : Nat → Nat → (Nat → Byte) → Bus σ → (Nat → Byte) × Bus σ
  | 0, _, data, bus => (data, mi2cStop w bus)
  | left + 1, i, data, bus =>
    let (byte, bus) := mi2cGetByte w (decide (i ≠ lastByte)) bus
    getBytes lastByte left (i + 1) (Function.update data i byte) bus

def bitbangRead (address : BitVec 32) (toRead : Nat) (data : Nat → Byte) (bus : Bus σ) :
    Except Int Nat × (Nat → Byte) × Bus σ :=
  if toRead ≠ 0 then
    let bus := mi2cStart w bus
    let (ack, bus) := mi2cWriteByte w ((address <<< 1 ||| 1).setWidth 8) bus
    if !ack then (.error i2cDevNotFound, data, mi2cStop w bus)
    else
      let (data, bus) := getBytes w (toRead - 1) toRead 0 data bus
      (.ok toRead, data, bus)
  else (.ok 0, data, bus)

/-- The return value, and the buffer and the bus afterwards. -/
def i2cBitbangTransfer (address : BitVec 32) (toWrite toRead : Nat) (data : Nat → Byte)
    (bus : Bus σ) : Int × (Nat → Byte) × Bus σ :=
  match bitbangWrite w address toWrite data bus with
  | (.error ret, bus) => (ret, data, bus)
  | (.ok sent, bus) =>
    match bitbangRead w address toRead data bus with
    | (.error ret, data, bus) => (ret, data, bus)
    | (.ok rcvd, data, bus) => (sent + rcvd, data, bus)

/-- Whether a chip answers the address. -/
def i2cBitbangScan (address : BitVec 32) (bus : Bus σ) : Bool × Bus σ :=
  let bus := shwPioSetdir w .sda true bus
  if !shwPioGetSda w bus then (false, bus)
  else
    let bus := mi2cStart w bus
    let (state, bus) := mi2cWriteByte w ((address <<< 1).setWidth 8) bus
    (state, mi2cStop w bus)

/-- One turn of the loop of `i2c_scan`. -/
def scanAddress (r : Nat × (Nat → Byte) × Bus σ) (address : Nat) : Nat × (Nat → Byte) × Bus σ :=
  let (found, data, bus) := r
  let (res, bus) := i2cBitbangScan w (BitVec.ofNat 32 address) bus
  if res then
    let offset := address >>> 3
    let bit := 1 <<< (address % 8)
    (found + 1, Function.update data offset (data offset ||| bit), bus)
  else (found, data, bus)

/-- How many chips there are, and the map of their addresses. -/
def i2cScan (bus : Bus σ) : Nat × (Nat → Byte) × Bus σ :=
  (List.range 128).foldl (scanAddress w) (0, fun _ => 0, bus)

end Bitbang

/-! ### One byte -/

section Bytes

variable {ι : Type} [Fintype ι] {σ : ι → Type} {w : Wiring σ}

private theorem msb_test (data : Byte) : decide (data &&& 0x80 ≠ 0) = data.getMsbD 0 := by
  revert data
  decide +kernel

private theorem mi2cWriteBits_eq (n : Nat) (data : Byte) (short : n ≤ 8) (bus : Bus σ) :
    mi2cWriteBits w n data bus =
      ((List.range n).map fun i => data.getMsbD i).foldl (Bus.sendBit w) bus := by
  induction n generalizing data bus with
  | zero => rfl
  | succ n ih =>
    have shifted : (List.range n).map (fun i => (data <<< 1).getMsbD i) =
        (List.range n).map fun i => data.getMsbD (i + 1) := by
      apply List.map_congr_left
      intro i listed
      have inside : i < 8 := by
        have := List.mem_range.mp listed
        omega
      rw [BitVec.getMsbD_shiftLeft, Nat.add_comm]
    rw [mi2cWriteBits, ih _ (by omega), shifted, msb_test, List.range_succ_eq_map, List.map_cons,
      List.map_map, List.foldl_cons]
    rfl

private theorem mi2cGetBits_eq (n : Nat) (result : Byte) (bus : Bus σ) :
    mi2cGetBits w n result bus = bus.receiveBits w n result := by
  induction n generalizing result bus with
  | zero => rfl
  | succ n ih =>
    have shifted (bit : Bool) : (if bit then result <<< 1 ||| 0x01 else result <<< 1) =
        shiftIn result bit := by
      cases bit
      · simp [shiftIn]
      · rfl
    rw [mi2cGetBits, ih, shifted]
    rfl

private theorem mi2cWriteByte_eq (data : Byte) (bus : Bus σ) :
    mi2cWriteByte w data bus = bus.sendByte w data := by
  have again (bus : Bus σ) : ((bus.setSda w true).setScl w true).setSda w true =
      (bus.setSda w true).setScl w true := by
    apply setSda_same
    rw [setScl_sda, setSda_sda]
  have eight := mi2cWriteBits_eq (w := w) 8 data (Nat.le_refl 8) bus
  unfold mi2cWriteByte mi2cPinOut shwPioSetdir shwPioGetSda
  rw [eight]
  dsimp only
  rw [again]
  rfl

private theorem mi2cGetByte_eq {bus : Bus σ} (low : bus.scl = false) (ack : Bool) :
    mi2cGetByte w ack bus = bus.receiveByte w ack := by
  have still : bus.setScl w false = bus := by
    unfold Bus.setScl
    rw [low]
  unfold mi2cGetByte mi2cPinOut shwPioSetdir
  dsimp only
  rw [still, mi2cGetBits_eq]
  rfl

end Bytes

/-! ### Transfers in whole bytes -/

section Transfers

variable {ι : Type} [Fintype ι] {σ : ι → Type} (w : Wiring σ)

/-- The bytes stored to a buffer from index `i` on. -/
def store (data : Nat → Byte) (i : Nat) : List Byte → Nat → Byte
  | [] => data
  | byte :: bytes => store (Function.update data i byte) (i + 1) bytes

/-- A transfer as the devices see it: a message that writes, if there is something to write, and
then a message that reads. -/
def linkTransfer (address : BitVec 32) (bytes : List Byte) (toRead : Nat) (l : Link σ) :
    Int × List Byte × Link σ :=
  let write := if bytes = [] then (true, 0, l)
    else l.sendMessage w ((address <<< 1).setWidth 8) bytes
  if !write.1 then (i2cDevNotFound, [], write.2.2)
  else if write.2.1 < bytes.length then (i2cNoAckRcvd, [], write.2.2)
  else
    let read := if toRead = 0 then (true, [], write.2.2)
      else write.2.2.receiveMessage w ((address <<< 1 ||| 1).setWidth 8) toRead
    if !read.1 then (i2cDevNotFound, read.2)
    else (bytes.length + toRead, read.2.1, read.2.2)

variable {w} {l : Link σ}

private theorem sendBytes_bus (data : Nat → Byte) (left : Nat) {l : Link σ} (clear : l.Clear w)
    (taking : l.No .giving) (sda : Bool) (sent : Nat) :
    let q := l.writeBytes w ((List.range' sent left).map data)
    sendBytes w data left sent (l.bus w false sda) =
        (if q.1 < left then .error i2cNoAckRcvd else .ok (sent + left),
          (q.2.stop w).bus w true true) ∧ q.2.Clear w := by
  induction left generalizing l sda sent with
  | zero => exact ⟨congrArg₂ Prod.mk rfl (stop_bus clear taking sda), clear⟩
  | succ left ih =>
    have goes := write_goes (w := w) (l := l) (data sent)
    have clear' := goes.clear clear
    have taking' := goes.no (by decide) taking
    rw [sendBytes, mi2cWriteByte_eq, write_bus clear taking, List.range'_succ, List.map_cons,
      Link.writeBytes]
    dsimp only
    by_cases acked : (l.write w (data sent)).1 = true
    · obtain ⟨sent', kept⟩ := ih clear' taking' true (sent + 1)
      simp only [acked, Bool.not_true, Bool.false_eq_true, if_false, if_true]
      refine ⟨?_, kept⟩
      rw [sent']
      simp only [Nat.add_lt_add_iff_right, Nat.add_assoc, Nat.add_comm 1 left]
    · simp only [acked, Bool.not_false, if_true, Bool.false_eq_true, if_false, Nat.zero_lt_succ]
      exact ⟨congrArg₂ Prod.mk rfl (stop_bus clear' taking' true), clear'⟩

/-- The start of a message. -/
theorem address_bus (idle : l.Idle) (byte : Byte) :
    mi2cWriteByte w byte (mi2cStart w (l.bus w true true)) =
      ((l.select w byte).1, (l.select w byte).2.bus w false true) := by
  rw [mi2cWriteByte_eq]
  exact start_bus idle byte

private theorem bitbangWrite_bus (idle : l.Idle) (address : BitVec 32) {toWrite : Nat}
    (some : 0 < toWrite) (data : Nat → Byte) :
    let q := l.sendMessage w ((address <<< 1).setWidth 8) ((List.range toWrite).map data)
    bitbangWrite w address toWrite data (l.bus w true true) =
        (if !q.1 then .error i2cDevNotFound
          else if q.2.1 < toWrite then .error i2cNoAckRcvd else .ok toWrite,
          q.2.2.bus w true true) ∧ q.2.2.Idle := by
  have even : ((address <<< 1).setWidth 8).getLsbD 0 = false := by simp
  have clear := select_clear (w := w) idle ((address <<< 1).setWidth 8)
  have taking := select_no (w := w) idle ((address <<< 1).setWidth 8)
  rw [even] at taking
  unfold bitbangWrite Link.sendMessage
  dsimp only
  rw [if_pos some, address_bus idle]
  by_cases acked : (l.select w ((address <<< 1).setWidth 8)).1 = true
  · obtain ⟨sent, kept⟩ := sendBytes_bus data toWrite clear taking true 0
    rw [← List.range_eq_range'] at sent kept
    simp only [acked, Bool.not_true, Bool.false_eq_true, if_false, if_true]
    rw [sent, Nat.zero_add]
    exact ⟨rfl, stop_idle kept⟩
  · simp only [acked, Bool.not_false, if_true, Bool.false_eq_true, if_false]
    exact ⟨congrArg₂ Prod.mk rfl (stop_bus clear taking true), stop_idle clear⟩

private theorem getBytes_bus (last left : Nat) {l : Link σ} (clear : l.Clear w)
    (giving : l.No .taking)
    (done : left = 0 → l.No .giving) (sda : Bool) {i : Nat} (rest : i + left = last + 1)
    (data : Nat → Byte) :
    let q := l.readBytes w left
    getBytes w last left i data (l.bus w false sda) =
        (store data i q.1, (q.2.stop w).bus w true true) ∧ q.2.Clear w := by
  induction left generalizing l sda i data with
  | zero => exact ⟨congrArg₂ Prod.mk rfl (stop_bus clear (done rfl) sda), clear⟩
  | succ left ih =>
    have goes := read_goes (w := w) (l := l) (decide (i ≠ last))
    have clear' := goes.clear clear
    have giving' := goes.no (by decide) giving
    have same : decide (i ≠ last) = decide (left ≠ 0) := by
      rw [decide_eq_decide]
      omega
    rw [getBytes, mi2cGetByte_eq rfl, read_bus clear giving, Link.readBytes]
    dsimp only
    rw [same] at clear' giving' ⊢
    refine ih clear' giving' ?_ _ (by omega) _
    rintro rfl
    exact read_last clear

private theorem bitbangRead_bus (idle : l.Idle) (address : BitVec 32) {toRead : Nat}
    (some : toRead ≠ 0) (data : Nat → Byte) :
    let q := l.receiveMessage w ((address <<< 1 ||| 1).setWidth 8) toRead
    bitbangRead w address toRead data (l.bus w true true) =
        (if !q.1 then .error i2cDevNotFound else .ok toRead, store data 0 q.2.1,
          q.2.2.bus w true true) ∧ q.2.2.Idle := by
  have odd : ((address <<< 1 ||| 1).setWidth 8).getLsbD 0 = true := by simp
  have clear := select_clear (w := w) idle ((address <<< 1 ||| 1).setWidth 8)
  have giving := select_no (w := w) idle ((address <<< 1 ||| 1).setWidth 8)
  rw [odd] at giving
  unfold bitbangRead Link.receiveMessage
  dsimp only
  rw [if_pos some, address_bus idle]
  -- without an acknowledge nothing is read and the bus is stopped at once
  by_cases acked : (l.select w ((address <<< 1 ||| 1).setWidth 8)).1 = true
  · obtain ⟨got, kept⟩ := getBytes_bus (toRead - 1) toRead clear giving
      (fun none => absurd none some) true (i := 0) (by omega) data
    simp only [acked, Bool.not_true, Bool.false_eq_true, if_false, if_true]
    rw [got]
    exact ⟨rfl, stop_idle kept⟩
  · have silent : (l.select w ((address <<< 1 ||| 1).setWidth 8)).2.No .giving := by
      intro i
      rw [select_refused idle (Bool.eq_false_of_not_eq_true acked) i]
      decide
    simp only [acked, Bool.not_false, if_true, Bool.false_eq_true, if_false]
    exact ⟨congrArg₂ Prod.mk rfl (congrArg₂ Prod.mk rfl (stop_bus clear silent true)),
      stop_idle clear⟩

/-- The wires carry a transfer as the devices are meant to see it. -/
theorem transfer_bus (idle : l.Idle) (address : BitVec 32) (toWrite toRead : Nat)
    (data : Nat → Byte) :
    let t := linkTransfer w address ((List.range toWrite).map data) toRead l
    i2cBitbangTransfer w address toWrite toRead data (l.bus w true true) =
        (t.1, store data 0 t.2.1, t.2.2.bus w true true) ∧ t.2.2.Idle := by
  have length : ((List.range toWrite).map data).length = toWrite := by simp
  -- a part that is not there does nothing
  have wrote : ∃ write : Bool × Nat × Link σ,
      (if (List.range toWrite).map data = [] then (true, 0, l)
        else l.sendMessage w ((address <<< 1).setWidth 8) ((List.range toWrite).map data)) = write ∧
      bitbangWrite w address toWrite data (l.bus w true true) =
        (if !write.1 then .error i2cDevNotFound
          else if write.2.1 < toWrite then .error i2cNoAckRcvd else .ok toWrite,
          write.2.2.bus w true true) ∧ write.2.2.Idle := by
    refine ⟨_, rfl, ?_⟩
    rcases Nat.eq_zero_or_pos toWrite with rfl | some
    · exact ⟨rfl, idle⟩
    · have filled : (List.range toWrite).map data ≠ [] := by
        apply List.ne_nil_of_length_pos
        rw [length]
        exact some
      rw [if_neg filled]
      exact bitbangWrite_bus idle address some data
  obtain ⟨write, written, wrote, free⟩ := wrote
  have got : ∃ read : Bool × List Byte × Link σ,
      (if toRead = 0 then (true, [], write.2.2)
        else write.2.2.receiveMessage w ((address <<< 1 ||| 1).setWidth 8) toRead) = read ∧
      bitbangRead w address toRead data (write.2.2.bus w true true) =
        (if !read.1 then .error i2cDevNotFound else .ok toRead, store data 0 read.2.1,
          read.2.2.bus w true true) ∧ read.2.2.Idle := by
    refine ⟨_, rfl, ?_⟩
    by_cases none : toRead = 0
    · subst none
      exact ⟨rfl, free⟩
    · rw [if_neg none]
      exact bitbangRead_bus free address none data
  obtain ⟨read, taken, got, done⟩ := got
  unfold linkTransfer i2cBitbangTransfer
  dsimp only
  rw [written, wrote, taken, length]
  cases found : write.1 with
  | false => exact ⟨rfl, free⟩
  | true =>
    by_cases short : write.2.1 < toWrite
    · simp only [short, if_true, Bool.not_true, Bool.false_eq_true, if_false]
      exact ⟨rfl, free⟩
    · simp only [short, Bool.not_true, Bool.false_eq_true, if_false]
      rw [got]
      cases answered : read.1 with
      | false => exact ⟨rfl, done⟩
      | true => exact ⟨rfl, done⟩

/-- A transfer that writes to the only chip that answers. -/
theorem linkTransfer_write [DecidableEq ι] (idle : l.Idle) (address : BitVec 32) {byte : Byte}
    (first : byte = (address <<< 1).setWidth 8) {i : ι} (answers : l.Answers w byte i)
    {bytes : List Byte} (some : bytes ≠ [])
    (all : ((w.device i).takes bytes (l.selected w byte i)).1 = bytes.length) :
    linkTransfer w address bytes 0 l = ((bytes.length : Int), ([] : List Byte),
      (⟨fun _ => .idle, stopped w (Function.update (l.selected w byte) i
        ((w.device i).takes bytes (l.selected w byte i)).2)⟩ : Link σ)) := by
  have even : byte.getLsbD 0 = false := by simp [first]
  have sent := sendMessage_only idle even answers bytes
  dsimp only at sent
  unfold linkTransfer
  rw [← first]
  simp only [if_neg some, sent, all, Bool.not_true, Bool.false_eq_true, if_false, Nat.lt_irrefl,
    if_true, Int.natCast_zero, Int.add_zero]

/-- A transfer that reads from the only chip that answers. -/
theorem linkTransfer_read [DecidableEq ι] (idle : l.Idle) (address : BitVec 32) {byte : Byte}
    (first : byte = (address <<< 1 ||| 1).setWidth 8) {i : ι} (answers : l.Answers w byte i)
    {n : Nat} (some : n ≠ 0) :
    linkTransfer w address [] n l = ((n : Int), ((w.device i).gives n (l.selected w byte i)).1,
      (⟨fun _ => .idle, stopped w (Function.update (l.selected w byte) i
        ((w.device i).gives n (l.selected w byte i)).2)⟩ : Link σ)) := by
  have odd : byte.getLsbD 0 = true := by simp [first]
  have got := receiveMessage_only idle odd answers n
  dsimp only at got
  unfold linkTransfer
  rw [← first]
  simp [some, got]

/-- A transfer that nobody answers. -/
theorem linkTransfer_none (idle : l.Idle) (address : BitVec 32) {bytes : List Byte} {n : Nat}
    (one : bytes ≠ [] ∨ n ≠ 0) {byte : Byte} (first : byte =
      if bytes = [] then (address <<< 1 ||| 1).setWidth 8 else (address <<< 1).setWidth 8)
    (refused : ∀ i, w.joined l.state i = true →
      ((w.device i).select (l.state i) byte).1 = false) :
    linkTransfer w address bytes n l =
      (i2cDevNotFound, [], (⟨fun _ => .idle, l.selected w byte⟩ : Link σ).stop w) := by
  have none := select_none idle refused
  unfold linkTransfer
  by_cases empty : bytes = []
  · rw [if_pos empty] at first
    have reads : n ≠ 0 := one.resolve_left (not_not_intro empty)
    rw [← first]
    simp [empty, reads, Link.receiveMessage, none]
  · rw [if_neg empty] at first
    rw [← first]
    simp [empty, Link.sendMessage, none]

end Transfers

/-! ### Any calls -/

/-- The functions of `i2c.c` that go to a bus. -/
inductive I2cCall where
  | transfer (address : BitVec 32) (toWrite toRead : Nat) (data : Nat → Byte)
  | scan

structure I2cAnswer where
  ret : Int
  data : Nat → Byte

section Calls

variable {ι : Type} [Fintype ι] {σ : ι → Type} (w : Wiring σ)

def i2cCall (bus : Bus σ) : I2cCall → I2cAnswer × Bus σ
  | .transfer address toWrite toRead data =>
    let r := i2cBitbangTransfer w address toWrite toRead data bus
    (⟨r.1, r.2.1⟩, r.2.2)
  | .scan =>
    let r := i2cScan w bus
    (⟨r.1, r.2.1⟩, r.2.2)

def i2cCalls : Bus σ → List I2cCall → List I2cAnswer × Bus σ
  | bus, [] => ([], bus)
  | bus, c :: cs =>
    let r := i2cCall w bus c
    let q := i2cCalls r.2 cs
    (r.1 :: q.1, q.2)

/-- Whether a device answers, and its place in the map if it does. -/
def linkScanAddress (r : Nat × (Nat → Byte) × Link σ) (address : Nat) :
    Nat × (Nat → Byte) × Link σ :=
  let (found, data, l) := r
  let q := l.sendMessage w ((BitVec.ofNat 32 address <<< 1).setWidth 8) []
  if q.1 then
    let offset := address >>> 3
    (found + 1, Function.update data offset (data offset ||| 1 <<< (address % 8)), q.2.2)
  else (found, data, q.2.2)

/-- The calls as the devices see them. -/
def linkCall (l : Link σ) : I2cCall → I2cAnswer × Link σ
  | .transfer address toWrite toRead data =>
    let t := linkTransfer w address ((List.range toWrite).map data) toRead l
    (⟨t.1, store data 0 t.2.1⟩, t.2.2)
  | .scan =>
    let r := (List.range 128).foldl (linkScanAddress w) (0, fun _ => 0, l)
    (⟨r.1, r.2.1⟩, r.2.2)

def linkCalls : Link σ → List I2cCall → List I2cAnswer × Link σ
  | l, [] => ([], l)
  | l, c :: cs =>
    let r := linkCall w l c
    let q := linkCalls r.2 cs
    (r.1 :: q.1, q.2)

variable {w} {l : Link σ}

private theorem scan_bus (idle : l.Idle) (address : BitVec 32) :
    let q := l.sendMessage w ((address <<< 1).setWidth 8) []
    i2cBitbangScan w address (l.bus w true true) = (q.1, q.2.2.bus w true true) ∧ q.2.2.Idle := by
  have taking : l.No .giving := by
    intro i
    rw [idle i]
    decide
  have high : (l.bus w true true).data w = true := (Link.quiet taking).data true
  have driven : (l.bus w true true).sda = true := rfl
  have released : shwPioSetdir w .sda true (l.bus w true true) = l.bus w true true :=
    setSda_same driven
  have even : ((address <<< 1).setWidth 8).getLsbD 0 = false := by simp
  have clear := select_clear (w := w) idle ((address <<< 1).setWidth 8)
  have open_ := select_no (w := w) idle ((address <<< 1).setWidth 8)
  rw [even] at open_
  -- a scan is a message without bytes
  have whole : l.sendMessage w ((address <<< 1).setWidth 8) [] =
      ((l.select w ((address <<< 1).setWidth 8)).1, 0,
        (l.select w ((address <<< 1).setWidth 8)).2.stop w) := by
    unfold Link.sendMessage
    cases acked : (l.select w ((address <<< 1).setWidth 8)).1 with
    | true => simp only [acked, if_true]; rfl
    | false => simp only [acked, Bool.false_eq_true, if_false]
  unfold i2cBitbangScan shwPioGetSda
  dsimp only
  rw [released, high, address_bus idle, whole]
  simp only [Bool.not_true, Bool.false_eq_true, if_false]
  exact ⟨congrArg _ (stop_bus clear open_ true), stop_idle clear⟩

private theorem scanAddress_bus (idle : l.Idle) (found : Nat) (data : Nat → Byte) (address : Nat) :
    let r := linkScanAddress w (found, data, l) address
    scanAddress w (found, data, l.bus w true true) address =
        (r.1, r.2.1, r.2.2.bus w true true) ∧ r.2.2.Idle := by
  obtain ⟨scanned, free⟩ := scan_bus (w := w) idle (BitVec.ofNat 32 address)
  unfold scanAddress linkScanAddress
  dsimp only
  rw [scanned]
  cases acked : (l.sendMessage w ((BitVec.ofNat 32 address <<< 1).setWidth 8) []).1 with
  | true => exact ⟨rfl, free⟩
  | false => exact ⟨rfl, free⟩

private theorem scanAddresses_bus (addresses : List Nat) (idle : l.Idle) (found : Nat)
    (data : Nat → Byte) :
    let r := addresses.foldl (linkScanAddress w) (found, data, l)
    addresses.foldl (scanAddress w) (found, data, l.bus w true true) =
        (r.1, r.2.1, r.2.2.bus w true true) ∧ r.2.2.Idle := by
  induction addresses generalizing l found data with
  | nil => exact ⟨rfl, idle⟩
  | cons address addresses ih =>
    obtain ⟨turn, free⟩ := scanAddress_bus (w := w) idle found data address
    rw [List.foldl_cons, List.foldl_cons, turn]
    exact ih free _ _

private theorem call_bus (idle : l.Idle) (c : I2cCall) :
    i2cCall w (l.bus w true true) c =
        ((linkCall w l c).1, (linkCall w l c).2.bus w true true) ∧
      (linkCall w l c).2.Idle := by
  cases c with
  | transfer address toWrite toRead data =>
    obtain ⟨carried, free⟩ := transfer_bus (w := w) idle address toWrite toRead data
    refine ⟨?_, free⟩
    unfold i2cCall
    dsimp only
    rw [carried]
    rfl
  | scan =>
    unfold i2cCall linkCall i2cScan
    dsimp only
    generalize List.range 128 = addresses
    obtain ⟨scanned, free⟩ := scanAddresses_bus (w := w) addresses idle 0 fun _ => 0
    rw [scanned]
    exact ⟨rfl, free⟩

/-- The two pins carry any calls as the devices are meant to see them, and leave the lines free
and every device waiting for a start. -/
theorem pins_carry_calls (idle : l.Idle) (cs : List I2cCall) :
    i2cCalls w (l.bus w true true) cs =
        ((linkCalls w l cs).1, (linkCalls w l cs).2.bus w true true) ∧
      (linkCalls w l cs).2.Idle := by
  induction cs generalizing l with
  | nil => exact ⟨rfl, idle⟩
  | cons c cs ih =>
    obtain ⟨first, free⟩ := call_bus (w := w) idle c
    obtain ⟨rest, done⟩ := ih free
    refine ⟨?_, done⟩
    rw [i2cCalls, first]
    dsimp only
    rw [rest]
    rfl

end Calls

/-- A byte for cell 3 of the only chip, which is read back, and a call for a chip that is not
there. -/
theorem pins_carry_calls_blank :
    let w : Wiring fun _ : Unit => Eeprom := ⟨fun _ => eeprom 0x50, fun _ _ => true, fun _ _ _ => rfl⟩
    let l : Link fun _ : Unit => Eeprom := ⟨fun _ => .idle, fun _ => .blank⟩
    (i2cCalls w (l.bus w true true) [.transfer 0x50 2 0 fun i => BitVec.ofNat 8 (3 + i),
      .transfer 0x50 1 1 fun _ => 3, .transfer 0x51 0 1 fun _ => 3]).1.map
        (fun a => (a.ret, a.data 0)) = [(2, 3), (2, 4), (-1, 3)] := by
  intro w l
  have idle : l.Idle := fun _ => rfl
  rw [(pins_carry_calls idle _).1]
  decide +kernel

end WrSwitch.Libwr
