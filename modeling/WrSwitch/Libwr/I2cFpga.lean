import WrSwitch.Libwr.I2cBitbang

/-!
# The I2C master of the FPGA

`libwr/i2c_fpga_reg.c` moves messages byte by byte through the registers of the master. Unlike the
busses at two pins it sends no stop after an address that nobody acknowledges.
-/
namespace WrSwitch.Libwr

open Machine.TwoWire

/-! ### Registers -/

def crSta : Byte := 1 <<< 7
def crSto : Byte := 1 <<< 6
def crRd : Byte := 1 <<< 5
def crWr : Byte := 1 <<< 4
def crAck : Byte := 1 <<< 3

/-- The transmit and the receive register, and `SR_RXACK`, which is set without an
acknowledgement. -/
structure FpgaI2c where
  txr : Byte
  rxr : Byte
  rxAck : Bool
deriving DecidableEq, Repr

section Master

variable {ι : Type} [Fintype ι] {σ : ι → Type} (w : Wiring σ)

/-- A command is written to `FPGA_I2C_REG_CR` and carried out on the interface that is selected.
`SR_TIP` is set until then. -/
def FpgaI2c.command (cr : Byte) (m : FpgaI2c) (l : Link σ) : FpgaI2c × Link σ :=
  let r := if cr &&& crWr ≠ 0 then
      let q := if cr &&& crSta ≠ 0 then l.select w m.txr else l.write w m.txr
      ({ m with rxAck := !q.1 }, q.2)
    else if cr &&& crRd ≠ 0 then
      -- `CR_ACK` means that no acknowledgement is sent
      let q := l.read w (decide (cr &&& crAck = 0))
      ({ m with rxr := q.1 }, q.2)
    else (m, l)
  if cr &&& crSto ≠ 0 then (r.1, r.2.stop w) else r

/-! ### `i2c_fpga_reg_transfer` -/

/-- `mi2c_start` of this file, with the whole address byte. -/
def fpgaMi2cStart (byte : Byte) (m : FpgaI2c) (l : Link σ) : Bool × FpgaI2c × Link σ :=
  let r := { m with txr := byte }.command w (crSta ||| crWr) l
  (!r.1.rxAck, r)

def fpgaMi2cWriteByte (data : Byte) (last : Bool) (m : FpgaI2c) (l : Link σ) :
    Bool × FpgaI2c × Link σ :=
  let r := { m with txr := data }.command w (if last then crWr ||| crSto else crWr) l
  (!r.1.rxAck, r)

def fpgaMi2cReadByte (last : Bool) (m : FpgaI2c) (l : Link σ) : Byte × FpgaI2c × Link σ :=
  let r := m.command w (if last then crRd ||| (crSto ||| crAck) else crRd) l
  (r.1.rxr, r)

/-- The loop over the bytes to write, with the number of turns that are left. -/
def fpgaWriteBytes (data : Nat → Byte) (last : Nat) :
    Nat → Nat → FpgaI2c → Link σ → Except Int Nat × FpgaI2c × Link σ
  | 0, b, m, l => (.ok b, m, l)
  | left + 1, b, m, l =>
    let (ack, m, l) := fpgaMi2cWriteByte w (data b) (decide (b = last)) m l
    if !ack then (.error i2cNoAckRcvd, m, l) else fpgaWriteBytes data last left (b + 1) m l

def fpgaReadBytes (last : Nat) :
    Nat → Nat → (Nat → Byte) → FpgaI2c → Link σ → (Nat → Byte) × FpgaI2c × Link σ
  | 0, _, data, m, l => (data, m, l)
  | left + 1, b, data, m, l =>
    let (byte, m, l) := fpgaMi2cReadByte w (decide (b = last)) m l
    fpgaReadBytes last left (b + 1) (Function.update data b byte) m l

def fpgaWrite (address : BitVec 32) (toWrite : Nat) (data : Nat → Byte) (m : FpgaI2c)
    (l : Link σ) : Except Int Nat × FpgaI2c × Link σ :=
  if toWrite ≠ 0 then
    let (ack, m, l) := fpgaMi2cStart w ((address <<< 1).setWidth 8) m l
    if !ack then (.error i2cDevNotFound, m, l)
    else fpgaWriteBytes w data (toWrite - 1) toWrite 0 m l
  else (.ok 0, m, l)

def fpgaRead (address : BitVec 32) (toRead : Nat) (data : Nat → Byte) (m : FpgaI2c)
    (l : Link σ) : Except Int Nat × (Nat → Byte) × FpgaI2c × Link σ :=
  if toRead ≠ 0 then
    let (ack, m, l) := fpgaMi2cStart w ((address <<< 1 ||| 1).setWidth 8) m l
    if !ack then (.error i2cDevNotFound, data, m, l)
    else
      let (data, m, l) := fpgaReadBytes w (toRead - 1) toRead 0 data m l
      (.ok toRead, data, m, l)
  else (.ok 0, data, m, l)

/-- The return value, the buffer, the master and the devices afterwards. -/
def i2cFpgaRegTransfer (address : BitVec 32) (toWrite toRead : Nat) (data : Nat → Byte)
    (m : FpgaI2c) (l : Link σ) : Int × (Nat → Byte) × FpgaI2c × Link σ :=
  match fpgaWrite w address toWrite data m l with
  | (.error ret, m, l) => (ret, data, m, l)
  | (.ok sent, m, l) =>
    match fpgaRead w address toRead data m l with
    | (.error ret, data, m, l) => (ret, data, m, l)
    | (.ok rcvd, data, m, l) => (sent + rcvd, data, m, l)

end Master

/-! ### Transfers in whole messages -/

section Messages

variable {ι : Type} [Fintype ι] {σ : ι → Type} {w : Wiring σ}

private theorem start_command (byte : Byte) (m : FpgaI2c) (l : Link σ) :
    ∃ m', fpgaMi2cStart w byte m l = ((l.select w byte).1, m', (l.select w byte).2) := by
  refine ⟨{ m with txr := byte, rxAck := !(l.select w byte).1 }, ?_⟩
  have first : (crSta ||| crWr) &&& crWr ≠ 0 := by decide
  have start : (crSta ||| crWr) &&& crSta ≠ 0 := by decide
  have goes_on : ¬(crSta ||| crWr) &&& crSto ≠ 0 := by decide
  unfold fpgaMi2cStart FpgaI2c.command
  simp only [if_pos first, if_pos start, if_neg goes_on, Bool.not_not]

private theorem write_command (byte : Byte) (last : Bool) (m : FpgaI2c) (l : Link σ) :
    ∃ m', fpgaMi2cWriteByte w byte last m l = ((l.write w byte).1, m',
      if last then (l.write w byte).2.stop w else (l.write w byte).2) := by
  refine ⟨{ m with txr := byte, rxAck := !(l.write w byte).1 }, ?_⟩
  unfold fpgaMi2cWriteByte FpgaI2c.command
  cases last with
  | true =>
    have writes : (crWr ||| crSto) &&& crWr ≠ 0 := by decide
    have no_start : ¬(crWr ||| crSto) &&& crSta ≠ 0 := by decide
    have stops : (crWr ||| crSto) &&& crSto ≠ 0 := by decide
    simp only [if_true, if_pos writes, if_neg no_start, if_pos stops, Bool.not_not]
  | false =>
    have writes : crWr &&& crWr ≠ 0 := by decide
    have no_start : ¬crWr &&& crSta ≠ 0 := by decide
    have goes_on : ¬crWr &&& crSto ≠ 0 := by decide
    simp only [Bool.false_eq_true, if_false, if_pos writes, if_neg no_start, if_neg goes_on,
      Bool.not_not]

private theorem read_command (last : Bool) (m : FpgaI2c) (l : Link σ) :
    ∃ m', fpgaMi2cReadByte w last m l = ((l.read w !last).1, m',
      if last then (l.read w !last).2.stop w else (l.read w !last).2) := by
  refine ⟨{ m with rxr := (l.read w !last).1 }, ?_⟩
  unfold fpgaMi2cReadByte FpgaI2c.command
  cases last with
  | true =>
    have reads : ¬(crRd ||| (crSto ||| crAck)) &&& crWr ≠ 0 := by decide
    have read : (crRd ||| (crSto ||| crAck)) &&& crRd ≠ 0 := by decide
    have refuses : decide ((crRd ||| (crSto ||| crAck)) &&& crAck = 0) = false := by decide
    have stops : (crRd ||| (crSto ||| crAck)) &&& crSto ≠ 0 := by decide
    simp only [if_true, if_neg reads, if_pos read, refuses, if_pos stops, Bool.not_true]
  | false =>
    have reads : ¬crRd &&& crWr ≠ 0 := by decide
    have read : crRd &&& crRd ≠ 0 := by decide
    have accepts : decide (crRd &&& crAck = 0) = true := by decide
    have goes_on : ¬crRd &&& crSto ≠ 0 := by decide
    simp only [Bool.false_eq_true, if_false, if_neg reads, if_pos read, accepts, if_neg goes_on,
      Bool.not_false]

/-- The stop comes with the last byte, if all of them are acknowledged. -/
theorem fpgaWriteBytes_link (data : Nat → Byte) (left : Nat) {b last : Nat}
    (rest : b + left = last) (m : FpgaI2c) (l : Link σ)
    (all : (l.writeBytes w ((List.range' b (left + 1)).map data)).1 = left + 1) :
    ∃ m', fpgaWriteBytes w data last (left + 1) b m l = (.ok (last + 1), m',
      (l.writeBytes w ((List.range' b (left + 1)).map data)).2.stop w) := by
  induction left generalizing b m l with
  | zero =>
    obtain rfl : b = last := rest
    obtain ⟨m', sent⟩ := write_command (w := w) (data b) true m l
    refine ⟨m', ?_⟩
    have acked : (l.write w (data b)).1 = true := by
      by_contra refused
      simp [Link.writeBytes, refused] at all
    simp [fpgaWriteBytes, sent, acked, Link.writeBytes]
  | succ left ih =>
    -- only the last byte is sent with the stop bit
    have more : decide (b = last) = false := decide_eq_false (by omega)
    obtain ⟨m1, sent⟩ := write_command (w := w) (data b) false m l
    rw [List.range'_succ, List.map_cons, Link.writeBytes] at all ⊢
    have acked : (l.write w (data b)).1 = true := by
      by_contra refused
      simp [refused] at all
    simp only [acked, if_true, Nat.add_right_cancel_iff] at all ⊢
    obtain ⟨m', tail⟩ := ih (by omega) m1 (l.write w (data b)).2 all
    refine ⟨m', ?_⟩
    rw [fpgaWriteBytes, more, sent]
    simp only [acked, Bool.not_true, Bool.false_eq_true, if_false]
    exact tail

private theorem fpgaReadBytes_link (left : Nat) {b last : Nat} (rest : b + left = last)
    (data : Nat → Byte) (m : FpgaI2c) (l : Link σ) :
    ∃ m', fpgaReadBytes w last (left + 1) b data m l =
      (store data b (l.readBytes w (left + 1)).1, m', (l.readBytes w (left + 1)).2.stop w) := by
  induction left generalizing b data m l with
  | zero =>
    obtain rfl : b = last := rest
    obtain ⟨m', got⟩ := read_command (w := w) true m l
    refine ⟨m', ?_⟩
    simp [fpgaReadBytes, got, Link.readBytes, store]
  | succ left ih =>
    have more : decide (b = last) = false := decide_eq_false (by omega)
    obtain ⟨m1, got⟩ := read_command (w := w) false m l
    obtain ⟨m', tail⟩ := ih (show b + 1 + left = last by omega)
      (Function.update data b (l.read w true).1) m1 (l.read w true).2
    refine ⟨m', ?_⟩
    rw [fpgaReadBytes, more, got]
    simp only [Bool.false_eq_true, if_false, Bool.not_false]
    have whole : l.readBytes w (left + 1 + 1) = ((l.read w true).1 ::
        ((l.read w true).2.readBytes w (left + 1)).1,
          ((l.read w true).2.readBytes w (left + 1)).2) := rfl
    rw [tail, whole]
    rfl

variable [DecidableEq ι] {l : Link σ}

/-- A transfer that writes to the only device that answers, and that takes every byte. -/
theorem fpgaTransfer_write (idle : l.Idle) (address : BitVec 32) {i : ι}
    (answers : l.Answers w ((address <<< 1).setWidth 8) i) (n : Nat) (data : Nat → Byte)
    (m : FpgaI2c) (all : ((w.device i).takes ((List.range (n + 1)).map data)
      (l.selected w ((address <<< 1).setWidth 8) i)).1 = n + 1) :
    ∃ m', i2cFpgaRegTransfer w address (n + 1) 0 data m l = (((n + 1 : Nat) : Int), data, m',
      (⟨fun _ => .idle, stopped w (Function.update (l.selected w ((address <<< 1).setWidth 8)) i
        ((w.device i).takes ((List.range (n + 1)).map data)
          (l.selected w ((address <<< 1).setWidth 8) i)).2)⟩ : Link σ)) := by
  have even : ((address <<< 1).setWidth 8).getLsbD 0 = false := by simp
  have whole := sendMessage_only idle even answers ((List.range (n + 1)).map data)
  dsimp only at whole
  have selected := select_only idle answers
  obtain ⟨m1, start⟩ := start_command (w := w) ((address <<< 1).setWidth 8) m l
  unfold Link.sendMessage at whole
  rw [selected] at whole start
  simp only [if_true, Prod.mk.injEq, true_and, all] at whole
  rw [List.range_eq_range'] at whole
  obtain ⟨m', sent⟩ := fpgaWriteBytes_link data n (Nat.zero_add n) m1 _ whole.1
  refine ⟨m', ?_⟩
  rw [List.range_eq_range', ← whole.2]
  unfold i2cFpgaRegTransfer fpgaWrite
  rw [if_pos (Nat.succ_ne_zero n), start]
  simp only [Bool.not_true, Bool.false_eq_true, if_false, Nat.add_sub_cancel]
  rw [sent]
  simp [fpgaRead]

/-- A transfer that reads from the only device that answers. -/
theorem fpgaTransfer_read (idle : l.Idle) (address : BitVec 32) {i : ι}
    (answers : l.Answers w ((address <<< 1 ||| 1).setWidth 8) i) (n : Nat) (data : Nat → Byte)
    (m : FpgaI2c) :
    let q := (w.device i).gives (n + 1) (l.selected w ((address <<< 1 ||| 1).setWidth 8) i)
    ∃ m', i2cFpgaRegTransfer w address 0 (n + 1) data m l = (((n + 1 : Nat) : Int), store data 0 q.1, m',
      (⟨fun _ => .idle, stopped w
        (Function.update (l.selected w ((address <<< 1 ||| 1).setWidth 8)) i q.2)⟩ : Link σ)) := by
  have odd : ((address <<< 1 ||| 1).setWidth 8).getLsbD 0 = true := by simp
  have whole := receiveMessage_only idle odd answers (n + 1)
  dsimp only at whole ⊢
  have selected := select_only idle answers
  obtain ⟨m1, start⟩ := start_command (w := w) ((address <<< 1 ||| 1).setWidth 8) m l
  unfold Link.receiveMessage at whole
  rw [selected] at whole start
  simp only [if_true, Prod.mk.injEq, true_and] at whole
  obtain ⟨m', got⟩ := fpgaReadBytes_link (w := w) n (Nat.zero_add n) data m1
    ⟨alone i (if ((address <<< 1 ||| 1).setWidth 8).getLsbD 0 then .giving else .taking),
      l.selected w ((address <<< 1 ||| 1).setWidth 8)⟩
  refine ⟨m', ?_⟩
  rw [← whole.1, ← whole.2]
  unfold i2cFpgaRegTransfer fpgaWrite fpgaRead
  have some : n + 1 ≠ 0 := Nat.succ_ne_zero n
  -- nothing to write, so the transfer goes to the reading half at once
  rw [if_neg (not_not_intro rfl)]
  dsimp only
  rw [if_pos some, start]
  simp only [Bool.not_true, Bool.false_eq_true, if_false, Nat.add_sub_cancel]
  rw [got]
  simp

end Messages

end WrSwitch.Libwr
