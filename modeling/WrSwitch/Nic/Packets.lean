import WrSwitch.Nic.Timestamps

/-!
# Packets in the network interface

The packet memory that driver and hardware share, the hardware that fills and empties
descriptors, and the interrupt handler and the receive tasklet one register access at a time.
Transmission goes on by whole calls.
-/
namespace WrSwitch.Nic

abbrev Byte := BitVec 8

/-! ### Packet memory -/

abbrev Ram := Nat → Byte

def readl (ram : Ram) (a : Nat) : Word := ram (a + 3) ++ ram (a + 2) ++ ram (a + 1) ++ ram a

/-- The bytes of `put_unaligned_le32`. -/
def putLe32 (w : Word) : List Byte :=
  [w.extractLsb' 0 8, w.extractLsb' 8 8, w.extractLsb' 16 8, w.extractLsb' 24 8]

def writel (w : Word) (dst : Nat) (ram : Ram) : Ram :=
  fun a => if dst ≤ a then ((putLe32 w)[a - dst]?).getD (ram a) else ram a

/-- `n` bytes from `a` on. -/
def ramBytes (ram : Ram) (a n : Nat) : List Byte := (List.range n).map fun i => ram (a + i)

/-- `enum wrn_ddir` -/
inductive WrnDdir
  | rx
  | tx
deriving DecidableEq, Repr

/-- `__wrn_desc_offset` -/
def wrnDescOffset (dir : WrnDdir) (nr : Nat) : Nat :=
  0x800 * (if dir = .rx then nr + wrnNrDesc else nr)

def wrnDdataOffset : Nat := 2

/-- The loop of `__wrn_copy_out`, with the memory it reads from. -/
def copyOutWords (src : Ram) (pos dst size : Nat) (ram : Ram) : Ram :=
  if size = 0 then ram
  else copyOutWords src (pos + 4) (dst + 4) (size - 4) (writel (readl src pos) dst ram)
termination_by size

/-- `__wrn_copy_out`; `src` is the memory from `WRN_DDATA_OFFSET` bytes before the data on. -/
def wrnCopyOut (dst : Nat) (src : Ram) (size : Nat) (ram : Ram) : Ram :=
  copyOutWords src 0 dst (size + wrnDdataOffset) ram

/-! ### Registers -/

/-- `struct wrn_rxd` -/
structure WrnRxd where
  rx1 : Word
  rx2 : Word
  rx3 : Word
deriving DecidableEq, Repr

def nicRx1D1Empty : Word := 1

/-- NIC_RX1_D1_PORT_R -/
def rx1D1PortR (r1 : Word) : Nat := (r1 >>> 8 &&& 0x3f).toNat

/-- NIC_RX1_D3_OFFSET_R, and NIC_TX1_D2_OFFSET_R -/
def offsetR (reg : Word) : Nat := (reg &&& 0xffff).toNat

/-- NIC_RX1_D3_LEN_R, and NIC_TX1_D2_LEN_R -/
def lenR (reg : Word) : Nat := (reg >>> 16 &&& 0xffff).toNat

/-- An offset and a length in one register. -/
def bufferReg (offset len : Nat) : Word := BitVec.ofNat 32 len <<< 16 ||| BitVec.ofNat 32 offset

def wrnNrEndpoints : Nat := 18

def nicEicRcomp : Word := 1
def nicEicTcomp : Word := 2
def nicEicTxerr : Word := 4

def wrnIrqAll : Word := ~~~0
def wrnIrqAllButRx : Word := ~~~nicEicRcomp

/-! ### Reception -/

/-- What the hardware leaves in a descriptor and its buffer. -/
structure RxFrame where
  rx1 : Word
  rx2 : Word
  data : List Byte
deriving DecidableEq, Repr

/-- A buffer given to `netif_receive_skb`. -/
structure RxSkb where
  dev : Nat
  data : List Byte
  hwtstamp : Option Timespec
deriving DecidableEq, Repr

/-- The receive counters of `struct net_device_stats`. -/
structure RxStats where
  rxPackets : Word
  rxBytes : Word
  rxErrors : Word
deriving DecidableEq, Repr

/-- The places in `wrn_rx_interrupt` and `__wrn_rx_descriptor` before each access; a frame that
is dropped is `none`. -/
inductive RxPc
  | idle
  | poll
  | readRx1
  | readRx2 (r1 : Word)
  | readRx3 (r1 r2 : Word)
  | copyIn (r1 r2 : Word) (len pos size : Nat) (got : List Byte)
  | writeRx3 (out : Option RxFrame)
  | writeRx1 (out : Option RxFrame)
  | finish (out : Option RxFrame)
  | enable

structure RxSide where
  rxd : Nat → WrnRxd
  nextRx : Nat
  pc : RxPc
  stack : List RxSkb
  stats : Nat → RxStats
  /-- the descriptor that the hardware fills next -/
  hwNext : Nat
  received : List RxFrame
  /-- frames that the driver is through with -/
  handled : Nat

/-- After probing. -/
def RxSide.probed : RxSide where
  rxd := fun i => ⟨nicRx1D1Empty, 0, bufferReg (wrnDescOffset .rx i) 2000⟩
  nextRx := 0
  pc := .idle
  stack := []
  stats := fun _ => ⟨0, 0, 0⟩
  hwNext := 0
  received := []
  handled := 0

def WrnRxd.Empty (d : WrnRxd) : Prop := d.rx1 &&& nicRx1D1Empty ≠ 0

instance WrnRxd.decidableEmpty (d : WrnRxd) : Decidable d.Empty := inferInstanceAs (Decidable (_ ≠ _))

/-- The hardware stores byte `k` of a frame. -/
def RxSide.store (s : RxSide) (k : Nat) (b : Byte) (ram : Ram) : Ram :=
  let d := s.rxd s.hwNext
  if d.Empty ∧ k < lenR d.rx3 then Function.update ram (offsetR d.rx3 + k) b else ram

/-- The hardware has a whole frame: it fits the buffer, and comes from one of the endpoints. -/
def RxSide.Completes (s : RxSide) (r1 : Word) (len : Nat) : Prop :=
  (s.rxd s.hwNext).Empty ∧ wrnDdataOffset + len ≤ lenR (s.rxd s.hwNext).rx3 ∧
    rx1D1PortR r1 < wrnNrEndpoints

instance RxSide.decidableCompletes (s : RxSide) (r1 : Word) (len : Nat) :
    Decidable (s.Completes r1 len) := inferInstanceAs (Decidable (_ ∧ _))

def RxSide.complete (s : RxSide) (ram : Ram) (r1 r2 : Word) (len : Nat) : RxSide :=
  let offset := offsetR (s.rxd s.hwNext).rx3
  let rx1 := r1 &&& ~~~nicRx1D1Empty
  { s with
    rxd := Function.update s.rxd s.hwNext ⟨rx1, r2, bufferReg offset len⟩
    hwNext := wrnNextDesc s.hwNext
    received := s.received ++ [⟨rx1, r2, ramBytes ram (offset + wrnDdataOffset) len⟩] }

/-- The end of `__wrn_rx_descriptor`. -/
def RxSide.account (s : RxSide) (reads : ReadTimes) : Option RxFrame → RxSide
  | none =>
    let st := s.stats 0
    { s with stats := Function.update s.stats 0 { st with rxErrors := st.rxErrors + 1 } }
  | some f =>
    let epnum := rx1D1PortR f.rx1
    let st := s.stats epnum
    { s with
      stats := Function.update s.stats epnum
        { st with
          rxPackets := st.rxPackets + 1
          rxBytes := st.rxBytes + BitVec.ofNat 32 f.data.length }
      stack := s.stack ++ [⟨epnum, f.data, wrnRxDescriptor f.rx1 f.rx2 reads⟩] }

/-- One access of the tasklet. -/
def RxSide.tasklet (s : RxSide) (ram : Ram) (reads : ReadTimes) : RxSide :=
  let desc := s.nextRx
  let rx := s.rxd desc
  match s.pc with
  | .idle => s
  | .poll => { s with pc := if rx.Empty then .enable else .readRx1 }
  | .readRx1 => { s with pc := .readRx2 rx.rx1 }
  | .readRx2 r1 => { s with pc := .readRx3 r1 rx.rx2 }
  | .readRx3 r1 r2 =>
    if r1 &&& nicRx1D1Error ≠ 0 then { s with pc := .writeRx3 none }
    -- "No RX OOB?"
    else if r1 &&& nicRx1D1GotTs = 0 then { s with pc := .writeRx3 none }
    else
      let off := offsetR rx.rx3
      let len := lenR rx.rx3
      { s with pc := .copyIn r1 r2 len off (len + wrnDdataOffset) [] }
  | .copyIn r1 r2 len pos size got =>
    if size > 0 then
      { s with pc := .copyIn r1 r2 len (pos + 4) (size - 4) (got ++ putLe32 (readl ram pos)) }
    else { s with pc := .writeRx3 (some ⟨r1, r2, (got.drop wrnDdataOffset).take len⟩) }
  | .writeRx3 out =>
    { s with
      rxd := Function.update s.rxd desc { rx with rx3 := bufferReg (wrnDescOffset .rx desc) 2000 }
      pc := .writeRx1 out }
  | .writeRx1 out =>
    { s with
      rxd := Function.update s.rxd desc { rx with rx1 := nicRx1D1Empty }
      pc := .finish out }
  | .finish out =>
    { s.account reads out with
      nextRx := wrnNextDesc desc
      handled := s.handled + 1
      pc := .poll }
  | .enable => { s with pc := .idle }

/-! ### Transmission -/

structure TxFrame where
  /-- the endpoints it goes to -/
  dpm : Word
  data : List Byte
deriving DecidableEq, Repr

structure TxSide where
  nic : NicState
  tx2 : Nat → Word
  tx3 : Nat → Word
  accepted : List TxFrame
  /-- what the hardware has sent -/
  wire : List TxFrame

def TxSide.probed : TxSide := ⟨.init, fun _ => 0, fun _ => 0, [], []⟩

/-- `wrn_start_xmit` takes the buffer. -/
def TxSide.Accepts (s : TxSide) (len : Nat) (hwTstamp : Bool) : Prop :=
  (wrnStartXmit ⟨s.nic.accepted, len, hwTstamp⟩ s.nic.wrn).1 = 0

instance TxSide.decidableAccepts (s : TxSide) (len : Nat) (hwTstamp : Bool) :
    Decidable (s.Accepts len hwTstamp) := inferInstanceAs (Decidable (_ = _))

/-- The registers that `__wrn_tx_desc` writes besides TX1. -/
def TxSide.xmit (s : TxSide) (ep : Fin wrnNrEndpoints) (skb : Ram) (len : Nat) (hwTstamp : Bool) :
    TxSide :=
  if s.Accepts len hwTstamp then
    let desc := s.nic.wrn.nextTxHead
    { nic := s.nic.xmit len hwTstamp
      tx2 := Function.update s.tx2 desc (bufferReg (wrnDescOffset .tx desc) len)
      tx3 := Function.update s.tx3 desc (1 <<< ep.val)
      accepted := s.accepted ++ [⟨1 <<< ep.val, ramBytes skb wrnDdataOffset len⟩]
      wire := s.wire }
  else { s with nic := s.nic.xmit len hwTstamp }

/-- The data that `__wrn_tx_desc` copies. -/
def TxSide.copyOut (s : TxSide) (skb : Ram) (len : Nat) (hwTstamp : Bool) (ram : Ram) : Ram :=
  if s.Accepts len hwTstamp then
    wrnCopyOut (wrnDescOffset .tx s.nic.wrn.nextTxHead) skb len ram
  else ram

/-- The hardware sends the frame of its next descriptor. -/
def TxSide.send (s : TxSide) (ram : Ram) : TxSide :=
  if s.nic.wrn.Ready s.nic.hwNext then
    let reg := s.tx2 s.nic.hwNext
    { s with
      nic := s.nic.complete
      wire := s.wire ++
        [⟨s.tx3 s.nic.hwNext, ramBytes ram (offsetR reg + wrnDdataOffset) (lenR reg)⟩] }
  else s

/-! ### Interrupts -/

/-- The places in `wrn_interrupt`, with the interrupts it has read. -/
inductive IsrPc
  | idle
  | txerr (irqs : Word)
  | tcomp (irqs : Word)
  | tcompAck (irqs : Word)
  | rcomp (irqs : Word)
  | rcompAck
  | schedule

structure IrqSide where
  isr : Word
  imr : Word
  handler : IsrPc
  /-- the tasklet is to run -/
  scheduled : Bool

/-- A write of ones clears interrupts. -/
def IrqSide.ack (s : IrqSide) (irqs : Word) : IrqSide := { s with isr := s.isr &&& ~~~irqs }

def IrqSide.raise (s : IrqSide) (irqs : Word) : IrqSide := { s with isr := s.isr ||| irqs }

section

-- what a write to EIC_IER makes of the mask
variable (ier : Word → Word → Word)

def IrqSide.probed : IrqSide := ⟨0, ier 0 wrnIrqAll, .idle, false⟩

def IrqSide.enable (s : IrqSide) (irqs : Word) : IrqSide := { s with imr := ier s.imr irqs }

/-- One access of `wrn_interrupt`. -/
def IrqSide.interrupt (s : IrqSide) : IrqSide :=
  match s.handler with
  | .idle => s
  | .txerr irqs =>
    if irqs &&& nicEicTxerr ≠ 0 then { s.ack nicEicTxerr with handler := .tcomp irqs }
    else { s with handler := .tcomp irqs }
  | .tcomp irqs =>
    if irqs &&& nicEicTcomp ≠ 0 then { s with handler := .tcompAck irqs }
    else { s with handler := .rcomp irqs }
  | .tcompAck irqs => { s.ack nicEicTcomp with handler := .rcomp irqs }
  | .rcomp irqs =>
    if irqs &&& nicEicRcomp ≠ 0 then { s.enable ier wrnIrqAllButRx with handler := .rcompAck }
    else { s with handler := .idle }
  | .rcompAck => { s.ack nicEicRcomp with handler := .schedule }
  | .schedule => { s with scheduled := true, handler := .idle }

/-- `wrn_tx_interrupt`, if this access of the handler calls it. -/
def TxSide.interrupt (s : TxSide) : IsrPc → TxSide
  | .tcomp irqs =>
    if irqs &&& nicEicTcomp ≠ 0 then { s with nic := s.nic.step .txInterrupt } else s
  | _ => s

/-! ### The system -/

structure NicSystem where
  rx : RxSide
  tx : TxSide
  irq : IrqSide
  databuf : Ram

def NicSystem.probed (databuf : Ram) : NicSystem := ⟨.probed, .probed, .probed ier, databuf⟩

/-- The hardware fills buffers byte by byte, and handler and tasklet go on by one access. All of
`wrn_start_xmit` is one step, as if it kept its lock to the end, and so is `wrn_tx_interrupt`. -/
inductive NicEvent
  /-- the hardware stores a byte, completes a frame, sends one as a whole -/
  | store (k : Nat) (b : Byte)
  | complete (r1 r2 : Word) (len : Nat)
  | send
  /-- `wrn_start_xmit` -/
  | xmit (ep : Fin wrnNrEndpoints) (skb : Ram) (len : Nat) (hwTstamp : Bool)
  | tstamp (idreg : Word)
  /-- the interrupt comes, and its handler goes on -/
  | irq
  | handler
  /-- the tasklet starts, and goes on -/
  | softirq
  | tasklet (reads : ReadTimes)

def NicSystem.step (s : NicSystem) : NicEvent → NicSystem
  | .store k b => { s with databuf := s.rx.store k b s.databuf }
  | .complete r1 r2 len =>
    if s.rx.Completes r1 len then
      { s with rx := s.rx.complete s.databuf r1 r2 len, irq := s.irq.raise nicEicRcomp }
    else s
  | .send =>
    if s.tx.nic.wrn.Ready s.tx.nic.hwNext then
      { s with tx := s.tx.send s.databuf, irq := s.irq.raise nicEicTcomp }
    else s
  | .xmit ep skb len hwTstamp =>
    { s with
      tx := s.tx.xmit ep skb len hwTstamp
      databuf := s.tx.copyOut skb len hwTstamp s.databuf }
  | .tstamp idreg => { s with tx := { s.tx with nic := s.tx.nic.step (.tstamp idreg) } }
  | .irq =>
    match s.irq.handler with
    | .idle => { s with irq := { s.irq with handler := .txerr s.irq.isr } }
    | _ => s
  | .handler =>
    { s with irq := s.irq.interrupt ier, tx := s.tx.interrupt s.irq.handler }
  | .softirq =>
    match s.rx.pc, s.irq.scheduled with
    | .idle, true =>
      { s with rx := { s.rx with pc := .poll }, irq := { s.irq with scheduled := false } }
    | _, _ => s
  | .tasklet reads =>
    { s with
      rx := s.rx.tasklet s.databuf reads
      irq := match s.rx.pc with
        | .enable => s.irq.enable ier wrnIrqAll
        | _ => s.irq }

end

end WrSwitch.Nic
