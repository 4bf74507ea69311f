import WrSwitch.Machine.Run
import Mathlib.Data.BitVec
import Mathlib.Tactic.SplitIfs

/-!
# Transmission in the network interface

The descriptor ring of the driver, the transmit function, the two interrupts that release
socket buffers, and the hardware that completes descriptors one after the other.
-/
namespace WrSwitch.Nic

abbrev Word := BitVec 32

/-! ### Constants -/

def wrnNrDesc : Nat := 8
def wrnMtu : Nat := 1540

def nicTx1D1Ready : Word := 1
def nicTx1D1TsE : Word := 4
def nicTx1D1PadE : Word := 8

def enomem : Int := 12
def emsgsize : Int := 90

/-! ### The driver's data -/

/-- `struct sk_buff`; the serial number tells the accepted buffers apart. -/
structure SkBuff where
  serial : Nat
  len : Nat
  /-- SKBTX_HW_TSTAMP is set -/
  hwTstamp : Bool
deriving DecidableEq, Repr

/-- `struct wrn_desc_pending` -/
structure DescPending where
  skb : Option SkBuff
  valid : BitVec 8
  frameId : BitVec 16
deriving DecidableEq, Repr

/-- `struct wrn_dev`, with the register TX1 of each descriptor. -/
structure WrnDev where
  tx1 : Nat → Word
  nextTxHead : Nat
  nextTxTail : Nat
  skbDesc : Nat → DescPending
  id : Word

/-- After probing. -/
def WrnDev.probed : WrnDev := ⟨fun _ => 0, 0, 0, fun _ => ⟨none, 0, 0⟩, 0⟩

def wrnNextDesc (i : Nat) : Nat := (i + 1) % wrnNrDesc

def WrnDev.Ready (wrn : WrnDev) (i : Nat) : Prop := wrn.tx1 i &&& nicTx1D1Ready ≠ 0

instance (wrn : WrnDev) (i : Nat) : Decidable (wrn.Ready i) := inferInstanceAs (Decidable (_ ≠ _))

/-- An assignment to one descriptor's entry. -/
def WrnDev.setDesc (wrn : WrnDev) (i : Nat) (d : DescPending) : WrnDev :=
  { wrn with skbDesc := Function.update wrn.skbDesc i d }

/-! ### Transmission -/

/-- `__wrn_alloc_tx_desc` -/
def wrnAllocTxDesc (wrn : WrnDev) : Option Nat × WrnDev :=
  if wrn.Ready wrn.nextTxHead then (none, wrn)
  else (some wrn.nextTxHead, { wrn with nextTxHead := wrnNextDesc wrn.nextTxHead })

/-- The id of a frame, never 0, and what `wrn->id` becomes. -/
def takeId (id : Word) : BitVec 16 × Word :=
  if id.setWidth 16 = 0 then ((id + 1).setWidth 16, id + 2) else (id.setWidth 16, id + 1)

/-- What `__wrn_tx_desc` writes into TX1. -/
def tx1Value (len : Nat) (id : BitVec 16) (doStamp : Bool) : Word :=
  (if len < 60 then nicTx1D1PadE else 0) ||| nicTx1D1Ready |||
    (if doStamp then nicTx1D1TsE else 0) ||| (id.setWidth 32 <<< 16)

/-- `wrn_start_xmit`: what it returns, and the buffers it frees. -/
def wrnStartXmit (skb : SkBuff) (wrn : WrnDev) : Int × List SkBuff × WrnDev :=
  if skb.len > wrnMtu then (-emsgsize, [], wrn)
  else
    let (desc, wrn) := wrnAllocTxDesc wrn
    let (id, next) := takeId wrn.id
    let wrn := { wrn with id := next }
    match desc with
    | none => (-enomem, [], wrn)
    | some desc =>
      let d := wrn.skbDesc desc
      let wrn := wrn.setDesc desc { d with skb := some skb, frameId := id }
      -- a buffer that is still there got no timestamp
      (0, d.skb.toList,
        { wrn with tx1 := Function.update wrn.tx1 desc (tx1Value skb.len id skb.hwTstamp) })

/-! ### Interrupts -/

/-- `wrn_tx_tstamp_skb`, with the buffers it frees. -/
def wrnTxTstampSkb (wrn : WrnDev) (desc : Nat) : List SkBuff × WrnDev :=
  let d := wrn.skbDesc desc
  if d.valid = 0 then ([], wrn)
  else (d.skb.toList, wrn.setDesc desc { d with skb := none, valid := 0 })

/-- What a run of `wrn_tx_interrupt` has done with: descriptors, and buffers it frees. -/
structure Reclaimed where
  descs : List Nat
  freed : List SkBuff
  wrn : WrnDev

/-- The loop of `wrn_tx_interrupt`. -/
def txReclaim : Nat → WrnDev → Reclaimed
  | 0, wrn => ⟨[], [], wrn⟩
  | fuel + 1, wrn =>
    let i := wrn.nextTxTail
    if i = wrn.nextTxHead then ⟨[], [], wrn⟩
    else if wrn.Ready i then ⟨[], [], wrn⟩
    else match (wrn.skbDesc i).skb with
      -- "no socket in descriptor"
      | none => ⟨[], [], wrn⟩
      | some skb =>
        let (freed, wrn) :=
          if skb.hwTstamp then wrnTxTstampSkb wrn i
          else ([skb], wrn.setDesc i { wrn.skbDesc i with skb := none })
        let rest := txReclaim fuel { wrn with nextTxTail := wrnNextDesc i }
        ⟨i :: rest.descs, freed ++ rest.freed, rest.wrn⟩

def wrnTxInterrupt (wrn : WrnDev) : Reclaimed := txReclaim wrnNrDesc wrn

/-- The descriptor that `record_tstamp` finds for a frame id. -/
def findFrame (wrn : WrnDev) (frameId : BitVec 16) : Option Nat :=
  (List.range wrnNrDesc).find? fun i =>
    (wrn.skbDesc i).skb.isSome && (wrn.skbDesc i).frameId == frameId

/-- TXTSU_TSF_R1_FID_R -/
def tsfR1Fid (idreg : Word) : BitVec 16 := (idreg >>> 16).setWidth 16

/-- `record_tstamp`, with the buffers it frees. -/
def recordTstamp (idreg : Word) (wrn : WrnDev) : List SkBuff × WrnDev :=
  match findFrame wrn (tsfR1Fid idreg) with
  | none => ([], wrn)
  | some i => ((wrn.skbDesc i).skb.toList, wrn.setDesc i { wrn.skbDesc i with skb := none })

/-! ### The system -/

structure NicState where
  wrn : WrnDev
  /-- the descriptor that the hardware sends next -/
  hwNext : Nat
  /-- the serial number of the frame in each descriptor -/
  frame : Nat → Nat
  /-- buffers accepted so far -/
  accepted : Nat
  /-- those whose descriptors were completed -/
  sent : List Nat
  released : List Nat
  /-- descriptors with a frame that was accepted and not yet reclaimed -/
  pending : Nat → Bool

def NicState.init : NicState := ⟨.probed, 0, fun _ => 0, 0, [], [], fun _ => false⟩

inductive Event
  | xmit (len : Nat) (hwTstamp : Bool)
  /-- the hardware completes the next descriptor if it is READY -/
  | complete
  | txInterrupt
  | tstamp (idreg : Word)

def NicState.xmit (s : NicState) (len : Nat) (hwTstamp : Bool) : NicState :=
  let (ret, freed, wrn) := wrnStartXmit ⟨s.accepted, len, hwTstamp⟩ s.wrn
  if ret = 0 then
    { s with
      wrn := wrn
      frame := Function.update s.frame s.wrn.nextTxHead s.accepted
      accepted := s.accepted + 1
      released := s.released ++ freed.map SkBuff.serial
      pending := Function.update s.pending s.wrn.nextTxHead true }
  else { s with wrn := wrn }

def NicState.complete (s : NicState) : NicState :=
  if s.wrn.Ready s.hwNext then
    { s with
      wrn := { s.wrn with
        tx1 := Function.update s.wrn.tx1 s.hwNext (s.wrn.tx1 s.hwNext &&& ~~~nicTx1D1Ready) }
      hwNext := wrnNextDesc s.hwNext
      sent := s.frame s.hwNext :: s.sent }
  else s

def NicState.reclaim (s : NicState) (r : Reclaimed) : NicState :=
  { s with
    wrn := r.wrn
    released := s.released ++ r.freed.map SkBuff.serial
    pending := fun i => s.pending i && i ∉ r.descs }

def NicState.tstamp (s : NicState) (idreg : Word) : NicState :=
  { s with
    wrn := (recordTstamp idreg s.wrn).2
    released := s.released ++ (recordTstamp idreg s.wrn).1.map SkBuff.serial }

def NicState.step (s : NicState) : Event → NicState
  | .xmit len hwTstamp => s.xmit len hwTstamp
  | .complete => s.complete
  | .txInterrupt => s.reclaim (wrnTxInterrupt s.wrn)
  | .tstamp idreg => s.tstamp idreg

end WrSwitch.Nic
