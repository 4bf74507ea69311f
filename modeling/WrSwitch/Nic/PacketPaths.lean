import WrSwitch.Machine.Ring
import WrSwitch.Nic.Packets
import WrSwitch.Nic.TxConservation

/-!
# Packets arrive as they were sent

Received frames reach the network stack once, in order and byte for byte, and frames leave the
interface as they were handed over, whatever hardware, interrupts and tasklet interleave.
-/
namespace WrSwitch.Nic

open Machine

/-! ### Words and bytes -/

private theorem readl_getLsbD (ram : Ram) (a : Nat) {i : Nat} (inside : i < 32) :
    (readl ram a).getLsbD i = (ram (a + i / 8)).getLsbD (i % 8) := by
  have split : (readl ram a).getLsbD i =
      if i < 8 then (ram a).getLsbD i
      else (ram (a + 3) ++ ram (a + 2) ++ ram (a + 1)).getLsbD (i - 8) := BitVec.getLsbD_append
  rw [split, BitVec.getLsbD_append, BitVec.getLsbD_append]
  by_cases first : i < 8
  · simp [first, Nat.div_eq_of_lt first, Nat.mod_eq_of_lt first]
  by_cases second : i < 16
  · simp [first, show i - 8 < 8 by omega, show i / 8 = 1 by omega, show i % 8 = i - 8 by omega]
  by_cases third : i < 24
  · simp [first, show ¬i - 8 < 8 by omega, show i - 8 - 8 < 8 by omega, show i / 8 = 2 by omega,
      show i % 8 = i - 8 - 8 by omega]
  · simp [first, show ¬i - 8 < 8 by omega, show ¬i - 8 - 8 < 8 by omega, show i / 8 = 3 by omega,
      show i % 8 = i - 8 - 8 - 8 by omega]

private theorem putLe32_readl (ram : Ram) (a : Nat) :
    putLe32 (readl ram a) = [ram a, ram (a + 1), ram (a + 2), ram (a + 3)] := by
  have byte (k : Nat) (inside : k < 4) : (readl ram a).extractLsb' (8 * k) 8 = ram (a + k) := by
    apply BitVec.eq_of_getLsbD_eq
    intro i low
    rw [BitVec.getLsbD_extractLsb', readl_getLsbD ram a (by omega)]
    simp [low, show (8 * k + i) / 8 = k by omega, show (8 * k + i) % 8 = i by omega]
  have zero := byte 0 (by decide)
  have one := byte 1 (by decide)
  have two := byte 2 (by decide)
  have three := byte 3 (by decide)
  simp only [Nat.mul_zero, Nat.mul_one, Nat.add_zero, Nat.reduceMul] at zero one two three
  simp only [putLe32, zero, one, two, three]

private theorem writel_readl (src ram : Ram) (pos dst a : Nat) :
    writel (readl src pos) dst ram a =
      if dst ≤ a ∧ a < dst + 4 then src (pos + (a - dst)) else ram a := by
  unfold writel
  rw [putLe32_readl]
  by_cases above : dst ≤ a
  · obtain ⟨k, rfl⟩ := Nat.exists_eq_add_of_le above
    rw [if_pos above, Nat.add_sub_cancel_left]
    by_cases inside : k < 4
    · rw [if_pos ⟨above, by omega⟩]
      match k, inside with
      | 0, _ | 1, _ | 2, _ | 3, _ => rfl
    · rw [if_neg (fun both => inside (by omega)), List.getElem?_eq_none (by simp; omega)]
      rfl
  · rw [if_neg above, if_neg (fun both => above both.1)]

/-- Whole words are copied, up to three bytes more than asked for. -/
theorem copyOutWords_apply (src ram : Ram) (pos dst size a : Nat) :
    copyOutWords src pos dst size ram a =
      if dst ≤ a ∧ a < dst + 4 * ((size + 3) / 4) then src (pos + (a - dst)) else ram a := by
  induction size using Nat.strongRecOn generalizing pos dst ram with
  | ind size ih =>
    rw [copyOutWords]
    by_cases done : size = 0
    · subst done
      rw [if_pos rfl, if_neg (by omega)]
    rw [if_neg done, ih (size - 4) (by omega), writel_readl]
    have words : (size - 4 + 3) / 4 + 1 = (size + 3) / 4 := by omega
    rw [← words]
    by_cases later : dst + 4 ≤ a ∧ a < dst + 4 + 4 * ((size - 4 + 3) / 4)
    · rw [if_pos later, if_pos (by omega)]
      congr 1
      omega
    · rw [if_neg later]
      exact if_congr (by omega) rfl rfl

/-! ### Registers -/

private theorem offsetR_toNat (reg : Word) : offsetR reg = reg.toNat % 65536 := by
  rw [offsetR, BitVec.toNat_and]
  exact Nat.and_two_pow_sub_one_eq_mod reg.toNat 16

private theorem lenR_toNat (reg : Word) : lenR reg = reg.toNat / 65536 := by
  have small := reg.isLt
  rw [lenR, BitVec.toNat_and, BitVec.toNat_ushiftRight, Nat.shiftRight_eq_div_pow]
  rw [show (0xffff : Word).toNat = 2 ^ 16 - 1 from rfl, Nat.and_two_pow_sub_one_eq_mod]
  exact Nat.mod_eq_of_lt (by omega)

private theorem bufferReg_toNat {offset len : Nat} (low : offset < 65536) (high : len < 65536) :
    (bufferReg offset len).toNat = len * 65536 + offset := by
  rw [bufferReg, BitVec.toNat_or, BitVec.toNat_shiftLeft, BitVec.toNat_ofNat, BitVec.toNat_ofNat,
    Nat.mod_eq_of_lt (by omega : offset < 2 ^ 32), Nat.mod_eq_of_lt (by omega : len < 2 ^ 32),
    Nat.shiftLeft_eq, Nat.mod_eq_of_lt (by omega), Nat.mul_comm]
  rw [← Nat.two_pow_add_eq_or_of_lt (by omega), Nat.mul_comm]

@[simp] theorem offsetR_bufferReg {offset len : Nat} (low : offset < 65536) (high : len < 65536) :
    offsetR (bufferReg offset len) = offset := by
  rw [offsetR_toNat, bufferReg_toNat low high]
  omega

@[simp] theorem lenR_bufferReg {offset len : Nat} (low : offset < 65536) (high : len < 65536) :
    lenR (bufferReg offset len) = len := by
  rw [lenR_toNat, bufferReg_toNat low high]
  omega

/-! ### Buffers -/

private theorem ramBytes_congr {ram ram' : Ram} {a b n : Nat}
    (same : ∀ i < n, ram' (b + i) = ram (a + i)) : ramBytes ram' b n = ramBytes ram a n := by
  apply List.map_congr_left
  intro i inside
  exact same i (List.mem_range.mp inside)

@[simp] theorem length_ramBytes (ram : Ram) (a n : Nat) : (ramBytes ram a n).length = n := by
  simp [ramBytes]

private theorem wrnCopyOut_inside {dst size : Nat} (src ram : Ram) {i : Nat}
    (inside : i < size + wrnDdataOffset) : wrnCopyOut dst src size ram (dst + i) = src i := by
  rw [wrnCopyOut, copyOutWords_apply, if_pos (by omega)]
  congr 1
  omega

/-- A packet that may be sent stays within the buffer of its descriptor. -/
theorem wrnCopyOut_outside {dst size : Nat} (src ram : Ram) (small : size ≤ wrnMtu) {a : Nat}
    (outside : a < dst ∨ dst + 0x800 ≤ a) : wrnCopyOut dst src size ram a = ram a := by
  unfold wrnMtu at small
  rw [wrnCopyOut, copyOutWords_apply, if_neg]
  unfold wrnDdataOffset
  omega

private theorem rxOffset_ge (j : Nat) : 0x4000 ≤ wrnDescOffset .rx j := by
  simp only [wrnDescOffset, wrnNrDesc, if_pos]
  omega

/-- The buffers of all descriptors are in the packet memory. -/
theorem descOffset_lt {j : Nat} (below : j < wrnNrDesc) (dir : WrnDdir) :
    wrnDescOffset dir j < 65536 := by
  unfold wrnNrDesc at below
  cases dir <;> simp [wrnDescOffset, wrnNrDesc] <;> omega

/-- The buffers of the descriptors do not overlap. -/
theorem buffers_apart {i j : Nat} (other : i ≠ j) (k : Nat) (inside : k < 0x800) (dir : WrnDdir) :
    wrnDescOffset dir j + k < wrnDescOffset dir i ∨
      wrnDescOffset dir i + 0x800 ≤ wrnDescOffset dir j + k := by
  cases dir <;> simp only [wrnDescOffset, wrnNrDesc] <;> simp <;> omega

/-! ### Transmission -/

/-- The hardware sees the same ring. -/
structure SameRing (s s' : NicState) : Prop where
  tx1 : s'.wrn.tx1 = s.wrn.tx1
  head : s'.wrn.nextTxHead = s.wrn.nextTxHead
  hw : s'.hwNext = s.hwNext

private theorem txReclaim_ring (fuel : Nat) (wrn : WrnDev) :
    (txReclaim fuel wrn).wrn.tx1 = wrn.tx1 ∧
      (txReclaim fuel wrn).wrn.nextTxHead = wrn.nextTxHead := by
  induction fuel generalizing wrn with
  | zero => exact ⟨rfl, rfl⟩
  | succ fuel ih =>
    rw [txReclaim]
    dsimp only
    split
    · exact ⟨rfl, rfl⟩
    split
    · exact ⟨rfl, rfl⟩
    split
    · exact ⟨rfl, rfl⟩
    -- a round only touches the entry of the descriptor and the tail
    · refine ⟨(ih _).1.trans ?_, (ih _).2.trans ?_⟩
      all_goals
        dsimp only [wrnTxTstampSkb]
        split_ifs <;> rfl

private theorem sameRing_txInterrupt (s : NicState) : SameRing s (s.step .txInterrupt) :=
  ⟨(txReclaim_ring _ _).1, (txReclaim_ring _ _).2, rfl⟩

private theorem sameRing_tstamp (s : NicState) (idreg : Word) :
    SameRing s (s.step (.tstamp idreg)) := by
  simp only [NicState.step, NicState.tstamp, recordTstamp]
  split <;> exact ⟨rfl, rfl, rfl⟩

/-- A descriptor that the hardware is to send, with its buffer. -/
structure HoldsTx (s : TxSide) (ram : Ram) (j : Nat) (f : TxFrame) : Prop where
  ready : s.nic.wrn.Ready j
  dpm : s.tx3 j = f.dpm
  fits : f.data.length ≤ wrnMtu
  reg : s.tx2 j = bufferReg (wrnDescOffset .tx j) f.data.length
  data : ramBytes ram (wrnDescOffset .tx j + wrnDdataOffset) f.data.length = f.data

/-- From the hardware's descriptor up to the driver's, the ring holds what was accepted and not
sent. -/
structure TxInv (s : TxSide) (ram : Ram) (waiting : List TxFrame) : Prop where
  queue : Queued wrnNrDesc s.nic.hwNext waiting (HoldsTx s ram) fun j => ¬s.nic.wrn.Ready j
  head : s.nic.wrn.nextTxHead = (s.nic.hwNext + waiting.length) % wrnNrDesc
  order : s.accepted = s.wire ++ waiting

private theorem txInv_probed (ram : Ram) : TxInv .probed ram [] where
  queue := Queued.empty (by decide) (by
    intro j _
    simp [TxSide.probed, NicState.init, WrnDev.probed, WrnDev.Ready])
  head := by decide
  order := by simp [TxSide.probed]

/-- A frame stays in its buffer if its bytes are left alone. -/
theorem HoldsTx.ram {s : TxSide} {ram ram' : Ram} {j : Nat} {f : TxFrame}
    (holds : HoldsTx s ram j f)
    (same : ∀ k < 0x800, ram' (wrnDescOffset .tx j + k) = ram (wrnDescOffset .tx j + k)) :
    HoldsTx s ram' j f := by
  refine { holds with data := ?_ }
  refine (ramBytes_congr ?_).trans holds.data
  intro i inside
  have fits := holds.fits
  unfold wrnMtu at fits
  rw [Nat.add_assoc]
  exact same _ (by unfold wrnDdataOffset; omega)

/-- The transmit buffers are the lower half of the memory. -/
theorem TxInv.ram {s : TxSide} {ram ram' : Ram} {waiting : List TxFrame}
    (inv : TxInv s ram waiting) (same : ∀ a < 0x4000, ram' a = ram a) : TxInv s ram' waiting where
  queue := by
    refine inv.queue.mono ?_ (fun _ _ free => free)
    intro i f _ holds
    have below : (s.nic.hwNext + i) % wrnNrDesc < wrnNrDesc := Nat.mod_lt _ (by decide)
    apply holds.ram
    intro k inside
    apply same
    simp only [wrnDescOffset, wrnNrDesc] at below ⊢
    simp
    omega
  head := inv.head
  order := inv.order

/-- In the same ring the same descriptors are ready. -/
theorem SameRing.ready {s s' : NicState} (same : SameRing s s') (j : Nat) :
    s'.wrn.Ready j ↔ s.wrn.Ready j := by
  rw [WrnDev.Ready, same.tx1, WrnDev.Ready]

private theorem TxInv.sameRing {s : TxSide} {ram : Ram} {waiting : List TxFrame} {nic : NicState}
    (inv : TxInv s ram waiting) (same : SameRing s.nic nic) :
    TxInv { s with nic := nic } ram waiting where
  queue := by
    change Queued wrnNrDesc nic.hwNext _ _ _
    rw [same.hw]
    apply inv.queue.mono
    · intro i f _ holds
      exact ⟨(same.ready _).mpr holds.ready, holds.dpm, holds.fits, holds.reg, holds.data⟩
    · exact fun j _ free ready => free ((same.ready j).mp ready)
  head := by
    change nic.wrn.nextTxHead = (nic.hwNext + _) % _
    rw [same.head, same.hw, inv.head]
  order := inv.order

/-- A buffer is taken if it is not too long and the descriptor at the head is free. -/
theorem accepts_iff (s : TxSide) (len : Nat) (hwTstamp : Bool) :
    s.Accepts len hwTstamp ↔ len ≤ wrnMtu ∧ ¬s.nic.wrn.Ready s.nic.wrn.nextTxHead := by
  unfold TxSide.Accepts wrnStartXmit wrnAllocTxDesc
  by_cases long : len > wrnMtu
  · rw [if_pos long]
    exact iff_of_false (by simp [emsgsize]) (fun both => absurd both.1 (by omega))
  rw [if_neg long]
  by_cases busy : s.nic.wrn.Ready s.nic.wrn.nextTxHead
  · simp [busy, enomem]
  · simp [busy, Nat.not_lt.mp long]

/-- Refusing changes the id only. -/
theorem refused_sameRing {s : TxSide} {len : Nat} {hwTstamp : Bool}
    (refused : ¬s.Accepts len hwTstamp) : SameRing s.nic (s.nic.xmit len hwTstamp) := by
  rw [accepts_iff, not_and, not_not] at refused
  by_cases long : len > wrnMtu
  · rw [xmit_long s.nic hwTstamp long]
    exact ⟨rfl, rfl, rfl⟩
  · rw [xmit_refused s.nic hwTstamp long (refused (Nat.not_lt.mp long))]
    exact ⟨rfl, rfl, rfl⟩

private theorem discard_sameRing (s : NicState) : SameRing s s.discard := by
  rw [NicState.discard]
  split <;> exact ⟨rfl, rfl, rfl⟩

/-- Accepting makes the descriptor at the head READY. -/
theorem accepted_ring {s : NicState} {len : Nat} {hwTstamp : Bool} (fits : len ≤ wrnMtu)
    (free : ¬s.wrn.Ready s.wrn.nextTxHead) :
    (∀ j, (s.xmit len hwTstamp).wrn.Ready j ↔ s.wrn.Ready j ∨ j = s.wrn.nextTxHead) ∧
      (s.xmit len hwTstamp).wrn.nextTxHead = wrnNextDesc s.wrn.nextTxHead ∧
      (s.xmit len hwTstamp).hwNext = s.hwNext := by
  rw [xmit_accepted s hwTstamp (Nat.not_lt.mpr fits) free]
  have same := discard_sameRing s
  refine ⟨fun j => ?_, congrArg wrnNextDesc same.head, same.hw⟩
  by_cases at_head : j = s.wrn.nextTxHead
  · subst at_head
    refine iff_of_true ?_ (.inr rfl)
    rw [ready_iff]
    simp only [NicState.put, same.head, Function.update_self, tx1Value_bit]
  · simp only [ready_iff, NicState.put, same.head, same.tx1, at_head, or_false,
      Function.update_of_ne at_head]

/-- A packet that is accepted joins the queue, another one changes nothing. -/
theorem TxInv.xmit {s : TxSide} {ram : Ram} {waiting : List TxFrame} (inv : TxInv s ram waiting)
    (ep : Fin wrnNrEndpoints) (skb : Ram) (len : Nat) (hwTstamp : Bool) :
    ∃ waiting', TxInv (s.xmit ep skb len hwTstamp) (s.copyOut skb len hwTstamp ram) waiting' := by
  by_cases accepts : s.Accepts len hwTstamp
  swap
  · rw [TxSide.xmit, if_neg accepts, TxSide.copyOut, if_neg accepts]
    exact ⟨waiting, inv.sameRing (refused_sameRing accepts)⟩
  obtain ⟨fits, free⟩ := (accepts_iff s len hwTstamp).mp accepts
  obtain ⟨ready, head, hw⟩ := @accepted_ring _ _ hwTstamp fits free
  rw [TxSide.xmit, if_pos accepts, TxSide.copyOut, if_pos accepts]
  -- an accepted frame goes behind those that wait; its buffer is its own, the others keep theirs
  rw [inv.head] at free ready head ⊢
  refine ⟨waiting ++ [⟨1 <<< ep.val, ramBytes skb wrnDdataOffset len⟩], ?_, ?_, ?_⟩
  · dsimp only
    rw [hw]
    apply inv.queue.push (inv.queue.room fun f holds => free holds.ready)
    · -- the new frame
      refine ⟨(ready _).mpr (.inr rfl), by simp, by simpa using fits, by simp, ?_⟩
      rw [length_ramBytes]
      apply ramBytes_congr
      intro i inside
      rw [Nat.add_assoc]
      exact wrnCopyOut_inside skb ram (by omega)
    · intro j f other holds
      have kept : HoldsTx s ram j f := holds
      refine @HoldsTx.ram _ ram _ j f ?_ ?_
      · exact ⟨(ready j).mpr (.inl kept.ready), by simpa [other] using kept.dpm, kept.fits,
          by simpa [other] using kept.reg, kept.data⟩
      · intro k inside
        exact wrnCopyOut_outside skb ram fits (buffers_apart other.symm k inside .tx)
    · exact fun j other free now => ((ready j).mp now).elim free other
  · dsimp only
    rw [head, hw, wrnNextDesc, List.length_append, List.length_singleton, Nat.mod_add_mod]
    rfl
  · simp [inv.order]

/-- The copy of a packet stays in the lower half of the packet memory. -/
theorem TxInv.copyOut {s : TxSide} {ram : Ram} {waiting : List TxFrame} (inv : TxInv s ram waiting)
    (skb : Ram) (len : Nat) (hwTstamp : Bool) {a : Nat} (upper : 0x4000 ≤ a) :
    s.copyOut skb len hwTstamp ram a = ram a := by
  by_cases accepts : s.Accepts len hwTstamp
  swap
  · rw [TxSide.copyOut, if_neg accepts]
  rw [TxSide.copyOut, if_pos accepts]
  apply wrnCopyOut_outside skb ram ((accepts_iff s len hwTstamp).mp accepts).1
  have head : s.nic.wrn.nextTxHead < wrnNrDesc := by
    rw [inv.head]
    exact Nat.mod_lt _ (by decide)
  simp only [wrnDescOffset, wrnNrDesc] at head ⊢
  simp
  omega

/-- Sending takes the READY bit back. -/
theorem complete_ready {s : NicState} (busy : s.wrn.Ready s.hwNext) (j : Nat) :
    s.complete.wrn.Ready j ↔ s.wrn.Ready j ∧ j ≠ s.hwNext := by
  rw [NicState.complete, if_pos busy]
  by_cases same : j = s.hwNext
  · subst same
    refine iff_of_false ?_ (fun both => both.2 rfl)
    rw [ready_iff]
    simp only [Function.update_self, clear_bit, Bool.false_eq_true, not_false_eq_true]
  · simp [ready_iff, same]

/-- The hardware sends the first frame that waits. -/
theorem TxInv.send {s : TxSide} {ram : Ram} {waiting : List TxFrame} (inv : TxInv s ram waiting) :
    ∃ waiting', TxInv (s.send ram) ram waiting' := by
  by_cases busy : s.nic.wrn.Ready s.nic.hwNext
  swap
  · rw [TxSide.send, if_neg busy]
    exact ⟨waiting, inv⟩
  have ready := complete_ready busy
  have next : s.nic.complete.hwNext = wrnNextDesc s.nic.hwNext ∧
      s.nic.complete.wrn.nextTxHead = s.nic.wrn.nextTxHead := by
    rw [NicState.complete, if_pos busy]
    exact ⟨rfl, rfl⟩
  rw [TxSide.send, if_pos busy]
  dsimp only
  cases waiting with
  | nil => exact absurd busy inv.queue.idle
  | cons f waiting =>
    have first := inv.queue.first
    have inside := inv.queue.inside
    have fits := first.fits
    unfold wrnMtu at fits
    -- what is sent is what the descriptor holds
    have sent : (⟨s.tx3 s.nic.hwNext, ramBytes ram (offsetR (s.tx2 s.nic.hwNext) + wrnDdataOffset)
        (lenR (s.tx2 s.nic.hwNext))⟩ : TxFrame) = f := by
      have offset := descOffset_lt inside .tx
      rw [first.reg, offsetR_bufferReg offset (by omega), lenR_bufferReg offset (by omega),
        first.data, first.dpm]
    rw [sent]
    refine ⟨waiting, ?_, ?_, ?_⟩
    · dsimp only
      rw [next.1]
      apply inv.queue.pop (fun now => ((ready _).mp now).2 rfl)
      · intro j g other holds
        exact ⟨(ready j).mpr ⟨holds.ready, other⟩, holds.dpm, holds.fits, holds.reg, holds.data⟩
      · exact fun j _ free now => free ((ready j).mp now).1
    · dsimp only
      rw [next.1, next.2, inv.head, wrnNextDesc, Nat.mod_add_mod, List.length_cons]
      congr 1
      omega
    · simp [inv.order]

/-! ### Reception -/

/-- The driver passes the frame on. -/
def RxFrame.Good (f : RxFrame) : Prop :=
  f.rx1 &&& nicRx1D1Error = 0 ∧ f.rx1 &&& nicRx1D1GotTs ≠ 0

instance RxFrame.decidableGood (f : RxFrame) : Decidable f.Good := inferInstanceAs (Decidable (_ ∧ _))

def RxFrame.outcome (f : RxFrame) : Option RxFrame := if f.Good then some f else none

/-- The length is written back, and EMPTY is not yet. -/
def RxPc.Rewritten : RxPc → Prop
  | .writeRx1 _ => True
  | _ => False

/-- A descriptor as the hardware has left it. -/
structure Filled (rxd : Nat → WrnRxd) (ram : Ram) (j : Nat) (f : RxFrame) : Prop where
  rx1 : (rxd j).rx1 = f.rx1
  rx2 : (rxd j).rx2 = f.rx2
  fits : wrnDdataOffset + f.data.length ≤ 2000
  rx3 : (rxd j).rx3 = bufferReg (wrnDescOffset .rx j) f.data.length
  data : ramBytes ram (wrnDescOffset .rx j + wrnDdataOffset) f.data.length = f.data

structure HoldsRx (s : RxSide) (ram : Ram) (j : Nat) (f : RxFrame) : Prop where
  full : ¬(s.rxd j).Empty
  filled : ¬(j = s.nextRx ∧ s.pc.Rewritten) → Filled s.rxd ram j f

structure FreeRx (rxd : Nat → WrnRxd) (j : Nat) : Prop where
  empty : (rxd j).Empty
  rx3 : (rxd j).rx3 = bufferReg (wrnDescOffset .rx j) 2000

/-- Frames that have left the ring. -/
def RxSide.taken (s : RxSide) : Nat :=
  match s.pc with
  | .finish _ => s.handled + 1
  | _ => s.handled

private theorem RxSide.taken_near (s : RxSide) : s.handled ≤ s.taken ∧ s.taken ≤ s.handled + 1 := by
  unfold RxSide.taken
  split <;> omega

/-- The first descriptor that the driver has not given back. -/
def RxSide.tail (s : RxSide) : Nat :=
  match s.pc with
  | .finish _ => wrnNextDesc s.nextRx
  | _ => s.nextRx

def RxSide.waiting (s : RxSide) : List RxFrame := s.received.drop s.taken

/-- What the tasklet has of the frame it is at. -/
def RxSide.Knows (s : RxSide) (ram : Ram) (f : RxFrame) : Prop :=
  match s.pc with
  | .idle | .poll | .readRx1 | .enable => True
  | .readRx2 r1 => r1 = f.rx1
  | .readRx3 r1 r2 => r1 = f.rx1 ∧ r2 = f.rx2
  | .copyIn r1 r2 len pos size got =>
    f.Good ∧ r1 = f.rx1 ∧ r2 = f.rx2 ∧ len = f.data.length ∧ ∃ k, 4 * k < len + wrnDdataOffset + 4 ∧
      pos = wrnDescOffset .rx s.nextRx + 4 * k ∧ size = len + wrnDdataOffset - 4 * k ∧
      got = ramBytes ram (wrnDescOffset .rx s.nextRx) (4 * k)
  | .writeRx3 out | .finish out => out = f.outcome
  | .writeRx1 out =>
    out = f.outcome ∧ (s.rxd s.nextRx).rx3 = bufferReg (wrnDescOffset .rx s.nextRx) 2000

def RxPc.Between : RxPc → Prop
  | .idle | .poll | .enable => True
  | _ => False

/-- What `netif_receive_skb` gets of a frame, whenever the time is read. -/
def Delivers (f : RxFrame) (skb : RxSkb) : Prop :=
  ∃ reads, skb = ⟨rx1D1PortR f.rx1, f.data, wrnRxDescriptor f.rx1 f.rx2 reads⟩

/-- The counters of an endpoint after these frames; dropped ones count for the first. -/
def countedStats (fs : List RxFrame) (ep : Nat) : RxStats :=
  let mine := fs.filter fun f => f.Good ∧ rx1D1PortR f.rx1 = ep
  { rxPackets := BitVec.ofNat 32 mine.length
    rxBytes := BitVec.ofNat 32 (mine.map fun f => f.data.length).sum
    rxErrors := BitVec.ofNat 32 (if ep = 0 then (fs.filter fun f => ¬f.Good).length else 0) }

/-- Every frame the driver is through with was delivered or counted as an error. -/
structure Accounted (done : List RxFrame) (stack : List RxSkb) (stats : Nat → RxStats) : Prop where
  stack : List.Forall₂ Delivers (done.filter fun f => f.Good) stack
  stats : stats = countedStats done

structure RxInv (s : RxSide) (ram : Ram) : Prop where
  queue : Queued wrnNrDesc s.tail s.waiting (HoldsRx s ram) (FreeRx s.rxd)
  hw : s.hwNext = (s.tail + s.waiting.length) % wrnNrDesc
  taken : s.taken ≤ s.received.length
  knows : ¬s.pc.Between → ∃ f, s.received[s.handled]? = some f ∧ s.Knows ram f
  account : Accounted (s.received.take s.handled) s.stack s.stats

private theorem rxInv_probed (ram : Ram) : RxInv .probed ram where
  queue := Queued.empty (by decide) (by
    intro j _
    exact ⟨by simp [RxSide.probed, WrnRxd.Empty, nicRx1D1Empty], rfl⟩)
  hw := by decide
  taken := Nat.zero_le _
  knows := fun between => absurd trivial between
  account := ⟨.nil, by
    funext ep
    simp [RxSide.probed, countedStats]⟩

/-! ### What the hardware does -/

/-- The descriptor that the hardware finds EMPTY is as the driver has prepared it. -/
theorem RxInv.room {s : RxSide} {ram : Ram} (inv : RxInv s ram) (empty : (s.rxd s.hwNext).Empty) :
    s.waiting.length < wrnNrDesc ∧ FreeRx s.rxd s.hwNext := by
  rw [inv.hw] at empty ⊢
  have room := inv.queue.room fun f holds => holds.full empty
  exact ⟨room, inv.queue.free _ (Nat.le_refl _) room⟩

/-- A received frame stays in its buffer if its bytes are left alone. -/
theorem Filled.ram {rxd : Nat → WrnRxd} {ram ram' : Ram} {j : Nat} {f : RxFrame}
    (filled : Filled rxd ram j f)
    (same : ∀ k < 0x800, ram' (wrnDescOffset .rx j + k) = ram (wrnDescOffset .rx j + k)) :
    Filled rxd ram' j f := by
  refine { filled with data := ?_ }
  refine (ramBytes_congr ?_).trans filled.data
  intro i inside
  have fits := filled.fits
  rw [Nat.add_assoc]
  exact same _ (by omega)

/-- The frame that the driver is at is the first of the ring. -/
theorem RxInv.current {s : RxSide} {ram : Ram} {f : RxFrame} (inv : RxInv s ram)
    (here : s.tail = s.nextRx) (taken : s.taken = s.handled)
    (frame : s.received[s.handled]? = some f) :
    s.waiting = f :: s.received.drop (s.handled + 1) ∧ HoldsRx s ram s.nextRx f := by
  obtain ⟨inside, value⟩ := List.getElem?_eq_some_iff.mp frame
  have split : s.waiting = f :: s.received.drop (s.handled + 1) := by
    rw [RxSide.waiting, taken, List.drop_eq_getElem_cons inside, value]
  refine ⟨split, ?_⟩
  have queue := inv.queue
  rw [split, here] at queue
  exact queue.first

/-- Only buffers of EMPTY descriptors change. -/
theorem RxInv.ram {s : RxSide} {ram ram' : Ram} (inv : RxInv s ram)
    (same : ∀ j < wrnNrDesc, ¬(s.rxd j).Empty → ∀ k < 0x800,
      ram' (wrnDescOffset .rx j + k) = ram (wrnDescOffset .rx j + k)) : RxInv s ram' := by
  refine { inv with queue := ?_, knows := ?_ }
  · refine inv.queue.mono ?_ (fun _ _ free => free)
    intro i f _ holds
    refine ⟨holds.full, fun whole => (holds.filled whole).ram ?_⟩
    exact same _ (Nat.mod_lt _ (by decide)) holds.full
  · -- copying in goes on with a descriptor whose frame is still in memory
    intro between
    obtain ⟨f, frame, knows⟩ := inv.knows between
    refine ⟨f, frame, ?_⟩
    unfold RxSide.Knows at knows ⊢
    cases at_pc : s.pc with
    | copyIn r1 r2 len pos size got =>
      rw [at_pc] at knows
      obtain ⟨good, rx1, rx2, length, k, bound, at_pos, left, bytes⟩ := knows
      refine ⟨good, rx1, rx2, length, k, bound, at_pos, left, bytes.trans ?_⟩
      have here : s.tail = s.nextRx := by rw [RxSide.tail, at_pc]
      obtain ⟨-, holds⟩ := inv.current here (by rw [RxSide.taken, at_pc]) frame
      have fits := (holds.filled (by simp [at_pc, RxPc.Rewritten])).fits
      have inside := inv.queue.inside
      rw [here] at inside
      apply (ramBytes_congr _).symm
      intro i below
      exact same _ inside holds.full i (by omega)
    | _ =>
      rw [at_pc] at knows
      exact knows

private theorem RxInv.hw_lt {s : RxSide} {ram : Ram} (inv : RxInv s ram) :
    s.hwNext < wrnNrDesc := by
  rw [inv.hw]
  exact Nat.mod_lt _ (by decide)

/-- A byte that comes in does not reach the buffers of transmission. -/
theorem RxInv.store {s : RxSide} {ram : Ram} (inv : RxInv s ram) (k : Nat) (b : Byte) :
    RxInv s (s.store k b ram) ∧ ∀ a < 0x4000, s.store k b ram a = ram a := by
  unfold RxSide.store
  dsimp only
  -- the NIC writes only into the buffer of the empty descriptor it fills
  by_cases stores : (s.rxd s.hwNext).Empty ∧ k < lenR (s.rxd s.hwNext).rx3
  swap
  · rw [if_neg stores]
    exact ⟨inv, fun _ _ => rfl⟩
  rw [if_pos stores]
  obtain ⟨empty, small⟩ := stores
  have low := descOffset_lt inv.hw_lt .rx
  rw [(inv.room empty).2.rx3, offsetR_bufferReg low (by decide)]
  rw [(inv.room empty).2.rx3, lenR_bufferReg low (by decide)] at small
  constructor
  · apply inv.ram
    intro j _ full l inside
    have other : s.hwNext ≠ j := fun same => full (same ▸ empty)
    rcases buffers_apart other l inside .rx with before | after
    · exact Function.update_of_ne (by omega) _ _
    · exact Function.update_of_ne (by omega) _ _
  · intro a below
    have upper := rxOffset_ge s.hwNext
    exact Function.update_of_ne (by omega) _ _

private theorem completed_full (r1 : Word) : r1 &&& ~~~nicRx1D1Empty &&& nicRx1D1Empty = 0 := by
  simp [BitVec.and_assoc, nicRx1D1Empty]

/-- A frame that is complete joins the frames that wait. -/
theorem RxInv.complete {s : RxSide} {ram : Ram} (inv : RxInv s ram) {r1 r2 : Word} {len : Nat}
    (completes : s.Completes r1 len) : RxInv (s.complete ram r1 r2 len) ram := by
  obtain ⟨empty, fits, -⟩ := completes
  obtain ⟨room, free⟩ := inv.room empty
  have low := descOffset_lt inv.hw_lt .rx
  rw [free.rx3, lenR_bufferReg low (by decide)] at fits
  generalize done : s.complete ram r1 r2 len = s'
  have rxd : s'.rxd = Function.update s.rxd s.hwNext
      ⟨r1 &&& ~~~nicRx1D1Empty, r2, bufferReg (wrnDescOffset .rx s.hwNext) len⟩ := by
    rw [← done, RxSide.complete, free.rx3, offsetR_bufferReg low (by decide)]
  have received : s'.received = s.received ++ [⟨r1 &&& ~~~nicRx1D1Empty, r2,
      ramBytes ram (wrnDescOffset .rx s.hwNext + wrnDdataOffset) len⟩] := by
    rw [← done, RxSide.complete, free.rx3, offsetR_bufferReg low (by decide)]
  have same : s'.pc = s.pc ∧ s'.nextRx = s.nextRx ∧ s'.handled = s.handled ∧ s'.stack = s.stack ∧
      s'.stats = s.stats ∧ s'.hwNext = wrnNextDesc s.hwNext := by
    rw [← done, RxSide.complete]
    simp
  obtain ⟨pc, nextRx, handled, stack, stats, hwNext⟩ := same
  have tail : s'.tail = s.tail := by rw [RxSide.tail, pc, nextRx, RxSide.tail]
  have taken : s'.taken = s.taken := by rw [RxSide.taken, pc, handled, RxSide.taken]
  have waiting : s'.waiting = s.waiting ++ [⟨r1 &&& ~~~nicRx1D1Empty, r2,
      ramBytes ram (wrnDescOffset .rx s.hwNext + wrnDdataOffset) len⟩] := by
    rw [RxSide.waiting, taken, received, List.drop_append_of_le_length inv.taken, RxSide.waiting]
  have others {j : Nat} (other : j ≠ s.hwNext) : s'.rxd j = s.rxd j := by
    rw [rxd, Function.update_of_ne other]
  have handled_le : s.handled ≤ s.received.length := s.taken_near.1.trans inv.taken
  have accounted : s'.received.take s'.handled = s.received.take s.handled := by
    rw [received, handled, List.take_append_of_le_length handled_le]
  refine ⟨?_, ?_, ?_, ?_, ⟨?_, ?_⟩⟩
  · rw [tail, waiting]
    apply inv.queue.push room
    · rw [← inv.hw]
      refine ⟨?_, fun _ => ⟨?_, ?_, ?_, ?_, ?_⟩⟩
      · simp [rxd, WrnRxd.Empty, completed_full]
      · simp [rxd]
      · simp [rxd]
      · simpa using fits
      · simp [rxd]
      · simp
    · intro j f other holds
      rw [← inv.hw] at other
      refine ⟨by rw [others other]; exact holds.full, fun whole => ?_⟩
      rw [nextRx, pc] at whole
      have filled := holds.filled whole
      exact ⟨by rw [others other]; exact filled.rx1, by rw [others other]; exact filled.rx2,
        filled.fits, by rw [others other]; exact filled.rx3, filled.data⟩
    · intro j other free
      rw [← inv.hw] at other
      exact ⟨by rw [others other]; exact free.empty, by rw [others other]; exact free.rx3⟩
  · rw [hwNext, tail, waiting, inv.hw, wrnNextDesc, Nat.mod_add_mod, List.length_append]
    rfl
  · rw [taken, received, List.length_append]
    exact Nat.le_add_right_of_le inv.taken
  · rw [pc]
    intro between
    obtain ⟨f, frame, knows⟩ := inv.knows between
    obtain ⟨inside, -⟩ := List.getElem?_eq_some_iff.mp frame
    refine ⟨f, ?_, ?_⟩
    · rw [handled, received, List.getElem?_append_left inside]
      exact frame
    unfold RxSide.Knows at knows ⊢
    rw [pc, nextRx]
    cases at_pc : s.pc with
    | writeRx1 out =>
      rw [at_pc] at knows
      -- the driver's descriptor is not EMPTY yet
      have here := inv.current (by rw [RxSide.tail, at_pc]) (by rw [RxSide.taken, at_pc]) frame
      have other : s.nextRx ≠ s.hwNext := fun same => here.2.full (same ▸ empty)
      exact ⟨knows.1, by rw [others other]; exact knows.2⟩
    | _ =>
      rw [at_pc] at knows
      exact knows
  · rw [accounted, stack]
    exact inv.account.stack
  · rw [accounted, stats]
    exact inv.account.stats

/-! ### What the tasklet does -/

/-- Not between the two writes that give a descriptor back, and not behind them. -/
def RxPc.Plain : RxPc → Prop
  | .writeRx1 _ | .finish _ => False
  | _ => True

theorem tail_plain {s : RxSide} (plain : s.pc.Plain) : s.tail = s.nextRx := by
  unfold RxSide.tail
  cases at_pc : s.pc with
  | finish out =>
    rw [at_pc] at plain
    exact plain.elim
  | _ => rfl

private theorem taken_plain {s : RxSide} (plain : s.pc.Plain) : s.taken = s.handled := by
  unfold RxSide.taken
  cases at_pc : s.pc with
  | finish out =>
    rw [at_pc] at plain
    exact plain.elim
  | _ => rfl

private theorem not_rewritten {pc : RxPc} (plain : pc.Plain) : ¬pc.Rewritten := by
  cases pc with
  | writeRx1 out => exact plain.elim
  | _ => exact id

/-- The descriptor of the frame that the driver is at, as the hardware has left it. -/
theorem RxInv.filled {s : RxSide} {ram : Ram} {f : RxFrame} (inv : RxInv s ram)
    (plain : s.pc.Plain) (frame : s.received[s.handled]? = some f) : Filled s.rxd ram s.nextRx f :=
  (inv.current (tail_plain plain) (taken_plain plain) frame).2.filled
    fun both => not_rewritten plain both.2

/-- Steps that only move on. -/
theorem RxInv.goto {s : RxSide} {ram : Ram} {pc : RxPc} (inv : RxInv s ram) (plain : s.pc.Plain)
    (plain' : pc.Plain) (knows : ¬pc.Between → ∃ f, s.received[s.handled]? = some f ∧
      { s with pc := pc }.Knows ram f) : RxInv { s with pc := pc } ram := by
  have tail : RxSide.tail { s with pc := pc } = s.tail := by
    rw [tail_plain plain, tail_plain (s := { s with pc := pc }) plain']
  have taken : RxSide.taken { s with pc := pc } = s.taken := by
    rw [taken_plain plain, taken_plain (s := { s with pc := pc }) plain']
  have waiting : RxSide.waiting { s with pc := pc } = s.waiting := by
    rw [RxSide.waiting, taken, RxSide.waiting]
  refine ⟨?_, ?_, ?_, knows, inv.account⟩
  · rw [tail, waiting]
    refine inv.queue.mono ?_ (fun _ _ free => free)
    intro i f _ holds
    refine ⟨holds.full, fun _ => ?_⟩
    exact holds.filled fun both => not_rewritten plain both.2
  · rw [tail, waiting]
    exact inv.hw
  · rw [taken]
    exact inv.taken

private theorem ramBytes_add (ram : Ram) (a m n : Nat) :
    ramBytes ram a (m + n) = ramBytes ram a m ++ ramBytes ram (a + m) n := by
  unfold ramBytes
  rw [List.range_add, List.map_append, List.map_map]
  congr 1
  apply List.map_congr_left
  intro i _
  rw [Function.comp_apply, Nat.add_assoc]

private theorem ramBytes_word (ram : Ram) (a : Nat) : putLe32 (readl ram a) = ramBytes ram a 4 := by
  rw [putLe32_readl]
  rfl

/-- The bytes behind the first ones, as many as the frame has. -/
theorem ramBytes_middle (ram : Ram) (a m n : Nat) {k : Nat} (enough : m + n ≤ k) :
    ((ramBytes ram a k).drop m).take n = ramBytes ram (a + m) n := by
  obtain ⟨rest, rfl⟩ := Nat.exists_eq_add_of_le enough
  rw [ramBytes_add, ramBytes_add, List.append_assoc, List.drop_left' (length_ramBytes _ _ _),
    List.take_left' (length_ramBytes _ _ _)]

private theorem outcome_good {f : RxFrame} (good : f.Good) : f.outcome = some f := if_pos good

private theorem outcome_bad {f : RxFrame} (bad : ¬f.Good) : f.outcome = none := if_neg bad

/-- The tasklet looks at the next descriptor. -/
theorem RxInv.poll {s : RxSide} {ram : Ram} (inv : RxInv s ram) (at_pc : s.pc = .poll) :
    RxInv { s with pc := if (s.rxd s.nextRx).Empty then .enable else .readRx1 } ram := by
  have plain : s.pc.Plain := by rw [at_pc]; trivial
  by_cases empty : (s.rxd s.nextRx).Empty
  · rw [if_pos empty]
    exact inv.goto plain trivial fun between => absurd trivial between
  rw [if_neg empty]
  refine inv.goto plain trivial fun _ => ?_
  -- a descriptor that is not EMPTY holds a frame
  cases frame : s.received[s.handled]? with
  | some f => exact ⟨f, rfl, trivial⟩
  | none =>
    have queue := inv.queue
    rw [RxSide.waiting, taken_plain plain, tail_plain plain,
      List.drop_eq_nil_of_le (List.getElem?_eq_none_iff.mp frame)] at queue
    exact absurd queue.idle.empty empty

/-- The tasklet reads where the frame is. -/
theorem RxInv.readRx3 {s : RxSide} {ram : Ram} (inv : RxInv s ram) {r1 r2 : Word}
    (reads : ReadTimes) (at_pc : s.pc = .readRx3 r1 r2) : RxInv (s.tasklet ram reads) ram := by
  have plain : s.pc.Plain := by rw [at_pc]; trivial
  obtain ⟨f, frame, knows⟩ := inv.knows (by simp [at_pc, RxPc.Between])
  have filled := inv.filled plain frame
  simp only [RxSide.Knows, at_pc] at knows
  obtain ⟨rfl, rfl⟩ := knows
  simp only [RxSide.tasklet, at_pc]
  -- three ways on: an erroneous frame, one without a timestamp, and a good one
  by_cases error : f.rx1 &&& nicRx1D1Error = 0
  swap
  · rw [if_pos error]
    exact inv.goto plain trivial fun _ => ⟨f, frame, (outcome_bad fun good => error good.1).symm⟩
  rw [if_neg (not_not.mpr error)]
  by_cases got : f.rx1 &&& nicRx1D1GotTs = 0
  · rw [if_pos got]
    exact inv.goto plain trivial fun _ => ⟨f, frame, (outcome_bad fun good => good.2 got).symm⟩
  rw [if_neg got]
  refine inv.goto plain trivial fun _ => ⟨f, frame, ⟨error, got⟩, rfl, rfl, ?_⟩
  have inside := inv.queue.inside
  rw [tail_plain plain] at inside
  have low := descOffset_lt inside .rx
  have fits := filled.fits
  rw [filled.rx3, offsetR_bufferReg low (by omega), lenR_bufferReg low (by omega)]
  exact ⟨rfl, 0, by omega, rfl, rfl, rfl⟩

/-- The tasklet copies the frame word by word. -/
theorem RxInv.copyIn {s : RxSide} {ram : Ram} (inv : RxInv s ram) {r1 r2 : Word}
    {len pos size : Nat} {got : List Byte} (reads : ReadTimes)
    (at_pc : s.pc = .copyIn r1 r2 len pos size got) : RxInv (s.tasklet ram reads) ram := by
  have plain : s.pc.Plain := by rw [at_pc]; trivial
  obtain ⟨f, frame, knows⟩ := inv.knows (by simp [at_pc, RxPc.Between])
  have filled := inv.filled plain frame
  simp only [RxSide.Knows, at_pc] at knows
  obtain ⟨good, rfl, rfl, rfl, k, bound, rfl, left, rfl⟩ := knows
  simp only [RxSide.tasklet, at_pc]
  by_cases more : size > 0
  · -- one more word
    rw [if_pos more]
    refine inv.goto plain trivial fun _ => ⟨f, frame, good, rfl, rfl, rfl, k + 1, ?_, ?_, ?_, ?_⟩
    · omega
    · dsimp only
      omega
    · omega
    · rw [ramBytes_word, Nat.mul_add, ramBytes_add]
  · rw [if_neg more]
    refine inv.goto plain trivial fun _ => ⟨f, frame, ?_⟩
    -- the words copied cover the frame, and the two bytes in front are cut off
    change some _ = f.outcome
    rw [outcome_good good, ramBytes_middle ram _ _ _ (by omega), filled.data]

/-- The tasklet gives the descriptor its buffer again. -/
theorem RxInv.writeRx3 {s : RxSide} {ram : Ram} (inv : RxInv s ram) {out : Option RxFrame}
    (reads : ReadTimes) (at_pc : s.pc = .writeRx3 out) : RxInv (s.tasklet ram reads) ram := by
  have plain : s.pc.Plain := by rw [at_pc]; trivial
  obtain ⟨f, frame, knows⟩ := inv.knows (by simp [at_pc, RxPc.Between])
  simp only [RxSide.Knows, at_pc] at knows
  have tail := tail_plain plain
  have taken := taken_plain plain
  have full := (inv.current tail taken frame).2.full
  have queue := inv.queue
  have hw := inv.hw
  have bound := inv.taken
  rw [RxSide.waiting, taken, tail] at queue hw
  rw [taken] at bound
  simp only [RxSide.tasklet, at_pc]
  refine ⟨?_, hw, bound, fun _ => ⟨f, frame, knows, by simp⟩, inv.account⟩
  change Queued wrnNrDesc s.nextRx (s.received.drop s.handled) _ _
  refine queue.mono ?_ ?_
  · intro i g _ holds
    generalize (s.nextRx + i) % wrnNrDesc = j at holds
    constructor
    · by_cases here : j = s.nextRx
      · subst here
        simpa [WrnRxd.Empty] using full
      · simpa [here] using holds.full
    · intro whole
      -- every other descriptor is left alone
      have here : j ≠ s.nextRx := fun here => whole ⟨here, trivial⟩
      have old := holds.filled fun both => here both.1
      exact ⟨by simpa [here] using old.rx1, by simpa [here] using old.rx2, old.fits,
        by simpa [here] using old.rx3, old.data⟩
  · intro j _ free
    have here : j ≠ s.nextRx := fun here => full (here ▸ free.empty)
    exact ⟨by simpa [here] using free.empty, by simpa [here] using free.rx3⟩

/-- The tasklet gives the descriptor back to the hardware. -/
theorem RxInv.writeRx1 {s : RxSide} {ram : Ram} (inv : RxInv s ram) {out : Option RxFrame}
    (reads : ReadTimes) (at_pc : s.pc = .writeRx1 out) : RxInv (s.tasklet ram reads) ram := by
  obtain ⟨f, frame, knows⟩ := inv.knows (by simp [at_pc, RxPc.Between])
  simp only [RxSide.Knows, at_pc] at knows
  have tail : s.tail = s.nextRx := by rw [RxSide.tail, at_pc]
  have taken : s.taken = s.handled := by rw [RxSide.taken, at_pc]
  obtain ⟨waiting, -⟩ := inv.current tail taken frame
  obtain ⟨inside, -⟩ := List.getElem?_eq_some_iff.mp frame
  -- giving the descriptor back pops the oldest frame from the ring
  have queue := inv.queue
  have hw := inv.hw
  rw [waiting, tail] at queue hw
  simp only [RxSide.tasklet, at_pc]
  refine ⟨?_, ?_, inside, fun _ => ⟨f, frame, knows.1⟩, inv.account⟩
  · change Queued wrnNrDesc (wrnNextDesc s.nextRx) (s.received.drop (s.handled + 1)) _ _
    apply queue.pop
    · exact ⟨by simp [WrnRxd.Empty, nicRx1D1Empty], by simpa using knows.2⟩
    · -- the other descriptors are not written
      intro j g here holds
      refine ⟨by simpa [here] using holds.full, fun _ => ?_⟩
      have old := holds.filled fun both => here both.1
      exact ⟨by simpa [here] using old.rx1, by simpa [here] using old.rx2, old.fits,
        by simpa [here] using old.rx3, old.data⟩
    · intro j here free
      exact ⟨by simpa [here] using free.empty, by simpa [here] using free.rx3⟩
  · change s.hwNext = (wrnNextDesc s.nextRx + (s.received.drop (s.handled + 1)).length) % wrnNrDesc
    rw [hw, wrnNextDesc, Nat.mod_add_mod, List.length_cons]
    congr 1
    omega

/-! ### The account -/

private theorem countedStats_bad {fs : List RxFrame} {f : RxFrame} (bad : ¬f.Good) :
    countedStats (fs ++ [f]) = Function.update (countedStats fs) 0
      { countedStats fs 0 with rxErrors := (countedStats fs 0).rxErrors + 1 } := by
  funext ep
  by_cases first : ep = 0
  · subst first
    simp [countedStats, bad, BitVec.ofNat_add]
  · simp [countedStats, bad, first]

private theorem countedStats_good {fs : List RxFrame} {f : RxFrame} (good : f.Good) :
    countedStats (fs ++ [f]) = Function.update (countedStats fs) (rx1D1PortR f.rx1)
      { countedStats fs (rx1D1PortR f.rx1) with
        rxPackets := (countedStats fs (rx1D1PortR f.rx1)).rxPackets + 1
        rxBytes := (countedStats fs (rx1D1PortR f.rx1)).rxBytes +
          BitVec.ofNat 32 f.data.length } := by
  funext ep
  by_cases mine : ep = rx1D1PortR f.rx1
  · subst mine
    simp [countedStats, good, BitVec.ofNat_add]
  · have other : ¬rx1D1PortR f.rx1 = ep := fun same => mine same.symm
    simp [countedStats, good, mine, other]

/-- One frame more is accounted for. -/
theorem Accounted.next {done : List RxFrame} {s : RxSide} (account : Accounted done s.stack s.stats)
    (f : RxFrame) (reads : ReadTimes) :
    Accounted (done ++ [f]) (s.account reads f.outcome).stack
      (s.account reads f.outcome).stats := by
  by_cases good : f.Good
  · rw [outcome_good good]
    refine ⟨?_, ?_⟩
    · rw [List.filter_append]
      apply List.rel_append account.stack
      simpa [good] using ⟨reads, rfl⟩
    · rw [countedStats_good good, ← account.stats]
      rfl
  · rw [outcome_bad good]
    refine ⟨?_, ?_⟩
    · simpa [good, RxSide.account] using account.stack
    · rw [countedStats_bad good, ← account.stats]
      rfl

/-- The stack and the counters have no part in the ring. -/
theorem account_same (s : RxSide) (reads : ReadTimes) (out : Option RxFrame) :
    (s.account reads out).rxd = s.rxd ∧ (s.account reads out).received = s.received ∧
      (s.account reads out).hwNext = s.hwNext := by
  cases out <;> exact ⟨rfl, rfl, rfl⟩

/-- The tasklet hands the frame to the stack, or counts the error. -/
theorem RxInv.finish {s : RxSide} {ram : Ram} (inv : RxInv s ram) {out : Option RxFrame}
    (reads : ReadTimes) (at_pc : s.pc = .finish out) : RxInv (s.tasklet ram reads) ram := by
  obtain ⟨f, frame, knows⟩ := inv.knows (by simp [at_pc, RxPc.Between])
  simp only [RxSide.Knows, at_pc] at knows
  subst knows
  have tail : s.tail = wrnNextDesc s.nextRx := by rw [RxSide.tail, at_pc]
  have taken : s.taken = s.handled + 1 := by rw [RxSide.taken, at_pc]
  -- the frame left the ring one step earlier, here it is only accounted for
  have queue := inv.queue
  have hw := inv.hw
  have bound := inv.taken
  rw [RxSide.waiting, taken, tail] at queue hw
  rw [taken] at bound
  obtain ⟨rxd, received, hwNext⟩ := account_same s reads f.outcome
  simp only [RxSide.tasklet, at_pc]
  refine ⟨?_, ?_, ?_, fun between => absurd trivial between, ?_⟩
  · change Queued wrnNrDesc (wrnNextDesc s.nextRx)
      ((s.account reads f.outcome).received.drop (s.handled + 1)) _ _
    rw [received]
    apply queue.mono
    · intro i g _ holds
      refine ⟨by rw [rxd]; exact holds.full, fun _ => ?_⟩
      dsimp only
      rw [rxd]
      exact holds.filled fun both => by simp [at_pc, RxPc.Rewritten] at both
    · intro j _ free
      dsimp only
      rwa [rxd]
  · change (s.account reads f.outcome).hwNext = (wrnNextDesc s.nextRx +
      ((s.account reads f.outcome).received.drop (s.handled + 1)).length) % wrnNrDesc
    rw [hwNext, received, hw]
  · change s.handled + 1 ≤ (s.account reads f.outcome).received.length
    rwa [received]
  · change Accounted ((s.account reads f.outcome).received.take (s.handled + 1)) _ _
    rw [received, List.take_add_one, frame]
    exact inv.account.next f reads

/-- Every step of the tasklet keeps the invariant. -/
theorem RxInv.tasklet {s : RxSide} {ram : Ram} (inv : RxInv s ram) (reads : ReadTimes) :
    RxInv (s.tasklet ram reads) ram := by
  cases at_pc : s.pc with
  | idle =>
    simp only [RxSide.tasklet, at_pc]
    exact inv
  | poll =>
    simp only [RxSide.tasklet, at_pc]
    exact inv.poll at_pc
  | readRx1 =>
    have plain : s.pc.Plain := by rw [at_pc]; trivial
    obtain ⟨f, frame, -⟩ := inv.knows (by simp [at_pc, RxPc.Between])
    simp only [RxSide.tasklet, at_pc]
    exact inv.goto plain trivial fun _ => ⟨f, frame, (inv.filled plain frame).rx1⟩
  | readRx2 r1 =>
    have plain : s.pc.Plain := by rw [at_pc]; trivial
    obtain ⟨f, frame, knows⟩ := inv.knows (by simp [at_pc, RxPc.Between])
    simp only [RxSide.Knows, at_pc] at knows
    simp only [RxSide.tasklet, at_pc]
    exact inv.goto plain trivial fun _ => ⟨f, frame, knows, (inv.filled plain frame).rx2⟩
  | readRx3 r1 r2 => exact inv.readRx3 reads at_pc
  | copyIn r1 r2 len pos size got => exact inv.copyIn reads at_pc
  | writeRx3 out => exact inv.writeRx3 reads at_pc
  | writeRx1 out => exact inv.writeRx1 reads at_pc
  | finish out => exact inv.finish reads at_pc
  | enable =>
    simp only [RxSide.tasklet, at_pc]
    exact inv.goto (by rw [at_pc]; trivial) trivial fun between => absurd trivial between

/-! ### Runs -/

structure NicInv (s : NicSystem) : Prop where
  rx : RxInv s.rx s.databuf
  tx : ∃ waiting, TxInv s.tx s.databuf waiting

/-- The invariant holds after the probe. -/
theorem nicInv_probed (ier : Word → Word → Word) (databuf : Ram) :
    NicInv (.probed ier databuf) :=
  ⟨rxInv_probed databuf, [], txInv_probed databuf⟩

/-- Every step of the system keeps the invariant. -/
theorem NicInv.step {ier : Word → Word → Word} {s : NicSystem} (inv : NicInv s) (e : NicEvent) :
    NicInv (s.step ier e) := by
  obtain ⟨rx, waiting, tx⟩ := inv
  cases e with
  | store k b =>
    obtain ⟨stored, below⟩ := rx.store k b
    exact ⟨stored, waiting, tx.ram below⟩
  | complete r1 r2 len =>
    rw [NicSystem.step]
    split
    next completes => exact ⟨rx.complete completes, waiting, tx⟩
    · exact ⟨rx, waiting, tx⟩
  | send =>
    rw [NicSystem.step]
    split
    · exact ⟨rx, tx.send⟩
    · exact ⟨rx, waiting, tx⟩
  | xmit ep skb len hwTstamp =>
    -- the transmit buffers lie below all receive buffers
    refine ⟨rx.ram ?_, tx.xmit ep skb len hwTstamp⟩
    intro j _ _ k _
    exact tx.copyOut skb len hwTstamp (Nat.le_add_right_of_le (rxOffset_ge j))
  | tstamp idreg => exact ⟨rx, waiting, tx.sameRing (sameRing_tstamp _ _)⟩
  | irq =>
    rw [NicSystem.step]
    split <;> exact ⟨rx, waiting, tx⟩
  | handler =>
    refine ⟨rx, waiting, ?_⟩
    dsimp only [NicSystem.step]
    unfold TxSide.interrupt
    -- every branch of the handler leaves the descriptors waiting for the NIC as they are
    split
    · split
      · exact tx.sameRing (sameRing_txInterrupt _)
      · exact tx
    · exact tx
  | softirq =>
    rw [NicSystem.step]
    split
    next idle _ =>
      refine ⟨rx.goto ?_ trivial fun between => absurd trivial between, waiting, tx⟩
      rw [idle]
      trivial
    · exact ⟨rx, waiting, tx⟩
  | tasklet reads => exact ⟨rx.tasklet reads, waiting, tx⟩

/-- In every interleaving the received frames reach the stack in order, once and byte for byte,
except those with an error or without a time, which are counted; nothing is written beyond the
buffer of a frame, and no more than a ring and one frame are under way. -/
theorem received_in_order (ier : Word → Word → Word) (databuf : Ram) (es : List NicEvent) :
    let s := (run (NicSystem.step ier) (.probed ier databuf) es).rx
    (s.handled ≤ s.received.length ∧ s.received.length ≤ s.handled + wrnNrDesc + 1) ∧
      List.Forall₂ Delivers ((s.received.take s.handled).filter fun f => f.Good) s.stack ∧
      s.stats = countedStats (s.received.take s.handled) ∧
      ∀ r1 r2 len pos size got, s.pc = .copyIn r1 r2 len pos size got → got.length ≤ len + 16 := by
  intro s
  have inv : RxInv s (run (NicSystem.step ier) (.probed ier databuf) es).databuf :=
    (run_preserves NicInv _ (fun _ e holds => holds.step e) _ es (nicInv_probed ier databuf)).rx
  refine ⟨?_, inv.account.stack, inv.account.stats, ?_⟩
  · -- the frames not yet handled fit into the ring, except for the one in hand
    have taken := inv.taken
    have ring := inv.queue.fits
    have near := s.taken_near
    rw [RxSide.waiting, List.length_drop] at ring
    omega
  · intro r1 r2 len pos size got at_pc
    obtain ⟨f, -, knows⟩ := inv.knows (by simp [at_pc, RxPc.Between])
    simp only [RxSide.Knows, at_pc] at knows
    obtain ⟨-, -, -, -, k, bound, -, -, rfl⟩ := knows
    rw [length_ramBytes]
    unfold wrnDdataOffset at bound
    omega

/-- In every interleaving of whole calls of `wrn_start_xmit` with the other steps the frames leave in
the order in which they were accepted, byte for byte and through their own endpoint, and no more
than a ring of them waits. -/
theorem sent_in_order (ier : Word → Word → Word) (databuf : Ram) (es : List NicEvent) :
    let s := (run (NicSystem.step ier) (.probed ier databuf) es).tx
    ∃ waiting, s.accepted = s.wire ++ waiting ∧ waiting.length ≤ wrnNrDesc := by
  intro s
  obtain ⟨waiting, inv⟩ :=
    (run_preserves NicInv _ (fun _ e holds => holds.step e) _ es (nicInv_probed ier databuf)).tx
  exact ⟨waiting, inv.order, inv.queue.fits⟩

end WrSwitch.Nic
