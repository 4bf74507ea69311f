import WrSwitch.Nic.Driver

/-!
# Conservation of the transmit descriptors

Between tail and head are the frames that were accepted and not yet reclaimed, provided one
descriptor always stays free, no timestamp comes before the interrupt that reclaims its
frame, and no frame id is in use twice.
-/
namespace WrSwitch.Nic

open Machine

/-! ### What is asked of the ring -/

/-- Places from the tail on. -/
def WrnDev.offset (wrn : WrnDev) (i : Nat) : Nat := (i + wrnNrDesc - wrn.nextTxTail) % wrnNrDesc

/-- Cyclically from `next_tx_tail` to `next_tx_head`. -/
def WrnDev.InRing (wrn : WrnDev) (i : Nat) : Prop := wrn.offset i < wrn.offset wrn.nextTxHead

instance (wrn : WrnDev) (i : Nat) : Decidable (wrn.InRing i) := inferInstanceAs (Decidable (_ < _))

/-- Buffers are released once and after their descriptors completed, and the ring holds the
frames that are accepted and not reclaimed. -/
structure Conserved (s : NicState) : Prop where
  once : s.released.Nodup
  sent : ∀ k ∈ s.released, k ∈ s.sent
  ring : ∀ i < wrnNrDesc, s.wrn.InRing i ↔ s.pending i = true

/-- Reclaiming has not stopped at a completed descriptor. -/
def NotStuck (wrn : WrnDev) : Prop := wrn.nextTxTail = wrn.nextTxHead ∨ wrn.Ready wrn.nextTxTail

instance (wrn : WrnDev) : Decidable (NotStuck wrn) := inferInstanceAs (Decidable (_ ∨ _))

/-- No free descriptor is found for the packet. -/
def Refused (s : NicState) (len : Nat) (hwTstamp : Bool) : Prop :=
  (wrnStartXmit ⟨s.accepted, len, hwTstamp⟩ s.wrn).1 = -enomem

def Good (s : NicState) (e : Event) : Prop :=
  Conserved (s.step e) ∧
    match e with
    | .xmit len hwTstamp => Refused s len hwTstamp →
        s.step e = { s with wrn := { s.wrn with id := (s.step e).wrn.id } }
    | .txInterrupt => NotStuck (s.step e).wrn
    | .complete | .tstamp _ => True

/-- A packet that is accepted leaves a descriptor free, the completed descriptors have their
buffers when the interrupt reclaims them, and a timestamp finds a completed descriptor. -/
def InTime (s : NicState) : Event → Prop
  | .xmit len _ =>
    len ≤ wrnMtu → ¬s.wrn.Ready s.wrn.nextTxHead →
      wrnNextDesc s.wrn.nextTxHead ≠ s.wrn.nextTxTail
  | .txInterrupt => ∀ i < wrnNrDesc, s.wrn.InRing i → ¬s.wrn.Ready i →
      (s.wrn.skbDesc i).skb ≠ none
  | .tstamp idreg => ∀ i, findFrame s.wrn (tsfR1Fid idreg) = some i → ¬s.wrn.Ready i
  | .complete => True

/-! ### The READY bit -/

/-- A descriptor is ready by its lowest bit. -/
theorem ready_iff (wrn : WrnDev) (i : Nat) : wrn.Ready i ↔ (wrn.tx1 i).getLsbD 0 = true := by
  rw [WrnDev.Ready, nicTx1D1Ready]
  constructor
  · intro ready
    by_contra clear
    apply ready
    apply BitVec.eq_of_getLsbD_eq
    intro j _
    cases j <;> simp_all
  · intro bit zero
    have low : (wrn.tx1 i &&& 1).getLsbD 0 = false := by rw [zero]; rfl
    rw [BitVec.getLsbD_and, bit] at low
    exact absurd low (by decide)

theorem tx1Value_bit (len : Nat) (id : BitVec 16) (doStamp : Bool) :
    (tx1Value len id doStamp).getLsbD 0 = true := by
  simp [tx1Value, nicTx1D1Ready]

theorem clear_bit (x : Word) : (x &&& ~~~nicTx1D1Ready).getLsbD 0 = false := by
  simp [nicTx1D1Ready]

/-! ### The account -/

/-- The completed descriptors of the ring come first, the READY ones after them. A buffer in a
descriptor was not released, and was sent unless the descriptor is READY. -/
structure Inv (s : NicState) : Prop where
  tail : s.wrn.nextTxTail < wrnNrDesc
  head : s.wrn.nextTxHead < wrnNrDesc
  hw : s.hwNext < wrnNrDesc
  front : s.wrn.offset s.hwNext ≤ s.wrn.offset s.wrn.nextTxHead
  ready : ∀ i < wrnNrDesc, s.wrn.Ready i ↔
    s.wrn.offset s.hwNext ≤ s.wrn.offset i ∧ s.wrn.offset i < s.wrn.offset s.wrn.nextTxHead
  ring : ∀ i < wrnNrDesc, s.wrn.InRing i ↔ s.pending i = true
  held : ∀ i < wrnNrDesc, s.wrn.Ready i → ∃ skb, (s.wrn.skbDesc i).skb = some skb ∧
    skb.serial = s.frame i ∧ skb.serial ∉ s.sent
  done : ∀ i < wrnNrDesc, ¬s.wrn.Ready i → ∀ skb, (s.wrn.skbDesc i).skb = some skb →
    skb.serial ∈ s.sent
  live : ∀ i < wrnNrDesc, ∀ skb, (s.wrn.skbDesc i).skb = some skb →
    skb.serial < s.accepted ∧ skb.serial ∉ s.released
  apart : ∀ i < wrnNrDesc, ∀ j < wrnNrDesc, ∀ a b, (s.wrn.skbDesc i).skb = some a →
    (s.wrn.skbDesc j).skb = some b → a.serial = b.serial → i = j
  valid : ∀ i < wrnNrDesc, (s.wrn.skbDesc i).valid = 0
  once : s.released.Nodup
  before : ∀ k ∈ s.released, k ∈ s.sent
  old : ∀ k ∈ s.sent, k < s.accepted

private theorem Inv.conserved {s : NicState} (inv : Inv s) :
    Conserved s := ⟨inv.once, inv.before, inv.ring⟩

private theorem inv_init : Inv .init := by
  refine ⟨by decide, by decide, by decide, by decide, ?_, ?_, ?_, ?_, ?_, ?_, ?_, ?_, ?_, ?_⟩
  all_goals simp [NicState.init, WrnDev.probed, WrnDev.Ready, WrnDev.InRing, WrnDev.offset]

/-! ### Places -/

private theorem offset_lt (wrn : WrnDev) (i : Nat) :
    wrn.offset i < wrnNrDesc := Nat.mod_lt _ (by decide)

private theorem offset_tail (wrn : WrnDev) : wrn.offset wrn.nextTxTail = 0 := by
  simp only [WrnDev.offset, wrnNrDesc]
  omega

private theorem offset_pos {wrn : WrnDev} {i : Nat} (tail : wrn.nextTxTail < wrnNrDesc)
    (bound : i < wrnNrDesc) : 0 < wrn.offset i ↔ i ≠ wrn.nextTxTail := by
  simp only [WrnDev.offset, wrnNrDesc] at *
  omega

private theorem offset_inj {wrn : WrnDev} {i j : Nat} (tail : wrn.nextTxTail < wrnNrDesc)
    (boundI : i < wrnNrDesc) (boundJ : j < wrnNrDesc) : wrn.offset i = wrn.offset j ↔ i = j := by
  simp only [WrnDev.offset, wrnNrDesc] at *
  omega

private theorem offset_next {wrn : WrnDev} {i : Nat} (tail : wrn.nextTxTail < wrnNrDesc)
    (bound : i < wrnNrDesc) (apart : wrnNextDesc i ≠ wrn.nextTxTail) :
    wrn.offset (wrnNextDesc i) = wrn.offset i + 1 := by
  simp only [WrnDev.offset, wrnNextDesc, wrnNrDesc] at *
  omega

private theorem next_tail {wrn : WrnDev} {i : Nat} (tail : wrn.nextTxTail < wrnNrDesc)
    (bound : i < wrnNrDesc) (before : wrn.offset i < wrn.offset wrn.nextTxHead) :
    wrnNextDesc i ≠ wrn.nextTxTail := by
  have small := offset_lt wrn wrn.nextTxHead
  simp only [WrnDev.offset, wrnNextDesc, wrnNrDesc] at *
  omega

/-! ### Parts of steps -/

/-- The release of a buffer whose descriptor is completed. -/
def NicState.release (s : NicState) (i : Nat) (skb : SkBuff) : NicState :=
  { s with
    wrn := s.wrn.setDesc i { s.wrn.skbDesc i with skb := none }
    released := s.released ++ [skb.serial] }

/-- A buffer of a completed descriptor may be freed. -/
theorem Inv.release {s : NicState} (inv : Inv s) {i : Nat} {skb : SkBuff} (bound : i < wrnNrDesc)
    (completed : ¬s.wrn.Ready i) (buffer : (s.wrn.skbDesc i).skb = some skb) :
    Inv (s.release i skb) := by
  have sent := inv.done i bound completed skb buffer
  have fresh := (inv.live i bound skb buffer).2
  have self : ((s.release i skb).wrn.skbDesc i).skb = none := by
    simp [NicState.release, WrnDev.setDesc]
  -- the release touches one descriptor only
  have others {j : Nat} (other : j ≠ i) :
      (s.release i skb).wrn.skbDesc j = s.wrn.skbDesc j := Function.update_of_ne other _ _
  have kept {j : Nat} {a : SkBuff} (present : ((s.release i skb).wrn.skbDesc j).skb = some a) :
      j ≠ i ∧ (s.wrn.skbDesc j).skb = some a := by
    by_cases same : j = i
    · rw [same, self] at present
      cases present
    · rw [others same] at present
      exact ⟨same, present⟩
  exact {
    tail := inv.tail
    head := inv.head
    hw := inv.hw
    front := inv.front
    ready := inv.ready
    ring := inv.ring
    held := by
      intro j boundJ readyJ
      have other : j ≠ i := fun same => completed (same ▸ readyJ)
      rw [others other]
      exact inv.held j boundJ readyJ
    done := fun j boundJ notReady a present => inv.done j boundJ notReady a (kept present).2
    live := by
      intro j boundJ a present
      obtain ⟨other, old⟩ := kept present
      have alive := inv.live j boundJ a old
      refine ⟨alive.1, ?_⟩
      simp only [NicState.release, List.mem_append, List.mem_singleton, not_or]
      exact ⟨alive.2, fun same => other (inv.apart j boundJ i bound a skb old buffer same)⟩
    apart := fun j boundJ k boundK a b first second =>
      inv.apart j boundJ k boundK a b (kept first).2 (kept second).2
    valid := by
      intro j boundJ
      by_cases same : j = i
      · subst same
        simpa [NicState.release, WrnDev.setDesc] using inv.valid j boundJ
      · rw [others same]
        exact inv.valid j boundJ
    once := by
      rw [NicState.release, List.nodup_append]
      exact ⟨inv.once, List.nodup_singleton _, by
        intro a member b last
        rw [List.mem_singleton.mp last]
        exact fun same => fresh (same ▸ member)⟩
    before := by
      intro k member
      rcases List.mem_append.mp member with old | last
      · exact inv.before k old
      · exact List.mem_singleton.mp last ▸ sent
    old := inv.old }

/-- The tail passes a completed descriptor. -/
def NicState.pass (s : NicState) : NicState :=
  { s with
    wrn := { s.wrn with nextTxTail := wrnNextDesc s.wrn.nextTxTail }
    pending := fun i => s.pending i && i ∉ [s.wrn.nextTxTail] }

private theorem offset_pass {s : NicState} {i : Nat} (tail : s.wrn.nextTxTail < wrnNrDesc)
    (bound : i < wrnNrDesc) :
    s.pass.wrn.offset i =
      if i = s.wrn.nextTxTail then wrnNrDesc - 1 else s.wrn.offset i - 1 := by
  simp only [NicState.pass, WrnDev.offset, wrnNextDesc, wrnNrDesc] at *
  split <;> omega

private theorem pass_inRing {s : NicState} {i : Nat} (inv : Inv s) (bound : i < wrnNrDesc)
    (more : s.wrn.nextTxTail ≠ s.wrn.nextTxHead) :
    s.pass.wrn.InRing i ↔ s.wrn.InRing i ∧ i ≠ s.wrn.nextTxTail := by
  have headPlace := (offset_pos inv.tail inv.head).mpr more.symm
  have headSmall := offset_lt s.wrn s.wrn.nextTxHead
  change s.pass.wrn.offset i < s.pass.wrn.offset s.wrn.nextTxHead ↔ _
  rw [offset_pass inv.tail bound, offset_pass inv.tail inv.head, if_neg more.symm, WrnDev.InRing]
  split
  next same => exact iff_of_false (by omega) (fun both => both.2 same)
  next other =>
    have place := (offset_pos inv.tail bound).mpr other
    rw [and_iff_left other]
    omega

/-- The tail may pass a completed descriptor. -/
theorem Inv.pass {s : NicState} (inv : Inv s) (more : s.wrn.nextTxTail ≠ s.wrn.nextTxHead)
    (completed : ¬s.wrn.Ready s.wrn.nextTxTail) : Inv s.pass := by
  -- the tail is not ready, so the hardware is ahead of it
  have headPlace := (offset_pos inv.tail inv.head).mpr more.symm
  have hwPlace : 0 < s.wrn.offset s.hwNext := by
    by_contra none
    have tailPlace := offset_tail s.wrn
    exact completed ((inv.ready _ inv.tail).mpr ⟨by omega, by omega⟩)
  have hwOther := (offset_pos inv.tail inv.hw).mp hwPlace
  -- the offsets count from the tail, and so drop by one
  have hwMoved : s.pass.wrn.offset s.hwNext = s.wrn.offset s.hwNext - 1 := by
    rw [offset_pass inv.tail inv.hw, if_neg hwOther]
  have headMoved : s.pass.wrn.offset s.wrn.nextTxHead = s.wrn.offset s.wrn.nextTxHead - 1 := by
    rw [offset_pass inv.tail inv.head, if_neg more.symm]
  have headSmall := offset_lt s.wrn s.wrn.nextTxHead
  have front := inv.front
  exact {
    tail := Nat.mod_lt _ (by decide)
    head := inv.head
    hw := inv.hw
    front := by
      change s.pass.wrn.offset s.hwNext ≤ s.pass.wrn.offset s.wrn.nextTxHead
      omega
    ready := by
      intro i bound
      change s.wrn.Ready i ↔ s.pass.wrn.offset s.hwNext ≤ s.pass.wrn.offset i ∧
        s.pass.wrn.offset i < s.pass.wrn.offset s.wrn.nextTxHead
      rw [hwMoved, headMoved, offset_pass inv.tail bound]
      split
      next same =>
        subst same
        exact iff_of_false completed (by omega)
      next other =>
        have place := (offset_pos inv.tail bound).mpr other
        rw [inv.ready i bound]
        omega
    ring := by
      intro i bound
      rw [pass_inRing inv bound more, inv.ring i bound]
      simp [NicState.pass]
    held := inv.held
    done := inv.done
    live := inv.live
    apart := inv.apart
    valid := inv.valid
    once := inv.once
    before := inv.before
    old := inv.old }

/-! ### Reclaiming -/

/-- The device after one round of the loop of `wrn_tx_interrupt`. -/
def reclaimOne (wrn : WrnDev) (skb : SkBuff) : Reclaimed :=
  let i := wrn.nextTxTail
  let (freed, wrn) :=
    if skb.hwTstamp then wrnTxTstampSkb wrn i
    else ([skb], wrn.setDesc i { wrn.skbDesc i with skb := none })
  ⟨[i], freed, { wrn with nextTxTail := wrnNextDesc i }⟩

private theorem txReclaim_round {wrn : WrnDev} {skb : SkBuff} (fuel : Nat)
    (more : wrn.nextTxTail ≠ wrn.nextTxHead) (completed : ¬wrn.Ready wrn.nextTxTail)
    (buffer : (wrn.skbDesc wrn.nextTxTail).skb = some skb) :
    txReclaim (fuel + 1) wrn =
      { descs := (reclaimOne wrn skb).descs ++ (txReclaim fuel (reclaimOne wrn skb).wrn).descs
        freed := (reclaimOne wrn skb).freed ++ (txReclaim fuel (reclaimOne wrn skb).wrn).freed
        wrn := (txReclaim fuel (reclaimOne wrn skb).wrn).wrn } := by
  rw [txReclaim]
  simp only [if_neg more, if_neg completed, buffer]
  rfl

/-- The buffer is freed, or kept for its timestamp. -/
theorem reclaimOne_cases (wrn : WrnDev) (skb : SkBuff)
    (valid : (wrn.skbDesc wrn.nextTxTail).valid = 0) :
    reclaimOne wrn skb =
        ⟨[wrn.nextTxTail], [], { wrn with nextTxTail := wrnNextDesc wrn.nextTxTail }⟩ ∨
      reclaimOne wrn skb = ⟨[wrn.nextTxTail], [skb],
        { wrn.setDesc wrn.nextTxTail { wrn.skbDesc wrn.nextTxTail with skb := none } with
          nextTxTail := wrnNextDesc wrn.nextTxTail }⟩ := by
  cases stamp : skb.hwTstamp with
  | true => exact .inl (by simp [reclaimOne, stamp, wrnTxTstampSkb, valid])
  | false => exact .inr (by simp [reclaimOne, stamp])

private theorem NicState.reclaim_reclaim (s : NicState) (r r' : Reclaimed) :
    (s.reclaim r).reclaim r' =
      s.reclaim ⟨r.descs ++ r'.descs, r.freed ++ r'.freed, r'.wrn⟩ := by
  simp only [NicState.reclaim, List.map_append, List.append_assoc, List.mem_append, not_or,
    Bool.decide_and, Bool.and_assoc]

private theorem NicState.reclaim_none (s : NicState) : s.reclaim ⟨[], [], s.wrn⟩ = s := by
  simp [NicState.reclaim]

/-- A round passes the descriptor at the tail, and may release its buffer before. -/
theorem reclaimOne_parts {s : NicState} (inv : Inv s) (skb : SkBuff) :
    s.reclaim (reclaimOne s.wrn skb) = s.pass ∨
      s.reclaim (reclaimOne s.wrn skb) = (s.release s.wrn.nextTxTail skb).pass := by
  rcases reclaimOne_cases s.wrn skb (inv.valid _ inv.tail) with kept | freed
  · left
    rw [kept]
    simp [NicState.reclaim, NicState.pass]
  · right
    rw [freed]
    rfl

private theorem Inv.reclaimOne {s : NicState} (inv : Inv s) {skb : SkBuff}
    (more : s.wrn.nextTxTail ≠ s.wrn.nextTxHead) (completed : ¬s.wrn.Ready s.wrn.nextTxTail)
    (buffer : (s.wrn.skbDesc s.wrn.nextTxTail).skb = some skb) :
    Inv (s.reclaim (reclaimOne s.wrn skb)) := by
  rcases reclaimOne_parts inv skb with kept | freed
  · rw [kept]
    exact inv.pass more completed
  · rw [freed]
    exact (inv.release inv.tail completed buffer).pass more completed

/-- Reclaiming keeps the invariant, however long it goes on. -/
theorem Inv.txReclaim {s : NicState} (inv : Inv s) (fuel : Nat) :
    Inv (s.reclaim (txReclaim fuel s.wrn)) := by
  induction fuel generalizing s with
  | zero => rwa [Nic.txReclaim, s.reclaim_none]
  | succ fuel ih =>
    by_cases empty : s.wrn.nextTxTail = s.wrn.nextTxHead
    · rwa [Nic.txReclaim, if_pos empty, s.reclaim_none]
    by_cases busy : s.wrn.Ready s.wrn.nextTxTail
    · rwa [Nic.txReclaim, if_neg empty, if_pos busy, s.reclaim_none]
    cases buffer : (s.wrn.skbDesc s.wrn.nextTxTail).skb with
    | none =>
      rw [Nic.txReclaim, if_neg empty, if_neg busy, buffer]
      rwa [s.reclaim_none]
    | some skb =>
      rw [txReclaim_round fuel empty busy buffer, ← s.reclaim_reclaim]
      exact ih (inv.reclaimOne empty busy buffer)

/-- The completed descriptors of the ring have their buffers. -/
def Buffered (wrn : WrnDev) : Prop :=
  ∀ i < wrnNrDesc, wrn.InRing i → ¬wrn.Ready i → (wrn.skbDesc i).skb ≠ none

/-- What a round leaves of the others. -/
theorem reclaimOne_others {s : NicState} (inv : Inv s) (skb : SkBuff) {i : Nat}
    (bound : i < wrnNrDesc) (more : s.wrn.nextTxTail ≠ s.wrn.nextTxHead) :
    ((reclaimOne s.wrn skb).wrn.InRing i ↔ s.wrn.InRing i ∧ i ≠ s.wrn.nextTxTail) ∧
      ((reclaimOne s.wrn skb).wrn.Ready i ↔ s.wrn.Ready i) ∧
      (i ≠ s.wrn.nextTxTail → (reclaimOne s.wrn skb).wrn.skbDesc i = s.wrn.skbDesc i) := by
  have inRing := pass_inRing inv bound more
  rcases reclaimOne_parts inv skb with kept | freed
  · have wrn : (reclaimOne s.wrn skb).wrn = s.pass.wrn := congrArg NicState.wrn kept
    rw [wrn]
    exact ⟨inRing, Iff.rfl, fun _ => rfl⟩
  · have wrn : (reclaimOne s.wrn skb).wrn = (s.release s.wrn.nextTxTail skb).pass.wrn :=
      congrArg NicState.wrn freed
    rw [wrn]
    exact ⟨inRing, Iff.rfl, fun other => Function.update_of_ne other _ _⟩

private theorem reclaimOne_buffered {s : NicState} (inv : Inv s) {skb : SkBuff}
    (more : s.wrn.nextTxTail ≠ s.wrn.nextTxHead)
    (buffer : (s.wrn.skbDesc s.wrn.nextTxTail).skb = some skb) :
    Buffered (reclaimOne s.wrn skb).wrn ↔ Buffered s.wrn := by
  apply forall_congr'
  intro i
  apply imp_congr_right
  intro bound
  obtain ⟨inRing, ready, desc⟩ := reclaimOne_others inv skb bound more
  rw [inRing, ready]
  by_cases first : i = s.wrn.nextTxTail
  · subst first
    simp [buffer]
  · rw [desc first, and_iff_left first]

private theorem reclaimOne_offset {s : NicState} (inv : Inv s) (skb : SkBuff)
    (more : s.wrn.nextTxTail ≠ s.wrn.nextTxHead) :
    (reclaimOne s.wrn skb).wrn.offset (reclaimOne s.wrn skb).wrn.nextTxHead =
      s.wrn.offset s.wrn.nextTxHead - 1 := by
  have passed : s.pass.wrn.offset s.wrn.nextTxHead = s.wrn.offset s.wrn.nextTxHead - 1 := by
    rw [offset_pass inv.tail inv.head, if_neg more.symm]
  rcases reclaimOne_parts inv skb with kept | freed
  · have wrn : (reclaimOne s.wrn skb).wrn = s.pass.wrn := congrArg NicState.wrn kept
    rw [wrn]
    exact passed
  · have wrn : (reclaimOne s.wrn skb).wrn = (s.release s.wrn.nextTxTail skb).pass.wrn :=
      congrArg NicState.wrn freed
    rw [wrn]
    exact passed

private theorem empty_buffered {wrn : WrnDev} (empty : wrn.nextTxTail = wrn.nextTxHead) :
    Buffered wrn := by
  intro i _ inRing
  rw [WrnDev.InRing, ← empty, offset_tail] at inRing
  exact absurd inRing (Nat.not_lt_zero _)

/-- Reclaiming stops at a completed descriptor exactly if one of them has lost its buffer. -/
theorem notStuck_iff {s : NicState} (inv : Inv s) {fuel : Nat}
    (enough : s.wrn.offset s.wrn.nextTxHead ≤ fuel) :
    NotStuck (txReclaim fuel s.wrn).wrn ↔ Buffered s.wrn := by
  induction fuel generalizing s with
  | zero =>
    have empty : s.wrn.nextTxTail = s.wrn.nextTxHead := by
      by_contra more
      have place := (offset_pos inv.tail inv.head).mpr (Ne.symm more)
      omega
    rw [txReclaim]
    exact iff_of_true (.inl empty) (empty_buffered empty)
  | succ fuel ih =>
    by_cases empty : s.wrn.nextTxTail = s.wrn.nextTxHead
    · rw [txReclaim, if_pos empty]
      exact iff_of_true (.inl empty) (empty_buffered empty)
    by_cases busy : s.wrn.Ready s.wrn.nextTxTail
    · rw [txReclaim, if_neg empty, if_pos busy]
      -- nothing in the ring is completed
      refine iff_of_true (.inr busy) fun i bound inRing completed => absurd ?_ completed
      have first := ((inv.ready _ inv.tail).mp busy).1
      rw [offset_tail] at first
      exact (inv.ready i bound).mpr ⟨by omega, inRing⟩
    cases buffer : (s.wrn.skbDesc s.wrn.nextTxTail).skb with
    | none =>
      rw [txReclaim, if_neg empty, if_neg busy, buffer]
      have inRing : s.wrn.InRing s.wrn.nextTxTail := by
        rw [WrnDev.InRing, offset_tail]
        exact (offset_pos inv.tail inv.head).mpr (Ne.symm empty)
      exact iff_of_false (not_or.mpr ⟨empty, busy⟩)
        fun all => all _ inv.tail inRing busy buffer
    | some skb =>
      have kept := inv.reclaimOne empty busy buffer
      rw [txReclaim_round fuel empty busy buffer, ← reclaimOne_buffered inv empty buffer]
      refine ih kept ?_
      change (reclaimOne s.wrn skb).wrn.offset (reclaimOne s.wrn skb).wrn.nextTxHead ≤ fuel
      rw [reclaimOne_offset inv skb empty]
      omega

/-! ### Completion -/

/-- The hardware may complete a descriptor. -/
theorem Inv.complete {s : NicState} (inv : Inv s) : Inv s.complete := by
  -- a descriptor that is not ready is not sent
  by_cases busy : s.wrn.Ready s.hwNext
  swap
  · rwa [NicState.complete, if_neg busy]
  rw [NicState.complete, if_pos busy]
  obtain ⟨-, inside⟩ := (inv.ready _ inv.hw).mp busy
  obtain ⟨skb, buffer, serial, -⟩ := inv.held _ inv.hw busy
  have place := offset_next inv.tail inv.hw (next_tail inv.tail inv.hw inside)
  let wrn := { s.wrn with
    tx1 := Function.update s.wrn.tx1 s.hwNext (s.wrn.tx1 s.hwNext &&& ~~~nicTx1D1Ready) }
  -- the hardware clears the bit of this descriptor only
  have ready (i : Nat) : wrn.Ready i ↔ s.wrn.Ready i ∧ i ≠ s.hwNext := by
    by_cases same : i = s.hwNext
    · subst same
      refine iff_of_false ?_ (fun both => both.2 rfl)
      have low : (wrn.tx1 s.hwNext).getLsbD 0 = false := by
        change (Function.update s.wrn.tx1 s.hwNext _ s.hwNext).getLsbD 0 = false
        rw [Function.update_self, clear_bit]
      rw [ready_iff, low]
      exact Bool.false_ne_true
    · simp [ready_iff, wrn, same]
  exact {
    tail := inv.tail
    head := inv.head
    hw := Nat.mod_lt _ (by decide)
    front := by
      change s.wrn.offset (wrnNextDesc s.hwNext) ≤ s.wrn.offset s.wrn.nextTxHead
      omega
    ready := by
      intro i bound
      change wrn.Ready i ↔ s.wrn.offset (wrnNextDesc s.hwNext) ≤ s.wrn.offset i ∧
        s.wrn.offset i < s.wrn.offset s.wrn.nextTxHead
      have same := offset_inj inv.tail bound inv.hw
      rw [ready, inv.ready i bound, place, Ne, ← same]
      omega
    ring := inv.ring
    held := by
      intro i bound readyI
      obtain ⟨readyI, other⟩ := (ready i).mp readyI
      obtain ⟨a, bufferI, serialI, unsent⟩ := inv.held i bound readyI
      refine ⟨a, bufferI, serialI, List.not_mem_cons_of_ne_of_not_mem (fun same => ?_) unsent⟩
      exact other (inv.apart i bound _ inv.hw a skb bufferI buffer (same.trans serial.symm))
    done := by
      intro i bound notReady a bufferI
      by_cases same : i = s.hwNext
      · subst same
        rw [buffer] at bufferI
        cases bufferI
        exact List.mem_cons.mpr (.inl serial)
      · exact List.mem_cons_of_mem _
          (inv.done i bound (fun old => notReady ((ready i).mpr ⟨old, same⟩)) a bufferI)
    live := inv.live
    apart := inv.apart
    valid := inv.valid
    once := inv.once
    before := fun k member => List.mem_cons_of_mem _ (inv.before k member)
    old := by
      intro k member
      rcases List.mem_cons.mp member with rfl | sent
      · exact serial ▸ (inv.live _ inv.hw skb buffer).1
      · exact inv.old k sent }

/-! ### Transmission -/

/-- A frame is put into the descriptor at the head. -/
def NicState.put (s : NicState) (len : Nat) (hwTstamp : Bool) : NicState :=
  let head := s.wrn.nextTxHead
  let id := (takeId s.wrn.id).1
  { s with
    wrn :=
      { tx1 := Function.update s.wrn.tx1 head (tx1Value len id hwTstamp)
        nextTxHead := wrnNextDesc head
        nextTxTail := s.wrn.nextTxTail
        skbDesc := Function.update s.wrn.skbDesc head
          { s.wrn.skbDesc head with skb := some ⟨s.accepted, len, hwTstamp⟩, frameId := id }
        id := (takeId s.wrn.id).2 }
    frame := Function.update s.frame head s.accepted
    accepted := s.accepted + 1
    pending := Function.update s.pending head true }

/-- A buffer is put into a free descriptor. -/
theorem Inv.put {s : NicState} (inv : Inv s) (len : Nat) (hwTstamp : Bool)
    (room : wrnNextDesc s.wrn.nextTxHead ≠ s.wrn.nextTxTail) :
    Inv (s.put len hwTstamp) := by
  have place := offset_next inv.tail inv.head room
  have front := inv.front
  have ready (i : Nat) : (s.put len hwTstamp).wrn.Ready i ↔
      s.wrn.Ready i ∨ i = s.wrn.nextTxHead := by
    by_cases same : i = s.wrn.nextTxHead
    · subst same
      simp [ready_iff, NicState.put, tx1Value_bit]
    · simp [ready_iff, NicState.put, same]
  have first : ((s.put len hwTstamp).wrn.skbDesc s.wrn.nextTxHead).skb =
      some ⟨s.accepted, len, hwTstamp⟩ := by simp [NicState.put]
  have others {i : Nat} (other : i ≠ s.wrn.nextTxHead) :
      (s.put len hwTstamp).wrn.skbDesc i = s.wrn.skbDesc i := Function.update_of_ne other _ _
  -- a buffer is the new one or an old one
  have cases {i : Nat} {a : SkBuff} (buffer : ((s.put len hwTstamp).wrn.skbDesc i).skb = some a) :
      (i = s.wrn.nextTxHead ∧ a.serial = s.accepted) ∨
        (i ≠ s.wrn.nextTxHead ∧ (s.wrn.skbDesc i).skb = some a) := by
    by_cases same : i = s.wrn.nextTxHead
    · subst same
      rw [first] at buffer
      cases buffer
      exact .inl ⟨rfl, rfl⟩
    · rw [others same] at buffer
      exact .inr ⟨same, buffer⟩
  exact {
    tail := inv.tail
    head := Nat.mod_lt _ (by decide)
    hw := inv.hw
    front := by
      change s.wrn.offset s.hwNext ≤ s.wrn.offset (wrnNextDesc s.wrn.nextTxHead)
      omega
    ready := by
      intro i bound
      change (s.put len hwTstamp).wrn.Ready i ↔ s.wrn.offset s.hwNext ≤ s.wrn.offset i ∧
        s.wrn.offset i < s.wrn.offset (wrnNextDesc s.wrn.nextTxHead)
      have same := offset_inj inv.tail bound inv.head
      rw [ready, inv.ready i bound, place, ← same]
      omega
    ring := by
      intro i bound
      change s.wrn.offset i < s.wrn.offset (wrnNextDesc s.wrn.nextTxHead) ↔
        Function.update s.pending s.wrn.nextTxHead true i = true
      have same := offset_inj inv.tail bound inv.head
      have before := inv.ring i bound
      rw [WrnDev.InRing] at before
      by_cases last : i = s.wrn.nextTxHead
      · subst last
        simp [place]
      · rw [Function.update_of_ne last, ← before]
        omega
    held := by
      intro i bound readyI
      by_cases last : i = s.wrn.nextTxHead
      · subst last
        refine ⟨_, first, by simp [NicState.put], fun sent => ?_⟩
        exact absurd (inv.old _ sent) (Nat.lt_irrefl _)
      · rw [others last]
        have frame : (s.put len hwTstamp).frame i = s.frame i := Function.update_of_ne last _ _
        rw [frame]
        exact inv.held i bound (((ready i).mp readyI).resolve_right last)
    done := by
      intro i bound notReady a buffer
      rw [ready, not_or] at notReady
      rcases cases buffer with new | old
      · exact absurd new.1 notReady.2
      · exact inv.done i bound notReady.1 a old.2
    live := by
      intro i bound a buffer
      rcases cases buffer with new | old
      · refine ⟨new.2 ▸ Nat.lt_succ_self _, fun released => ?_⟩
        exact absurd (inv.old _ (inv.before _ released)) (by omega)
      · have alive := inv.live i bound a old.2
        exact ⟨Nat.lt_succ_of_lt alive.1, alive.2⟩
    apart := by
      intro i boundI j boundJ a b bufferA bufferB same
      rcases cases bufferA with newA | oldA <;> rcases cases bufferB with newB | oldB
      · exact newA.1.trans newB.1.symm
      · have alive := (inv.live j boundJ b oldB.2).1
        omega
      · have alive := (inv.live i boundI a oldA.2).1
        omega
      · exact inv.apart i boundI j boundJ a b oldA.2 oldB.2 same
    valid := by
      intro i bound
      by_cases last : i = s.wrn.nextTxHead
      · subst last
        simpa [NicState.put] using inv.valid _ bound
      · rw [others last]
        exact inv.valid i bound
    once := inv.once
    before := inv.before
    old := fun k sent => Nat.lt_succ_of_lt (inv.old k sent) }

/-- A buffer that is still in the descriptor at the head is released. -/
def NicState.discard (s : NicState) : NicState :=
  match (s.wrn.skbDesc s.wrn.nextTxHead).skb with
  | none => s
  | some old => s.release s.wrn.nextTxHead old

/-- A packet that is too long changes nothing. -/
theorem xmit_long (s : NicState) {len : Nat} (hwTstamp : Bool) (long : len > wrnMtu) :
    s.xmit len hwTstamp = s := by
  simp [NicState.xmit, wrnStartXmit, long, emsgsize]

/-- Where the descriptor is in use only an id is taken. -/
theorem xmit_refused (s : NicState) {len : Nat} (hwTstamp : Bool) (fits : ¬len > wrnMtu)
    (busy : s.wrn.Ready s.wrn.nextTxHead) :
    s.xmit len hwTstamp = { s with wrn := { s.wrn with id := (takeId s.wrn.id).2 } } := by
  simp [NicState.xmit, wrnStartXmit, fits, wrnAllocTxDesc, busy, enomem]

/-- A packet that is accepted is put into the descriptor at the head. -/
theorem xmit_accepted (s : NicState) {len : Nat} (hwTstamp : Bool) (fits : ¬len > wrnMtu)
    (free : ¬s.wrn.Ready s.wrn.nextTxHead) :
    s.xmit len hwTstamp = s.discard.put len hwTstamp := by
  cases old : (s.wrn.skbDesc s.wrn.nextTxHead).skb with
  | none =>
    simp [NicState.xmit, wrnStartXmit, fits, wrnAllocTxDesc, free, WrnDev.setDesc,
      NicState.discard, NicState.put, old]
  | some skb =>
    simp [NicState.xmit, wrnStartXmit, fits, wrnAllocTxDesc, free, WrnDev.setDesc,
      NicState.discard, NicState.put, NicState.release, old]

/-- A buffer that is left in a free descriptor is forgotten. -/
theorem Inv.discard {s : NicState} (inv : Inv s) (free : ¬s.wrn.Ready s.wrn.nextTxHead) :
    Inv s.discard ∧ s.discard.wrn.nextTxHead = s.wrn.nextTxHead ∧
      s.discard.wrn.nextTxTail = s.wrn.nextTxTail := by
  rw [NicState.discard]
  split
  · exact ⟨inv, rfl, rfl⟩
  next old buffer => exact ⟨inv.release inv.head free buffer, rfl, rfl⟩

/-- Without room for another frame, a full ring is taken for an empty one. -/
theorem full_not_conserved (s : NicState) (len : Nat) (hwTstamp : Bool)
    (head : s.wrn.nextTxHead < wrnNrDesc) (full : wrnNextDesc s.wrn.nextTxHead = s.wrn.nextTxTail) :
    ¬Conserved (s.put len hwTstamp) := by
  intro conserved
  have pending : (s.put len hwTstamp).pending s.wrn.nextTxHead = true := by simp [NicState.put]
  have inRing := (conserved.ring _ head).mpr pending
  have same : (s.put len hwTstamp).wrn.nextTxHead = (s.put len hwTstamp).wrn.nextTxTail := full
  rw [WrnDev.InRing, same, offset_tail] at inRing
  exact Nat.not_lt_zero _ inRing

private theorem Inv.withId {s : NicState} (inv : Inv s) (id : Word) :
    Inv { s with wrn := { s.wrn with id := id } } :=
  ⟨inv.tail, inv.head, inv.hw, inv.front, inv.ready, inv.ring, inv.held, inv.done, inv.live,
    inv.apart, inv.valid, inv.once, inv.before, inv.old⟩

/-! ### Timestamps -/

private theorem findFrame_some {wrn : WrnDev} {frameId : BitVec 16} {i : Nat}
    (found : findFrame wrn frameId = some i) :
    i < wrnNrDesc ∧ ∃ skb, (wrn.skbDesc i).skb = some skb := by
  have member := List.mem_of_find?_eq_some found
  have holds := List.find?_some found
  rw [Bool.and_eq_true, Option.isSome_iff_exists] at holds
  exact ⟨List.mem_range.mp member, holds.1⟩

private theorem tstamp_none {s : NicState} {idreg : Word}
    (missing : findFrame s.wrn (tsfR1Fid idreg) = none) : s.tstamp idreg = s := by
  simp [NicState.tstamp, recordTstamp, missing]

private theorem tstamp_some {s : NicState} {idreg : Word} {i : Nat} {skb : SkBuff}
    (found : findFrame s.wrn (tsfR1Fid idreg) = some i)
    (buffer : (s.wrn.skbDesc i).skb = some skb) : s.tstamp idreg = s.release i skb := by
  simp [NicState.tstamp, recordTstamp, found, buffer, NicState.release]

/-! ### Runs -/

private theorem Inv.good_xmit {s : NicState} (inv : Inv s) (len : Nat) (hwTstamp : Bool) :
    Good s (.xmit len hwTstamp) ↔ InTime s (.xmit len hwTstamp) := by
  by_cases long : len > wrnMtu
  · have stays : s.step (.xmit len hwTstamp) = s := xmit_long s hwTstamp long
    refine iff_of_true ⟨?_, fun refused => ?_⟩ fun fits => absurd long (Nat.not_lt.mpr fits)
    · rw [stays]
      exact inv.conserved
    · simp [Refused, wrnStartXmit, long, emsgsize, enomem] at refused
  -- the head is not free while the hardware still owns it
  by_cases busy : s.wrn.Ready s.wrn.nextTxHead
  · have refuses : s.step (.xmit len hwTstamp) =
        { s with wrn := { s.wrn with id := (takeId s.wrn.id).2 } } :=
      xmit_refused s hwTstamp long busy
    refine iff_of_true ⟨?_, fun _ => ?_⟩ fun _ free => absurd busy free
    · rw [refuses]
      exact (inv.withId _).conserved
    · rw [refuses]
  · have accepts : s.step (.xmit len hwTstamp) = s.discard.put len hwTstamp :=
      xmit_accepted s hwTstamp long busy
    obtain ⟨kept, head, tail⟩ := inv.discard busy
    -- a packet that was put is not refused
    have never : ¬Refused s len hwTstamp := by
      simp [Refused, wrnStartXmit, long, wrnAllocTxDesc, busy, enomem]
    constructor
    · intro good _ _ full
      rw [Good, accepts] at good
      exact full_not_conserved _ len hwTstamp kept.head (by rw [head, tail, full]) good.1
    · intro inTime
      have room := inTime (Nat.not_lt.mp long) busy
      rw [← head, ← tail] at room
      refine ⟨?_, fun refused => absurd refused never⟩
      rw [accepts]
      exact (kept.put len hwTstamp room).conserved

private theorem Inv.good_tstamp {s : NicState} (inv : Inv s) (idreg : Word) :
    Good s (.tstamp idreg) ↔ InTime s (.tstamp idreg) := by
  cases found : findFrame s.wrn (tsfR1Fid idreg) with
  | none =>
    have stays : s.step (.tstamp idreg) = s := tstamp_none found
    refine iff_of_true ⟨?_, trivial⟩ fun i some => ?_
    · rw [stays]
      exact inv.conserved
    · rw [found] at some
      cases some
  | some i =>
    obtain ⟨bound, skb, buffer⟩ := findFrame_some found
    have releases : s.step (.tstamp idreg) = s.release i skb := tstamp_some found buffer
    constructor
    · intro good j foundJ busy
      rw [found] at foundJ
      cases foundJ
      obtain ⟨skb', buffer', -, unsent⟩ := inv.held i bound busy
      rw [buffer] at buffer'
      cases buffer'
      rw [Good, releases] at good
      -- a release before the sending breaks the conservation
      have last : skb.serial ∈ (s.release i skb).released := by simp [NicState.release]
      exact unsent (good.1.sent _ last)
    · intro inTime
      refine ⟨?_, trivial⟩
      rw [releases]
      exact (inv.release bound (inTime i found) buffer).conserved

/-- An event is good exactly if it comes in time. -/
theorem Inv.good_iff {s : NicState} (inv : Inv s) (e : Event) : Good s e ↔ InTime s e := by
  cases e with
  | xmit len hwTstamp => exact inv.good_xmit len hwTstamp
  | complete => exact iff_of_true ⟨inv.complete.conserved, trivial⟩ trivial
  | txInterrupt =>
    have enough : s.wrn.offset s.wrn.nextTxHead ≤ wrnNrDesc := Nat.le_of_lt (offset_lt _ _)
    have conserved : Conserved (s.step .txInterrupt) := (inv.txReclaim wrnNrDesc).conserved
    exact (and_iff_right conserved).trans (notStuck_iff inv enough)
  | tstamp idreg => exact inv.good_tstamp idreg

/-- Every event that comes in time keeps the invariant. -/
theorem Inv.step {s : NicState} (inv : Inv s) {e : Event} (inTime : InTime s e) :
    Inv (s.step e) := by
  cases e with
  | xmit len hwTstamp =>
    change Inv (s.xmit len hwTstamp)
    by_cases long : len > wrnMtu
    · rwa [xmit_long s hwTstamp long]
    by_cases busy : s.wrn.Ready s.wrn.nextTxHead
    · rw [xmit_refused s hwTstamp long busy]
      exact inv.withId _
    · obtain ⟨kept, head, tail⟩ := inv.discard busy
      have room := inTime (Nat.not_lt.mp long) busy
      rw [← head, ← tail] at room
      rw [xmit_accepted s hwTstamp long busy]
      exact kept.put len hwTstamp room
  | complete => exact inv.complete
  | txInterrupt => exact inv.txReclaim wrnNrDesc
  | tstamp idreg =>
    change Inv (s.tstamp idreg)
    cases found : findFrame s.wrn (tsfR1Fid idreg) with
    | none => rwa [tstamp_none found]
    | some i =>
      obtain ⟨bound, skb, buffer⟩ := findFrame_some found
      rw [tstamp_some found buffer]
      exact inv.release bound (inTime i found) buffer

/-- The ring is conserved by all steps of a run exactly if all of them are in time. -/
theorem ring_conserved_iff (es : List Event) :
    Along Good NicState.step .init es ↔ Along InTime NicState.step .init es :=
  Along.congr_inv Inv (fun _ _ inv => inv.step) (fun _ e inv => inv.good_iff e) inv_init

/-- A timestamp before the transmit interrupt leaves the tail at a completed descriptor, and
eight frames at once fill the ring so that it looks empty. -/
theorem ring_not_conserved :
    ¬Along Good NicState.step .init
        [.xmit 100 true, .complete, .tstamp 0x10000, .txInterrupt] ∧
      ¬Along Good NicState.step .init (List.replicate 8 (.xmit 100 false)) := by
  constructor
  · rintro ⟨-, -, -, last, -⟩
    exact absurd last.2 (by decide)
  · rintro ⟨-, -, -, -, -, -, -, last, -⟩
    exact absurd (last.1.ring 0 (by decide)) (by decide)

end WrSwitch.Nic
