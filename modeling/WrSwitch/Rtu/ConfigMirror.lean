import WrSwitch.Rtu.Config
import WrSwitch.Rtu.Validation

/-!
# The configuration in memory and in the hardware

After which requests `vlan_tab`, `mirror_cfg` and `ports_cfg` describe what the registers hold.
-/
namespace WrSwitch.Rtu

open Machine MiniRpc

/-! ### Endpoint registers -/

def epVcr0QmodeR (reg : Word) : Word := wbgen2GenRead reg 0 2
def epVcr0PrioValR (reg : Word) : Word := wbgen2GenRead reg 4 3
def epVcr0PvidR (reg : Word) : Word := wbgen2GenRead reg 16 12

/-- The value of `VCR0` in `rtu_write_port_cfg_hw`, from the one that was read. -/
def vcr0Word (v : Word) (cfg : RtuPortEntry) : Word :=
  let v := (v &&& ~~~epVcr0QmodeMask) ||| epVcr0QmodeW (cfg.qmode.setWidth 32)
  let v := if cfg.fixPrio ≠ 0 then v ||| epVcr0FixPrio else v &&& ~~~epVcr0FixPrio
  let v := (v &&& ~~~epVcr0PrioValMask) ||| epVcr0PrioValW (cfg.prio.setWidth 32)
  (v &&& ~~~epVcr0PvidMask) ||| epVcr0PvidW (cfg.pvid.setWidth 32)

/-- The registers of an endpoint hold exactly the configuration of its port. -/
structure PortWords (vcr0 : Word) (vcr1 : Word → Word) (cfg : RtuPortEntry) : Prop where
  qmode : epVcr0QmodeR vcr0 = cfg.qmode.setWidth 32
  fixPrio : vcr0 &&& epVcr0FixPrio ≠ 0 ↔ cfg.fixPrio ≠ 0
  prio : epVcr0PrioValR vcr0 = cfg.prio.setWidth 32
  pvid : epVcr0PvidR vcr0 = cfg.pvid.setWidth 32
  untag : ∀ i < 4096 / 16, vcr1 (BitVec.ofNat 32 i) = if cfg.untag ≠ 0 then 0xffff else 0

/-- The fields fit their bits. -/
structure PortFits (cfg : RtuPortEntry) : Prop where
  qmode : cfg.qmode.toNat < 4
  prio : cfg.prio.toNat < 8
  pvid : cfg.pvid.toNat < 4096

private theorem vcr0_qmode (v : Word) {cfg : RtuPortEntry} (fits : PortFits cfg) :
    epVcr0QmodeR (vcr0Word v cfg) = cfg.qmode.setWidth 32 := by
  have small : wbgen2GenRead (cfg.qmode.setWidth 32) 0 2 = cfg.qmode.setWidth 32 := by
    apply genRead_small
    rw [BitVec.toNat_setWidth]
    have bound := fits.qmode
    omega
  simp (disch := omega) only [epVcr0QmodeR, vcr0Word, epVcr0QmodeMask, epVcr0QmodeW,
    epVcr0FixPrio, epVcr0PrioValMask, epVcr0PrioValW, epVcr0PvidMask, epVcr0PvidW, genRead_or,
    genRead_write_other, genRead_clear_other]
  split
  · simp (disch := omega) only [genRead_or, genRead_clear_same, genRead_write_same,
      genRead_mask_other, small]
    simp
  · simp (disch := omega) only [genRead_or, genRead_clear_same, genRead_clear_other,
      genRead_write_same, small]
    simp

private theorem vcr0_fixPrio (v : Word) (cfg : RtuPortEntry) :
    vcr0Word v cfg &&& epVcr0FixPrio ≠ 0 ↔ cfg.fixPrio ≠ 0 := by
  rw [not_iff_not, epVcr0FixPrio, and_genMask_eq_zero _ _ _ (by omega)]
  simp (disch := omega) only [vcr0Word, epVcr0QmodeMask, epVcr0QmodeW, epVcr0FixPrio,
    epVcr0PrioValMask, epVcr0PrioValW, epVcr0PvidMask, epVcr0PvidW, genRead_or,
    genRead_write_other, genRead_clear_other]
  split
  next fixed =>
    refine iff_of_false ?_ fixed
    simp (disch := omega) only [genRead_or, genRead_write_other, genRead_clear_other]
    intro clear
    -- the bit of the mask itself is set
    have one : wbgen2GenRead (wbgen2GenMask 2 1) 2 1 = 1 := by decide
    rw [one] at clear
    have bit := congrArg (fun word => word.getLsbD 0) clear
    simp at bit
  next free =>
    refine iff_of_true ?_ (not_not.mp free)
    simp (disch := omega) only [genRead_clear_same]
    decide

private theorem vcr0_prio (v : Word) {cfg : RtuPortEntry} (fits : PortFits cfg) :
    epVcr0PrioValR (vcr0Word v cfg) = cfg.prio.setWidth 32 := by
  have small : wbgen2GenRead (cfg.prio.setWidth 32) 0 3 = cfg.prio.setWidth 32 := by
    apply genRead_small
    rw [BitVec.toNat_setWidth]
    have bound := fits.prio
    omega
  simp (disch := omega) only [epVcr0PrioValR, vcr0Word, epVcr0PrioValMask, epVcr0PrioValW,
    epVcr0PvidMask, epVcr0PvidW, genRead_or, genRead_write_same, genRead_write_other,
    genRead_clear_other, genRead_clear_same, small]
  simp

private theorem vcr0_pvid (v : Word) {cfg : RtuPortEntry} (fits : PortFits cfg) :
    epVcr0PvidR (vcr0Word v cfg) = cfg.pvid.setWidth 32 := by
  have small : wbgen2GenRead (cfg.pvid.setWidth 32) 0 12 = cfg.pvid.setWidth 32 := by
    apply genRead_small
    rw [BitVec.toNat_setWidth]
    have bound := fits.pvid
    omega
  simp (disch := omega) only [epVcr0PvidR, vcr0Word, epVcr0PvidMask, epVcr0PvidW, genRead_or,
    genRead_write_same, genRead_clear_same, small]
  simp

/-- The word that is written to `VCR1`. -/
def vcr1Word (untag : Byte) (i : Nat) : Word :=
  if untag ≠ 0 then (0xffff <<< 10) ||| BitVec.ofNat 32 i
  else (0x0000 <<< 10) ||| BitVec.ofNat 32 i

private theorem vcr1Word_fields (untag : Byte) (i : Nat) (bound : i < 1024) :
    wbgen2GenRead (vcr1Word untag i) 0 10 = BitVec.ofNat 32 i ∧
      wbgen2GenRead (vcr1Word untag i) 10 18 = if untag ≠ 0 then 0xffff else 0 := by
  -- the index lies in its field, the untag mask in the other
  have offset : BitVec.ofNat 32 i = wbgen2GenWrite (BitVec.ofNat 32 i) 0 10 := by
    rw [wbgen2GenWrite, BitVec.shiftLeft_zero]
    have small := genRead_small (BitVec.ofNat 32 i) 10 (by rw [BitVec.toNat_ofNat]; omega)
    rw [wbgen2GenRead, BitVec.ushiftRight_zero] at small
    exact small.symm
  have ones : (0xffff <<< 10 : Word) = wbgen2GenWrite 0xffff 10 18 := by decide
  have zeros : (0x0000 <<< 10 : Word) = wbgen2GenWrite 0 10 18 := by decide
  have read : wbgen2GenRead (BitVec.ofNat 32 i) 0 10 = BitVec.ofNat 32 i :=
    genRead_small _ _ (by rw [BitVec.toNat_ofNat]; omega)
  rw [vcr1Word]
  constructor
  · split
    · rw [ones, genRead_or, genRead_write_other _ _ _ _ _ (by omega), read]
      simp
    · rw [zeros, genRead_or, genRead_write_other _ _ _ _ _ (by omega), read]
      simp
  · split
    · rw [ones, offset, genRead_or, genRead_write_other _ 0 10 _ _ (by omega),
        genRead_write_same _ _ _ (by omega)]
      decide
    · rw [zeros, offset, genRead_or, genRead_write_other _ 0 10 _ _ (by omega),
        genRead_write_same _ _ _ (by omega)]
      decide

/-! ### Writes to the registers -/

private theorem writeMasked (mask : Word) : rtuRxMpR1MaskW mask = mask := by
  apply BitVec.eq_of_getLsbD_eq
  intro j bound
  rw [rtuRxMpR1MaskW, genWrite_bit _ _ _ j bound]
  have high : j < 0 + 32 := by omega
  simp only [Nat.zero_le, high, decide_true, Bool.true_and, Nat.sub_zero]

private theorem vtrWrite_vlan (vtr1 vtr2 : Word) (s : RtuState)
    (update : vtr1 &&& rtuVtr1Update ≠ 0) :
    (rtuWr .vtr1 vtr1 (rtuWr .vtr2 vtr2 s)).fpga.vlan =
      Function.update s.fpga.vlan (vtr1 &&& rtuVtr1VidMask) (vtr1, vtr2) := by
  simp only [rtuWr, RtuState.emit, Fpga.apply]
  rw [if_pos update]

/-- Writing a VLAN entry writes its two words, at its own VID. -/
theorem rtuWriteVlanEntry_vlan (vid : Int) (ent : RtuVlanTableEntry) (s : RtuState)
    (inside : 0 ≤ vid ∧ vid < numVlans) :
    (rtuWriteVlanEntry vid ent s).fpga.vlan =
      Function.update s.fpga.vlan (BitVec.ofInt 32 vid) (vtr1Word vid ent, ent.portMask) := by
  have write : rtuWriteVlanEntry vid ent s =
      rtuWr .vtr1 (vtr1Word vid ent) (rtuWr .vtr2 ent.portMask s) := rfl
  rw [write, vtrWrite_vlan _ _ _ (vtr1Word_update vid ent), vtr1Word_vid, vid_field inside]

/-- What the cleaning leaves in the hardware: an entry that does not drop anything. -/
def cleanVtr1 (vid : Int) : Word := rtuVtr1Update ||| rtuVtr1VidW (BitVec.ofInt 32 vid)

/-- The word that cleans is the word of an empty entry. -/
theorem cleanVtr1_eq (vid : Int) : cleanVtr1 vid = vtr1Word vid .zero := by
  simp [cleanVtr1, vtr1Word, RtuVlanTableEntry.zero, rtuVtr1PrioW, rtuVtr1FidW, wbgen2GenWrite]

private theorem rtuCleanVlanEntry_vlan (vid : Int) (s : RtuState)
    (inside : 0 ≤ vid ∧ vid < numVlans) :
    (rtuCleanVlanEntry vid s).fpga.vlan =
      Function.update s.fpga.vlan (BitVec.ofInt 32 vid) (cleanVtr1 vid, 0) := by
  have write : rtuCleanVlanEntry vid s = rtuWr .vtr1 (cleanVtr1 vid) (rtuWr .vtr2 0 s) := rfl
  rw [write, vtrWrite_vlan _ _ _ (by rw [cleanVtr1_eq]; exact vtr1Word_update vid .zero),
    cleanVtr1_eq, vtr1Word_vid, vid_field inside]

theorem ofInt_inj {vid vid' : Int} (inside : 0 ≤ vid ∧ vid < numVlans)
    (inside' : 0 ≤ vid' ∧ vid' < numVlans) (same : BitVec.ofInt 32 vid = BitVec.ofInt 32 vid') :
    vid = vid' := by
  have values := congrArg BitVec.toNat same
  rw [vid_toNat inside, vid_toNat inside'] at values
  omega

/-- The cleaning loop writes one VID after the other. -/
theorem cleanVlan_loop (n : Nat) (few : (n : Int) ≤ numVlans) (s : RtuState) (vid : Int)
    (low : 0 ≤ vid) (high : vid < n) :
    ((List.range n).foldl (fun s (addr : Nat) => rtuCleanVlanEntry addr s) s).fpga.vlan
      (BitVec.ofInt 32 vid) = (cleanVtr1 vid, 0) := by
  induction n with
  | zero => omega
  | succ n ih =>
    have inside : 0 ≤ (n : Int) ∧ (n : Int) < numVlans := ⟨Int.natCast_nonneg n, by omega⟩
    rw [List.range_succ, List.foldl_append, List.foldl_cons, List.foldl_nil,
      rtuCleanVlanEntry_vlan n _ inside]
    by_cases last : vid = n
    · subst last
      exact Function.update_self _ _ _
    · -- another VID was written in an earlier turn
      rw [Function.update_of_ne fun same => last (ofInt_inj ⟨low, by omega⟩ inside same)]
      exact ih (by omega) (by omega)

/-- Cleaning the hardware's table leaves the memory alone. -/
theorem cleanVlan_toSwState (s : RtuState) : (rtuCleanVlan s).toSwState = s.toSwState := by
  rw [rtuCleanVlan]
  generalize List.range numVlans.toNat = addrs
  induction addrs generalizing s with
  | nil => rfl
  | cons addr addrs ih =>
    rw [List.foldl_cons, ih]
    rfl

/-! ### Mirroring -/

/-- The mask registers hold the masks of the configuration. -/
structure MaskWords (f : Fpga) (cfg : RtuMirrorInfo) : Prop where
  dmask : f.rxMpMask 0 = cfg.dmask
  imask : f.rxMpMask rtuRxMpR0DstSrc = cfg.imask
  emask : f.rxMpMask (rtuRxMpR0DstSrc ||| rtuRxMpR0RxTx) = cfg.emask

/-- The registers after a conditional write. A mask that is not written has to be in its register
already. -/
theorem writeMirrorMask_same (written : Prop) [Decidable written] (select mask : Word)
    (s : RtuState) (kept : ¬written → s.fpga.rxMpMask select = mask) :
    (if written then writeMirrorMask select mask s else s).fpga.rxMpMask select = mask := by
  split
  next =>
    change Function.update s.fpga.rxMpMask select (rtuRxMpR1MaskW mask) select = mask
    rw [Function.update_self, writeMasked]
  next unwritten => exact kept unwritten

private theorem writeMirrorMask_other (written : Prop) [Decidable written]
    (select mask other : Word) (s : RtuState) (apart : other ≠ select) :
    (if written then writeMirrorMask select mask s else s).fpga.rxMpMask other =
      s.fpga.rxMpMask other := by
  split
  · exact Function.update_of_ne apart _ _
  · rfl

/-- A mask that is not written is zero, so its register has to be zero already. -/
theorem rtuCfgMirroring_masks (cfg : RtuMirrorInfo) (s : RtuState)
    (dmask : cfg.en ≠ 0 → cfg.dmask = 0 → s.fpga.rxMpMask 0 = 0)
    (imask : cfg.en ≠ 0 → cfg.imask = 0 → s.fpga.rxMpMask rtuRxMpR0DstSrc = 0)
    (emask : cfg.en ≠ 0 → cfg.emask = 0 →
      s.fpga.rxMpMask (rtuRxMpR0DstSrc ||| rtuRxMpR0RxTx) = 0) :
    MaskWords (rtuCfgMirroring cfg s).fpga cfg := by
  -- the three masks have addresses of their own, so a write to one leaves the others
  have first : (0 : Word) ≠ rtuRxMpR0DstSrc := by decide
  have second : (0 : Word) ≠ rtuRxMpR0DstSrc ||| rtuRxMpR0RxTx := by decide
  have third : rtuRxMpR0DstSrc ≠ rtuRxMpR0DstSrc ||| rtuRxMpR0RxTx := by decide
  refine ⟨?_, ?_, ?_⟩
  · rw [rtuCfgMirroring, writeMirrorMask_other _ _ _ _ _ second,
      writeMirrorMask_other _ _ _ _ _ first]
    refine writeMirrorMask_same _ _ _ _ fun unwritten => ?_
    push Not at unwritten
    rw [unwritten.2, dmask unwritten.1 unwritten.2]
  · rw [rtuCfgMirroring, writeMirrorMask_other _ _ _ _ _ third]
    refine writeMirrorMask_same _ _ _ _ fun unwritten => ?_
    push Not at unwritten
    rw [writeMirrorMask_other _ _ _ _ _ first.symm, unwritten.2, imask unwritten.1 unwritten.2]
  · rw [rtuCfgMirroring]
    refine writeMirrorMask_same _ _ _ _ fun unwritten => ?_
    push Not at unwritten
    rw [writeMirrorMask_other _ _ _ _ _ third.symm, writeMirrorMask_other _ _ _ _ _ second.symm,
      unwritten.2, emask unwritten.1 unwritten.2]

/-- Mirroring is enabled only by the value 1. -/
theorem rtuEnableMirroring_bit (ena : Word) (s : RtuState) :
    (rtuEnableMirroring ena s).fpga.rxCtr &&& rtuRxCtrMrEna ≠ 0 ↔ ena = 1 := by
  change (if ena = 1 then s.fpga.rxCtr ||| rtuRxCtrMrEna else s.fpga.rxCtr &&& ~~~rtuRxCtrMrEna) &&&
    rtuRxCtrMrEna ≠ 0 ↔ ena = 1
  split
  next enabled =>
    refine iff_of_true ?_ enabled
    intro clear
    have bit := congrArg (fun word => word.getLsbD 5) clear
    simp [rtuRxCtrMrEna, wbgen2GenMask] at bit
  next disabled =>
    refine iff_of_false ?_ disabled
    rw [not_not, rtuRxCtrMrEna, and_genMask_eq_zero _ _ _ (by omega), genRead_clear_same]

/-- Mirroring leaves memory, VLANs and ports alone. -/
theorem rtuCfgMirroring_frame (cfg : RtuMirrorInfo) (s : RtuState) :
    (rtuCfgMirroring cfg s).toSwState = s.toSwState ∧
      (rtuCfgMirroring cfg s).fpga.rxCtr = s.fpga.rxCtr ∧
      (rtuCfgMirroring cfg s).fpga.vlan = s.fpga.vlan ∧
      (rtuCfgMirroring cfg s).fpga.vcr0 = s.fpga.vcr0 ∧
      (rtuCfgMirroring cfg s).fpga.vcr1 = s.fpga.vcr1 := by
  have one (written : Prop) [Decidable written] (select mask : Word) (s : RtuState) :
      (if written then writeMirrorMask select mask s else s).toSwState = s.toSwState ∧
      (if written then writeMirrorMask select mask s else s).fpga.rxCtr = s.fpga.rxCtr ∧
      (if written then writeMirrorMask select mask s else s).fpga.vlan = s.fpga.vlan ∧
      (if written then writeMirrorMask select mask s else s).fpga.vcr0 = s.fpga.vcr0 ∧
      (if written then writeMirrorMask select mask s else s).fpga.vcr1 = s.fpga.vcr1 := by
    split <;> exact ⟨rfl, rfl, rfl, rfl, rfl⟩
  simp only [rtuCfgMirroring, one, and_self]

/-! ### Ports -/

/-- Only the registers of one endpoint were written. -/
structure OnlyEndpoint (hw : Nat) (s s' : RtuState) : Prop where
  memory : s'.toSwState = s.toSwState
  vlan : s'.fpga.vlan = s.fpga.vlan
  rxCtr : s'.fpga.rxCtr = s.fpga.rxCtr
  rxMpMask : s'.fpga.rxMpMask = s.fpga.rxMpMask
  vcr0 : ∀ ep ≠ hw, s'.fpga.vcr0 ep = s.fpga.vcr0 ep
  vcr1 : ∀ ep ≠ hw, s'.fpga.vcr1 ep = s.fpga.vcr1 ep

theorem OnlyEndpoint.trans {hw : Nat} {s s' s'' : RtuState} (first : OnlyEndpoint hw s s')
    (second : OnlyEndpoint hw s' s'') : OnlyEndpoint hw s s'' where
  memory := second.memory.trans first.memory
  vlan := second.vlan.trans first.vlan
  rxCtr := second.rxCtr.trans first.rxCtr
  rxMpMask := second.rxMpMask.trans first.rxMpMask
  vcr0 := fun ep other => (second.vcr0 ep other).trans (first.vcr0 ep other)
  vcr1 := fun ep other => (second.vcr1 ep other).trans (first.vcr1 ep other)

private theorem vcr1_write (hw : Nat) (val : Word) (s : RtuState) :
    OnlyEndpoint hw s (epWrite hw .vcr1 val s) where
  memory := rfl
  vlan := rfl
  rxCtr := rfl
  rxMpMask := rfl
  vcr0 := fun _ _ => rfl
  vcr1 := fun _ other => Function.update_of_ne other _ _

/-- The loop over the bitmap of an endpoint. -/
theorem vcr1_loop (hw : Nat) (untag : Byte) (n : Nat) (few : n ≤ 4096 / 16) (s : RtuState) :
    let s' := (List.range n).foldl (fun s i => epWrite hw .vcr1 (vcr1Word untag i) s) s
    OnlyEndpoint hw s s' ∧ s'.fpga.vcr0 = s.fpga.vcr0 ∧
      ∀ i < n, s'.fpga.vcr1 hw (BitVec.ofNat 32 i) = if untag ≠ 0 then 0xffff else 0 := by
  induction n with
  | zero => exact ⟨⟨rfl, rfl, rfl, rfl, fun _ _ => rfl, fun _ _ => rfl⟩, rfl, by simp⟩
  | succ n ih =>
    obtain ⟨only, vcr0, written⟩ := ih (by omega)
    simp only [List.range_succ, List.foldl_append, List.foldl_cons, List.foldl_nil]
    refine ⟨only.trans (vcr1_write hw _ _), vcr0, ?_⟩
    intro i below
    obtain ⟨offset, data⟩ := vcr1Word_fields untag n (by omega)
    simp only [epWrite, RtuState.emit, Fpga.apply, Function.update_self, offset, data]
    by_cases last : i = n
    · subst last
      exact Function.update_self _ _ _
    · rw [Function.update_of_ne]
      · exact written i (by omega)
      · -- different indices give different words, since there are few
        intro same
        have values := congrArg BitVec.toNat same
        simp only [BitVec.toNat_ofNat] at values
        omega

/-- `rtu_write_port_cfg_hw` up to the loop over the bitmap. -/
def portCfgVcr0 (hwIndex : Byte) (s : RtuState) : RtuState :=
  epWrite hwIndex.toNat .vcr0
    (vcr0Word (s.fpga.vcr0 hwIndex.toNat) (s.portsCfg hwIndex.toNat))
    ((s.emit (.index .portsCfg hwIndex.toNat)).emit (.index .endpoint hwIndex.toNat))

/-- A port is configured by VCR0 and the 256 words of VCR1. -/
theorem rtuWritePortCfgHw_eq (hwIndex : Byte) (s : RtuState) :
    rtuWritePortCfgHw hwIndex s = (List.range (4096 / 16)).foldl (fun s' i =>
      epWrite hwIndex.toNat .vcr1 (vcr1Word (s.portsCfg hwIndex.toNat).untag i) s')
      (portCfgVcr0 hwIndex s) := by
  rw [rtuWritePortCfgHw]
  congr 1
  funext s' i
  rw [vcr1Word]
  exact (apply_ite (fun word => epWrite hwIndex.toNat .vcr1 word s') _ _ _).symm

private theorem portCfgVcr0_only (hwIndex : Byte) (s : RtuState) :
    OnlyEndpoint hwIndex.toNat s (portCfgVcr0 hwIndex s) :=
  ⟨rfl, rfl, rfl, rfl, fun _ other => Function.update_of_ne other _ _, fun _ _ => rfl⟩

private theorem rtuWritePortCfgHw_only (hwIndex : Byte) (s : RtuState) :
    OnlyEndpoint hwIndex.toNat s (rtuWritePortCfgHw hwIndex s) := by
  rw [rtuWritePortCfgHw_eq]
  exact (portCfgVcr0_only hwIndex s).trans
    (vcr1_loop hwIndex.toNat (s.portsCfg hwIndex.toNat).untag _ (Nat.le_refl _) _).1

private theorem rtuWritePortCfgHw_words (hwIndex : Byte) (s : RtuState)
    (fits : PortFits (s.portsCfg hwIndex.toNat)) :
    PortWords ((rtuWritePortCfgHw hwIndex s).fpga.vcr0 hwIndex.toNat)
      ((rtuWritePortCfgHw hwIndex s).fpga.vcr1 hwIndex.toNat) (s.portsCfg hwIndex.toNat) := by
  have loop := vcr1_loop hwIndex.toNat (s.portsCfg hwIndex.toNat).untag (4096 / 16)
    (Nat.le_refl _) (portCfgVcr0 hwIndex s)
  rw [rtuWritePortCfgHw_eq]
  simp only at loop
  generalize (List.range (4096 / 16)).foldl (fun s' i =>
    epWrite hwIndex.toNat .vcr1 (vcr1Word (s.portsCfg hwIndex.toNat).untag i) s')
    (portCfgVcr0 hwIndex s) = s' at loop ⊢
  obtain ⟨_, vcr0, bitmap⟩ := loop
  have word : s'.fpga.vcr0 hwIndex.toNat =
      vcr0Word (s.fpga.vcr0 hwIndex.toNat) (s.portsCfg hwIndex.toNat) := by
    rw [vcr0]
    exact Function.update_self _ _ _
  rw [word]
  exact ⟨vcr0_qmode _ fits, vcr0_fixPrio _ _, vcr0_prio _ fits, vcr0_pvid _ fits, bitmap⟩

/-- The configuration of a port is in range, and is what its endpoint holds. -/
structure PortOk (s : RtuState) (p : Nat) : Prop where
  fits : PortFits (s.portsCfg p)
  words : PortWords (s.fpga.vcr0 p) (s.fpga.vcr1 p) (s.portsCfg p)

/-- Only ports and endpoints were changed. -/
structure OnlyPorts (s s' : RtuState) : Prop where
  rtuHtab : s'.rtuHtab = s.rtuHtab
  hwReqList : s'.hwReqList = s.hwReqList
  vlanTab : s'.vlanTab = s.vlanTab
  mirrorCfg : s'.mirrorCfg = s.mirrorCfg
  halNportsLocal : s'.halNportsLocal = s.halNportsLocal
  vlan : s'.fpga.vlan = s.fpga.vlan
  rxCtr : s'.fpga.rxCtr = s.fpga.rxCtr
  rxMpMask : s'.fpga.rxMpMask = s.fpga.rxMpMask

theorem OnlyPorts.trans {s s' s'' : RtuState} (first : OnlyPorts s s')
    (second : OnlyPorts s' s'') : OnlyPorts s s'' where
  rtuHtab := second.rtuHtab.trans first.rtuHtab
  hwReqList := second.hwReqList.trans first.hwReqList
  vlanTab := second.vlanTab.trans first.vlanTab
  mirrorCfg := second.mirrorCfg.trans first.mirrorCfg
  halNportsLocal := second.halNportsLocal.trans first.halNportsLocal
  vlan := second.vlan.trans first.vlan
  rxCtr := second.rxCtr.trans first.rxCtr
  rxMpMask := second.rxMpMask.trans first.rxMpMask

/-- What touches one endpoint touches ports only. -/
theorem OnlyEndpoint.ports {hw : Nat} {s s' : RtuState} (only : OnlyEndpoint hw s s') :
    OnlyPorts s s' where
  rtuHtab := congrArg SwState.rtuHtab only.memory
  hwReqList := congrArg SwState.hwReqList only.memory
  vlanTab := congrArg SwState.vlanTab only.memory
  mirrorCfg := congrArg SwState.mirrorCfg only.memory
  halNportsLocal := congrArg SwState.halNportsLocal only.memory
  vlan := only.vlan
  rxCtr := only.rxCtr
  rxMpMask := only.rxMpMask

/-- A new configuration of one port, in memory and then in the endpoint. -/
theorem portWrite_ok (hwIndex : Byte) (cfg : RtuPortEntry) (s : RtuState) (p : Nat)
    (ok : p ≠ hwIndex.toNat → PortOk s p) (fits : p = hwIndex.toNat → PortFits cfg) :
    PortOk (rtuWritePortCfgHw hwIndex
      { s with portsCfg := Function.update s.portsCfg hwIndex.toNat cfg }) p := by
  generalize changed : { s with portsCfg := Function.update s.portsCfg hwIndex.toNat cfg } = s'
  have memory := congrArg SwState.portsCfg (rtuWritePortCfgHw_only hwIndex s').memory
  by_cases this : p = hwIndex.toNat
  · subst this
    have stored : s'.portsCfg hwIndex.toNat = cfg := by
      rw [← changed]
      exact Function.update_self _ _ _
    have written := rtuWritePortCfgHw_words hwIndex s' (by rw [stored]; exact fits rfl)
    exact ⟨by rw [memory, stored]; exact fits rfl, by rw [memory]; exact written⟩
  · -- the endpoints of the other ports are not written
    have kept : s'.portsCfg p = s.portsCfg p := by
      rw [← changed]
      exact Function.update_of_ne this _ _
    have only := rtuWritePortCfgHw_only hwIndex s'
    refine ⟨?_, ?_⟩
    · rw [memory, kept]
      exact (ok this).fits
    · rw [memory, kept, only.vcr0 p this, only.vcr1 p this, ← changed]
      exact (ok this).words

private theorem portWrite_only (hwIndex : Byte) (cfg : RtuPortEntry) (s : RtuState) :
    OnlyPorts s (rtuWritePortCfgHw hwIndex
      { s with portsCfg := Function.update s.portsCfg hwIndex.toNat cfg }) := by
  generalize changed : { s with portsCfg := Function.update s.portsCfg hwIndex.toNat cfg } = s'
  have memory : OnlyPorts s s' := by
    subst changed
    exact ⟨rfl, rfl, rfl, rfl, rfl, rfl, rfl, rfl⟩
  exact memory.trans (rtuWritePortCfgHw_only hwIndex s').ports

/-- What `rtu_clean_ports` writes for a port. -/
def cleanPortCfg (cfg : RtuPortEntry) : RtuPortEntry :=
  { cfg with qmode := qmodeUnq, fixPrio := 0, prio := 0, pvid := 0, untag := 0 }

private theorem rtuCleanPort_ok (epMac : Nat → Mac) (s : RtuState) (n p : Nat) (small : n < 256)
    (ok : p ≠ n → PortOk s p) : PortOk (rtuCleanPort epMac s n) p := by
  have index : (BitVec.ofNat 8 n).toNat = n := by
    rw [BitVec.toNat_ofNat]
    omega
  have written := portWrite_ok (BitVec.ofNat 8 n) (cleanPortCfg (s.portsCfg n)) s p
    (by rw [index]; exact ok) fun _ =>
      ⟨by simp [cleanPortCfg, qmodeUnq], by simp [cleanPortCfg], by simp [cleanPortCfg]⟩
  rw [index] at written
  simp only [rtuCleanPort]
  simp only [cleanPortCfg] at written
  generalize rtuWritePortCfgHw _ _ = s' at written ⊢
  -- the MAC address is not part of what the registers hold
  by_cases this : p = n
  · subst this
    obtain ⟨⟨qmode, prio, pvid⟩, words⟩ := written
    refine ⟨⟨?_, ?_, ?_⟩, ⟨?_, ?_, ?_, ?_, ?_⟩⟩
    all_goals simp only [Function.update_self]
    · exact qmode
    · exact prio
    · exact pvid
    · exact words.qmode
    · exact words.fixPrio
    · exact words.prio
    · exact words.pvid
    · exact words.untag
  · refine ⟨?_, ?_⟩
    · simp only [Function.update_of_ne this]
      exact written.fits
    · simp only [Function.update_of_ne this]
      exact written.words

private theorem rtuCleanPort_only (epMac : Nat → Mac) (s : RtuState) (n : Nat) (small : n < 256) :
    OnlyPorts s (rtuCleanPort epMac s n) := by
  have index : (BitVec.ofNat 8 n).toNat = n := by
    rw [BitVec.toNat_ofNat]
    omega
  have written := portWrite_only (BitVec.ofNat 8 n) (cleanPortCfg (s.portsCfg n)) s
  rw [index] at written
  simp only [rtuCleanPort]
  simp only [cleanPortCfg] at written
  generalize rtuWritePortCfgHw _ _ = s' at written ⊢
  exact written.trans ⟨rfl, rfl, rfl, rfl, rfl, rfl, rfl, rfl⟩

/-- The loop of `rtu_clean_ports` after `n` turns. -/
theorem rtuCleanPorts_loop (epMac : Nat → Mac) (n : Nat) (few : n ≤ 256) (s : RtuState) :
    OnlyPorts s ((List.range n).foldl (rtuCleanPort epMac) s) ∧
      ∀ p < n, PortOk ((List.range n).foldl (rtuCleanPort epMac) s) p := by
  induction n with
  | zero => exact ⟨⟨rfl, rfl, rfl, rfl, rfl, rfl, rfl, rfl⟩, fun p below => absurd below (Nat.not_lt_zero p)⟩
  | succ n ih =>
    obtain ⟨only, written⟩ := ih (by omega)
    rw [List.range_succ, List.foldl_append, List.foldl_cons, List.foldl_nil]
    generalize (List.range n).foldl (rtuCleanPort epMac) s = s' at only written ⊢
    refine ⟨only.trans (rtuCleanPort_only epMac s' n (by omega)), fun p below => ?_⟩
    exact rtuCleanPort_ok epMac s' n p (by omega) fun other => written p (by omega)

/-- After the start every port has its default in the endpoint. -/
theorem rtuCleanPorts_ok (epMac : Nat → Mac) (s : RtuState) :
    OnlyPorts s (rtuCleanPorts epMac s) ∧
      ∀ p : Nat, (p : Int) < s.halNportsLocal.val → PortOk (rtuCleanPorts epMac s) p := by
  have limit : s.halNportsLocal.val ≤ 32 := s.halNportsLocal.property
  obtain ⟨only, written⟩ := rtuCleanPorts_loop epMac s.halNportsLocal.val.toNat (by omega)
    { s with portsCfg := fun i => if (i : Int) < halMaxPorts then .zero else s.portsCfg i }
  exact ⟨⟨only.rtuHtab, only.hwReqList, only.vlanTab, only.mirrorCfg, only.halNportsLocal,
    only.vlan, only.rxCtr, only.rxMpMask⟩, fun p below => written p (by omega)⟩

/-- The fields that `rtu_write_port_config` leaves in memory. -/
def updatedPortCfg (validMask qmode fixPrio prio : Byte) (pvid : BitVec 16) (untag : Byte)
    (cfg : RtuPortEntry) : RtuPortEntry :=
  let cfg := if validMask &&& validQmode ≠ 0 then { cfg with qmode := qmode } else cfg
  let cfg := if validMask &&& validPrio ≠ 0 then { cfg with fixPrio := fixPrio, prio := prio }
    else cfg
  let cfg := if validMask &&& validVid ≠ 0 then { cfg with pvid := pvid } else cfg
  if validMask &&& validUntag ≠ 0 then { cfg with untag := untag } else cfg

private theorem updatedPortCfg_fits (validMask qmode fixPrio prio : Byte) (pvid : BitVec 16)
    (untag : Byte) {cfg : RtuPortEntry} (fits : PortFits cfg) (modeFits : qmode.toNat < 4)
    (prioFits : prio.toNat < 8) (pvidFits : pvid.toNat < 4096) :
    PortFits (updatedPortCfg validMask qmode fixPrio prio pvid untag cfg) := by
  obtain ⟨oldMode, oldPrio, oldPvid⟩ := fits
  refine ⟨?_, ?_, ?_⟩
  all_goals
    simp only [updatedPortCfg]
    split_ifs <;> assumption

private theorem rtuWritePortConfig_eq (hwIndex validMask qmode fixPrio prio : Byte)
    (pvid : BitVec 16) (untag : Byte) (s : RtuState) :
    rtuWritePortConfig hwIndex validMask qmode fixPrio prio pvid untag s =
      rtuWritePortCfgHw hwIndex { s.emit (.index .portsCfg hwIndex.toNat) with
        portsCfg := Function.update (s.emit (.index .portsCfg hwIndex.toNat)).portsCfg hwIndex.toNat
          (updatedPortCfg validMask qmode fixPrio prio pvid untag (s.portsCfg hwIndex.toNat)) } :=
  rfl

/-- An accepted request leaves a configuration in range, whatever its mask of valid fields. -/
theorem rtuWritePortConfig_ok (hwIndex validMask qmode fixPrio prio : Byte) (pvid : BitVec 16)
    (untag : Byte) (s : RtuState) (modeFits : qmode.toNat < 4) (prioFits : prio.toNat < 8)
    (pvidFits : pvid.toNat < 4096) :
    OnlyPorts s (rtuWritePortConfig hwIndex validMask qmode fixPrio prio pvid untag s) ∧
      ∀ p, PortOk s p →
        PortOk (rtuWritePortConfig hwIndex validMask qmode fixPrio prio pvid untag s) p := by
  rw [rtuWritePortConfig_eq]
  refine ⟨?_, fun p ok => ?_⟩
  · have noted : OnlyPorts s (s.emit (.index .portsCfg hwIndex.toNat)) :=
      ⟨rfl, rfl, rfl, rfl, rfl, rfl, rfl, rfl⟩
    exact noted.trans (portWrite_only hwIndex _ _)
  · refine portWrite_ok hwIndex _ _ p (fun _ => ⟨ok.fits, ok.words⟩) fun this => ?_
    rw [← this]
    exact updatedPortCfg_fits _ _ _ _ _ _ ok.fits modeFits prioFits pvidFits

/-- A request for a port keeps the endpoints as the memory says. -/
theorem rtudexpPortCfg_ok (args : Mem) (s : RtuState) :
    OnlyPorts s (rtudexpPortCfg args s).2 ∧
      ∀ p, PortOk s p → PortOk (rtudexpPortCfg args s).2 p := by
  -- a refused call changes nothing
  have refused : OnlyPorts s s ∧ ∀ p, PortOk s p → PortOk s p :=
    ⟨⟨rfl, rfl, rfl, rfl, rfl, rfl, rfl, rfl⟩, fun _ ok => ok⟩
  simp only [rtudexpPortCfg]
  split
  · exact refused
  split
  · exact refused
  next known =>
    split
    · exact refused
    split
    · exact refused
    next prioBound =>
      split
      · exact refused
      next pvidBound =>
        split
        · exact refused
        · dsimp only
          refine rtuWritePortConfig_ok _ _ _ _ _ _ _ s ?_ ?_ ?_
          · -- the four modes are the values of two bits
            rcases not_not.mp known with mode | mode | mode | mode <;> rw [mode] <;> decide
          · rw [gt_iff_lt, BitVec.lt_def, portPrioMax] at prioBound
            have seven : (7 : Byte).toNat = 7 := rfl
            omega
          · rw [gt_iff_lt, BitVec.lt_def, portVidMax] at pvidBound
            have last : (4094 : BitVec 16).toNat = 4094 := rfl
            omega

/-! ### VLAN requests -/

/-- The entry that `rtu_fd_create_vlan_entry` stores. -/
def newVlanEntry (portNum : Int) (portMask : Word) (fid prio : Byte)
    (hasPrio prioOverride drop : Word) (tv : Word × Word) : RtuVlanTableEntry where
  portMask := if portMask = 0 ∧ drop = 1 then 0 else portMask ||| portBit portNum
  fid := fid
  prio := prio
  hasPrio := hasPrio
  prioOverride := prioOverride
  drop := drop
  creationTime := tv

/-- Only VLANs were changed. -/
structure OnlyVlans (s s' : RtuState) : Prop where
  rtuHtab : s'.rtuHtab = s.rtuHtab
  hwReqList : s'.hwReqList = s.hwReqList
  mirrorCfg : s'.mirrorCfg = s.mirrorCfg
  portsCfg : s'.portsCfg = s.portsCfg
  halNportsLocal : s'.halNportsLocal = s.halNportsLocal
  rxCtr : s'.fpga.rxCtr = s.fpga.rxCtr
  rxMpMask : s'.fpga.rxMpMask = s.fpga.rxMpMask
  vcr0 : s'.fpga.vcr0 = s.fpga.vcr0
  vcr1 : s'.fpga.vcr1 = s.fpga.vcr1
  psr : s'.fpga.psr = s.fpga.psr

theorem OnlyVlans.trans {s s' s'' : RtuState} (first : OnlyVlans s s')
    (second : OnlyVlans s' s'') : OnlyVlans s s'' where
  rtuHtab := second.rtuHtab.trans first.rtuHtab
  hwReqList := second.hwReqList.trans first.hwReqList
  mirrorCfg := second.mirrorCfg.trans first.mirrorCfg
  portsCfg := second.portsCfg.trans first.portsCfg
  halNportsLocal := second.halNportsLocal.trans first.halNportsLocal
  rxCtr := second.rxCtr.trans first.rxCtr
  rxMpMask := second.rxMpMask.trans first.rxMpMask
  vcr0 := second.vcr0.trans first.vcr0
  vcr1 := second.vcr1.trans first.vcr1
  psr := second.psr.trans first.psr

/-- A VLAN request stores its entry and then writes it to the hardware. -/
theorem rtuFdCreateVlanEntry_eq (vid : Int) (portMask : Word) (fid prio : Byte)
    (hasPrio prioOverride drop : Word) (tv : Word × Word) (s : RtuState) :
    ∃ stored, rtuFdCreateVlanEntry vid portMask fid prio hasPrio prioOverride drop tv s =
        rtuWriteVlanEntry vid (newVlanEntry (rtuPsrNPortsR s.fpga.psr).toNat portMask fid prio
          hasPrio prioOverride drop tv) stored ∧
      stored.vlanTab = Function.update s.vlanTab vid (newVlanEntry (rtuPsrNPortsR s.fpga.psr).toNat
        portMask fid prio hasPrio prioOverride drop tv) ∧
      stored.fpga = s.fpga ∧ OnlyVlans s stored := by
  by_cases cpuOnly : portMask = 0 ∧ drop = 1
  · simp only [rtuFdCreateVlanEntry, newVlanEntry, if_pos cpuOnly]
    exact ⟨_, rfl, rfl, rfl, ⟨rfl, rfl, rfl, rfl, rfl, rfl, rfl, rfl, rfl, rfl⟩⟩
  · simp only [rtuFdCreateVlanEntry, newVlanEntry, if_neg cpuOnly]
    exact ⟨_, rfl, rfl, rfl, ⟨rfl, rfl, rfl, rfl, rfl, rfl, rfl, rfl, rfl, rfl⟩⟩

/-- Writing a VLAN entry touches VLANs only. -/
theorem rtuWriteVlanEntry_only (vid : Int) (ent : RtuVlanTableEntry) (s : RtuState) :
    (rtuWriteVlanEntry vid ent s).vlanTab = s.vlanTab ∧
      OnlyVlans s (rtuWriteVlanEntry vid ent s) := by
  have write : rtuWriteVlanEntry vid ent s =
      rtuWr .vtr1 (vtr1Word vid ent) (rtuWr .vtr2 ent.portMask s) := rfl
  rw [write]
  simp only [rtuWr, RtuState.emit, Fpga.apply, if_pos (vtr1Word_update vid ent)]
  exact ⟨trivial, ⟨rfl, rfl, rfl, rfl, rfl, rfl, rfl, rfl, rfl, rfl⟩⟩

/-- The entry of a request, from its arguments. -/
def requestedVlan (args : Mem) (env : RtudEnv) (s : RtuState) : RtuVlanTableEntry :=
  newVlanEntry (rtuPsrNPortsR s.fpga.psr).toNat (argAt args 2) ((argAt args 1).setWidth 8)
    ((argAt args 4).setWidth 8) (argAt args 5) (argAt args 6) (argAt args 3) env.tv

/-- A request for a VLAN changes its entry, in memory and in the hardware. -/
theorem rtudexpVlanEntry_vlan (args : Mem) (env : RtudEnv) (s : RtuState)
    (inside : 0 ≤ (argAt args 0).toInt ∧ (argAt args 0).toInt < numVlans) :
    (rtudexpVlanEntry args env s).2.vlanTab =
        Function.update s.vlanTab (argAt args 0).toInt (requestedVlan args env s) ∧
      (rtudexpVlanEntry args env s).2.fpga.vlan =
        Function.update s.fpga.vlan (BitVec.ofInt 32 (argAt args 0).toInt)
          (vtr1Word (argAt args 0).toInt (requestedVlan args env s),
            (requestedVlan args env s).portMask) ∧
      OnlyVlans s (rtudexpVlanEntry args env s).2 := by
  obtain ⟨stored, request, tab, fpga, only⟩ := rtuFdCreateVlanEntry_eq (argAt args 0).toInt
    (argAt args 2) ((argAt args 1).setWidth 8) ((argAt args 4).setWidth 8) (argAt args 5)
    (argAt args 6) (argAt args 3) env.tv s
  have step : (rtudexpVlanEntry args env s).2 =
      rtuWriteVlanEntry (argAt args 0).toInt (requestedVlan args env s) stored := request
  obtain ⟨memory, written⟩ := rtuWriteVlanEntry_only (argAt args 0).toInt
    (requestedVlan args env s) stored
  rw [step]
  refine ⟨memory.trans tab, ?_, only.trans written⟩
  rw [rtuWriteVlanEntry_vlan _ _ _ inside, fpga]

end WrSwitch.Rtu
