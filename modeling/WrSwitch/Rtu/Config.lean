import WrSwitch.Rtu.Exports
import WrSwitch.Rtu.RegFields

/-!
# Initial configuration

`rtu_fd_init` on a fresh segment with the cleaning functions it calls, and what the words of
the VLAN table and of the endpoints hold.
-/
namespace WrSwitch.Rtu

open Machine MiniRpc

/-! ### Initialisation -/

def rtuCleanVlanEntry (vid : Int) (s : RtuState) : RtuState :=
  let vtr1 := rtuVtr1Update ||| rtuVtr1VidW (BitVec.ofInt 32 vid)
  rtuWr .vtr1 vtr1 (rtuWr .vtr2 0 s)

def rtuCleanVlan (s : RtuState) : RtuState :=
  (List.range numVlans.toNat).foldl (fun s (addr : Nat) => rtuCleanVlanEntry addr s) s

def RtuVlanTableEntry.zero : RtuVlanTableEntry := ⟨0, 0, 0, 0, 0, 0, (0, 0)⟩

def cleanVd (s : RtuState) : RtuState :=
  let s := rtuCleanVlan s
  let s := { s with vlanTab := fun i =>
    if 1 ≤ i ∧ i < numVlans then { s.vlanTab i with drop := 1, portMask := 0x0 } else s.vlanTab i }
  -- the first entry is reserved for untagged packets
  let s := { s with vlanTab := Function.update s.vlanTab 0 { s.vlanTab 0 with
    portMask := 0xffffffff, drop := 0, fid := 0, hasPrio := 0, prioOverride := 0, prio := 0 } }
  rtuWriteVlanEntry 0 (s.vlanTab 0) s

def cleanMc (s : RtuState) : RtuState :=
  let s := { s with mirrorCfg := ⟨0, 0, 0, 0⟩ }
  rtuCfgMirroring s.mirrorCfg (rtuEnableMirroring s.mirrorCfg.en s)

/-- `rtu_fd_init` on a fresh segment, where `wrs_shm_alloc` clears what it hands out. -/
def rtuFdInit (poly : BitVec 16) (aging : Word) (epMac : Nat → Mac) (s : RtuState) : RtuState :=
  let s := cleanFd s
  let s := cleanVd { s with vlanTab := fun i =>
    if 0 ≤ i ∧ i < numVlans then .zero else s.vlanTab i }
  let s := rtuCleanPorts epMac (cleanMc s)
  let s := rtuReadAgingBitmap s
  { s with agingTime := aging, hashPoly := rtuHashSetPoly poly }

/-! ### Words of the VLAN table -/

def rtuVtr1FidR (reg : Word) : Word := wbgen2GenRead reg 12 8
def rtuVtr1PrioR (reg : Word) : Word := wbgen2GenRead reg 23 3

/-- The `vtr1` of `rtu_write_vlan_entry`. -/
def vtr1Word (vid : Int) (ent : RtuVlanTableEntry) : Word :=
  rtuVtr1Update ||| rtuVtr1VidW (BitVec.ofInt 32 vid)
    ||| (if ent.drop ≠ 0 then rtuVtr1Drop else 0)
    ||| (if ent.prioOverride ≠ 0 then rtuVtr1PrioOverride else 0)
    ||| (if ent.hasPrio ≠ 0 then rtuVtr1HasPrio else 0)
    ||| rtuVtr1PrioW (ent.prio.setWidth 32)
    ||| rtuVtr1FidW (ent.fid.setWidth 32)

/-- The words hold exactly the entry. -/
structure VlanWords (words : Word × Word) (vid : Int) (ent : RtuVlanTableEntry) : Prop where
  vid : words.1 &&& rtuVtr1VidMask = BitVec.ofInt 32 vid
  portMask : words.2 = ent.portMask
  fid : rtuVtr1FidR words.1 = ent.fid.setWidth 32
  prio : rtuVtr1PrioR words.1 = ent.prio.setWidth 32
  drop : words.1 &&& rtuVtr1Drop ≠ 0 ↔ ent.drop ≠ 0
  hasPrio : words.1 &&& rtuVtr1HasPrio ≠ 0 ↔ ent.hasPrio ≠ 0
  prioOverride : words.1 &&& rtuVtr1PrioOverride ≠ 0 ↔ ent.prioOverride ≠ 0

/-- Every VTR1 word asks for the update. -/
theorem vtr1Word_update (vid : Int) (ent : RtuVlanTableEntry) :
    vtr1Word vid ent &&& rtuVtr1Update ≠ 0 := by
  rw [ne_eq, rtuVtr1Update, and_genMask_eq_zero _ _ _ (by omega)]
  simp (disch := omega) only [vtr1Word, rtuVtr1Update, rtuVtr1VidW, rtuVtr1Drop,
    rtuVtr1PrioOverride, rtuVtr1HasPrio, rtuVtr1PrioW, rtuVtr1FidW, genRead_or, genRead_ite,
    genRead_write_other, genRead_mask_other, ite_self]
  decide

/-- The VID of a VTR1 word. -/
theorem vtr1Word_vid (vid : Int) (ent : RtuVlanTableEntry) :
    vtr1Word vid ent &&& rtuVtr1VidMask = wbgen2GenRead (BitVec.ofInt 32 vid) 0 12 := by
  rw [rtuVtr1VidMask, and_genMask_eq_read]
  simp (disch := omega) only [vtr1Word, rtuVtr1Update, rtuVtr1VidW, rtuVtr1Drop,
    rtuVtr1PrioOverride, rtuVtr1HasPrio, rtuVtr1PrioW, rtuVtr1FidW, genRead_or, genRead_ite,
    genRead_write_same, genRead_write_other, genRead_mask_other, ite_self]
  simp

/-- The FID of a VTR1 word. -/
theorem vtr1Word_fid (vid : Int) (ent : RtuVlanTableEntry) :
    rtuVtr1FidR (vtr1Word vid ent) = ent.fid.setWidth 32 := by
  simp (disch := omega) only [rtuVtr1FidR, vtr1Word, rtuVtr1Update, rtuVtr1VidW, rtuVtr1Drop,
    rtuVtr1PrioOverride, rtuVtr1HasPrio, rtuVtr1PrioW, rtuVtr1FidW, genRead_or, genRead_ite,
    genRead_write_same, genRead_write_other, genRead_mask_other, ite_self]
  rw [genRead_small]
  · simp
  · rw [BitVec.toNat_setWidth]
    have bound := ent.fid.isLt
    omega

/-- The priority of a VTR1 word. -/
theorem vtr1Word_prio (vid : Int) (ent : RtuVlanTableEntry) :
    rtuVtr1PrioR (vtr1Word vid ent) = wbgen2GenRead (ent.prio.setWidth 32) 0 3 := by
  simp (disch := omega) only [rtuVtr1PrioR, vtr1Word, rtuVtr1Update, rtuVtr1VidW, rtuVtr1Drop,
    rtuVtr1PrioOverride, rtuVtr1HasPrio, rtuVtr1PrioW, rtuVtr1FidW, genRead_or, genRead_ite,
    genRead_write_same, genRead_write_other, genRead_mask_other, ite_self]
  simp

/-- The drop bit of a VTR1 word. -/
theorem vtr1Word_drop (vid : Int) (ent : RtuVlanTableEntry) :
    vtr1Word vid ent &&& rtuVtr1Drop ≠ 0 ↔ ent.drop ≠ 0 := by
  rw [not_iff_not, rtuVtr1Drop, and_genMask_eq_zero _ _ _ (by omega)]
  simp (disch := omega) only [vtr1Word, rtuVtr1Update, rtuVtr1VidW, rtuVtr1Drop,
    rtuVtr1PrioOverride, rtuVtr1HasPrio, rtuVtr1PrioW, rtuVtr1FidW, genRead_or, genRead_ite,
    genRead_write_other, genRead_mask_other, ite_self]
  split
  next dropped => exact iff_of_false (by decide) dropped
  next kept => exact iff_of_true (by decide) (not_not.mp kept)

theorem vtr1Word_hasPrio (vid : Int) (ent : RtuVlanTableEntry) :
    vtr1Word vid ent &&& rtuVtr1HasPrio ≠ 0 ↔ ent.hasPrio ≠ 0 := by
  rw [not_iff_not, rtuVtr1HasPrio, and_genMask_eq_zero _ _ _ (by omega)]
  simp (disch := omega) only [vtr1Word, rtuVtr1Update, rtuVtr1VidW, rtuVtr1Drop,
    rtuVtr1PrioOverride, rtuVtr1HasPrio, rtuVtr1PrioW, rtuVtr1FidW, genRead_or, genRead_ite,
    genRead_write_other, genRead_mask_other, ite_self]
  split
  next set => exact iff_of_false (by decide) set
  next clear => exact iff_of_true (by decide) (not_not.mp clear)

theorem vtr1Word_prioOverride (vid : Int) (ent : RtuVlanTableEntry) :
    vtr1Word vid ent &&& rtuVtr1PrioOverride ≠ 0 ↔ ent.prioOverride ≠ 0 := by
  rw [not_iff_not, rtuVtr1PrioOverride, and_genMask_eq_zero _ _ _ (by omega)]
  simp (disch := omega) only [vtr1Word, rtuVtr1Update, rtuVtr1VidW, rtuVtr1Drop,
    rtuVtr1PrioOverride, rtuVtr1HasPrio, rtuVtr1PrioW, rtuVtr1FidW, genRead_or, genRead_ite,
    genRead_write_other, genRead_mask_other, ite_self]
  split
  next set => exact iff_of_false (by decide) set
  next clear => exact iff_of_true (by decide) (not_not.mp clear)

theorem vid_toNat {vid : Int} (inside : 0 ≤ vid ∧ vid < numVlans) :
    (BitVec.ofInt 32 vid).toNat = vid.toNat := by
  have limit : numVlans = 4096 := rfl
  rw [BitVec.toNat_ofInt]
  omega

/-- A VID of the table fits its field. -/
theorem vid_field {vid : Int} (inside : 0 ≤ vid ∧ vid < numVlans) :
    wbgen2GenRead (BitVec.ofInt 32 vid) 0 12 = BitVec.ofInt 32 vid := by
  apply genRead_small
  have limit : numVlans = 4096 := rfl
  rw [vid_toNat inside]
  omega

/-- The priority is the only field that may be wider than its bits. -/
theorem prio_field (prio : Byte) :
    wbgen2GenRead (prio.setWidth 32) 0 3 = prio.setWidth 32 ↔ prio.toNat < 8 := by
  have bound := prio.isLt
  constructor
  · intro same
    have value := congrArg BitVec.toNat same
    rw [wbgen2GenRead, BitVec.ushiftRight_zero, BitVec.toNat_and, BitVec.toNat_setWidth] at value
    have seven : ((1 : Word) <<< 3 - 1).toNat = 2 ^ 3 - 1 := by decide
    rw [seven, Nat.and_two_pow_sub_one_eq_mod] at value
    omega
  · intro small
    apply genRead_small
    rw [BitVec.toNat_setWidth]
    omega

/-- The words that are written for an entry hold it exactly if its priority has three bits. -/
theorem vlanWords_iff {vid : Int} (ent : RtuVlanTableEntry) (inside : 0 ≤ vid ∧ vid < numVlans) :
    VlanWords (vtr1Word vid ent, ent.portMask) vid ent ↔ ent.prio.toNat < 8 := by
  constructor
  · intro words
    rw [← prio_field, ← vtr1Word_prio vid ent]
    exact words.prio
  · intro small
    refine ⟨?_, rfl, vtr1Word_fid vid ent, ?_, vtr1Word_drop vid ent, vtr1Word_hasPrio vid ent,
      vtr1Word_prioOverride vid ent⟩
    · rw [vtr1Word_vid, vid_field inside]
    · rw [vtr1Word_prio, (prio_field ent.prio).mpr small]

end WrSwitch.Rtu
