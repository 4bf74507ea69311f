import WrSwitch.Rtu.ConfigMirror
import WrSwitch.Rtu.RepInvariant

/-!
# Configuration over runs

Which sequences of requests leave tables that describe the hardware. The last request for a
VLAN and the last one for mirroring decide.
-/
namespace WrSwitch.Rtu

open Machine MiniRpc

/-- The requests that change VLANs, mirroring or ports. -/
inductive ConfigRequest
  | vlanEntry (args : Mem) (env : RtudEnv)
  | mirror (args : Mem)
  | portCfg (args : Mem)
  | portCfgClearAll (ret : Word) (env : RtudEnv)

def configStep (s : RtuState) : ConfigRequest → RtuState
  | .vlanEntry args env => (rtudexpVlanEntry args env s).2
  | .mirror args => (rtudexpMirror args s).2
  | .portCfg args => (rtudexpPortCfg args s).2
  | .portCfgClearAll ret env => (rtudexpPortCfgClearAll ret env s).2

/-- The request stays within `vlan_tab` or `ports_cfg`. Of the ports behind the last one only
number `HAL_MAX_PORTS` is let through. -/
def ConfigRequest.Inside : ConfigRequest → Prop
  | .vlanEntry args _ => 0 ≤ (argAt args 0).toInt ∧ (argAt args 0).toInt < numVlans
  | .portCfg args => (((argAt args 0).setWidth 8 : Byte).toNat : Int) ≠ halMaxPorts
  | .mirror _ | .portCfgClearAll _ _ => True

/-- The tables in memory are what the hardware holds. -/
structure Describes (s : RtuState) : Prop where
  vlans : ∀ vid : Int, 0 ≤ vid → vid < numVlans →
    VlanWords (s.fpga.vlan (BitVec.ofInt 32 vid)) vid (s.vlanTab vid)
  mirrorEnable : s.fpga.rxCtr &&& rtuRxCtrMrEna ≠ 0 ↔ s.mirrorCfg.en ≠ 0
  mirrorMasks : MaskWords s.fpga s.mirrorCfg
  ports : ∀ p : Nat, (p : Int) < s.halNportsLocal.val →
    PortWords (s.fpga.vcr0 p) (s.fpga.vcr1 p) (s.portsCfg p)

/-! ### Last requests -/

/-- The priority of the entry that was last written for a VID. `rtu_fd_init` writes that of
VID 0 only; the others it just cleans. -/
def lastPrio (vid : Int) (rs : List ConfigRequest) : Option Byte :=
  rs.foldl (fun last r => match r with
    | .vlanEntry args _ => if (argAt args 0).toInt = vid then some ((argAt args 4).setWidth 8)
      else last
    | _ => last) (if vid = 0 then some 0 else none)

/-- The arguments that `rtudexp_mirror` accepts. -/
def MirrorAccepted (args : Mem) : Prop :=
  argAt args 1 ≤ 0x3ffff ∧ argAt args 2 ≤ 0x3ffff ∧
    (argAt args 0 = 1 → 1 ≤ argAt args 3 ∧ argAt args 3 ≤ 0x3ffff)

instance (args : Mem) : Decidable (MirrorAccepted args) := by
  unfold MirrorAccepted
  infer_instance

/-- The `enable` of the last mirroring request that was accepted. -/
def lastEnable (rs : List ConfigRequest) : Word :=
  rs.foldl (fun last r => match r with
    | .mirror args => if MirrorAccepted args then argAt args 0 else last
    | _ => last) 0

/-- A request for mirroring that is accepted is carried out. -/
theorem rtudexpMirror_accepted {args : Mem} (accepted : MirrorAccepted args) (s : RtuState) :
    rtudexpMirror args s = (0, rtuFdWriteMirrorConfig (argAt args 0) (argAt args 1) (argAt args 2)
      (argAt args 3) s) := by
  obtain ⟨imask, emask, dmask⟩ := accepted
  have enabled : ¬(argAt args 0 = 1 ∧ (argAt args 3 < 1 ∨ argAt args 3 > 0x3ffff)) := by
    rintro ⟨one, low | high⟩
    · exact absurd low (BitVec.not_lt.mpr (dmask one).1)
    · exact absurd high (BitVec.not_lt.mpr (dmask one).2)
  rw [rtudexpMirror, if_neg (BitVec.not_lt.mpr imask), if_neg (BitVec.not_lt.mpr emask),
    if_neg enabled]

/-- A request for mirroring that is refused changes nothing. -/
theorem rtudexpMirror_refused {args : Mem} (refused : ¬MirrorAccepted args) (s : RtuState) :
    rtudexpMirror args s = (-1, s) := by
  simp only [rtudexpMirror]
  split_ifs with imask emask enabled
  · rfl
  · rfl
  · rfl
  · refine absurd ⟨BitVec.not_lt.mp imask, BitVec.not_lt.mp emask, fun one => ?_⟩ refused
    push Not at enabled
    exact ⟨BitVec.not_lt.mp (enabled one).1, BitVec.not_lt.mp (enabled one).2⟩

/-! ### Invariant -/

/-- The words of a VID, given the priority of the entry that was last written for it. -/
def VlanInv (s : RtuState) (vid : Int) : Option Byte → Prop
  | some prio => s.fpga.vlan (BitVec.ofInt 32 vid) =
      (vtr1Word vid (s.vlanTab vid), (s.vlanTab vid).portMask) ∧ (s.vlanTab vid).prio = prio
  | none => s.fpga.vlan (BitVec.ofInt 32 vid) = (cleanVtr1 vid, 0) ∧ (s.vlanTab vid).drop = 1

structure ConfigInv (rs : List ConfigRequest) (s : RtuState) : Prop where
  vlans : ∀ vid : Int, 0 ≤ vid → vid < numVlans → VlanInv s vid (lastPrio vid rs)
  mirrorEn : s.mirrorCfg.en = lastEnable rs
  mirrorBit : s.fpga.rxCtr &&& rtuRxCtrMrEna ≠ 0 ↔ s.mirrorCfg.en = 1
  mirrorMasks : MaskWords s.fpga s.mirrorCfg
  ports : ∀ p : Nat, (p : Int) < s.halNportsLocal.val → PortOk s p

/-- A VLAN that is not written to stays as it is. -/
theorem VlanInv.frame {s s' : RtuState} {vid : Int} {last : Option Byte} (inv : VlanInv s vid last)
    (words : s'.fpga.vlan (BitVec.ofInt 32 vid) = s.fpga.vlan (BitVec.ofInt 32 vid))
    (tab : s'.vlanTab vid = s.vlanTab vid) : VlanInv s' vid last := by
  cases last with
  | some prio => simpa only [VlanInv, words, tab] using inv
  | none => simpa only [VlanInv, words, tab] using inv

/-- A port that is not written to stays as it is. -/
theorem PortOk.frame {s s' : RtuState} {p : Nat} (ok : PortOk s p)
    (cfg : s'.portsCfg = s.portsCfg) (vcr0 : s'.fpga.vcr0 = s.fpga.vcr0)
    (vcr1 : s'.fpga.vcr1 = s.fpga.vcr1) : PortOk s' p := by
  obtain ⟨fits, words⟩ := ok
  exact ⟨by rw [cfg]; exact fits, by rw [cfg, vcr0, vcr1]; exact words⟩

/-- The masks of mirroring depend on their register only. -/
theorem MaskWords.frame {f f' : Fpga} {cfg : RtuMirrorInfo} (masks : MaskWords f cfg)
    (same : f'.rxMpMask = f.rxMpMask) : MaskWords f' cfg :=
  ⟨by rw [same]; exact masks.dmask, by rw [same]; exact masks.imask, by rw [same]; exact masks.emask⟩

/-! ### Steps -/

private theorem lastPrio_concat (vid : Int) (rs : List ConfigRequest) (r : ConfigRequest) :
    lastPrio vid (rs ++ [r]) = match r with
      | .vlanEntry args _ => if (argAt args 0).toInt = vid then some ((argAt args 4).setWidth 8)
        else lastPrio vid rs
      | _ => lastPrio vid rs := by
  simp only [lastPrio, List.foldl_append, List.foldl_cons, List.foldl_nil]

private theorem lastEnable_concat (rs : List ConfigRequest) (r : ConfigRequest) :
    lastEnable (rs ++ [r]) = match r with
      | .mirror args => if MirrorAccepted args then argAt args 0 else lastEnable rs
      | _ => lastEnable rs := by
  simp only [lastEnable, List.foldl_append, List.foldl_cons, List.foldl_nil]

private theorem configInv_vlanEntry {rs : List ConfigRequest} {s : RtuState} (inv : ConfigInv rs s)
    (args : Mem) (env : RtudEnv) (inside : (ConfigRequest.vlanEntry args env).Inside) :
    ConfigInv (rs ++ [.vlanEntry args env]) (rtudexpVlanEntry args env s).2 := by
  obtain ⟨tab, words, only⟩ := rtudexpVlanEntry_vlan args env s inside
  refine ⟨?_, ?_, ?_, ?_, ?_⟩
  · intro vid low high
    rw [lastPrio_concat]
    dsimp only
    -- the entry written is the last request for its own number only
    split
    next this =>
      subst this
      refine ⟨?_, ?_⟩
      · rw [words, tab, Function.update_self, Function.update_self]
      · rw [tab, Function.update_self]
        rfl
    next other =>
      refine (inv.vlans vid low high).frame ?_ ?_
      · rw [words]
        exact Function.update_of_ne (fun same => other (ofInt_inj ⟨low, high⟩ inside same).symm) _ _
      · rw [tab]
        exact Function.update_of_ne (Ne.symm other) _ _
  · rw [lastEnable_concat, only.mirrorCfg, inv.mirrorEn]
  · rw [only.rxCtr, only.mirrorCfg]
    exact inv.mirrorBit
  · rw [only.mirrorCfg]
    exact inv.mirrorMasks.frame only.rxMpMask
  · intro p below
    rw [only.halNportsLocal] at below
    exact (inv.ports p below).frame only.portsCfg only.vcr0 only.vcr1

private theorem configInv_ports {rs : List ConfigRequest} {r : ConfigRequest} {s s' : RtuState}
    (inv : ConfigInv rs s) (only : OnlyPorts s s')
    (ports : ∀ p : Nat, (p : Int) < s.halNportsLocal.val → PortOk s' p)
    (prio : ∀ vid, lastPrio vid (rs ++ [r]) = lastPrio vid rs)
    (enable : lastEnable (rs ++ [r]) = lastEnable rs) : ConfigInv (rs ++ [r]) s' := by
  refine ⟨?_, ?_, ?_, ?_, ?_⟩
  · intro vid low high
    rw [prio]
    exact (inv.vlans vid low high).frame (by rw [only.vlan]) (by rw [only.vlanTab])
  · rw [enable, only.mirrorCfg, inv.mirrorEn]
  · rw [only.rxCtr, only.mirrorCfg]
    exact inv.mirrorBit
  · rw [only.mirrorCfg]
    exact inv.mirrorMasks.frame only.rxMpMask
  · intro p below
    rw [only.halNportsLocal] at below
    exact ports p below

/-- A mask of a configuration with mirroring enabled is zero only if it was left out and zero
before. -/
theorem updatedMask_zero {en mask old : Word} (enabled : en ≠ 0)
    (zero : (if en = 0 ∨ mask ≠ 0 then mask else old) = 0) : old = 0 := by
  split at zero
  next written => exact absurd zero (written.resolve_left enabled)
  next => exact zero

private theorem writeMirror_masks {s : RtuState} (masks : MaskWords s.fpga s.mirrorCfg)
    (en imask emask dmask : Word) (s₁ : RtuState) (same : s₁.fpga.rxMpMask = s.fpga.rxMpMask) :
    MaskWords (rtuCfgMirroring (updatedMirrorCfg en imask emask dmask s.mirrorCfg) s₁).fpga
      (updatedMirrorCfg en imask emask dmask s.mirrorCfg) := by
  refine rtuCfgMirroring_masks _ s₁ ?_ ?_ ?_
  · intro enabled zero
    rw [same, masks.dmask]
    exact updatedMask_zero enabled zero
  · intro enabled zero
    rw [same, masks.imask]
    exact updatedMask_zero enabled zero
  · intro enabled zero
    rw [same, masks.emask]
    exact updatedMask_zero enabled zero

/-- Only mirroring was changed. -/
structure OnlyMirror (s s' : RtuState) : Prop where
  rtuHtab : s'.rtuHtab = s.rtuHtab
  hwReqList : s'.hwReqList = s.hwReqList
  vlanTab : s'.vlanTab = s.vlanTab
  portsCfg : s'.portsCfg = s.portsCfg
  halNportsLocal : s'.halNportsLocal = s.halNportsLocal
  vlan : s'.fpga.vlan = s.fpga.vlan
  vcr0 : s'.fpga.vcr0 = s.fpga.vcr0
  vcr1 : s'.fpga.vcr1 = s.fpga.vcr1

/-- Mirroring is switched off and configured with nothing but the mirror words. -/
theorem rtuCfgMirroring_only (cfg : RtuMirrorInfo) (s : RtuState) :
    OnlyMirror s (rtuCfgMirroring cfg (rtuEnableMirroring 0 { s with mirrorCfg := cfg })) ∧
      (rtuCfgMirroring cfg (rtuEnableMirroring 0 { s with mirrorCfg := cfg })).mirrorCfg = cfg := by
  obtain ⟨memory, _, vlan, vcr0, vcr1⟩ :=
    rtuCfgMirroring_frame cfg (rtuEnableMirroring 0 { s with mirrorCfg := cfg })
  have rtuHtab := congrArg SwState.rtuHtab memory
  have hwReqList := congrArg SwState.hwReqList memory
  have vlanTab := congrArg SwState.vlanTab memory
  have portsCfg := congrArg SwState.portsCfg memory
  have halNportsLocal := congrArg SwState.halNportsLocal memory
  have mirrorCfg := congrArg SwState.mirrorCfg memory
  exact ⟨⟨rtuHtab, hwReqList, vlanTab, portsCfg, halNportsLocal, vlan, vcr0, vcr1⟩, mirrorCfg⟩

private theorem rtuFdWriteMirrorConfig_only (en imask emask dmask : Word) (s : RtuState) :
    OnlyMirror s (rtuFdWriteMirrorConfig en imask emask dmask s) ∧
      (rtuFdWriteMirrorConfig en imask emask dmask s).mirrorCfg =
        updatedMirrorCfg en imask emask dmask s.mirrorCfg := by
  simp only [rtuFdWriteMirrorConfig]
  generalize updatedMirrorCfg en imask emask dmask s.mirrorCfg = cfg
  obtain ⟨only, mirrorCfg⟩ := rtuCfgMirroring_only cfg s
  exact ⟨⟨only.rtuHtab, only.hwReqList, only.vlanTab, only.portsCfg, only.halNportsLocal, only.vlan,
    only.vcr0, only.vcr1⟩, mirrorCfg⟩

private theorem rtuFdWriteMirrorConfig_masks (en imask emask dmask : Word) {s : RtuState}
    (masks : MaskWords s.fpga s.mirrorCfg) :
    MaskWords (rtuFdWriteMirrorConfig en imask emask dmask s).fpga
      (updatedMirrorCfg en imask emask dmask s.mirrorCfg) := by
  have written := writeMirror_masks masks en imask emask dmask
    (rtuEnableMirroring 0 { s with
      mirrorCfg := updatedMirrorCfg en imask emask dmask s.mirrorCfg }) rfl
  exact written.frame rfl

private theorem configInv_mirror {rs : List ConfigRequest} {s : RtuState} (inv : ConfigInv rs s)
    (args : Mem) : ConfigInv (rs ++ [.mirror args]) (rtudexpMirror args s).2 := by
  have prio : ∀ vid, lastPrio vid (rs ++ [.mirror args]) = lastPrio vid rs := fun vid =>
    lastPrio_concat vid rs _
  -- the switch follows the last request that was accepted
  by_cases accepted : MirrorAccepted args
  · have enable : lastEnable (rs ++ [.mirror args]) = argAt args 0 := by
      rw [lastEnable_concat]
      exact if_pos accepted
    rw [rtudexpMirror_accepted accepted]
    dsimp only
    obtain ⟨only, cfg⟩ := rtuFdWriteMirrorConfig_only (argAt args 0) (argAt args 1)
      (argAt args 2) (argAt args 3) s
    have masks := rtuFdWriteMirrorConfig_masks (argAt args 0) (argAt args 1) (argAt args 2)
      (argAt args 3) inv.mirrorMasks
    refine ⟨?_, ?_, ?_, ?_, ?_⟩
    · intro vid low high
      rw [prio]
      exact (inv.vlans vid low high).frame (by rw [only.vlan]) (by rw [only.vlanTab])
    · rw [cfg, enable]
      rfl
    · rw [cfg]
      exact rtuEnableMirroring_bit _ _
    · rw [cfg]
      exact masks
    · intro p below
      rw [only.halNportsLocal] at below
      exact (inv.ports p below).frame only.portsCfg only.vcr0 only.vcr1
  · have enable : lastEnable (rs ++ [.mirror args]) = lastEnable rs := by
      rw [lastEnable_concat]
      exact if_neg accepted
    rw [rtudexpMirror_refused accepted]
    exact configInv_ports inv ⟨rfl, rfl, rfl, rfl, rfl, rfl, rfl, rfl⟩ inv.ports prio enable

private theorem configInv_step {rs : List ConfigRequest} {s : RtuState} (inv : ConfigInv rs s)
    (r : ConfigRequest) (inside : r.Inside) : ConfigInv (rs ++ [r]) (configStep s r) := by
  cases r with
  | vlanEntry args env => exact configInv_vlanEntry inv args env inside
  | mirror args => exact configInv_mirror inv args
  | portCfg args =>
    obtain ⟨only, ports⟩ := rtudexpPortCfg_ok args s
    exact configInv_ports inv only (fun p below => ports p (inv.ports p below))
      (fun vid => lastPrio_concat vid rs _) (lastEnable_concat rs _)
  | portCfgClearAll ret env =>
    obtain ⟨only, ports⟩ := rtuCleanPorts_ok env.epMac s
    exact configInv_ports inv only ports (fun vid => lastPrio_concat vid rs _)
      (lastEnable_concat rs _)

/-! ### Initial state -/

/-- `clean_vd` behind the cleaning of the hardware. -/
def cleanVlanTab (s : RtuState) : RtuState :=
  let s := { s with vlanTab := fun i =>
    if 1 ≤ i ∧ i < numVlans then { s.vlanTab i with drop := 1, portMask := 0x0 } else s.vlanTab i }
  { s with vlanTab := Function.update s.vlanTab 0 { s.vlanTab 0 with
    portMask := 0xffffffff, drop := 0, fid := 0, hasPrio := 0, prioOverride := 0, prio := 0 } }

/-- VLAN 0 is written after the table is cleaned. -/
theorem cleanVd_eq (s : RtuState) : cleanVd s =
    rtuWriteVlanEntry 0 ((cleanVlanTab (rtuCleanVlan s)).vlanTab 0)
      (cleanVlanTab (rtuCleanVlan s)) := rfl

private theorem cleanVlanTab_first (s : RtuState) : ((cleanVlanTab s).vlanTab 0).prio = 0 := rfl

private theorem cleanVlanTab_drop (s : RtuState) (vid : Int) (low : 1 ≤ vid)
    (high : vid < numVlans) :
    ((cleanVlanTab s).vlanTab vid).drop = 1 := by
  have other : vid ≠ 0 := by omega
  simp only [cleanVlanTab]
  rw [Function.update_of_ne other, if_pos ⟨low, high⟩]

private theorem cleanVd_vlan (s : RtuState) (vid : Int) (low : 0 ≤ vid) (high : vid < numVlans) :
    VlanInv (cleanVd s) vid (lastPrio vid []) := by
  have limit : numVlans = 4096 := rfl
  have first : (0 : Int) ≤ 0 ∧ (0 : Int) < numVlans := by omega
  have loop := cleanVlan_loop numVlans.toNat (by omega) s vid low (by omega)
  rw [← rtuCleanVlan] at loop
  rw [cleanVd_eq]
  generalize rtuCleanVlan s = s' at loop ⊢
  obtain ⟨memory, _⟩ := rtuWriteVlanEntry_only 0 ((cleanVlanTab s').vlanTab 0) (cleanVlanTab s')
  have vlan := rtuWriteVlanEntry_vlan 0 ((cleanVlanTab s').vlanTab 0) (cleanVlanTab s') first
  -- the entry for untagged packets is the one that is written behind the loop
  by_cases zero : vid = 0
  · subst zero
    refine ⟨?_, ?_⟩
    · rw [vlan, memory, Function.update_self]
    · rw [memory, cleanVlanTab_first]
  · have last : lastPrio vid [] = none := if_neg zero
    have apart : BitVec.ofInt 32 vid ≠ BitVec.ofInt 32 0 := fun same =>
      zero (ofInt_inj ⟨low, high⟩ first same)
    rw [last]
    refine ⟨?_, ?_⟩
    · rw [vlan, Function.update_of_ne apart]
      exact loop
    · rw [memory, cleanVlanTab_drop s' vid (by omega) high]

/-- Reading the aging bitmap leaves memory and configuration alone. -/
theorem rtuReadAgingBitmap_frame (s : RtuState) :
    (rtuReadAgingBitmap s).toSwState = s.toSwState ∧ (rtuReadAgingBitmap s).fpga = s.fpga := by
  rw [rtuReadAgingBitmap_eq]
  refine ⟨emitAll_toSwState _ _, ?_⟩
  rw [emitAll_fpga]
  generalize List.range (rtuEntries / 32) = words
  induction words with
  | nil => rfl
  | cons word words ih => exact ih

/-- After the start nothing is mirrored. -/
theorem cleanMc_mirror (s : RtuState) :
    OnlyMirror s (cleanMc s) ∧ (cleanMc s).mirrorCfg = ⟨0, 0, 0, 0⟩ ∧
      (cleanMc s).fpga.rxCtr &&& rtuRxCtrMrEna = 0 ∧ MaskWords (cleanMc s).fpga ⟨0, 0, 0, 0⟩ := by
  have enable : cleanMc s = rtuCfgMirroring ⟨0, 0, 0, 0⟩
      (rtuEnableMirroring 0 { s with mirrorCfg := ⟨0, 0, 0, 0⟩ }) := rfl
  have bit := rtuEnableMirroring_bit 0 { s with mirrorCfg := ⟨0, 0, 0, 0⟩ }
  obtain ⟨only, mirrorCfg⟩ := rtuCfgMirroring_only ⟨0, 0, 0, 0⟩ s
  rw [enable]
  generalize rtuEnableMirroring 0 { s with mirrorCfg := ⟨0, 0, 0, 0⟩ } = s' at bit only mirrorCfg ⊢
  obtain ⟨_, rxCtr, _⟩ := rtuCfgMirroring_frame ⟨0, 0, 0, 0⟩ s'
  -- with mirroring disabled every mask is written
  have masks := rtuCfgMirroring_masks ⟨0, 0, 0, 0⟩ s' (fun enabled => absurd rfl enabled)
    (fun enabled => absurd rfl enabled) fun enabled => absurd rfl enabled
  refine ⟨only, mirrorCfg, ?_, masks⟩
  rw [rxCtr]
  exact not_not.mp fun set => absurd (bit.mp set) (by decide)

private theorem configInv_init (poly : BitVec 16) (aging : Word) (epMac : Nat → Mac)
    (s : RtuState) :
    ConfigInv [] (rtuFdInit poly aging epMac s) := by
  rw [rtuFdInit]
  generalize cleanFd s = s₁
  have vlans := cleanVd_vlan { s₁ with vlanTab := fun i =>
    if 0 ≤ i ∧ i < numVlans then .zero else s₁.vlanTab i }
  generalize cleanVd { s₁ with vlanTab := fun i =>
    if 0 ≤ i ∧ i < numVlans then .zero else s₁.vlanTab i } = s₂ at vlans
  obtain ⟨mirror, cfg, bit, masks⟩ := cleanMc_mirror s₂
  generalize cleanMc s₂ = s₃ at mirror cfg bit masks ⊢
  obtain ⟨only, ports⟩ := rtuCleanPorts_ok epMac s₃
  generalize rtuCleanPorts epMac s₃ = s₄ at only ports ⊢
  obtain ⟨memory, fpga⟩ := rtuReadAgingBitmap_frame s₄
  generalize rtuReadAgingBitmap s₄ = s₅ at memory fpga ⊢
  -- the start clears the mirror, and the later steps leave it alone
  have cleared : s₅.mirrorCfg = ⟨0, 0, 0, 0⟩ := by
    rw [congrArg SwState.mirrorCfg memory, only.mirrorCfg, cfg]
  refine ⟨?_, ?_, ?_, ?_, ?_⟩
  · intro vid low high
    refine (vlans vid low high).frame ?_ ?_
    · rw [fpga, only.vlan, mirror.vlan]
    · dsimp only
      rw [congrArg SwState.vlanTab memory, only.vlanTab, mirror.vlanTab]
  · dsimp only
    rw [cleared]
    rfl
  · dsimp only
    rw [cleared, fpga, only.rxCtr, bit]
    decide
  · dsimp only
    rw [cleared, fpga]
    exact masks.frame only.rxMpMask
  · intro p below
    dsimp only at below
    rw [congrArg SwState.halNportsLocal memory, only.halNportsLocal] at below
    refine (ports p below).frame ?_ ?_ ?_
    · have kept := congrArg SwState.portsCfg memory
      exact kept
    · rw [fpga]
    · rw [fpga]

/-! ### Runs -/

private theorem configInv_run (poly : BitVec 16) (aging : Word) (epMac : Nat → Mac) (s : RtuState)
    (rs : List ConfigRequest) (inside : ∀ r ∈ rs, r.Inside) :
    ConfigInv rs (run configStep (rtuFdInit poly aging epMac s) rs) := by
  induction rs using List.reverseRecOn with
  | nil => exact configInv_init poly aging epMac s
  | append_singleton rs r ih =>
    rw [run_concat]
    exact configInv_step (ih fun r' member => inside r' (List.mem_append_left _ member)) r
      (inside r (by simp))

/-- The words of a VID describe its entry if the entry was written and its priority fits. -/
theorem vlanInv_words {s : RtuState} {vid : Int} {last : Option Byte} (inv : VlanInv s vid last)
    (inside : 0 ≤ vid ∧ vid < numVlans) :
    VlanWords (s.fpga.vlan (BitVec.ofInt 32 vid)) vid (s.vlanTab vid) ↔
      ∃ prio, last = some prio ∧ prio.toNat < 8 := by
  cases last with
  | some prio =>
    obtain ⟨words, same⟩ := inv
    rw [words, vlanWords_iff _ inside, same]
    simp
  | none =>
    obtain ⟨words, dropped⟩ := inv
    refine iff_of_false (fun describes => ?_) (by simp)
    -- the cleaning writes `VTR1` without the drop bit
    have set := describes.drop.mpr (by rw [dropped]; decide)
    rw [words, cleanVtr1_eq, vtr1Word_drop] at set
    exact set rfl

/-- After requests that stay within the tables, these describe the hardware exactly if the last
entry for every VID was requested (or is that of VID 0) with a priority of three bits, and the
last accepted `enable` of mirroring is 0 or 1. -/
theorem config_describes_iff (poly : BitVec 16) (aging : Word) (epMac : Nat → Mac) (s : RtuState)
    (rs : List ConfigRequest) (inside : ∀ r ∈ rs, r.Inside) :
    Describes (run configStep (rtuFdInit poly aging epMac s) rs) ↔
      (∀ vid : Int, 0 ≤ vid → vid < numVlans →
        ∃ prio, lastPrio vid rs = some prio ∧ prio.toNat < 8) ∧
      (lastEnable rs = 0 ∨ lastEnable rs = 1) := by
  have inv := configInv_run poly aging epMac s rs inside
  constructor
  · rintro ⟨vlans, enable, _, _⟩
    refine ⟨fun vid low high => ?_, ?_⟩
    · exact (vlanInv_words (inv.vlans vid low high) ⟨low, high⟩).mp (vlans vid low high)
    · rw [← inv.mirrorEn]
      by_cases zero : (run configStep (rtuFdInit poly aging epMac s) rs).mirrorCfg.en = 0
      · exact Or.inl zero
      · exact Or.inr (inv.mirrorBit.mp (enable.mpr zero))
  · rintro ⟨vlans, enable⟩
    -- the masks and the port registers are right after every list of requests
    refine ⟨?_, ?_, inv.mirrorMasks, fun p below => (inv.ports p below).words⟩
    · intro vid low high
      exact (vlanInv_words (inv.vlans vid low high) ⟨low, high⟩).mpr (vlans vid low high)
    · rw [inv.mirrorBit, inv.mirrorEn]
      rcases enable with zero | one
      · rw [zero]
        decide
      · rw [one]
        decide

/-- Priority 2 and `enable` 1 for VLAN 1 and mirroring; the other VLANs are not requested. -/
theorem config_describes_requests :
    let env : RtudEnv := ⟨0, (0, 0), fun _ => ⟨0, 0, 0, 0, 0, 0⟩⟩
    let rs := [ConfigRequest.vlanEntry (wordArgs [1, 0, 3, 0, 2, 1, 0]) env,
      .mirror (wordArgs [1, 1, 2, 4]), .portCfg (wordArgs [17, 7, 0, 0, 3, 1, 1])]
    Describes (run configStep (rtuFdInit 0x1021 300 env.epMac firstStartState) rs) ↔
      (∀ vid : Int, 0 ≤ vid → vid < numVlans →
        ∃ prio, lastPrio vid rs = some prio ∧ prio.toNat < 8) ∧
      (lastEnable rs = 0 ∨ lastEnable rs = 1) := by
  intro env rs
  refine config_describes_iff 0x1021 300 env.epMac firstStartState rs ?_
  simp only [rs, List.forall_mem_cons, ConfigRequest.Inside]
  exact ⟨by decide, trivial, by decide, by simp⟩

private theorem firstVlan_differs {s : RtuState} (inv : ConfigInv [] s) :
    ¬Describes s ∧ (s.vlanTab 1).drop = 1 ∧ (s.fpga.vlan 1).1 &&& rtuVtr1Drop = 0 := by
  have inside : (0 : Int) ≤ 1 ∧ (1 : Int) < numVlans := by decide
  have clean : VlanInv s 1 none := inv.vlans 1 inside.1 inside.2
  refine ⟨fun describes => ?_, clean.2, ?_⟩
  · obtain ⟨prio, written, _⟩ := (vlanInv_words clean inside).mp
      (describes.vlans 1 inside.1 inside.2)
    exact absurd written (by simp)
  · have words : s.fpga.vlan 1 = (cleanVtr1 1, 0) := clean.1
    rw [words]
    decide

/-- Before any request VLAN 1 drops its frames by the table and does not by the hardware. -/
theorem config_differs_after_init :
    let s := rtuFdInit 0x1021 300 (fun _ => ⟨0, 0, 0, 0, 0, 0⟩) firstStartState
    ¬Describes (run configStep s []) ∧ (s.vlanTab 1).drop = 1 ∧
      (s.fpga.vlan 1).1 &&& rtuVtr1Drop = 0 := by
  intro s
  rw [run_nil]
  exact firstVlan_differs (configInv_init _ _ _ _)

/-! ### Together with the filtering database -/

/-- What the daemon does between two starts. -/
inductive RtudOp
  | fd (op : FdOp)
  | config (r : ConfigRequest) (inside : r.Inside)

def rtudStep (s : RtuState) : RtudOp → RtuState
  | .fd op => fdStep s op
  | .config r _ => configStep s r

/-- A request of the configuration leaves the filtering database alone. -/
theorem configStep_database (s : RtuState) (r : ConfigRequest) (inside : r.Inside) :
    (configStep s r).rtuHtab = s.rtuHtab ∧ (configStep s r).hwReqList = s.hwReqList := by
  cases r with
  | vlanEntry args env =>
    obtain ⟨_, _, only⟩ := rtudexpVlanEntry_vlan args env s inside
    exact ⟨only.rtuHtab, only.hwReqList⟩
  | mirror args =>
    rw [configStep]
    by_cases accepted : MirrorAccepted args
    · rw [rtudexpMirror_accepted accepted]
      obtain ⟨only, _⟩ := rtuFdWriteMirrorConfig_only (argAt args 0) (argAt args 1)
        (argAt args 2) (argAt args 3) s
      exact ⟨only.rtuHtab, only.hwReqList⟩
    · rw [rtudexpMirror_refused accepted]
      exact ⟨rfl, rfl⟩
  | portCfg args =>
    obtain ⟨only, _⟩ := rtudexpPortCfg_ok args s
    exact ⟨only.rtuHtab, only.hwReqList⟩
  | portCfgClearAll ret env =>
    obtain ⟨only, _⟩ := rtuCleanPorts_ok env.epMac s
    exact ⟨only.rtuHtab, only.hwReqList⟩

private theorem writeCleaned_database {s s' : RtuState} (memory : s'.toSwState = s.toSwState) :
    (rtuWriteVlanEntry 0 ((cleanVlanTab s').vlanTab 0) (cleanVlanTab s')).rtuHtab = s.rtuHtab ∧
      (rtuWriteVlanEntry 0 ((cleanVlanTab s').vlanTab 0) (cleanVlanTab s')).hwReqList =
        s.hwReqList := by
  obtain ⟨_, only⟩ := rtuWriteVlanEntry_only 0 ((cleanVlanTab s').vlanTab 0) (cleanVlanTab s')
  have htab : s'.rtuHtab = s.rtuHtab := congrArg SwState.rtuHtab memory
  have reqs : s'.hwReqList = s.hwReqList := congrArg SwState.hwReqList memory
  exact ⟨only.rtuHtab.trans htab, only.hwReqList.trans reqs⟩

private theorem cleanVd_database (s : RtuState) :
    (cleanVd s).rtuHtab = s.rtuHtab ∧ (cleanVd s).hwReqList = s.hwReqList := by
  have cleaned := cleanVd_eq s
  have memory := cleanVlan_toSwState s
  generalize rtuCleanVlan s = s' at cleaned memory
  rw [cleaned]
  exact writeCleaned_database memory

private theorem cleanVd_fresh_database (s : RtuState) (tab : Int → RtuVlanTableEntry) :
    (cleanVd { s with vlanTab := tab }).rtuHtab = s.rtuHtab ∧
      (cleanVd { s with vlanTab := tab }).hwReqList = s.hwReqList :=
  cleanVd_database { s with vlanTab := tab }

/-- After the start the filtering database is empty. -/
theorem rtuFdInit_database (poly : BitVec 16) (aging : Word) (epMac : Nat → Mac) (s : RtuState) :
    (rtuFdInit poly aging epMac s).rtuHtab = (fun _ _ => .zero) ∧
      (rtuFdInit poly aging epMac s).hwReqList = s.hwReqList := by
  have empty : (cleanFd s).rtuHtab = fun _ _ => .zero := by rw [cleanFd_toSwState]
  have kept : (cleanFd s).hwReqList = s.hwReqList := by rw [cleanFd_toSwState]
  -- the aging time and the polynomial are not part of the table
  have timed (s' : RtuState) (htab : s'.rtuHtab = fun _ _ => .zero)
      (reqs : s'.hwReqList = s.hwReqList) :
      ({ s' with agingTime := aging, hashPoly := rtuHashSetPoly poly } : RtuState).rtuHtab =
          (fun _ _ => .zero) ∧
        ({ s' with agingTime := aging, hashPoly := rtuHashSetPoly poly } : RtuState).hwReqList =
          s.hwReqList := ⟨htab, reqs⟩
  rw [rtuFdInit]
  generalize cleanFd s = s₁ at empty kept
  obtain ⟨htab, reqs⟩ := cleanVd_fresh_database s₁ fun i =>
    if 0 ≤ i ∧ i < numVlans then .zero else s₁.vlanTab i
  generalize cleanVd { s₁ with vlanTab := fun i =>
    if 0 ≤ i ∧ i < numVlans then .zero else s₁.vlanTab i } = s₂ at htab reqs
  obtain ⟨mirror, _⟩ := cleanMc_mirror s₂
  generalize cleanMc s₂ = s₃ at mirror ⊢
  obtain ⟨only, _⟩ := rtuCleanPorts_ok epMac s₃
  generalize rtuCleanPorts epMac s₃ = s₄ at only ⊢
  obtain ⟨memory, _⟩ := rtuReadAgingBitmap_frame s₄
  refine timed (rtuReadAgingBitmap s₄) ?_ ?_
  · rw [congrArg SwState.rtuHtab memory, only.rtuHtab, mirror.rtuHtab, htab, empty]
  · rw [congrArg SwState.hwReqList memory, only.hwReqList, mirror.hwReqList, reqs, kept]

/-- Between its operations the daemon has no request waiting, and its table is packed. -/
theorem rtud_packed (poly : BitVec 16) (aging : Word) (epMac : Nat → Mac) (s₀ : RtuState)
    (ops : List RtudOp) (idle : s₀.hwReqList = []) :
    (run rtudStep (rtuFdInit poly aging epMac s₀) ops).hwReqList = [] ∧
      Packed (run rtudStep (rtuFdInit poly aging epMac s₀) ops).rtuHtab := by
  refine run_preserves (fun s => s.hwReqList = [] ∧ Packed s.rtuHtab) rtudStep ?_ _ ops ?_
  · rintro s op ⟨waiting, packed⟩
    cases op with
    | fd op =>
      simp only [rtudStep, fdStep_toSwState s op waiting]
      exact ⟨waiting, packed.step op⟩
    | config r inside =>
      obtain ⟨htab, reqs⟩ := configStep_database s r inside
      simp only [rtudStep, htab, reqs]
      exact ⟨waiting, packed⟩
  · obtain ⟨htab, reqs⟩ := rtuFdInit_database poly aging epMac s₀
    exact ⟨reqs.trans idle, by rw [htab]; exact packed_zero⟩

end WrSwitch.Rtu
